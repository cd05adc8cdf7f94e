import Mathlib
import Views.Config.Load
import Views.Proofs.Config.Overlay
import Views.Proofs.Yaml.Written

/-!
# Decoding configurations

A document that gives some options of a configuration, among unknown keys and in any order, is
decoded to these options and the defaults of the others (`Config.decode_excerpt`), whether it is a
value or a text in YAML. The texts that `Yaml.write` gives are such texts, so a configuration that
is written is read back (`Config.ofYaml?_write`). A text is read only if its collections are nested
at most `Config.maxLevels` deep (`Config.decode_nested`).
-/

set_option autoImplicit false

namespace Views

namespace Config

/-- The parts of a YAML document are read as the values that they show. -/
theorem yamlForm_reads (d : Yaml.Document) :
    (yamlForm d).Reads fun part v => Yaml.Shows part.levels part.node v where
  text := Yaml.textOf_shown
  optionalText := Yaml.optionalTextOf_shown
  nothing := Yaml.optionalTextOf_null
  flag := Yaml.flagOf_shown
  fields := Yaml.fieldsOf_shown
  parts := Yaml.partsOf_shown

theorem ofYaml?_eq {text : String} {d : Yaml.Document} {root : Yaml.Node}
    (hd : Yaml.Document.read? text = some d) (hroot : d.root = some root) :
    ofYaml? text =
      ((decodeWith (yamlForm d) ⟨maxLevels, root⟩).run (100 * d.size)).map Prod.fst := by
  simp only [ofYaml?, hd, hroot, Option.bind_eq_bind, Option.bind_some, Option.map_eq_bind]
  rfl

theorem ofYaml?_excerpt {c : Config} {kept inner : List String} {doc : Value} {text : String}
    (he : c.Excerpt kept inner doc) (ht : Yaml.Describes maxLevels text doc) :
    ofYaml? text = some (c.keep kept inner) := by
  obtain ⟨d, root, hd, hroot, hshown⟩ := ht
  have hdecode : decodeWith (yamlForm d) ⟨maxLevels, root⟩ = pure (c.keep kept inner) :=
    decodeWith_excerpt (yamlForm_reads d) hshown he
  rw [ofYaml?_eq hd hroot, hdecode]
  rfl

/-- **Decoding overlays the options that a document gives on the defaults.** The document may have
unknown keys, and its entries may stand in any order; it is a value, or a text whose collections are
not nested too deep. What gives all options is decoded to the configuration itself. -/
theorem decode_excerpt (c : Config) :
    (∀ (kept inner : List String) (doc : Value), c.Excerpt kept inner doc →
      decode doc = some (c.keep kept inner) ∧
        ∀ text, Yaml.Describes maxLevels text doc → ofYaml? text = some (c.keep kept inner)) ∧
      decode c.encode = some c ∧
        ∀ text, Yaml.Describes maxLevels text c.encode → ofYaml? text = some c := by
  have hvalue {kept inner : List String} {doc : Value} (h : c.Excerpt kept inner doc) :
      decode doc = some (c.keep kept inner) := decodeWith_excerpt valueForm_reads rfl h
  have hall := c.excerpt_encode
  refine ⟨fun kept inner doc h => ⟨hvalue h, fun text ht => ofYaml?_excerpt h ht⟩, ?_, ?_⟩
  · rw [hvalue hall, keep_keys]
  · intro text ht
    rw [ofYaml?_excerpt hall ht, keep_keys]

/-- A configuration can be written if its variables and the data of its templates can. -/
theorem fits_encode {c : Config} {numeral : Number → String} {n : Nat}
    (hlocals : Yaml.Fits numeral (n + 1) (.object c.locals))
    (hdata : Yaml.Fits numeral n (.object c.templateOptions.data)) :
    Yaml.Fits numeral (n + 2) c.encode := by
  have htext (s : Option String) : Yaml.Fits numeral (n + 1) (encodeOptional s) := by
    cases s with
    | none => exact .null
    | some s => exact .string s
  have hoptions : Yaml.Fits numeral (n + 1) c.templateOptions.encode := by
    rw [TemplateOptions.encode_eq]
    refine .object c.templateOptions.ordered_encode fun field hfield => ?_
    simp only [TemplateOptions.fields_encode, List.mem_cons, List.not_mem_nil, or_false] at hfield
    rcases hfield with rfl | rfl | rfl
    exacts [hdata, .bool _, .bool _]
  rw [encode_eq]
  refine .object c.ordered_encode fun field hfield => ?_
  simp only [fields_encode, List.mem_cons, List.not_mem_nil, or_false] at hfield
  rcases hfield with rfl | rfl | rfl | rfl | rfl | rfl | rfl | rfl | rfl | rfl | rfl | rfl
  exacts [.string _, .string _, htext _, .bool _, .string _, .string _, .string _, hlocals, htext _,
    .string _, hoptions, .string _]

/-- **A configuration that is written to YAML is read back**, and any document that gives some of
its options is read as these and the defaults of the others. -/
theorem ofYaml?_write (c : Config) (numeral : Number → String) :
    (∀ (kept inner : List String) (doc : Value), c.Excerpt kept inner doc →
      Yaml.Fits numeral maxLevels doc →
        ofYaml? (Yaml.write numeral doc) = some (c.keep kept inner)) ∧
      (Yaml.Fits numeral (maxLevels - 1) (.object c.locals) →
        Yaml.Fits numeral (maxLevels - 2) (.object c.templateOptions.data) →
          ofYaml? (Yaml.write numeral c.encode) = some c) := by
  refine ⟨fun kept inner doc he hdoc => ofYaml?_excerpt he (Yaml.describes_write hdoc),
    fun hlocals hdata => ?_⟩
  have hwritten := Yaml.describes_write (fits_encode hlocals hdata)
  rw [ofYaml?_excerpt c.excerpt_encode hwritten, keep_keys]

set_option maxRecDepth 4000 in
/-- Two options, with unknown keys beside and inside of them. -/
theorem decode_excerpt_unordered :
    let c : Config :=
      { viewPath := "v", extname := ".html",
        templateOptions := { strictMode := true, noEscape := true } }
    let doc : Value := .object
      [("template-options", .object [("strict-mode", .bool true), ("y", .string "")]),
        ("view-path", .string "v"), ("x", .string "")]
    let text := "view-path: 'v'\nx: ''\ntemplate-options: \x7by: '', strict-mode: true\x7d"
    c.Excerpt ["view-path", "template-options"] ["strict-mode"] doc ∧
      Yaml.Describes maxLevels text doc ∧
      ofYaml? text = some { viewPath := "v", templateOptions := { strictMode := true } } := by
  intro c doc text
  have he : c.Excerpt ["view-path", "template-options"] ["strict-mode"] doc := by
    refine ⟨[("strict-mode", .bool true), ("y", .string "")], _,
      ⟨[("y", .string "")], by decide, ?_⟩, ⟨[("x", .string "")], by decide, ?_⟩, rfl⟩
    · rw [TemplateOptions.fields_encode]
      exact .refl _
    · rw [fields_encode_insert]
      exact .refl _
  have ht : Yaml.Describes maxLevels text doc := by
    let plain (text : String) : Yaml.Node := .scalar none text .plain
    let quoted (text : String) : Yaml.Node := .scalar none text .quoted
    have hd : Yaml.Document.read?
        "view-path: 'v'\nx: ''\ntemplate-options: \x7by: '', strict-mode: true\x7d" =
      some ⟨some (.mapping none
        [(plain "view-path", quoted "v"), (plain "x", quoted ""), (plain "template-options",
          .mapping none [(plain "y", quoted ""), (plain "strict-mode", plain "true")])]), [], 13⟩ :=
      by cbv
    have hdoc : doc = .object (Table.ofList
        [("view-path", .string "v"), ("x", .string ""), ("template-options",
          .object (Table.ofList [("y", .string ""), ("strict-mode", .bool true)]))]) := by
      simp only [doc, Table.ofList, Table.union, List.foldl_cons, List.foldl_nil, Table.insert,
        String.reduceEq, String.reduceLT, ↓reduceIte]
    have hkey (text : String) : Yaml.IsKey (plain text) text := ⟨_, _, rfl⟩
    have htext (n : Nat) (text : String) : Yaml.Shows n (quoted text) (.string text) :=
      Yaml.ScalarShows.shows (.quoted (by decide)) n
    have hflag (n : Nat) : Yaml.Shows n (plain "true") (.bool true) :=
      Yaml.ScalarShows.shows (.flag (by decide)) n
    rw [hdoc]
    exact ⟨_, _, hd, rfl, Yaml.Shown.mapping (.cons ⟨hkey _, htext _ _⟩ (.cons ⟨hkey _, htext _ _⟩
      (.cons ⟨hkey _, Yaml.Shown.mapping (.cons ⟨hkey _, htext _ _⟩ (.cons ⟨hkey _, hflag _⟩ .nil))
        (by decide)⟩ .nil))) (by decide)⟩
  exact ⟨he, ht, ((decode_excerpt c).1 _ _ _ he).2 text ht⟩

/-! ## Lists that are nested too deep -/

/-- Lists inside of each other, `n` of them around an empty one. -/
def nestedLists : Nat → Value
  | 0 => .array []
  | n + 1 => .array [nestedLists n]

/-- The nodes of such lists. -/
def nestedNodes : Nat → Yaml.Node
  | 0 => .sequence none []
  | n + 1 => .sequence none [nestedNodes n]

/-- A local variable with such lists, each but the innermost one written with a dash. -/
def nestedText (n : Nat) : List Char :=
  "\"locals\":\n  \"a\":\n  ".toList ++ (List.replicate n ['-', ' ']).flatten ++ "[]".toList

/-- Whether a node is that of lists inside of each other. -/
def isNested : Nat → Yaml.Node → Bool
  | 0, .sequence none [] => true
  | n + 1, .sequence none [node] => isNested n node
  | _, _ => false

/-- Whether a document is that of a local variable with such lists. -/
def isNestedVariable (n : Nat) : Option Yaml.Document → Bool
  | some ⟨some (.mapping none [(.scalar none "locals" _,
      .mapping none [(.scalar none "a" _, node)])]), _, _⟩ => isNested n node
  | _ => false

theorem eq_of_isNested {n : Nat} {node : Yaml.Node} (h : isNested n node = true) :
    node = nestedNodes n := by
  fun_induction isNested n node with
  | case1 => rfl
  | case2 n node ih => rw [nestedNodes, ih h]
  | case3 => cases h

theorem exists_of_isNestedVariable {n : Nat} {d? : Option Yaml.Document}
    (h : isNestedVariable n d? = true) :
    ∃ d style style', d? = some d ∧ d.root = some (.mapping none [(.scalar none "locals" style,
      .mapping none [(.scalar none "a" style', nestedNodes n)])]) := by
  unfold isNestedVariable at h
  split at h
  · exact ⟨_, _, _, rfl, by rw [eq_of_isNested h]⟩
  · cases h

theorem shows_nested (n : Nat) : Yaml.Shows (n + 1) (nestedNodes n) (nestedLists n) := by
  induction n with
  | zero => exact .sequence .nil
  | succ n ih => exact .sequence (.cons ih .nil)

theorem failure_bind {α β : Type} (f : α → Yaml.Decoding β) :
    (failure : Yaml.Decoding α) >>= f = failure := rfl

/-- Lists in which too few levels may be opened are not read. -/
theorem valueOf_nested (d : Yaml.Document) {k n : Nat} (h : k ≤ n) :
    Yaml.valueOf d k (nestedNodes n) = failure := by
  induction k generalizing n with
  | zero => cases n <;> rfl
  | succ k ih =>
    obtain ⟨n, rfl⟩ : ∃ m, n = m + 1 := ⟨n - 1, by omega⟩
    have hitems : [nestedNodes n].mapM (Yaml.valueOf d k) = failure := by
      rw [List.mapM_cons, ih (Nat.le_of_succ_le_succ h), failure_bind]
    rw [nestedNodes, Yaml.valueOf]
    exact (congrArg (· >>= fun vs => pure (Value.array vs)) hitems).trans (failure_bind _)

theorem fieldsOf_nested (d : Yaml.Document) {k n : Nat} (key : String) (style : Yaml.Style)
    (h : k ≤ n) :
    Yaml.fieldsOf d ⟨k + 1, .mapping none [(.scalar none key style, nestedNodes n)]⟩ = failure := by
  have hpairs : Yaml.pairsOf d ⟨k + 1, .mapping none [(.scalar none key style, nestedNodes n)]⟩ =
      pure (k, [(.scalar none key style, nestedNodes n)]) := rfl
  simp only [Yaml.fieldsOf, hpairs, pure_bind, List.mapM_cons, valueOf_nested d h,
    Yaml.textOf_key d ⟨none, style, rfl⟩, failure_bind]

theorem decodeWith_nested (d : Yaml.Document) {k n : Nat} (style style' : Yaml.Style) (h : k ≤ n) :
    decodeWith (yamlForm d) ⟨k + 2, .mapping none [(.scalar none "locals" style,
      .mapping none [(.scalar none "a" style', nestedNodes n)])]⟩ = failure := by
  have hparts : (yamlForm d).parts keys ⟨k + 2, .mapping none [(.scalar none "locals" style,
      .mapping none [(.scalar none "a" style', nestedNodes n)])]⟩ =
      pure [("locals", ⟨k + 1, .mapping none [(.scalar none "a" style', nestedNodes n)]⟩)] := rfl
  have hfields : (yamlForm d).fields ⟨k + 1, .mapping none [(.scalar none "a" style',
      nestedNodes n)]⟩ = failure := fieldsOf_nested d "a" style' h
  rw [decodeWith, hparts, pure_bind, List.foldlM_cons]
  simp [overlay, hfields]

/-- **A text in which a local variable is nested too deep is not read**, although it gives only
options of a configuration. -/
theorem decode_nested :
    let c : Config := { locals := [("a", nestedLists 126)] }
    let doc : Value := .object [("locals", .object c.locals)]
    let text := String.ofList (nestedText 126)
    c.Excerpt ["locals"] [] doc ∧ Yaml.Describes 129 text doc ∧ ofYaml? text = none := by
  intro c doc text
  have he : c.Excerpt ["locals"] [] doc := by
    refine ⟨[], _, ⟨[], by decide, ?_⟩, ⟨[], by decide, ?_⟩, rfl⟩
    · rw [TemplateOptions.fields_encode]
      exact .refl _
    · rw [fields_encode_insert]
      exact .refl _
  have hread : isNestedVariable 126 (Yaml.Document.read? text) = true := by
    simp only [text, Yaml.Document.read?, Yaml.tokens?, String.toList_ofList]
    decide +kernel
  obtain ⟨d, style, style', hd, hroot⟩ := exists_of_isNestedVariable hread
  refine ⟨he, ⟨d, _, hd, hroot, (shows_nested 126).mapping.mapping⟩, ?_⟩
  rw [ofYaml?_eq hd hroot]
  exact congrArg (fun decoding => (decoding.run (100 * d.size)).map Prod.fst)
    (decodeWith_nested d style style' (k := 126) (Nat.le_refl _))

end Config

end Views
