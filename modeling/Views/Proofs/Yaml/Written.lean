import Views.Proofs.Yaml.Scanning

/-!
# Writing values

`write` puts a value down as one line: scalars as bare words or in double quotes, collections in
brackets, each key of a mapping behind a mark of its own. What is written can be read
(`describes_write`): the text has the tokens of the value (`tokens?_write`), and these are the
tokens of one node (`ofTokens?_tokensOf`).
-/

set_option autoImplicit false

namespace Views.Yaml

/-! ## Texts, tokens and nodes of values -/

/-- What stands in front of an entry that is not the first one. -/
def separator (first : Bool) : List Char := if first then [] else [',', ' ']

mutual

/-- The text of a value; `numeral` writes numbers. -/
def charsOf (numeral : Number → String) : Value → List Char
  | .null => "null".toList
  | .bool b => (if b then "true" else "false").toList
  | .number m => (numeral m).toList
  | .string text => inQuotes text
  | .array items => '[' :: (itemChars numeral true items ++ [']'])
  | .object fields => '{' :: (fieldChars numeral true fields ++ ['}'])

/-- The text of the items of a list. -/
def itemChars (numeral : Number → String) (first : Bool) : List Value → List Char
  | [] => []
  | v :: items => separator first ++ (charsOf numeral v ++ itemChars numeral false items)

/-- The text of the fields of an object. -/
def fieldChars (numeral : Number → String) (first : Bool) : List (String × Value) → List Char
  | [] => []
  | (key, v) :: fields =>
    separator first ++ ('?' :: ' ' :: (inQuotes key ++
      (':' :: ' ' :: (charsOf numeral v ++ fieldChars numeral false fields))))

end

/-- A value as a document of one line. -/
def write (numeral : Number → String) (v : Value) : String := String.ofList (charsOf numeral v)

/-- The token in front of an entry that is not the first one. -/
def separation (first : Bool) : List Token := if first then [] else [.flowEntry]

mutual

/-- The tokens of a value. -/
def tokensOf (numeral : Number → String) : Value → List Token
  | .null => [.scalar "null" .plain]
  | .bool b => [.scalar (if b then "true" else "false") .plain]
  | .number m => [.scalar (numeral m) .plain]
  | .string text => [.scalar text .quoted]
  | .array items => .flowSequenceStart :: (itemTokens numeral true items ++ [.flowSequenceEnd])
  | .object fields => .flowMappingStart :: (fieldTokens numeral true fields ++ [.flowMappingEnd])

/-- The tokens of the items of a list. -/
def itemTokens (numeral : Number → String) (first : Bool) : List Value → List Token
  | [] => []
  | v :: items => separation first ++ (tokensOf numeral v ++ itemTokens numeral false items)

/-- The tokens of the fields of an object. -/
def fieldTokens (numeral : Number → String) (first : Bool) : List (String × Value) → List Token
  | [] => []
  | (key, v) :: fields =>
    separation first ++ (.key :: .scalar key .quoted :: .value ::
      (tokensOf numeral v ++ fieldTokens numeral false fields))

end

mutual

/-- The node of a value. -/
def nodeOf (numeral : Number → String) : Value → Node
  | .null => .scalar none "null" .plain
  | .bool b => .scalar none (if b then "true" else "false") .plain
  | .number m => .scalar none (numeral m) .plain
  | .string text => .scalar none text .quoted
  | .array items => .sequence none (itemNodes numeral items)
  | .object fields => .mapping none (fieldNodes numeral fields)

/-- The nodes of the items of a list. -/
def itemNodes (numeral : Number → String) : List Value → List Node
  | [] => []
  | v :: items => nodeOf numeral v :: itemNodes numeral items

/-- The nodes of the fields of an object. -/
def fieldNodes (numeral : Number → String) : List (String × Value) → List (Node × Node)
  | [] => []
  | (key, v) :: fields =>
    (.scalar none key .quoted, nodeOf numeral v) :: fieldNodes numeral fields

end

/-- A value can be written: its collections are nested at most `n` deep, its objects are in order,
and its numbers are bare words that denote them. -/
inductive Fits (numeral : Number → String) : Nat → Value → Prop
  | null {n : Nat} : Fits numeral n .null
  | bool {n : Nat} (b : Bool) : Fits numeral n (.bool b)
  | number {n : Nat} {m : Number} (hword : IsBare (numeral m).toList)
    (h : plainValue? (numeral m) = some (.number m)) : Fits numeral n (.number m)
  | string {n : Nat} (text : String) : Fits numeral n (.string text)
  | array {n : Nat} {items : List Value} (h : ∀ v ∈ items, Fits numeral n v) :
    Fits numeral (n + 1) (.array items)
  | object {n : Nat} {fields : Fields} (hordered : fields.Ordered)
    (h : ∀ field ∈ fields, Fits numeral n field.2) : Fits numeral (n + 1) (.object fields)

section

variable {numeral : Number → String}

/-! ## From texts to tokens -/

open Scan

theorem isBare_null : IsBare "null".toList :=
  ⟨List.all_eq_true.1 (by decide), .inl ⟨_, _, rfl, by decide⟩⟩

theorem isBare_bool (b : Bool) : IsBare (if b then "true" else "false").toList := by
  cases b <;> exact ⟨List.all_eq_true.1 (by decide), .inl ⟨_, _, rfl, by decide⟩⟩

/-- What separates an entry from the one before is read, up to spaces in front of the entry. -/
theorem Scan.Stands.separated {depth : Nat} {first : Bool} {rest : List Char} {s : Scan}
    (h : Stands (depth + 1) (separator first ++ rest) s) :
    ∃ lead s', Passes (separation first) s s' ∧ Stands (depth + 1) (lead ++ rest) s' ∧
      ∀ c ∈ lead, c = ' ' := by
  cases first with
  | true => exact ⟨[], s, .refl s, h, nofun⟩
  | false =>
    obtain ⟨s', hs', hstands⟩ := Stands.comma h
    exact ⟨[' '], s', hs', hstands, fun c hc => List.mem_singleton.1 hc⟩

/-- The entries behind another one, and the end of their brackets, end what is in front of them. -/
theorem ends_entries {close : Char} {rest : List Char} (hclose : isFlowMark close = true) :
    (∀ items, Ends true (itemChars numeral false items ++ close :: rest)) ∧
      ∀ fields, Ends true (fieldChars numeral false fields ++ close :: rest) := by
  constructor <;> intro entries x hx <;> cases entries with
  | nil =>
    obtain rfl : close = x := Option.some.inj hx
    exact ⟨rfl, hclose⟩
  | cons _ _ =>
    obtain rfl : ',' = x := Option.some.inj hx
    exact ⟨rfl, rfl⟩

mutual

/-- **The text of a value is read as its tokens.** -/
theorem Scan.Stands.value (v : Value) {depth n : Nat} (lead : List Char) {rest : List Char}
    {s : Scan} (hfits : Fits numeral n v) (h : Stands depth (lead ++ (charsOf numeral v ++ rest)) s)
    (hlead : ∀ c ∈ lead, c = ' ') (hrest : Ends (decide (0 < depth)) rest) :
    ∃ s', Passes (tokensOf numeral v) s s' ∧ Stands depth rest s' := by
  cases v with
  | null => exact h.bare lead hlead isBare_null hrest
  | bool b => exact h.bare lead hlead (isBare_bool b) hrest
  | number m =>
    cases hfits with
    | number hword _ => exact h.bare lead hlead hword hrest
  | string text =>
    obtain ⟨s', hs', hstands, -⟩ := h.quoted lead hlead
    exact ⟨s', hs', hstands⟩
  | array items =>
    cases hfits with
    | array hitems =>
      rw [charsOf, List.cons_append, List.append_assoc, List.singleton_append] at h
      obtain ⟨s₁, h₁, hopened⟩ := h.opens lead hlead (.inl ⟨rfl, rfl⟩)
      obtain ⟨s₂, h₂, hread⟩ := Scan.Stands.items items true hitems hopened
      obtain ⟨s₃, h₃, hclosed⟩ := hread.closes (.inl ⟨rfl, rfl⟩)
      exact ⟨s₃, h₁.trans (h₂.trans h₃), hclosed⟩
  | object fields =>
    cases hfits with
    | object _ hfields =>
      rw [charsOf, List.cons_append, List.append_assoc, List.singleton_append] at h
      obtain ⟨s₁, h₁, hopened⟩ := h.opens lead hlead (.inr ⟨rfl, rfl⟩)
      obtain ⟨s₂, h₂, hread⟩ := Scan.Stands.fields fields true hfields hopened
      obtain ⟨s₃, h₃, hclosed⟩ := hread.closes (.inr ⟨rfl, rfl⟩)
      exact ⟨s₃, h₁.trans (h₂.trans h₃), hclosed⟩

theorem Scan.Stands.items (items : List Value) {depth n : Nat} (first : Bool) {rest : List Char}
    {s : Scan} (hfits : ∀ v ∈ items, Fits numeral n v)
    (h : Stands (depth + 1) (itemChars numeral first items ++ ']' :: rest) s) :
    ∃ s', Passes (itemTokens numeral first items) s s' ∧ Stands (depth + 1) (']' :: rest) s' := by
  cases items with
  | nil => exact ⟨s, .refl s, h⟩
  | cons v items =>
    rw [itemChars, List.append_assoc, List.append_assoc] at h
    obtain ⟨lead, s₁, h₁, hready, hlead⟩ := h.separated
    obtain ⟨s₂, h₂, hread⟩ := Scan.Stands.value v lead (hfits v List.mem_cons_self) hready
      hlead ((ends_entries rfl).1 items)
    obtain ⟨s₃, h₃, hdone⟩ := Scan.Stands.items items false
      (fun w hw => hfits w (List.mem_cons_of_mem _ hw)) hread
    exact ⟨s₃, h₁.trans (h₂.trans h₃), hdone⟩

theorem Scan.Stands.fields (fields : List (String × Value)) {depth n : Nat} (first : Bool)
    {rest : List Char} {s : Scan} (hfits : ∀ field ∈ fields, Fits numeral n field.2)
    (h : Stands (depth + 1) (fieldChars numeral first fields ++ '}' :: rest) s) :
    ∃ s', Passes (fieldTokens numeral first fields) s s' ∧ Stands (depth + 1) ('}' :: rest) s' := by
  cases fields with
  | nil => exact ⟨s, .refl s, h⟩
  | cons field fields =>
    obtain ⟨key, v⟩ := field
    rw [fieldChars, List.append_assoc] at h
    simp only [List.cons_append, List.append_assoc] at h
    obtain ⟨lead, s₁, h₁, hready, hlead⟩ := h.separated
    obtain ⟨s₂, h₂, hkey, hallowed, hnone⟩ := hready.question lead hlead
    obtain ⟨s₃, h₃, hcolon, hfree⟩ := Stands.quoted [' '] hkey (by simp)
    -- The key was not remembered as one, so the colon puts no mark in front of it again.
    obtain ⟨s₄, h₄, hvalue⟩ := hcolon.colon (hfree hallowed hnone)
    obtain ⟨s₅, h₅, hread⟩ := Scan.Stands.value v [' ']
      (hfits (key, v) List.mem_cons_self) hvalue (by simp) ((ends_entries rfl).2 fields)
    obtain ⟨s₆, h₆, hdone⟩ := Scan.Stands.fields fields false
      (fun w hw => hfits w (List.mem_cons_of_mem _ hw)) hread
    exact ⟨s₆, h₁.trans (h₂.trans (h₃.trans (h₄.trans (h₅.trans h₆)))), hdone⟩

end

/-! ### Allowed characters -/

theorem isAllowed_of_isVisible {c : Char} (h : isVisible c = true) : isAllowed c = true := by
  simp only [isVisible, isAllowed, Bool.and_eq_true, decide_eq_true_eq, Bool.or_eq_true] at h ⊢
  omega

theorem isAllowed_of_isBare {c : Char} (h : isBare c = true) : isAllowed c = true := by
  rcases isBare_cases h with h | rfl | rfl | rfl
  · exact Ascii.forall_alphanum (p := fun c => isAllowed c = true) (by decide +kernel) h
  all_goals decide

theorem isAllowed_separator (first : Bool) : ∀ c ∈ separator first, isAllowed c = true := by
  cases first <;> exact List.all_eq_true.1 (by decide)

theorem isAllowed_inQuotes {text : String} {c : Char} (h : c ∈ inQuotes text) :
    isAllowed c = true := by
  have hdigit : ∀ d < 16, isAllowed (Nat.digitChar d) = true := by decide +kernel
  rw [inQuotes, List.mem_cons, List.mem_append, List.mem_singleton, List.mem_flatMap] at h
  rcases h with rfl | ⟨x, -, hx⟩ | rfl
  · rfl
  · rw [quotedChar] at hx
    split at hx
    · rename_i hvisible
      exact isAllowed_of_isVisible (List.mem_singleton.1 hx ▸ hvisible)
    · rcases List.mem_cons.1 hx with rfl | hx
      · rfl
      rcases List.mem_cons.1 hx with rfl | hx
      · rfl
      obtain ⟨place, -, rfl⟩ := List.mem_map.1 hx
      exact hdigit _ (Nat.mod_lt _ (by decide))
  · rfl

mutual

theorem isAllowed_chars (v : Value) {n : Nat} (hfits : Fits numeral n v) :
    ∀ c ∈ charsOf numeral v, isAllowed c = true := by
  cases v with
  | null => exact fun c hc => isAllowed_of_isBare (isBare_null.1 c hc)
  | bool b => exact fun c hc => isAllowed_of_isBare ((isBare_bool b).1 c hc)
  | number m =>
    cases hfits with
    | number hword _ => exact fun c hc => isAllowed_of_isBare (hword.1 c hc)
  | string text => exact fun c hc => isAllowed_inQuotes hc
  | array items =>
    cases hfits with
    | array hitems =>
      have := isAllowed_items items true hitems
      simp only [charsOf, List.forall_mem_cons, List.forall_mem_append]
      exact ⟨rfl, this, rfl, nofun⟩
  | object fields =>
    cases hfits with
    | object _ hfields =>
      have := isAllowed_fields fields true hfields
      simp only [charsOf, List.forall_mem_cons, List.forall_mem_append]
      exact ⟨rfl, this, rfl, nofun⟩

theorem isAllowed_items (items : List Value) (first : Bool) {n : Nat}
    (hfits : ∀ v ∈ items, Fits numeral n v) :
    ∀ c ∈ itemChars numeral first items, isAllowed c = true := by
  cases items with
  | nil => nofun
  | cons v items =>
    have hv := isAllowed_chars v (hfits v List.mem_cons_self)
    have hitems := isAllowed_items items false fun w hw => hfits w (List.mem_cons_of_mem _ hw)
    simp only [itemChars, List.forall_mem_append]
    exact ⟨isAllowed_separator first, hv, hitems⟩

theorem isAllowed_fields (fields : List (String × Value)) (first : Bool) {n : Nat}
    (hfits : ∀ field ∈ fields, Fits numeral n field.2) :
    ∀ c ∈ fieldChars numeral first fields, isAllowed c = true := by
  cases fields with
  | nil => nofun
  | cons field fields =>
    obtain ⟨key, v⟩ := field
    have hv := isAllowed_chars v (hfits (key, v) List.mem_cons_self)
    have hfields := isAllowed_fields fields false fun w hw => hfits w (List.mem_cons_of_mem _ hw)
    simp only [fieldChars, List.forall_mem_cons, List.forall_mem_append]
    exact ⟨isAllowed_separator first, rfl, rfl, fun c hc => isAllowed_inQuotes hc, rfl, rfl, hv,
      hfields⟩

end

/-- **The tokens of a written text** are those of its value. -/
theorem tokens?_write {v : Value} {n : Nat} (hfits : Fits numeral n v) :
    tokens? (write numeral v) = some (tokensOf numeral v ++ [.streamEnd]) := by
  have hchars : (write numeral v).toList = charsOf numeral v := String.toList_ofList
  have hstart :
      Scan.Stands 0 ([] ++ (charsOf numeral v ++ [])) (Scan.start (charsOf numeral v)) := by
    rw [List.nil_append, List.append_nil]
    exact ⟨rfl, Nat.le_refl _, rfl, rfl, rfl, nofun, nofun⟩
  obtain ⟨s, hs, hdone⟩ := Scan.Stands.value v [] hfits hstart nofun nofun
  obtain ⟨k, hk, hrun⟩ := hs.turns
  have hk : k ≤ (charsOf numeral v).length := Nat.le_trans (Nat.le_add_right _ _) hk
  have hturns : (charsOf numeral v).length + 2 = (charsOf numeral v).length - k + 1 + 1 + k := by
    omega
  simp only [tokens?, hchars]
  rw [if_pos (List.all_eq_true.2 (isAllowed_chars v hfits)), hturns, hrun, hdone.complete,
    Option.map_some, Array.toList_push, hs.tokens]
  rfl

/-! ## From tokens to nodes -/

/-- A parser reads some tokens as a result, whatever is behind them. -/
def Parser.Reads {α : Type} (p : Parser α) (ts : List Token) (a : α) : Prop :=
  ∀ s rest, s.tokens = ts ++ rest → ∃ s', p s = some (a, s') ∧ s'.tokens = rest

namespace Parser

variable {α β : Type} {p : Parser α} {f : α → Parser β} {ts us : List Token} {t : Token} {a : α}
  {b : β}

theorem reads_pure (a : α) : Reads (pure a) [] a := fun s _ h => ⟨s, rfl, h⟩

theorem Reads.bind (h : Reads p ts a) (h' : Reads (f a) us b) : Reads (p >>= f) (ts ++ us) b := by
  intro s rest hs
  obtain ⟨s₁, h₁, hs₁⟩ := h s (us ++ rest) (by rw [hs, List.append_assoc])
  obtain ⟨s₂, h₂, hs₂⟩ := h' s₁ rest hs₁
  refine ⟨s₂, ?_, hs₂⟩
  show (p s).bind (fun x => f x.1 x.2) = some (b, s₂)
  rw [h₁]
  exact h₂

/-- What looks at the next token only, and finds a result. -/
theorem Reads.after_look (hp : ∀ s : Parsing, s.tokens.head? = some t → p s = some (a, s))
    (h : Reads (f a) (t :: ts) b) : Reads (p >>= f) (t :: ts) b := by
  intro s rest hs
  obtain ⟨s', hs', hrest⟩ := h s rest hs
  refine ⟨s', ?_, hrest⟩
  show (p s).bind (fun x => f x.1 x.2) = some (b, s')
  rw [hp s (by rw [hs]; rfl)]
  exact hs'

theorem Reads.after_next {f : Token → Parser β} (h : Reads (f t) (t :: ts) b) :
    Reads (next >>= f) (t :: ts) b :=
  .after_look (fun s hs => by rw [next, hs]; rfl) h

theorem reads_drop (t : Token) : Reads drop [t] () := fun s _ hs =>
  ⟨{ s with tokens := s.tokens.tail }, rfl, congrArg List.tail hs⟩

theorem reads_count (n : Nat) : Reads (count n) [] () := fun s _ hs =>
  ⟨{ s with size := s.size + n }, rfl, hs⟩

theorem Reads.after_drop {f : Unit → Parser β} (h : Reads (f ()) ts b) :
    Reads (drop >>= f) (t :: ts) b := (reads_drop t).bind h

theorem Reads.after_count {n : Nat} {f : Unit → Parser β} (h : Reads (f ()) ts b) :
    Reads (count n >>= f) ts b := (reads_count n).bind h

theorem Reads.nodeUnless {ends : List Token} {p : Parser Node} {node : Node}
    (ht : ends.contains t = false) (h : Reads p (t :: ts) node) :
    Reads (nodeUnless ends p) (t :: ts) node := by
  refine .after_next ?_
  rw [ht]
  exact h

/-- The tokens that start the node of a value. -/
inductive Opens : Token → Prop
  | scalar (text : String) (style : Style) : Opens (.scalar text style)
  | sequence : Opens .flowSequenceStart
  | mapping : Opens .flowMappingStart

theorem properties_of_opens (ht : Opens t) (s : Parsing) (hs : s.tokens.head? = some t) :
    properties s = some ((none, none), s) := by
  obtain ⟨tokens, handles, names, anchors, anchored, size⟩ := s
  obtain ⟨rest, rfl⟩ : ∃ rest, tokens = t :: rest := List.head?_eq_some_iff.1 hs
  cases ht <;> rfl

theorem reads_keep (node : Node) : Reads (keep none node) [] node := fun s _ h => ⟨s, rfl, h⟩

theorem scalar_reads (text : String) (style : Style) (n : Nat) (block indentless : Bool) :
    Reads (node (n + 1) block indentless) [.scalar text style] (.scalar none text style) := by
  rw [node]
  refine .after_next (.after_look (properties_of_opens (.scalar text style)) (.after_next ?_))
  exact .after_drop (.after_count (reads_keep _))

theorem sequence_reads {n : Nat} {items : List Node} (h : Reads (flowItems n true) ts items)
    (block indentless : Bool) :
    Reads (node (n + 1) block indentless) (.flowSequenceStart :: ts) (.sequence none items) := by
  rw [node]
  refine .after_next (.after_look (properties_of_opens .sequence) (.after_next ?_))
  have hkept : Reads (flowItems n true >>= fun items => keep none (.sequence none items)) (ts ++ [])
      (.sequence none items) := h.bind (reads_keep _)
  rw [List.append_nil] at hkept
  exact .after_drop (.after_count hkept)

theorem mapping_reads {n : Nat} {pairs : List (Node × Node)} (h : Reads (flowPairs n true) ts pairs)
    (block indentless : Bool) :
    Reads (node (n + 1) block indentless) (.flowMappingStart :: ts) (.mapping none pairs) := by
  rw [node]
  refine .after_next (.after_look (properties_of_opens .mapping) (.after_next ?_))
  have hkept : Reads (flowPairs n true >>= fun pairs => keep none (.mapping none pairs)) (ts ++ [])
      (.mapping none pairs) := h.bind (reads_keep _)
  rw [List.append_nil] at hkept
  exact .after_drop (.after_count hkept)

variable (numeral) in
/-- The tokens of a value start with one that opens a node. -/
theorem exists_opens (v : Value) : ∃ t ts, tokensOf numeral v = t :: ts ∧ Opens t := by
  cases v with
  | null => exact ⟨_, _, rfl, .scalar _ _⟩
  | bool b => exact ⟨_, _, rfl, .scalar _ _⟩
  | number m => exact ⟨_, _, rfl, .scalar _ _⟩
  | string text => exact ⟨_, _, rfl, .scalar _ _⟩
  | array items => exact ⟨_, _, rfl, .sequence⟩
  | object fields => exact ⟨_, _, rfl, .mapping⟩

/-- The next item of a list, behind what separates it from the one before. -/
theorem flowItem_reads {n : Nat} {first : Bool} {item : Node} {items : List Node}
    (ht : Opens t) (hitem : Reads (node n false false) (t :: ts) item)
    (hitems : Reads (flowItems n false) us items) :
    Reads (flowItems (n + 1) first) (separation first ++ (t :: ts ++ us)) (item :: items) := by
  have hbehind : Reads (node n false false >>= fun item => flowItems n false >>= fun items =>
      pure (item :: items)) (t :: ts ++ (us ++ [])) (item :: items) :=
    hitem.bind (hitems.bind (reads_pure _))
  rw [List.append_nil] at hbehind
  rw [flowItems]
  cases first with
  | true =>
    have hend : ¬ (t == .flowSequenceEnd) = true := by cases ht <;> exact Bool.false_ne_true
    refine .after_next ?_
    rw [if_neg hend]
    refine .after_next ?_
    cases ht <;> exact hbehind
  | false =>
    refine .after_next (.after_next (.after_drop (.after_next ?_)))
    cases ht <;> exact hbehind

/-- The next pair of a mapping, with a key in quotes. -/
theorem flowPair_reads {n : Nat} {first : Bool} {key : String} {value : Node}
    {pairs : List (Node × Node)} (ht : Opens t)
    (hvalue : Reads (node n false false) (t :: ts) value)
    (hpairs : Reads (flowPairs (n + 1) false) us pairs) :
    Reads (flowPairs (n + 2) first)
      (separation first ++ .key :: .scalar key .quoted :: .value :: (t :: ts ++ us))
      ((.scalar none key .quoted, value) :: pairs) := by
  have hkey : Reads (nodeUnless [.value, .flowEntry, .flowMappingEnd] (node (n + 1) false false))
      [.scalar key .quoted] (.scalar none key .quoted) :=
    .nodeUnless rfl (scalar_reads key .quoted n false false)
  have hafter : Reads (flowValue (n + 1) .flowMappingEnd) (.value :: t :: ts) value := by
    have hends : [Token.flowEntry, .flowMappingEnd].contains t = false := by cases ht <;> rfl
    rw [flowValue]
    exact .after_next (.after_drop (.nodeUnless hends hvalue))
  have hbehind : Reads (do
      let key ← nodeUnless [.value, .flowEntry, .flowMappingEnd] (node (n + 1) false false)
      let value ← flowValue (n + 1) .flowMappingEnd
      let pairs ← flowPairs (n + 1) false
      pure ((key, value) :: pairs))
      ([.scalar key .quoted] ++ (.value :: t :: ts ++ (us ++ [])))
      ((.scalar none key .quoted, value) :: pairs) :=
    hkey.bind (hafter.bind (hpairs.bind (reads_pure _)))
  rw [List.append_nil] at hbehind
  rw [flowPairs]
  cases first with
  | true => exact .after_next (.after_next (.after_drop hbehind))
  | false => exact .after_next (.after_next (.after_drop (.after_next (.after_drop hbehind))))

mutual

/-- **The tokens of a value are read as its node.** -/
theorem value_reads (v : Value) {n : Nat} (hn : (tokensOf numeral v).length ≤ n)
    (block indentless : Bool) :
    Reads (node n block indentless) (tokensOf numeral v) (nodeOf numeral v) := by
  obtain ⟨n, rfl⟩ : ∃ k, n = k + 1 := by
    obtain ⟨t, ts, hts, -⟩ := exists_opens numeral v
    rw [hts, List.length_cons] at hn
    exact ⟨n - 1, by omega⟩
  cases v with
  | null => exact scalar_reads _ _ n block indentless
  | bool b => exact scalar_reads _ _ n block indentless
  | number m => exact scalar_reads _ _ n block indentless
  | string text => exact scalar_reads _ _ n block indentless
  | array items =>
    refine sequence_reads (items_reads items true ?_) block indentless
    simp only [tokensOf, List.length_cons, List.length_append, List.length_nil] at hn
    omega
  | object fields =>
    refine mapping_reads (fields_reads fields true ?_) block indentless
    simp only [tokensOf, List.length_cons, List.length_append, List.length_nil] at hn
    omega

theorem items_reads (items : List Value) (first : Bool) {n : Nat}
    (hn : (itemTokens numeral first items).length < n) :
    Reads (flowItems n first) (itemTokens numeral first items ++ [.flowSequenceEnd])
      (itemNodes numeral items) := by
  obtain ⟨n, rfl⟩ : ∃ k, n = k + 1 := ⟨n - 1, by omega⟩
  cases items with
  | nil =>
    rw [flowItems]
    exact .after_next (.after_drop (reads_pure _))
  | cons v items =>
    obtain ⟨t, ts, hts, ht⟩ := exists_opens numeral v
    simp only [itemTokens, hts, List.length_append, List.length_cons] at hn
    have hitem := value_reads v (n := n) (by rw [hts, List.length_cons]; omega) false false
    have hitems := items_reads items false (n := n) (by omega)
    rw [hts] at hitem
    rw [itemTokens, hts, List.append_assoc, List.append_assoc]
    exact flowItem_reads ht hitem hitems

theorem fields_reads (fields : List (String × Value)) (first : Bool) {n : Nat}
    (hn : (fieldTokens numeral first fields).length < n) :
    Reads (flowPairs n first) (fieldTokens numeral first fields ++ [.flowMappingEnd])
      (fieldNodes numeral fields) := by
  obtain ⟨n, rfl⟩ : ∃ k, n = k + 1 := ⟨n - 1, by omega⟩
  cases fields with
  | nil =>
    rw [flowPairs]
    exact .after_next (.after_drop (reads_pure _))
  | cons field fields =>
    obtain ⟨key, v⟩ := field
    obtain ⟨t, ts, hts, ht⟩ := exists_opens numeral v
    simp only [fieldTokens, hts, List.length_append, List.length_cons] at hn
    obtain ⟨n, rfl⟩ : ∃ k, n = k + 1 := ⟨n - 1, by omega⟩
    have hvalue := value_reads v (n := n) (by rw [hts, List.length_cons]; omega) false false
    have hfields := fields_reads fields false (n := n + 1) (by omega)
    rw [hts] at hvalue
    rw [fieldTokens, hts, List.append_assoc]
    simp only [List.cons_append, List.append_assoc]
    exact flowPair_reads ht hvalue hfields

end

/-- A text without directives and marks of documents is the document of one node. -/
theorem document_reads (ht : Opens t) {root : Node} {s : Parsing}
    (hs : s.tokens = t :: (ts ++ [.streamEnd]))
    (hroot : Reads (node (3 * s.tokens.length + 3) true false) (t :: ts) root) :
    ∃ s', document s = some (some root, s') := by
  let n := 3 * s.tokens.length + 3
  let close (root : Node) : Parser (Option Node) := do
    documentEnds n
    if (← next) == .streamEnd then pure (some root) else failure
  have hdocument : document s =
      (node n true false >>= close) { s with handles := standardHandles.union [] } := by
    obtain ⟨tokens, handles, names, anchors, anchored, size⟩ := s
    obtain rfl : tokens = t :: (ts ++ [.streamEnd]) := hs
    cases ht <;> rfl
  obtain ⟨s', hs', hrest⟩ := hroot { s with handles := standardHandles.union [] } [.streamEnd] hs
  have hclose : close root s' = some (some root, s') := by
    obtain ⟨tokens, handles, names, anchors, anchored, size⟩ := s'
    obtain rfl : tokens = [.streamEnd] := hrest
    rfl
  refine ⟨s', hdocument.trans ?_⟩
  show (node n true false _).bind (fun x => close x.1 x.2) = some (some root, s')
  rw [hs']
  exact hclose

end Parser

variable (numeral) in
/-- **The tokens of a value are a document** with its node as the root. -/
theorem ofTokens?_tokensOf (v : Value) :
    ∃ d, Document.ofTokens? (tokensOf numeral v ++ [.streamEnd]) = some d ∧
      d.root = some (nodeOf numeral v) := by
  obtain ⟨t, ts, hts, ht⟩ := Parser.exists_opens numeral v
  let start : Parsing := ⟨tokensOf numeral v ++ [.streamEnd], [], [], 0, [], 0⟩
  have hstart : start.tokens = t :: (ts ++ [.streamEnd]) := congrArg (· ++ [Token.streamEnd]) hts
  have hn : (tokensOf numeral v).length ≤ 3 * start.tokens.length + 3 := by
    rw [hstart, hts, List.length_cons, List.length_cons, List.length_append]
    omega
  obtain ⟨s', hs'⟩ := Parser.document_reads ht hstart (hts ▸ Parser.value_reads v hn true false)
  exact ⟨⟨some (nodeOf numeral v), s'.anchored, s'.size⟩, by rw [Document.ofTokens?, hs']; rfl, rfl⟩

/-! ## What is written can be read -/

mutual

/-- The node of a value shows it. -/
theorem shows_nodeOf (v : Value) {n : Nat} (hfits : Fits numeral n v) :
    Shows n (nodeOf numeral v) v := by
  cases v with
  | null => exact ScalarShows.shows (.null (.inr (by decide))) n
  | bool b => exact ScalarShows.shows (.flag (by cases b <;> decide)) n
  | number m =>
    cases hfits with
    | number _ h => exact ScalarShows.shows (.number h) n
  | string text => exact ScalarShows.shows (.quoted (by decide)) n
  | array items =>
    cases hfits with
    | array hitems => exact .sequence (shows_itemNodes items hitems)
  | object fields =>
    cases hfits with
    | object hordered hfields =>
      have hshown := Shown.mapping (shows_fieldNodes fields hfields) hordered.nodup_keys
      rwa [hordered.ofList_eq] at hshown

theorem shows_itemNodes (items : List Value) {n : Nat} (hfits : ∀ v ∈ items, Fits numeral n v) :
    List.Forall₂ (Shows n) (itemNodes numeral items) items := by
  cases items with
  | nil => exact .nil
  | cons v items =>
    exact .cons (shows_nodeOf v (hfits v List.mem_cons_self))
      (shows_itemNodes items fun w hw => hfits w (List.mem_cons_of_mem _ hw))

theorem shows_fieldNodes (fields : List (String × Value)) {n : Nat}
    (hfits : ∀ field ∈ fields, Fits numeral n field.2) :
    List.Forall₂ (fun pair entry => IsKey pair.1 entry.1 ∧ Shows n pair.2 entry.2)
      (fieldNodes numeral fields) fields := by
  cases fields with
  | nil => exact .nil
  | cons field fields =>
    exact .cons ⟨⟨_, _, rfl⟩, shows_nodeOf field.2 (hfits field List.mem_cons_self)⟩
      (shows_fieldNodes fields fun w hw => hfits w (List.mem_cons_of_mem _ hw))

end

/-- **A written value is described by its text.** -/
theorem describes_write {v : Value} {n : Nat} (hfits : Fits numeral n v) :
    Describes n (write numeral v) v := by
  obtain ⟨d, hd, hroot⟩ := ofTokens?_tokensOf numeral v
  exact ⟨d, _, by rw [Document.read?, tokens?_write hfits]; exact hd, hroot, shows_nodeOf v hfits⟩

end

example : write (fun _ => "7")
    (.object [("a", .array [.null, .number (.integer 7)]), ("b", .string "c d")]) =
      "\x7b? \"a\": [null, 7], ? \"b\": \"c\\U00000020d\"\x7d" := by decide +kernel

end Views.Yaml
