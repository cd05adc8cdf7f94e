import Views.Proofs.Ascii
import Views.Proofs.Yaml.Shown

/-!
# Scanning texts in brackets

A scanner that is inside of some brackets and of no block (`Scan.Stands`) reads one token after the
other: the marks of collections in brackets (`Stands.opens` to `Stands.colon`), a text in quotes
(`Stands.quoted`) and a bare word (`Stands.bare`). `Scan.Passes` says which tokens it has read
between two states.
-/

set_option autoImplicit false

namespace Views.Yaml

/-! ## Characters -/

/-- A character of a bare word. -/
def isBare (c : Char) : Bool := c.isAlphanum || c == '.' || c == '+' || c == '-'

/-- A word that needs no quotes: it starts with a letter or a digit, perhaps behind a minus. -/
def IsBare (word : List Char) : Prop :=
  (∀ c ∈ word, isBare c = true) ∧
    ((∃ x rest, word = x :: rest ∧ x.isAlphanum = true) ∨
      ∃ x rest, word = '-' :: x :: rest ∧ x.isAlphanum = true)

/-- A character that reads as itself between double quotes. -/
def isVisible (c : Char) : Bool :=
  0x21 ≤ c.toNat && c.toNat ≤ 0x7e && c != '\x22' && c != '\\'

/-- The places of eight hexadecimal digits. -/
def places : List Nat :=
  [0x10000000, 0x1000000, 0x100000, 0x10000, 0x1000, 0x100, 0x10, 1]

/-- A number in eight hexadecimal digits. -/
def codeDigits (n : Nat) : List Char := places.map fun place => Nat.digitChar (n / place % 16)

/-- A character between double quotes. -/
def quotedChar (c : Char) : List Char :=
  if isVisible c then [c] else '\\' :: 'U' :: codeDigits c.toNat

/-- A text in double quotes. -/
def inQuotes (text : String) : List Char :=
  '\x22' :: (text.toList.flatMap quotedChar ++ ['\x22'])

theorem isBare_cases {c : Char} (h : isBare c = true) :
    c.isAlphanum = true ∨ c = '.' ∨ c = '+' ∨ c = '-' := by
  simpa [isBare, or_assoc] using h

/-- What a bare word is made of does not end a scalar. -/
theorem isBare_inside {c : Char} (h : isBare c = true) :
    isBlank c = false ∧ isBreak c = false ∧ isFlowMark c = false ∧ (c == ':') = false := by
  rcases isBare_cases h with h | rfl | rfl | rfl
  · exact Ascii.forall_alphanum
      (p := fun c => isBlank c = false ∧ isBreak c = false ∧ isFlowMark c = false ∧
        (c == ':') = false) (by decide +kernel) h
  all_goals decide

namespace Cursor

variable {c : Cursor} {x : Char} {rest : List Char}

theorem ahead_skip (h : c.ahead = x :: rest) : c.skip.ahead = rest := by
  rw [skip, skipMany, h]
  rfl

theorem nextIs_cons (h : c.ahead = x :: rest) (p : Char → Bool) : c.nextIs p = p x := by
  rw [nextIs, peek?, h]
  rfl

theorem nextIs_nil (h : c.ahead = []) (p : Char → Bool) : c.nextIs p = false := by
  rw [nextIs, peek?, h]
  rfl

end Cursor

/-! ## Escapes -/

theorem hexValue?_digitChar {d : Nat} (h : d < 16) :
    Json.hexValue? (Nat.digitChar d) = some d := by
  revert d
  decide +kernel

theorem charOfHex?_codeDigits (c : Char) : charOfHex? (codeDigits c.toNat) = some c := by
  have hdigits : (codeDigits c.toNat).mapM Json.hexValue? =
      some (places.map fun place => c.toNat / place % 16) := by
    refine mapM_of_forall₂ (m := Option) ?_
    rw [codeDigits]
    refine List.forall₂_map_left_iff.2 (List.forall₂_map_right_iff.2 ?_)
    exact List.forall₂_same.2 fun place _ => hexValue?_digitChar (Nat.mod_lt _ (by decide))
  have hvalid : c.toNat < 0xd800 ∨ 0xdfff < c.toNat ∧ c.toNat < 0x110000 := c.valid
  have hsum : (places.map fun place => c.toNat / place % 16).foldl (fun n d => 16 * n + d) 0 =
      c.toNat := by
    simp only [places, List.map_cons, List.map_nil, List.foldl_cons, List.foldl_nil]
    omega
  have hin : ¬ ((0xd800 ≤ c.toNat ∧ c.toNat ≤ 0xdfff) ∨ 0x10ffff < c.toNat) := by omega
  rw [charOfHex?, hdigits]
  show (if _ then none else some (Char.ofNat _)) = some c
  rw [hsum, if_neg hin, Char.ofNat_toNat]

theorem length_codeDigits (n : Nat) : (codeDigits n).length = 8 := rfl

/-- An escape is read as its character. -/
theorem escapeAt_code {c : Cursor} {x : Char} {rest : List Char}
    (h : c.ahead = 'U' :: (codeDigits x.toNat ++ rest)) :
    escapeAt c = some (x, c.skipMany 9) := by
  have hpeek : c.peek? = some 'U' := by rw [Cursor.peek?, h, List.head?_cons]
  have htake : c.ahead.tail.take 8 = codeDigits x.toNat := by
    rw [h, List.tail_cons, List.take_append_of_le_length (Nat.le_refl 8)]
    exact List.take_of_length_le (Nat.le_refl 8)
  have hdigits : escapeDigits? 'U' = some 8 := by decide
  simp only [escapeAt, hpeek, hdigits, htake, length_codeDigits, Nat.lt_irrefl, if_false,
    charOfHex?_codeDigits, Option.map_some]

/-! ## Quoted texts -/

theorem isVisible_inside {c : Char} (h : isVisible c = true) :
    isBlank c = false ∧ isBreak c = false ∧ (c == '\x22') = false ∧ (c == '\\') = false := by
  have hne (x : Char) (hx : isVisible x = false) : (c == x) = false :=
    beq_eq_false_iff_ne.2 (Ascii.ne_of_mem_class h hx)
  simp only [isBlank, isBreak, hne ' ' (by decide), hne '\t' (by decide), hne '\n' (by decide),
    hne '\r' (by decide), hne '\u0085' (by decide), hne '\u2028' (by decide),
    hne '\u2029' (by decide), hne '\x22' (by decide), hne '\\' (by decide), Bool.or_self,
    and_self]

theorem quotedChar_pos (x : Char) : 0 < (quotedChar x).length := by
  rw [quotedChar]
  split <;> exact Nat.succ_pos _

/-- One turn between double quotes reads one character, written as itself or as its number. -/
theorem quotedRun_char {x : Char} {rest : List Char} {c : Cursor} (n : Nat)
    (h : c.ahead = quotedChar x ++ rest) :
    ∃ d, quotedRun false (n + 1) c = (quotedRun false n d).map (fun (s, b, e) => (x :: s, b, e)) ∧
      d.ahead = rest ∧ d.size = c.size := by
  cases hx : isVisible x with
  | true =>
    rw [quotedChar, if_pos hx, List.singleton_append] at h
    obtain ⟨hblank, hbreak, hquote, hslash⟩ := isVisible_inside hx
    refine ⟨c.skip, ?_, Cursor.ahead_skip h, rfl⟩
    rw [quotedRun, h]
    simp only [hblank, hbreak, hquote, hslash, Bool.false_and, Bool.or_self, Bool.not_false,
      Bool.and_false, Bool.false_eq_true, if_false]
  | false =>
    rw [quotedChar, if_neg (Bool.eq_false_iff.1 hx), List.cons_append, List.cons_append] at h
    have hskip : c.skip.ahead = 'U' :: (codeDigits x.toNat ++ rest) := Cursor.ahead_skip h
    -- The escape is ten characters, nine of them behind the backslash.
    refine ⟨c.skip.skipMany 9, ?_, ?_, rfl⟩
    · rw [quotedRun, h]
      simp only [escapeAt_code hskip]
      rfl
    · rw [Cursor.skipMany, hskip]
      rfl

/-- The characters between double quotes are read up to the closing one. -/
theorem quotedRun_chars {text rest : List Char} {n : Nat} {c : Cursor}
    (h : c.ahead = text.flatMap quotedChar ++ '\x22' :: rest) (hn : c.ahead.length < n) :
    ∃ d, quotedRun false n c = some (text, false, d) ∧ d.ahead = '\x22' :: rest ∧
      d.size = c.size := by
  obtain ⟨n, rfl⟩ : ∃ k, n = k + 1 := ⟨n - 1, by omega⟩
  induction text generalizing n c with
  | nil => exact ⟨c, by rw [quotedRun, h]; rfl, h, rfl⟩
  | cons x text ih =>
    rw [List.flatMap_cons, List.append_assoc] at h
    obtain ⟨d, hturn, hahead, hsize⟩ := quotedRun_char n h
    have hlength : d.ahead.length < n := by
      rw [hahead]
      rw [h, List.length_append] at hn
      have := quotedChar_pos x
      omega
    obtain ⟨n, rfl⟩ : ∃ k, n = k + 1 := ⟨n - 1, by omega⟩
    obtain ⟨e, he, hbehind, hsize'⟩ := ih hahead n hlength
    exact ⟨e, by rw [hturn, he]; rfl, hbehind, hsize'.trans hsize⟩

theorem inQuotes_append (text : String) (rest : List Char) :
    inQuotes text ++ rest = '\x22' :: (text.toList.flatMap quotedChar ++ '\x22' :: rest) := by
  rw [inQuotes, List.cons_append, List.append_assoc, List.singleton_append]

/-- A text in quotes is read, up to the place behind it. -/
theorem quotedScalar_inQuotes {text : String} {rest : List Char} {c : Cursor}
    (h : c.ahead = inQuotes text ++ rest) (hsize : c.ahead.length ≤ c.size) :
    ∃ d, quotedScalar false c = some (text.toList, d) ∧ d.ahead = rest ∧ d.size = c.size := by
  rw [inQuotes_append] at h
  have hskip := Cursor.ahead_skip h
  have hlength : c.skip.ahead.length < c.skip.size + 1 := by
    rw [hskip]
    rw [h, List.length_cons] at hsize
    exact Nat.lt_succ_of_le (Nat.le_of_succ_le hsize)
  obtain ⟨d, hd, hahead, hdsize⟩ := quotedRun_chars hskip hlength
  have hmark : c.skip.atDocumentMark = false := by
    rw [Cursor.atDocumentMark, show (c.skip.column == 0) = false from rfl]
    rfl
  have hsome : c.skip.ahead.isEmpty = false := by rw [hskip]; simp
  have hquote : d.nextIs (· == '\x22') = true := Cursor.nextIs_cons hahead _
  refine ⟨d.skip, ?_, Cursor.ahead_skip hahead, hdsize⟩
  simp only [quotedScalar, quotedFrom, hmark, hsome, Bool.or_self, Bool.false_eq_true, if_false,
    show (c.skip.size : Nat) = c.size from rfl] at hd ⊢
  simp only [hd, hquote, if_true]

/-! ## Bare words -/

/-- What may stand behind a bare word: the end of the text, or a mark of the brackets around. -/
def Ends (flow : Bool) (rest : List Char) : Prop :=
  ∀ x, rest.head? = some x → flow = true ∧ isFlowMark x = true

theorem isFlowMark_inside {c : Char} (h : isFlowMark c = true) :
    isBlank c = false ∧ isBreak c = false ∧ (c == ':') = false := by
  simp only [isFlowMark, Bool.or_eq_true, beq_iff_eq] at h
  rcases h with (((rfl | rfl) | rfl) | rfl) | rfl <;> decide

theorem plainRun_bare {flow : Bool} {word rest : List Char} {n : Nat} {c : Cursor}
    (hword : ∀ x ∈ word, isBare x = true) (hrest : Ends flow rest) (h : c.ahead = word ++ rest)
    (hn : c.ahead.length < n) :
    ∃ d, plainRun flow n c = some (word, d) ∧ d.ahead = rest ∧ d.size = c.size := by
  induction word generalizing n c with
  | nil =>
    cases n with
    | zero => omega
    | succ n =>
      refine ⟨c, ?_, h, rfl⟩
      rw [plainRun, h, List.nil_append]
      cases rest with
      | nil => rfl
      | cons x rest =>
        obtain ⟨rfl, hx⟩ := hrest x rfl
        obtain ⟨hblank, hbreak, hcolon⟩ := isFlowMark_inside hx
        simp only [hblank, hbreak, hcolon, hx, Bool.or_self, Bool.and_false, Bool.false_and,
          Bool.and_self, Bool.false_eq_true, if_false, if_true]
  | cons x word ih =>
    cases n with
    | zero => omega
    | succ n =>
      obtain ⟨hx, hword⟩ := List.forall_mem_cons.1 hword
      obtain ⟨hblank, hbreak, hmark, hcolon⟩ := isBare_inside hx
      have hskip : c.skip.ahead = word ++ rest := Cursor.ahead_skip h
      obtain ⟨d, hd, hahead, hsize⟩ := ih (n := n) hword hskip (by
        rw [hskip]
        rw [h, List.cons_append, List.length_cons] at hn
        omega)
      refine ⟨d, ?_, hahead, hsize⟩
      rw [plainRun, h, List.cons_append]
      simp only [hblank, hbreak, hmark, hcolon, hd, Bool.or_self, Bool.and_false, Bool.false_and,
        Bool.false_eq_true, if_false, Option.map_some]

theorem ne_of_isAlphanum {x : Char} (h : x.isAlphanum = true) (y : Char)
    (hy : y.isAlphanum = false) : (y == x) = false :=
  beq_eq_false_iff_ne.2 (Ascii.ne_of_mem_class h hy).symm

/-- A bare word starts no mark of a document. -/
theorem atDocumentMark_bare {word rest : List Char} {c : Cursor} (hword : IsBare word)
    (h : c.ahead = word ++ rest) : c.atDocumentMark = false := by
  have hstarts : c.startsWith ['-', '-', '-'] = false ∧ c.startsWith ['.', '.', '.'] = false := by
    rw [Cursor.startsWith, Cursor.startsWith, h]
    rcases hword.2 with ⟨x, word, rfl, hx⟩ | ⟨x, word, rfl, hx⟩
    · simp only [List.cons_append, List.isPrefixOf_cons_cons, ne_of_isAlphanum hx '-' (by decide),
        ne_of_isAlphanum hx '.' (by decide), Bool.false_and, and_self]
    · simp only [List.cons_append, List.isPrefixOf_cons_cons, ne_of_isAlphanum hx '-' (by decide),
        show ('.' == '-') = false from rfl, Bool.false_and, Bool.and_false, and_self]
  simp only [Cursor.atDocumentMark, hstarts.1, hstarts.2, Bool.or_self, Bool.and_false,
    Bool.false_and]

theorem plainScalar_bare {flow : Bool} (indent : Nat) {word rest : List Char} {c : Cursor}
    (hword : IsBare word) (hrest : Ends flow rest) (h : c.ahead = word ++ rest)
    (hsize : c.ahead.length ≤ c.size) :
    ∃ d, plainScalar flow indent c = some (word, false, d) ∧ d.ahead = rest ∧ d.size = c.size := by
  obtain ⟨d, hd, hahead, hdsize⟩ :=
    plainRun_bare hword.1 hrest h (Nat.lt_succ_of_le hsize)
  refine ⟨d, ?_, hahead, hdsize⟩
  have hsharp : c.nextIs (· == '#') = false := by
    rcases hword.2 with ⟨x, word, rfl, hx⟩ | ⟨x, word, rfl, -⟩
    · rw [Cursor.nextIs_cons h, Bool.beq_comm]
      exact ne_of_isAlphanum hx '#' (by decide)
    · exact Cursor.nextIs_cons h _
  have hbehind : d.nextIs (fun x => isBlank x || isBreak x) = false := by
    cases rest with
    | nil => exact Cursor.nextIs_nil hahead _
    | cons x rest =>
      obtain ⟨hblank, hbreak, -⟩ := isFlowMark_inside (hrest x rfl).2
      rw [Cursor.nextIs_cons hahead, hblank, hbreak, Bool.or_self]
  simp only [plainScalar, plainFrom, atDocumentMark_bare hword h, hsharp, hd, hbehind, Gap.text,
    Bool.or_self, Bool.false_eq_true, if_false, Bool.false_and, Bool.not_false, if_true, ite_self,
    List.nil_append]

/-! ## States -/

/-- The scanner is inside of `depth` brackets and of no block, no key has to stand where one may
have started, and `rest` is ahead. -/
structure Scan.Stands (depth : Nat) (rest : List Char) (s : Scan) : Prop where
  ahead : s.cursor.ahead = rest
  size : rest.length ≤ s.cursor.size
  indent : s.indent = -1
  outer : s.outer = []
  depth_eq : s.around.length = depth
  possible : ∀ k, s.possible = some k → k.required = false
  around : ∀ k, some k ∈ s.around → k.required = false

namespace Scan

variable {depth : Nat} {rest : List Char} {s : Scan}

theorem Stands.inFlow (h : Stands depth rest s) : s.inFlow = decide (0 < depth) := by
  rw [Scan.inFlow, ← h.depth_eq]
  cases s.around <;> rfl

theorem Stands.unroll (h : Stands depth rest s) (column : Int) : s.unroll column = s := by
  rw [Scan.unroll, h.outer, closeBlocks, ite_self]

theorem Stands.dropKey (h : Stands depth rest s) :
    s.dropKey = some { s with possible := none } := by
  obtain ⟨cursor, tokens, indent, outer, keyAllowed, possible, around⟩ := s
  cases possible with
  | none => rfl
  | some k => exact if_neg (Bool.eq_false_iff.1 (h.possible k rfl))

/-- A possible key is saved where one may start. -/
theorem Stands.saveKey (h : Stands depth rest s) :
    ∃ possible, s.saveKey = some { s with possible } ∧
      (∀ k, possible = some k → k.required = false) ∧
      (s.keyAllowed = false → possible = s.possible) := by
  by_cases hk : s.keyAllowed = true
  · have hindent : (s.indent == (s.cursor.column : Int)) = false := by
      rw [h.indent]
      exact beq_eq_false_iff_ne.2 (by omega)
    refine ⟨some ⟨s.cursor, s.tokens.size, false⟩, ?_, ?_, fun hn => absurd hk (hn ▸ nofun)⟩
    · rw [Scan.saveKey, if_pos hk, h.dropKey, Option.map_some, hindent, Bool.and_false]
    · rintro k ⟨rfl⟩
      rfl
  · exact ⟨s.possible, if_neg hk, h.possible, fun _ => rfl⟩

/-- Forgetting keys that are out of reach. -/
theorem refresh_free (s : Scan) {p : Option KeyPlace} (hp : ∀ k, p = some k → k.required = false) :
    ∃ q, s.refresh p = some q ∧ (∀ k, q = some k → k.required = false) ∧ (p = none → q = none) := by
  cases p with
  | none => exact ⟨none, rfl, nofun, fun _ => rfl⟩
  | some k =>
    rw [refresh, hp k rfl]
    split
    · exact ⟨none, rfl, nofun, fun _ => rfl⟩
    · exact ⟨some k, rfl, hp, nofun⟩

theorem mapM_refresh_free (s : Scan) {ps : List (Option KeyPlace)}
    (hps : ∀ k, some k ∈ ps → k.required = false) :
    ∃ qs, ps.mapM s.refresh = some qs ∧ qs.length = ps.length ∧
      ∀ k, some k ∈ qs → k.required = false := by
  induction ps with
  | nil => exact ⟨[], List.mapM_nil, rfl, nofun⟩
  | cons p ps ih =>
    obtain ⟨q, hq, hqfree, -⟩ := s.refresh_free fun k hk => hps k (hk ▸ List.mem_cons_self)
    obtain ⟨qs, hqs, hlength, hfree⟩ := ih fun k hk => hps k (List.mem_cons_of_mem _ hk)
    refine ⟨q :: qs, by rw [List.mapM_cons, hq, hqs]; rfl, congrArg (· + 1) hlength, fun k hk => ?_⟩
    rcases List.mem_cons.1 hk with hk | hk
    · exact hqfree k hk.symm
    · exact hfree k hk

theorem Stands.dropStale (h : Stands depth rest s) :
    ∃ possible around, s.dropStale = some { s with possible, around } ∧
      Stands depth rest { s with possible, around } ∧ (s.possible = none → possible = none) := by
  obtain ⟨possible, hp, hfree, hnone⟩ := s.refresh_free h.possible
  obtain ⟨around, ha, hlength, hafree⟩ := s.mapM_refresh_free h.around
  refine ⟨possible, around, by rw [Scan.dropStale, hp, ha]; rfl, ?_, hnone⟩
  exact ⟨h.ahead, h.size, h.indent, h.outer, hlength.trans h.depth_eq, hfree, hafree⟩

/-! ## Between tokens -/

/-- A character that may start a token. -/
def StartsToken (x : Char) : Prop :=
  isBlank x = false ∧ isBreak x = false ∧ x ≠ '#' ∧ x ≠ '\ufeff'

instance (x : Char) : Decidable (StartsToken x) := inferInstanceAs (Decidable (_ ∧ _ ∧ _ ∧ _))

/-- The first characters of the tokens that are no bare words. -/
def marks : List Char := ['[', ']', '{', '}', ',', '?', ':', '\x22']

theorem startsToken_of_mem_marks (x : Char) (hx : x ∈ marks) :
    StartsToken x ∧ x ≠ '-' ∧ x ≠ '.' := by
  have hall : marks.all (fun x => decide (StartsToken x ∧ x ≠ '-' ∧ x ≠ '.')) = true := by decide
  exact of_decide_eq_true (List.all_eq_true.1 hall x hx)

/-- Spaces in front of a token are skipped. -/
theorem Stands.skipLead {lead : List Char} {x : Char} {n : Nat}
    (h : Stands depth (lead ++ x :: rest) s) (hlead : ∀ c ∈ lead, c = ' ') (hx : StartsToken x) :
    ∃ cursor, toNextToken (n + 1) s = { s with cursor } ∧
      Stands depth (x :: rest) { s with cursor } := by
  obtain ⟨hblank, hbreak, hsharp, hmark⟩ := hx
  have hfirst : s.cursor.nextIs (· == '\ufeff') = false := by
    cases lead with
    | nil => rw [Cursor.nextIs_cons h.ahead, beq_eq_false_iff_ne.2 hmark]
    | cons c lead =>
      rw [Cursor.nextIs_cons h.ahead, hlead c List.mem_cons_self]
      rfl
  let p (y : Char) : Bool := y == ' ' || ((s.inFlow || !s.keyAllowed) && y == '\t')
  have hskip : (s.cursor.skipWhile p).ahead = x :: rest := by
    simp only [isBlank, Bool.or_eq_false_iff] at hblank
    have hp : p x = false := by simp only [p, hblank.1, hblank.2, Bool.and_false, Bool.or_self]
    show s.cursor.ahead.dropWhile p = x :: rest
    rw [h.ahead, List.dropWhile_append_of_pos fun c hc => by rw [hlead c hc]; rfl,
      List.dropWhile_cons_of_neg (Bool.eq_false_iff.1 hp)]
  have hnext := Cursor.nextIs_cons hskip
  refine ⟨s.cursor.skipWhile p, ?_, hskip, ?_, h.indent, h.outer, h.depth_eq, h.possible,
    h.around⟩
  · simp only [Scan.toNextToken, hfirst, Bool.and_false, Bool.false_eq_true, if_false]
    rw [hnext, beq_eq_false_iff_ne.2 hsharp, if_neg Bool.false_ne_true, hnext, hbreak,
      if_neg Bool.false_ne_true]
    rfl
  · have hsize := h.size
    rw [List.length_append] at hsize
    exact Nat.le_trans (Nat.le_add_left _ _) hsize

/-- **The next token is read** from a state that stands at its first character. -/
theorem Stands.next {lead : List Char} {x : Char} (h : Stands depth (lead ++ x :: rest) s)
    (hlead : ∀ c ∈ lead, c = ' ') (hx : StartsToken x) :
    ∃ s', Stands depth (x :: rest) s' ∧ s'.tokens = s.tokens ∧ s'.keyAllowed = s.keyAllowed ∧
      (s.possible = none → s'.possible = none) ∧
      ∀ n, Scan.tokensFrom (n + 1) s = s'.tokenAt x >>= Scan.tokensFrom n := by
  obtain ⟨cursor, hnext, hs⟩ := h.skipLead (n := s.cursor.size) hlead hx
  obtain ⟨possible, around, hdrop, hs', hnone⟩ := hs.dropStale
  refine ⟨_, hs', rfl, rfl, hnone, fun n => ?_⟩
  have hpeek : cursor.peek? = some x := by rw [Cursor.peek?, hs.ahead, List.head?_cons]
  rw [Scan.tokensFrom, hnext, hdrop]
  simp only [Option.bind_eq_bind, Option.bind_some, hs'.unroll, hpeek]

/-- At the end of the text the tokens are complete. -/
theorem Stands.complete (h : Stands 0 [] s) (n : Nat) :
    tokensFrom (n + 1) s = some (s.tokens.push .streamEnd) := by
  have hskip (p : Char → Bool) : (s.cursor.skipWhile p).ahead = [] := by
    show s.cursor.ahead.dropWhile p = []
    rw [h.ahead, List.dropWhile_nil]
  let p (y : Char) : Bool := y == ' ' || ((s.inFlow || !s.keyAllowed) && y == '\t')
  have hmove : toNextToken (s.cursor.size + 1) s = { s with cursor := s.cursor.skipWhile p } := by
    simp only [toNextToken, Cursor.nextIs_nil h.ahead, Cursor.nextIs_nil (hskip _), Bool.and_false,
      Bool.false_eq_true, if_false]
    rfl
  have hs : Stands 0 [] { s with cursor := s.cursor.skipWhile p } :=
    ⟨hskip p, Nat.zero_le _, h.indent, h.outer, h.depth_eq, h.possible, h.around⟩
  obtain ⟨possible, around, hdrop, hs', -⟩ := hs.dropStale
  have hpeek : (s.cursor.skipWhile p).peek? = none := by
    rw [Cursor.peek?, hskip p, List.head?_nil]
  rw [tokensFrom, hmove, hdrop]
  simp only [Option.bind_eq_bind, Option.bind_some, hs'.unroll, hpeek, leaveAll, hs'.dropKey]
  rfl

/-! ## Marks -/

variable {x : Char}

theorem Stands.skip (h : Stands depth (x :: rest) s) :
    s.cursor.skip.ahead = rest ∧ rest.length ≤ s.cursor.skip.size :=
  ⟨Cursor.ahead_skip h.ahead, Nat.le_trans (Nat.le_succ _) h.size⟩

theorem Stands.openFlow (h : Stands depth (x :: rest) s) (t : Token) :
    ∃ s', s.openFlow t = some s' ∧ Stands (depth + 1) rest s' ∧ s'.tokens = s.tokens.push t := by
  obtain ⟨possible, hsave, hfree, -⟩ := h.saveKey
  refine ⟨_, by rw [Scan.openFlow, hsave]; rfl, ?_, rfl⟩
  refine ⟨h.skip.1, h.skip.2, h.indent, h.outer, congrArg (· + 1) h.depth_eq, nofun, fun k hk => ?_⟩
  rcases List.mem_cons.1 hk with hk | hk
  · exact hfree k hk.symm
  · exact h.around k hk

theorem Stands.closeFlow (h : Stands (depth + 1) (x :: rest) s) (t : Token) :
    ∃ s', s.closeFlow t = some s' ∧ Stands depth rest s' ∧ s'.tokens = s.tokens.push t := by
  obtain ⟨possible, around, ha⟩ := List.exists_cons_of_length_eq_add_one h.depth_eq
  have hdepth : around.length = depth := by
    have := h.depth_eq
    rw [ha] at this
    exact Nat.succ.inj this
  refine ⟨{ (s.emit t).moveTo s.cursor.skip with possible, around, keyAllowed := false }, ?_, ?_,
    rfl⟩
  · rw [Scan.closeFlow, h.dropKey]
    simp only [Option.bind_eq_bind, Option.bind_some, ha]
    rfl
  · exact ⟨h.skip.1, h.skip.2, h.indent, h.outer, hdepth,
      fun k hk => h.around k (ha ▸ hk ▸ List.mem_cons_self),
      fun k hk => h.around k (ha ▸ List.mem_cons_of_mem _ hk)⟩

/-- No block is opened inside of brackets. -/
theorem Stands.roll (h : Stands (depth + 1) rest s) (column : Nat) (number : Option Nat)
    (t : Token) : s.roll column number t = s := by
  have hflow : s.inFlow = true := h.inFlow
  exact if_neg (by rw [hflow]; exact Bool.false_ne_true)

theorem Stands.allowed (h : Stands (depth + 1) rest s) :
    ¬ (!s.inFlow && !s.keyAllowed) = true := by
  have hflow : s.inFlow = true := h.inFlow
  rw [hflow]
  exact Bool.false_ne_true

/-- The mark of a key inside of brackets; no key of another form starts behind it. -/
theorem Stands.keyAt (h : Stands (depth + 1) (x :: rest) s) :
    ∃ s', s.keyAt = some s' ∧ Stands (depth + 1) rest s' ∧ s'.tokens = s.tokens.push .key ∧
      s'.keyAllowed = false ∧ s'.possible = none := by
  refine ⟨{ (s.emit .key).moveTo s.cursor.skip with possible := none, keyAllowed := !s.inFlow },
    ?_, ?_, rfl, congrArg not h.inFlow, rfl⟩
  · rw [Scan.keyAt, if_neg h.allowed]
    simp only [h.roll, h.dropKey, Option.bind_eq_bind, Option.bind_some]
    rfl
  · exact ⟨h.skip.1, h.skip.2, h.indent, h.outer, h.depth_eq, nofun, h.around⟩

/-- The mark of a value inside of brackets, behind a key that has a mark of its own. -/
theorem Stands.valueAt (h : Stands (depth + 1) (x :: rest) s) (hnone : s.possible = none) :
    ∃ s', s.valueAt = some s' ∧ Stands (depth + 1) rest s' ∧ s'.tokens = s.tokens.push .value := by
  refine ⟨{ (s.emit .value).moveTo s.cursor.skip with keyAllowed := !s.inFlow }, ?_, ?_, rfl⟩
  · simp only [Scan.valueAt, hnone, h.roll, if_neg h.allowed]
  · exact ⟨h.skip.1, h.skip.2, h.indent, h.outer, h.depth_eq, h.possible, h.around⟩

/-! ## Scalars -/

/-- A scalar that may be a key. Where no key may start, none is remembered. -/
theorem Stands.keyLike {ahead : List Char} {t : Token} {c : Cursor} (h : Stands depth ahead s)
    (hahead : c.ahead = rest) (hsize : rest.length ≤ c.size) :
    ∃ s', s.keyLike (some (t, c)) = some s' ∧ Stands depth rest s' ∧ s'.tokens = s.tokens.push t ∧
      (s.keyAllowed = false → s.possible = none → s'.possible = none) := by
  obtain ⟨possible, hsave, hfree, hsame⟩ := h.saveKey
  refine ⟨{ (s.emit t).moveTo c with possible, keyAllowed := false }, ?_, ?_, rfl,
    fun hk hp => (hsame hk).trans hp⟩
  · rw [Scan.keyLike, hsave]
    rfl
  · exact ⟨hahead, hsize, h.indent, h.outer, h.depth_eq, hfree, h.around⟩

theorem Stands.plainAt (word : List Char) (h : Stands depth (word ++ rest) s)
    (hword : IsBare word) (hrest : Ends (decide (0 < depth)) rest) :
    ∃ s', s.plainAt = some s' ∧ Stands depth rest s' ∧
      s'.tokens = s.tokens.push (.scalar (String.ofList word) .plain) := by
  obtain ⟨possible, hsave, hfree, -⟩ := h.saveKey
  have hsize : s.cursor.ahead.length ≤ s.cursor.size := h.ahead ▸ h.size
  obtain ⟨c, hscalar, hahead, hcsize⟩ :=
    plainScalar_bare (s.indent + 1).toNat hword (h.inFlow ▸ hrest) h.ahead hsize
  refine ⟨{ (s.emit (.scalar (String.ofList word) .plain)).moveTo c with
    possible, keyAllowed := false }, ?_, ?_, rfl⟩
  · rw [Scan.plainAt, hsave]
    simp only [Option.bind_eq_bind, Option.bind_some]
    rw [show ({ s with possible } : Scan).inFlow = s.inFlow from rfl, hscalar]
    rfl
  · have hle : rest.length ≤ c.size := by
      rw [hcsize]
      rw [h.ahead, List.length_append] at hsize
      exact Nat.le_trans (Nat.le_add_left _ _) hsize
    exact ⟨hahead, hle, h.indent, h.outer, h.depth_eq, hfree, h.around⟩

/-! ## Tokens by their first character -/

theorem Stands.atDocumentMark (h : Stands depth (x :: rest) s) (hdash : x ≠ '-') (hdot : x ≠ '.') :
    s.cursor.atDocumentMark = false := by
  have hstarts (y : Char) (hy : x ≠ y) : s.cursor.startsWith [y, y, y] = false := by
    rw [Cursor.startsWith, h.ahead, List.isPrefixOf_cons_cons,
      beq_eq_false_iff_ne.2 (Ne.symm hy), Bool.false_and]
  simp only [Cursor.atDocumentMark, hstarts '-' hdash, hstarts '.' hdot, Bool.or_self,
    Bool.and_false, Bool.false_and]

/-- The scanner goes from one state to another and reads some tokens on the way, with no more turns
than characters. -/
structure Passes (ts : List Token) (s s' : Scan) : Prop where
  tokens : s'.tokens.toList = s.tokens.toList ++ ts
  turns : ∃ k, k + s'.cursor.ahead.length ≤ s.cursor.ahead.length ∧
    ∀ n, tokensFrom (n + k) s = tokensFrom n s'

namespace Passes

variable {ts us : List Token} {t : Token} {s' s'' : Scan}

theorem refl (s : Scan) : Passes [] s s :=
  ⟨(List.append_nil _).symm, 0, Nat.le_of_eq (Nat.zero_add _), fun _ => rfl⟩

theorem trans (h : Passes ts s s') (h' : Passes us s' s'') : Passes (ts ++ us) s s'' := by
  obtain ⟨k, hk, hrun⟩ := h.turns
  obtain ⟨k', hk', hrun'⟩ := h'.turns
  refine ⟨by rw [h'.tokens, h.tokens, List.append_assoc], k' + k, by omega, fun n => ?_⟩
  rw [← Nat.add_assoc, hrun, hrun']

end Passes

variable (lead : List Char) {rest' : List Char} {depth' : Nat} {t : Token} {P : Scan → Prop}

/-- **One turn of the scanner**: it skips spaces and reads the token that starts with `x`. -/
theorem Stands.turn (h : Stands depth (lead ++ x :: rest) s) (hlead : ∀ c ∈ lead, c = ' ')
    (hx : StartsToken x) (hlength : rest'.length ≤ rest.length)
    (htoken : ∀ s₁, Stands depth (x :: rest) s₁ → s₁.keyAllowed = s.keyAllowed →
      (s.possible = none → s₁.possible = none) →
      ∃ s', s₁.tokenAt x = some s' ∧ Stands depth' rest' s' ∧ s'.tokens = s₁.tokens.push t ∧ P s') :
    ∃ s', Passes [t] s s' ∧ Stands depth' rest' s' ∧ P s' := by
  obtain ⟨s₁, h₁, htokens, hallowed, hnone, hnext⟩ := h.next hlead hx
  obtain ⟨s', hs', hstands, hpush, hP⟩ := htoken s₁ h₁ hallowed hnone
  -- The first character is gone, so one turn is paid for.
  refine ⟨s', ⟨?_, 1, ?_, fun n => ?_⟩, hstands, hP⟩
  · rw [hpush, htokens, Array.toList_push]
  · rw [hstands.ahead, h.ahead, List.length_append, List.length_cons]
    omega
  · rw [hnext, hs']
    rfl

/-- A turn at a mark. -/
theorem Stands.mark (h : Stands depth (lead ++ x :: rest) s) (hlead : ∀ c ∈ lead, c = ' ')
    (hx : x ∈ marks) (htoken : ∀ s₁, Stands depth (x :: rest) s₁ →
      s₁.cursor.atDocumentMark = false → (s.possible = none → s₁.possible = none) →
      ∃ s', s₁.tokenAt x = some s' ∧ Stands depth' rest s' ∧ s'.tokens = s₁.tokens.push t) :
    ∃ s', Passes [t] s s' ∧ Stands depth' rest s' := by
  obtain ⟨hstarts, hdash, hdot⟩ := startsToken_of_mem_marks x hx
  have hle : rest.length ≤ rest.length := Nat.le_refl _
  have hturn := h.turn lead (P := fun _ => True) hlead hstarts hle fun s₁ h₁ _ hnone => by
    obtain ⟨s', hs', hstands, hpush⟩ := htoken s₁ h₁ (h₁.atDocumentMark hdash hdot) hnone
    exact ⟨s', hs', hstands, hpush, trivial⟩
  exact hturn.imp fun _ hs' => ⟨hs'.1, hs'.2.1⟩

/-- A mark that opens brackets. -/
theorem Stands.opens (h : Stands depth (lead ++ x :: rest) s) (hlead : ∀ c ∈ lead, c = ' ')
    (hx : x = '[' ∧ t = .flowSequenceStart ∨ x = '{' ∧ t = .flowMappingStart) :
    ∃ s', Passes [t] s s' ∧ Stands (depth + 1) rest s' := by
  have hmem : x ∈ marks := by rcases hx with ⟨rfl, -⟩ | ⟨rfl, -⟩ <;> decide
  refine h.mark lead hlead hmem fun s₁ h₁ hmark _ => ?_
  have htoken : s₁.tokenAt x = s₁.openFlow t := by
    rcases hx with ⟨rfl, rfl⟩ | ⟨rfl, rfl⟩ <;> simp [tokenAt, hmark]
  rw [htoken]
  exact h₁.openFlow t

/-- A mark that closes brackets. -/
theorem Stands.closes (h : Stands (depth + 1) (x :: rest) s)
    (hx : x = ']' ∧ t = .flowSequenceEnd ∨ x = '}' ∧ t = .flowMappingEnd) :
    ∃ s', Passes [t] s s' ∧ Stands depth rest s' := by
  have hmem : x ∈ marks := by rcases hx with ⟨rfl, -⟩ | ⟨rfl, -⟩ <;> decide
  refine h.mark [] nofun hmem fun s₁ h₁ hmark _ => ?_
  have htoken : s₁.tokenAt x = s₁.closeFlow t := by
    rcases hx with ⟨rfl, rfl⟩ | ⟨rfl, rfl⟩ <;> simp [tokenAt, hmark]
  rw [htoken]
  exact h₁.closeFlow t

theorem Stands.comma (h : Stands depth (',' :: rest) s) :
    ∃ s', Passes [.flowEntry] s s' ∧ Stands depth rest s' := by
  refine h.mark [] nofun (by decide) fun s₁ h₁ hmark _ => ?_
  refine ⟨{ (s₁.emit .flowEntry).moveTo s₁.cursor.skip with possible := none, keyAllowed := true },
    ?_, ?_, rfl⟩
  · simp [tokenAt, hmark, h₁.dropKey, emit, moveTo]
  · exact ⟨h₁.skip.1, h₁.skip.2, h₁.indent, h₁.outer, h₁.depth_eq, nofun, h₁.around⟩

/-- The mark of a key; behind it no key of another form starts. -/
theorem Stands.question (h : Stands (depth + 1) (lead ++ '?' :: rest) s)
    (hlead : ∀ c ∈ lead, c = ' ') :
    ∃ s', Passes [.key] s s' ∧ Stands (depth + 1) rest s' ∧ s'.keyAllowed = false ∧
      s'.possible = none := by
  refine h.turn lead hlead (by decide) (Nat.le_refl _) fun s₁ h₁ _ _ => ?_
  have hflow : s₁.inFlow = true := h₁.inFlow
  have htoken : s₁.tokenAt '?' = s₁.keyAt := by
    simp [tokenAt, h₁.atDocumentMark (by decide) (by decide), hflow]
  rw [htoken]
  exact h₁.keyAt

/-- The mark of a value, behind a key that has a mark of its own. -/
theorem Stands.colon (h : Stands (depth + 1) (':' :: rest) s) (hnone : s.possible = none) :
    ∃ s', Passes [.value] s s' ∧ Stands (depth + 1) rest s' := by
  refine h.mark [] nofun (by decide) fun s₁ h₁ hmark hp => ?_
  have hflow : s₁.inFlow = true := h₁.inFlow
  have htoken : s₁.tokenAt ':' = s₁.valueAt := by simp [tokenAt, hmark, hflow]
  rw [htoken]
  exact h₁.valueAt (hp hnone)

/-- **A text in quotes** is a scalar with this text. -/
theorem Stands.quoted {text : String} (h : Stands depth (lead ++ (inQuotes text ++ rest)) s)
    (hlead : ∀ c ∈ lead, c = ' ') :
    ∃ s', Passes [.scalar text .quoted] s s' ∧ Stands depth rest s' ∧
      (s.keyAllowed = false → s.possible = none → s'.possible = none) := by
  rw [inQuotes_append] at h
  refine h.turn lead hlead (by decide) ?_ fun s₁ h₁ hallowed hp => ?_
  · rw [List.length_append, List.length_cons]
    omega
  · have hahead := h₁.ahead.trans (inQuotes_append text rest).symm
    obtain ⟨c, hscalar, hbehind, hsize⟩ := quotedScalar_inQuotes hahead (h₁.ahead ▸ h₁.size)
    have hle : rest.length ≤ c.size := by
      have := h₁.size
      rw [List.length_cons, List.length_append, List.length_cons] at this
      omega
    have htoken : s₁.tokenAt '\x22' = s₁.keyLike (some (.scalar text .quoted, c)) := by
      simp [tokenAt, h₁.atDocumentMark (by decide) (by decide), hscalar]
    rw [htoken]
    obtain ⟨s', hs', hstands, hpush, hnone⟩ := h₁.keyLike (t := .scalar text .quoted) hbehind hle
    exact ⟨s', hs', hstands, hpush, fun hk hpossible => hnone (hallowed.trans hk) (hp hpossible)⟩

/-- A letter or a digit starts a plain scalar, and so does a minus in front of one. -/
theorem plainStarts_bare {word : List Char} (h : Stands depth (x :: (word ++ rest)) s)
    (hword : IsBare (x :: word)) :
    s.plainStarts x = true ∧ (x == '-' && s.cursor.isBlankAt 1) = false := by
  rcases hword.2 with ⟨y, after, heq, hy⟩ | ⟨y, after, heq, hy⟩
  · obtain ⟨rfl, rfl⟩ := List.cons.inj heq
    have hfree : (!(isBlank x || isBreak x || "-?:,[]\x7b\x7d#&*!|>'\"%@`".contains x)) = true := by
      rw [String.contains_char_eq]
      exact Ascii.forall_alphanum (p := fun c => (!(isBlank c || isBreak c ||
        decide (c ∈ "-?:,[]\x7b\x7d#&*!|>'\"%@`".toList))) = true) (by decide +kernel) hy
    have hdash : (x == '-') = false := Bool.beq_comm.trans (ne_of_isAlphanum hy '-' (by decide))
    exact ⟨by rw [plainStarts, hfree, Bool.true_or, Bool.true_or], by rw [hdash, Bool.false_and]⟩
  · obtain ⟨rfl, rfl⟩ := List.cons.inj heq
    have hnext : s.cursor.ahead[1]? = some y := by rw [h.ahead]; rfl
    have hinside := isBare_inside (hword.1 y (List.mem_cons_of_mem _ List.mem_cons_self))
    constructor
    · simp only [plainStarts, hnext, Option.any_some, hinside.1, Bool.not_false, Bool.and_true,
        beq_self_eq_true, Bool.or_true, Bool.true_or]
    · simp only [Cursor.isBlankAt, hnext, Option.all_some, hinside.1, hinside.2.1, Bool.or_self,
        Bool.and_false]

theorem tokenAt_bare {word : List Char} (h : Stands depth (x :: (word ++ rest)) s)
    (hword : IsBare (x :: word)) : s.tokenAt x = s.plainAt := by
  obtain ⟨hstarts, hdash⟩ := plainStarts_bare h hword
  have hmark := atDocumentMark_bare hword h.ahead
  have hne (y : Char) (hy : isBare y = false) : (x == y) = false :=
    beq_eq_false_iff_ne.2 (Ascii.ne_of_mem_class (hword.1 x List.mem_cons_self) hy)
  simp only [tokenAt, hmark, hdash, hstarts, hne '%' (by decide), hne '[' (by decide),
    hne ']' (by decide), hne '{' (by decide), hne '}' (by decide), hne ',' (by decide),
    hne '?' (by decide), hne ':' (by decide), hne '*' (by decide), hne '&' (by decide),
    hne '!' (by decide), hne '|' (by decide), hne '>' (by decide), hne '\x27' (by decide),
    hne '\x22' (by decide), Bool.and_false, Bool.false_and, Bool.or_self, Bool.false_eq_true,
    if_false, if_true]

/-- **A bare word** is a plain scalar. -/
theorem Stands.bare {word : String} (h : Stands depth (lead ++ (word.toList ++ rest)) s)
    (hlead : ∀ c ∈ lead, c = ' ') (hword : IsBare word.toList)
    (hrest : Ends (decide (0 < depth)) rest) :
    ∃ s', Passes [.scalar word .plain] s s' ∧ Stands depth rest s' := by
  obtain ⟨x, after, hchars⟩ : ∃ x after, word.toList = x :: after := by
    rcases hword.2 with ⟨x, after, h, -⟩ | ⟨x, after, h, -⟩ <;> exact ⟨_, _, h⟩
  have htext : String.ofList (x :: after) = word := by rw [← hchars, String.ofList_toList]
  rw [hchars] at h hword
  have hx := hword.1 x List.mem_cons_self
  have hstarts : StartsToken x := ⟨(isBare_inside hx).1, (isBare_inside hx).2.1,
    Ascii.ne_of_mem_class hx (by decide), Ascii.ne_of_mem_class hx (by decide)⟩
  have hlength : rest.length ≤ (after ++ rest).length := by
    rw [List.length_append]
    exact Nat.le_add_left _ _
  have hturn := h.turn lead (P := fun _ => True) hlead hstarts hlength fun s₁ h₁ _ _ => by
    obtain ⟨s', hs', hstands, hpush⟩ := Stands.plainAt (x :: after) h₁ hword hrest
    exact ⟨s', (tokenAt_bare h₁ hword).trans hs', hstands, htext ▸ hpush, trivial⟩
  exact hturn.imp fun _ hs' => ⟨hs'.1, hs'.2.1⟩

end Scan

end Views.Yaml
