import Views.Json.Reader
import Views.Template.Cursor

/-!
# Expressions inside tags

References, literals and calls. Between the parts of a call any blanks may stand, also none; within
a name, a reference or a quoted text there are no such blanks. A literal is a JSON text, or a text
between single quotes; one that fits the grammar but denotes no value is noted in the cursor, so
that the tag it stands in can be refused.
-/

set_option autoImplicit false

namespace Views.Template

open Reader

/-! ## Names -/

/-- A character of a name. -/
def isSymbolChar (c : Char) : Bool :=
  c.isAlphanum || c == '-' || c == '_' || c == '$' || c == ':' || 0x80 ≤ c.toNat

/-- A character of the name of a partial. -/
def isPartialChar (c : Char) : Bool :=
  c.isAlphanum || c == '-' || c == '_' || c == '@' || c == '/' || c == '.' || 0x80 ≤ c.toNat

/-- A name. -/
def identifier : Reader String := String.ofList <$> takeWhile1 isSymbolChar

/-- One step of a name between single quotes: an escaped quote or any other character. -/
def quotedNameChar : Reader Unit :=
  word ['\\', '\x27'] <|> (do let _ ← charIf (· != '\x27'))

/-- Repeats a reader while it succeeds, at most `n` times, with nothing between. -/
def closely (r : Reader Unit) : Nat → Reader Nat
  | 0 => pure 0
  | n + 1 => fun c =>
    match r c with
    | some (_, d) => (closely r n d).map fun (k, e) => (k + 1, e)
    | none => some (0, c)

/-- Repeats a reader while it succeeds, with nothing between, and counts the times. -/
def closelyAll (r : Reader Unit) : Reader Nat := fun c => closely r c.size c

/-- The name of a partial: a run of its characters, or a name between single quotes, which stay part
of it. -/
def partialIdentifier : Reader String :=
  (String.ofList <$> takeWhile1 isPartialChar) <|>
    textOf (do
      word ['\x27']
      if (← closelyAll quotedNameChar) = 0 then failure
      word ['\x27'])

/-! ## References -/

/-- The mark between two keys. -/
def separator : Reader Unit := word ['/'] <|> word ['.']

/-- A key: a name, or any text between square brackets. -/
def key : Reader String :=
  identifier <|> (do
    word ['[']
    let text ← takeWhile (· != ']')
    word [']']
    pure (String.ofList text))

/-- A step to the surrounding context. -/
def stepUp : Reader Unit := do word ['.', '.']; separator

/-- The keys of a reference after the first. -/
def moreKeys : Nat → Reader (List String)
  | 0 => pure []
  | n + 1 => fun c =>
    match (separator *> key) c with
    | some (k, d) => (moreKeys n d).map fun (ks, e) => (k :: ks, e)
    | none => some ([], c)

/-- What a reference with the given parts looks for. A key `this` stands for the value itself. -/
def targetOf (root inLoop : Bool) (ups : Nat) (keys : List String) : Target :=
  let keys := keys.filter (· != "this")
  if root then .fromRoot keys
  else if inLoop then
    match keys with
    | name :: _ => .loopVariable ups name
    | [] => .relative 0 []
  else .relative ups keys

/-- A reference without its spelling. -/
def target : Reader Target := do
  let _ ← possibly ((do word ['t', 'h', 'i', 's']; separator) <|> word ['.', '/'])
  let root ← possibly (do word ['@', 'r', 'o', 'o', 't']; separator)
  let inLoop ← possibly (word ['@'])
  let ups ← closelyAll stepUp
  let first ← key
  let rest ← moreKeys (← here).size
  pure (targetOf root.isSome inLoop.isSome ups (first :: rest))

/-- A reference. -/
def reference : Reader Reference := fun c =>
  (target c).map fun (t, d) => (⟨String.ofList (c.upTo d), t⟩, d)

/-! ## Literals -/

/-- One character of a quoted text, or one of its escapes. -/
def quotedChar (quote : Char) : Reader Unit :=
  (do let _ ← charIf fun x => x != quote && x != '\\') <|>
  (do
    word ['\\']
    let _ ← charIf fun x => x == quote || ['\\', '/', 'b', 'f', 'n', 'r', 't'].contains x) <|>
  (do
    word ['\\', 'u']
    let digits ← takeUpTo (fun x => (Json.hexValue? x).isSome) 4
    if digits.length < 4 then failure)

/-- A text between the given quotes. -/
def quotedWith (quote : Char) : Reader Unit := do
  word [quote]
  let _ ← closelyAll (quotedChar quote)
  word [quote]

/-- A text between quotes of either kind. -/
def quoted : Reader Unit := quotedWith '\x22' <|> quotedWith '\x27'

/-- The end of a word. -/
def wordEnd : Reader Unit := isNotHere (charIf isSymbolChar)

/-- A numeral. -/
def numeral : Reader Unit := do
  let _ ← possibly (word ['-'])
  let _ ← takeWhile1 Char.isDigit
  let _ ← possibly (word ['.'])
  let _ ← takeWhile Char.isDigit
  let _ ← possibly (do
    word ['E']
    let _ ← possibly (word ['-'])
    takeWhile1 Char.isDigit)
  wordEnd

mutual

/-- A literal, nested at most as deep as the first argument says. -/
def literalText : Nat → Reader Unit
  | 0 => failure
  | depth + 1 =>
    quoted <|> arrayText depth <|> objectText depth <|> numeral <|>
      (do word ['n', 'u', 'l', 'l']; wordEnd) <|>
      (do word ['t', 'r', 'u', 'e'] <|> word ['f', 'a', 'l', 's', 'e']; wordEnd)

/-- Literals between square brackets. -/
def arrayText (depth : Nat) : Reader Unit := do
  word ['[']
  skip
  let _ ← possibly (literalText depth)
  let _ ← repeatUpTo (do word [',']; skip; literalText depth) (← here).size
  skip
  word [']']

/-- Fields between braces. -/
def objectText (depth : Nat) : Reader Unit := do
  word ['\x7b']
  skip
  let _ ← possibly (do quoted; skip; word [':']; skip; literalText depth)
  let _ ← repeatUpTo (do word [',']; skip; quoted; skip; word [':']; skip; literalText depth)
    (← here).size
  skip
  word ['\x7d']

end

/-- The text between single quotes with the escapes that double quotes need. -/
def requote : List Char → List Char
  | '\\' :: '\x27' :: rest => '\x27' :: requote rest
  | '\x22' :: rest => '\\' :: '\x22' :: requote rest
  | c :: rest => c :: requote rest
  | [] => []

/-- The value that a literal denotes. -/
def literalValue? (text : String) : Option Value :=
  match text.toList with
  | '\x27' :: rest => Json.read? (String.ofList ('\x22' :: requote rest.dropLast ++ ['\x22']))
  | _ => Json.read? text

/-- A literal; one without a value counts as null and is noted in the cursor. -/
def literal : Reader Value := fun c =>
  match textOf (literalText c.size) c with
  | none => none
  | some (text, d) =>
    match literalValue? text with
    | some v => some (v, d)
    | none => some (.null, { d with misread := d.misread <|> some text })

/-! ## Calls -/

/-- An argument: named, or known by its place. -/
abbrev Argument := Sum (String × Param) Param

/-- The words that end the arguments of a call. -/
def keyword : Reader Unit := do
  word ['a', 's'] <|> word ['e', 'l', 's', 'e']
  skip
  wordEnd

mutual

/-- A parameter. -/
def param : Nat → Reader Param
  | 0 => failure
  | depth + 1 => do
    isNotHere keyword
    skip
    Param.literal <$> literal <|> Param.reference <$> reference <|> parenthesized depth

/-- A call between parentheses. -/
def parenthesized (depth : Nat) : Reader Param := do
  word ['(']
  skip
  let c ←
    (do
      let name ← identifier
      let first ← skip *> argument depth
      let rest ← repeatUpTo (argument depth) (← here).size
      let all := first :: rest
      pure (Param.call name (all.filterMap Sum.getRight?)
        (Table.ofList (all.filterMap Sum.getLeft?)))) <|>
    (do
      let r ← reference
      pure (Param.call r.raw [] []))
  skip
  word [')']
  pure c

/-- An argument of a call. -/
def argument (depth : Nat) : Reader Argument :=
  (do
    let name ← identifier
    skip
    word ['=']
    skip
    let p ← param depth
    pure (Sum.inl (name, p))) <|>
  Sum.inr <$> param depth

end

/-- Arguments, as many as there are. -/
def arguments : Reader (List Argument) := fun c =>
  repeatUpTo (argument c.size) c.size c

/-- The names of block parameters. -/
def blockParams : Reader (List String) := do
  word ['a', 's']
  skip
  word ['|']
  skip
  let first ← identifier
  skip
  let second ← possibly identifier
  skip
  word ['|']
  pure (first :: second.toList)

/-- The call with a name and arguments. -/
def callOf (name : String) (arguments : List Argument) (blockParams : List String) : Call :=
  ⟨name, arguments.filterMap Sum.getRight?, Table.ofList (arguments.filterMap Sum.getLeft?),
    blockParams⟩

/-- The call of a block tag. -/
def blockCall : Reader Call := do
  let name ← identifier
  let args ← arguments
  skip
  let params ← possibly blockParams
  pure (callOf name args (params.getD []))

/-- A parameter that stands alone in its tag. -/
def alone : Reader Param := fun c =>
  (parenthesized c.size <|> Param.reference <$> reference) c

/-- What a tag without a mark holds: a call with arguments, or a parameter alone. -/
def mustache : Reader (Sum Call Param) :=
  (do
    let name ← identifier
    let args ← arguments
    if args.isEmpty then failure
    pure (Sum.inl (callOf name args []))) <|>
  Sum.inr <$> alone

/-- What a partial tag includes, with its arguments. -/
def partialCall : Reader PartialCall := do
  let name ← PartialName.fixed <$> partialIdentifier <|>
    (fun p => match p with
      | Param.reference r => PartialName.fixed r.raw
      | p => PartialName.computed p) <$> alone
  let args ← arguments
  pure ⟨name, args.filterMap Sum.getRight?, Table.ofList (args.filterMap Sum.getLeft?), none, false⟩

end Views.Template
