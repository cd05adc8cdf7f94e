import Views.Evaluation.Lookup
import Views.Json.Numeral

/-!
# Helpers

What each helper does when it is called. A helper that gives a value can be used as an argument; any
other one used there gives the text that it writes. A helper that tells a truth chooses, as a block,
between its body and its alternative.
-/

set_option autoImplicit false

namespace Views.Evaluation

/-- A call of a helper: its evaluated arguments and the rendering of its body and alternative. -/
structure Invocation where
  name : String
  args : List Evaluated
  hash : Table Evaluated
  blockParams : List String
  body : Option (Render Unit)
  alternative : Option (Render Unit)

/-- Does nothing where there is no body. -/
def orNothing : Option (Render Unit) → Render Unit
  | some r => r
  | none => pure ()

/-- The argument at a place, which must be there. -/
def Invocation.arg (inv : Invocation) (helper : String) (index : Nat) : Except Reason Evaluated :=
  match inv.args[index]? with
  | some e => .ok e
  | none => .error (.missingArgument helper index)

/-! ## Helpers that give a value -/

/-- The order of two values: numbers by value, also against a text that is a numeral, texts, and
truth values. -/
def order? : Value → Value → Option Ordering
  | .number m, .number n => some (m.compare n)
  | .string s, .string t => some (compare s t)
  | .bool a, .bool b => some (compare a.toNat b.toNat)
  | .number m, .string t => (Json.number? t).map m.compare
  | .string s, .number n => (Json.number? s).map fun m => m.compare n
  | _, _ => none

/-- Whether a comparison holds; values without an order are neither greater nor less. -/
def holds (c : Comparison) (v w : Value) : Bool :=
  match c with
  | .equal => v.same w
  | .notEqual => !v.same w
  | .greater => order? v w == some .gt
  | .greaterOrEqual => order? v w == some .gt || order? v w == some .eq
  | .less => order? v w == some .lt
  | .lessOrEqual => order? v w == some .lt || order? v w == some .eq

/-- The value of an argument that must be there, and in a strict registry must have a value. -/
def required (env : Environment) (e : Option Evaluated) (reason : Reason) : Except Reason Value :=
  match e with
  | none => .error reason
  | some e => if env.registry.strict && e.value?.isNone then .error reason else .ok e.value

/-- The element of a list or an object. -/
def elementOf (collection index : Value) : Option Value :=
  match collection, index with
  | .array items, .number (.integer n) => if 0 ≤ n then items[n.toNat]? else none
  | .object fields, .string key => Table.get? fields key
  | _, _ => none

/-- The size of a text in bytes, of a list or of an object. -/
def sizeOf : Value → Nat
  | .string s => s.utf8ByteSize
  | .array items => items.length
  | .object fields => fields.length
  | _ => 0

/-- The truth that a helper tells; none for a helper that tells none. -/
def truthOf? (env : Environment) (h : Helper) (inv : Invocation) : Option (Except Reason Bool) :=
  match h with
  | .compare c => some do
    let name := match c with
      | .equal => "eq"
      | .notEqual => "ne"
      | .greater => "gt"
      | .greaterOrEqual => "gte"
      | .less => "lt"
      | .lessOrEqual => "lte"
    let v ← required env inv.args[0]? (.missingArgument name 0)
    let w ← required env inv.args[1]? (.missingArgument name 1)
    pure (holds c v w)
  | .all => some (.ok (inv.args.all fun e => e.value.isTrue false))
  | .any => some (.ok (inv.args.any fun e => e.value.isTrue false))
  | .negation => some do
    let v ← required env inv.args[0]? (.missingArgument "not" 0)
    pure (!v.isTrue false)
  | _ => none

/-- The value that a helper gives; none for a helper that writes. -/
def valueOf? (env : Environment) (h : Helper) (inv : Invocation) : Option (Except Reason Value) :=
  match h with
  | .lookup => some do
    let collection ← inv.arg "lookup" 0
    let index ← inv.arg "lookup" 1
    match elementOf collection.value index.value with
    | some v => pure v
    | none => if env.registry.strict then throw (.missingValue none) else pure .null
  | .size => some do
    let v ← required env inv.args[0]? (.missingNamedArgument "len" "x")
    pure (Value.ofNat (sizeOf v))
  | h => (truthOf? env h inv).map (·.map Value.bool)

/-! ## Helpers that write -/

/-- The innermost context. -/
def State.context (env : Environment) (s : State) : Context :=
  s.contexts.head?.getD (.of env.root)

/-- Renders with one more context. -/
def withContext (c : Context) (r : Render Unit) : Render Unit := do
  modify fun s => { s with contexts := c :: s.contexts }
  r
  modify fun s => { s with contexts := s.contexts.tail }

/-- The block parameters of a loop step. -/
def stepParams (names : List String) (value key : Value) : Table Value :=
  match names with
  | [name] => Table.ofList [(name, value)]
  | [name, second] => Table.ofList [(name, value), (second, key)]
  | _ => []

/-- The contexts of a loop over a list. -/
def listSteps (names : List String) (items : List Value) : List Context :=
  items.zipIdx.map fun (v, i) =>
    { base := v
      loopVariables := Table.ofList
        [("first", .bool (i == 0)), ("last", .bool (i + 1 == items.length)), ("index", .ofNat i)]
      params := stepParams names v (.ofNat i)
      inlines := [] }

/-- The contexts of a loop over an object. -/
def fieldSteps (names : List String) (fields : Fields) : List Context :=
  fields.zipIdx.map fun ((k, v), i) =>
    { base := v
      loopVariables := Table.ofList
        [("first", .bool (i == 0)), ("last", .bool (i + 1 == fields.length)), ("index", .ofNat i),
          ("key", .string k)]
      params := stepParams names v (.string k)
      inlines := [] }

/-- Renders a body once for each step of a loop. The steps share one context, so a partial defined
in a step is there in the steps after it. -/
def loop (env : Environment) (steps : List Context) (body : Render Unit) : Render Unit :=
  withContext (.of env.root) do
    steps.forM fun step => do
      modify fun s =>
        { s with contexts := { step with inlines := (s.context env).inlines } :: s.contexts.tail }
      body

/-- Renders the alternative, or fails in a strict registry without one. -/
def otherwise (env : Environment) (inv : Invocation) (e : Evaluated) : Render Unit :=
  match inv.alternative with
  | some r => r
  | none => if env.registry.strict then fail (.missingValue e.raw) else pure ()

/-- The loop over a value. -/
def runEach (env : Environment) (inv : Invocation) : Render Unit := do
  let e ← liftReason (inv.arg "each" 0)
  match inv.body with
  | none => pure ()
  | some body =>
    match e.value with
    | .array items =>
      if items.isEmpty && inv.alternative.isSome then otherwise env inv e
      else loop env (listSteps inv.blockParams items) body
    | .object fields =>
      if fields.isEmpty && inv.alternative.isSome then otherwise env inv e
      else loop env (fieldSteps inv.blockParams fields) body
    | _ => otherwise env inv e

/-- The body with a value as context, and with the loop variables of the context around it. -/
def runWithin (env : Environment) (inv : Invocation) : Render Unit := do
  let e ← liftReason (inv.arg "with" 0)
  if e.value.isTrue false then
    let params := match inv.blockParams with
      | [name] => Table.ofList [(name, e.value)]
      | _ => []
    let loopVariables := ((← get).context env).loopVariables
    withContext { Context.of e.value with loopVariables, params } (orNothing inv.body)
  else otherwise env inv e

/-- The body or the alternative, by the truth of a value. -/
def runCondition (positive : Bool) (inv : Invocation) : Render Unit := do
  let e ← liftReason (inv.arg "if" 0)
  let includeZero := match (inv.hash.get? "includeZero").map Evaluated.value with
    | some (.bool b) => b
    | _ => false
  if e.value.isTrue includeZero == positive then orNothing inv.body
  else orNothing inv.alternative

/-- The levels of a log message, in any case of letters. -/
def logLevels : List String := ["error", "warn", "info", "debug", "trace"]

/-- A log message with a valid level. -/
def runLog (inv : Invocation) : Render Unit :=
  match (inv.hash.get? "level").map Evaluated.value with
  | some (.string level) =>
    if logLevels.contains level.toLower then pure () else fail (.badLevel level)
  | _ => pure ()

/-- The name of a content block. -/
def blockName (inv : Invocation) : Except Reason String :=
  match (inv.args[0]?).map Evaluated.value with
  | some (.string name) => .ok name
  | _ => .error (.blockNameExpected inv.name)

/-- Writes a content block and empties it; an empty one gives way to the body. -/
def runEmitBlock (inv : Invocation) : Render Unit := do
  let name ← liftReason (blockName inv)
  let content ← modifyGet fun s =>
    let (content, scope) := s.scope.consume name
    (content, { s with scope })
  match content == "", inv.body with
  | true, some body => body
  | _, _ => emit content

/-- Renders the body into a content block. -/
def runCaptureBlock (inv : Invocation) : Render Unit := do
  let name ← liftReason (blockName inv)
  let fragment ← capture (orNothing inv.body)
  modify fun s => { s with scope := s.scope.append name fragment }

/-- Renders the body or the alternative by a truth; a tag without a body writes the truth. -/
def runTest (inv : Invocation) (truth : Bool) : Render Unit :=
  match inv.body with
  | some body => if truth then body else orNothing inv.alternative
  | none => emit (toString truth)

/-- Runs a helper. -/
def runHelper (env : Environment) (h : Helper) (inv : Invocation) : Render Unit :=
  match truthOf? env h inv, valueOf? env h inv with
  | some truth, _ => do runTest inv (← liftReason truth)
  | none, some value => do writeValue env (← liftReason value)
  | none, none =>
    match h with
    | .condition positive => runCondition positive inv
    | .each => runEach env inv
    | .within => runWithin env inv
    | .verbatim => orNothing inv.body
    | .log => runLog inv
    | .emitBlock => runEmitBlock inv
    | .captureBlock => runCaptureBlock inv
    | .ofScopeData text => do emit (text (← get).scope.data)
    | _ => pure ()

/-- The helper of a name, or the one that stands in for missing helpers. -/
def findHelper (env : Environment) (name fallback : String) : Except Reason Helper :=
  match env.registry.helpers.get? name <|> env.registry.helpers.get? fallback with
  | some h => .ok h
  | none => .error (.helperNotFound name)

/-- The value of a helper used as an argument: what it gives, or what it writes, unescaped. -/
def valueOfCall (env : Environment) (inv : Invocation) : Render Evaluated := do
  let h ← liftReason (findHelper env inv.name "helperMissing")
  match valueOf? env h inv with
  | some value => pure ⟨none, some (← liftReason value)⟩
  | none =>
    let before := (← get).escapeOff
    modify fun s => { s with escapeOff := true }
    let text ← capture (runHelper env h inv)
    modify fun s => { s with escapeOff := before }
    pure ⟨none, some (.string text)⟩

end Views.Evaluation
