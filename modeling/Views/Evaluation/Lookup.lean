import Views.Evaluation.State
import Views.Number.Decimal

/-!
# Looking up references

A reference names a block parameter, a loop variable, or keys below the current value, an outer one
or the data of the whole render. A list is indexed by a number; any other value that is no object
has nothing below it.
-/

set_option autoImplicit false

namespace Views.Evaluation

/-- The index that a key denotes: decimal digits, with an optional plus sign, that fit 64 bits. -/
def index? (key : String) : Option Nat :=
  let ds := match key.toList with
    | '+' :: rest => rest
    | ds => ds
  if ds.isEmpty || !ds.all Char.isDigit then none
  else
    let n := Extended.ofDigits ds
    if n < 1 <<< 64 then some n else none

/-- The value below `v` along some keys, if there is one. -/
def below (v : Value) : List String → Except Reason (Option Value)
  | [] => .ok (some v)
  | key :: keys =>
    match v with
    | .object fields =>
      match Table.get? fields key with
      | some w => below w keys
      | none => .ok none
    | .array items =>
      match index? key with
      | none => .error (.badIndex key)
      | some n =>
        match items[n]? with
        | some w => below w keys
        | none => .ok none
    | _ => .ok none

/-- The value of a block parameter, from the innermost context that has it. -/
def blockParam? (contexts : List Context) (name : String) : Option Value :=
  contexts.findSome? fun c => c.params.get? name

/-- The value that a target names, if there is one. -/
def resolve (root : Value) (contexts : List Context) : Target → Except Reason (Option Value)
  | .loopVariable level name => .ok ((contexts[level]?).bind fun c => c.loopVariables.get? name)
  | .fromRoot keys => below root keys
  | .relative ups keys =>
    match keys.head?.bind (blockParam? contexts) with
    | some v => below v keys.tail
    | none =>
      let context := contexts[ups]? <|> contexts.head?
      below ((context.map Context.base).getD root) keys

/-- A parameter with its spelling, if it is a reference, and its value, if it has one. -/
structure Evaluated where
  raw : Option String
  value? : Option Value

/-- The value of a parameter; a missing one counts as null. -/
def Evaluated.value (e : Evaluated) : Value := e.value?.getD .null

/-- Ends an evaluation, or goes on with a value. -/
def liftReason {α : Type} : Except Reason α → Render α
  | .ok a => pure a
  | .error reason => fail reason

/-- Evaluates a reference. -/
def evalReference (env : Environment) (r : Reference) : Render Evaluated := do
  let s ← get
  let value ← liftReason (resolve env.root s.contexts r.target)
  pure ⟨some r.raw, value⟩

end Views.Evaluation
