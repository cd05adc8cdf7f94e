import Views.Evaluation.Helper

/-!
# Rendering templates

`renderTemplate` renders a tree by recursion on it. Including a partial leaves the tree, so it is
handed to a function that renders the included template; `renderNested` closes that loop and bounds
how deep partials include each other. `Registry.render` is the whole: the output of a registered
template and the scope it leaves.
-/

set_option autoImplicit false

namespace Views.Evaluation

/-! ## Parameters -/

mutual

/-- Evaluates a parameter. -/
def evalParam (env : Environment) : Param → Render Evaluated
  | .reference r => evalReference env r
  | .literal v => pure ⟨none, some v⟩
  | .call name args hash => do
    let args ← evalParams env args
    let hash ← evalHash env hash
    valueOfCall env ⟨name, args, hash, [], none, none⟩

/-- Evaluates parameters in order. -/
def evalParams (env : Environment) : List Param → Render (List Evaluated)
  | [] => pure []
  | p :: ps => do
    let e ← evalParam env p
    let es ← evalParams env ps
    pure (e :: es)

/-- Evaluates named parameters in order. -/
def evalHash (env : Environment) : List (String × Param) → Render (List (String × Evaluated))
  | [] => pure []
  | (name, p) :: ps => do
    let e ← evalParam env p
    let es ← evalHash env ps
    pure ((name, e) :: es)

end

/-! ## Tags without a body of their own -/

/-- Evaluates the arguments of a call. -/
def invocation (env : Environment) (c : Call) (body alternative : Option (Render Unit)) :
    Render Invocation := do
  let args ← evalParams env c.args
  let hash ← evalHash env c.hash
  pure ⟨c.name, args, hash, c.blockParams, body, alternative⟩

/-- Calls a helper from a tag. -/
def callHelper (env : Environment) (c : Call) (isBlock startsLine : Bool)
    (body alternative : Option (Render Unit)) : Render Unit := do
  let inv ← invocation env c body alternative
  tracked (fun s => s.indentNext || (startsLine && s.lineEnded)) do
    let fallback := if isBlock then "blockHelperMissing" else "helperMissing"
    runHelper env (← liftReason (findHelper env c.name fallback)) inv

/-- The name that a parameter stands for when it is alone in its tag. -/
def nameOf (env : Environment) : Param → Render String
  | .reference r => pure r.raw
  | .literal v => pure v.render
  | .call name args hash => do
    let e ← evalParam env (.call name args hash)
    pure e.value.render

/-- Renders a parameter that is alone in its tag: a helper of that name, or its value. -/
def renderAlone (env : Environment) (p : Param) : Render Unit := do
  let name ← nameOf env p
  if env.registry.helpers.contains name then
    let name ← nameOf env p
    callHelper env ⟨name, [], [], []⟩ false false none none
  else
    let e ← evalParam env p
    match e.value? with
    | some v => writeValue env v
    | none =>
      if env.registry.strict then fail (.missingValue e.raw)
      else
        match env.registry.helpers.get? "helperMissing" with
        | some h => runHelper env h ⟨← nameOf env p, [], [], [], none, none⟩
        | none => pure ()

/-- Renders a tag with escaping off, if it says so. -/
def escapedIf (escaped : Bool) (r : Render Unit) : Render Unit :=
  if escaped then r
  else do
    modify fun s => { s with escapeOff := true }
    r
    modify fun s => { s with escapeOff := false }

/-- Runs a decorator; the only one defines a partial for the rest of the innermost context. -/
def runDecorator (env : Environment) (c : Call) (body : Option Template) : Render Unit := do
  let inv ← invocation env c none none
  if c.name = "inline" then
    let e ← liftReason (inv.arg "inline" 0)
    match e.value, body with
    | .string name, some t =>
      modify fun s =>
        let c := s.context env
        { s with contexts := { c with inlines := c.inlines.insert name t } :: s.contexts.tail }
    | .string _, none => fail .bodyExpected
    | _, _ => fail .nameExpected
  else fail (.decoratorNotFound c.name)

/-! ## Partials -/

/-- The name of the body of the partial tag that included the current template. -/
def bodyName : String := "@partial-block"

/-- Ends the rendering if the template being rendered has this name. -/
def refuseItself (name : String) : Render Unit := do
  match (← get).current with
  | some current => if current = name then fail .selfInclusion
  | none => pure ()

/-- The template of a name: a partial defined in a context, the innermost first, or a registered
one. -/
def findPartial (env : Environment) (s : State) (name : String) : Option Template :=
  s.contexts.findSome? (fun c => c.inlines.get? name) <|> env.registry.templates.get? name

/-- The fields of a value: those of an object, or the elements of a list and the characters of a
text by their index. -/
def fieldsOf : Value → Fields
  | .object fields => fields
  | .array items => Table.ofList (items.zipIdx.map fun (v, i) => (toString i, v))
  | .string s => Table.ofList (s.toList.zipIdx.map fun (c, i) => (toString i, .string c.toString))
  | _ => []

/-- The context inside of a partial: the one around its tag, or one for its argument in the same
loop. Named arguments are block parameters, and fields stored over those of the value. -/
def partialContext (c : Context) (args : List Evaluated) (hash : Table Evaluated) : Context :=
  let inner := match args.head? with
    | some e => { Context.of e.value with loopVariables := c.loopVariables }
    | none => c
  if hash.isEmpty then inner
  else
    let params := hash.map fun (name, e) => (name, e.value)
    { inner with base := .object (Table.union (fieldsOf inner.base) params), params }

/-- Renders the template that a partial tag includes, with `enter`. The body of the tag is rendered
first, in the context of the template; it is written where that template asks for it, or in place of
a template that is missing. -/
def renderPartial (env : Environment) (enter : Template → Render Unit) (c : PartialCall)
    (body : Option (Render Unit)) : Render Unit := do
  let name ← match c.name with
    | .fixed name => pure name
    | .computed p => nameOf env p
  let args ← evalParams env c.args
  let hash ← evalHash env c.hash
  tracked (fun s => c.startsLine && (s.lineEnded || c.indent.isSome)) do
    let s ← get
    refuseItself name
    withContext (partialContext (s.context env) args hash) do
      let written ← body.mapM capture
      if name = bodyName then
        match s.body? <|> written with
        | some text => emit text
        | none => fail .partialBlockNotFound
      else
        match findPartial env (← get) name, written with
        | some t, _ =>
          let indent := match s.indent, c.indent with
            | some outer, some inner => some (outer ++ inner)
            | some outer, none => some outer
            | none, inner => inner
          modify fun s => { s with body? := written, indent }
          enter t
        | none, some text => emit text
        | none, none => fail (.partialNotFound name)
    modify fun after =>
      { after with body? := s.body?, indent := s.indent, current := s.current }

/-! ## Templates -/

mutual

/-- Renders a template; `enter` renders the templates it includes. -/
def renderTemplate (env : Environment) (enter : Template → Render Unit) : Template → Render Unit
  | .mk name elements => do
    modify fun s => { s with current := name }
    renderElements env enter name elements

/-- Renders elements in order. -/
def renderElements (env : Environment) (enter : Template → Render Unit) (template : Option String) :
    List (Element × Option Position) → Render Unit
  | [] => pure ()
  | (element, place) :: rest => do
    locate template place (renderElement env enter element)
    renderElements env enter template rest

/-- Renders an element. -/
def renderElement (env : Environment) (enter : Template → Render Unit) : Element → Render Unit
  | .text s => write s
  | .comment => pure ()
  | .value p escaped => escapedIf escaped (renderAlone env p)
  | .call c escaped => escapedIf escaped (callHelper env c false false none none)
  | .block c body none startsLine =>
    callHelper env c true startsLine (some (renderTemplate env enter body)) none
  | .block c body (some alternative) startsLine =>
    callHelper env c true startsLine (some (renderTemplate env enter body))
      (some (renderTemplate env enter alternative))
  | .inclusion c none => renderPartial env enter c none
  | .inclusion c (some body) => renderPartial env enter c (some (renderTemplate env enter body))
  | .decorator c body => runDecorator env c body

end

/-- How deep partials can include each other. The bound is one of this library: the template
language has none, and partials that include each other without end exhaust the stack there. -/
def maxNesting : Nat := 2000

/-- Renders a template whose partials include each other at most `n` deep. -/
def renderNested (env : Environment) : Nat → Template → Render Unit
  | 0, _ => fail .tooDeep
  | n + 1, t => renderTemplate env (renderNested env n) t

end Views.Evaluation

namespace Views.Registry

open Evaluation

/-- Renders the template of a key with some data; gives the output or the error, and the scope as
the rendering leaves it. -/
def render (r : Registry) (key : String) (root : Value) (scope : Scope) :
    Except RenderError String × Scope :=
  match r.templates.get? key with
  | none => (.error ⟨.templateNotFound key, none, none⟩, scope)
  | some t =>
    let (result, s) := renderNested ⟨r, root⟩ maxNesting t (State.start scope root)
    (result.map fun _ => s.out, s.scope)

end Views.Registry
