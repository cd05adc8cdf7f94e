import Views.Config.Basic

/-!
# Configurations as documents

A document gives options by their keys. Decoding overlays the options that it gives on the defaults,
whatever their order; keys that are no options are ignored. How a part of a document is read as a
text, a truth value or an object depends on its format, so decoding takes a `Form` of the format.
`Config.decode` and `Config.encode` are for documents that are values themselves.
-/

set_option autoImplicit false

namespace Views

/-- How the parts of a document are read, with what effects and failures. -/
structure Form (m : Type → Type) (Part : Type) where
  text : Part → m String
  /-- A text, or nothing. -/
  optionalText : Part → m (Option String)
  flag : Part → m Bool
  /-- The fields of an object, as values. -/
  fields : Part → m Fields
  /-- The parts of a document by their keys, where the given keys are known. -/
  parts : List String → Part → m (List (String × Part))

namespace TemplateOptions

/-- The keys of the options of the template compiler. -/
def keys : List String := ["strict-mode", "no-escape", "data"]

variable {m : Type → Type} [Monad m] {Part : Type}

/-- Overlays the option of a key. -/
def overlay (form : Form m Part) (o : TemplateOptions) (entry : String × Part) :
    m TemplateOptions :=
  let (key, part) := entry
  if key = "strict-mode" then return { o with strictMode := ← form.flag part }
  else if key = "no-escape" then return { o with noEscape := ← form.flag part }
  else if key = "data" then return { o with data := ← form.fields part }
  else return o

/-- Decodes the options of the template compiler. -/
def decodeWith (form : Form m Part) (part : Part) : m TemplateOptions :=
  form.parts keys part >>= fun entries => entries.foldlM (overlay form) {}

/-- The options as a document. -/
def encode (o : TemplateOptions) : Value :=
  .object (Table.ofList
    [("strict-mode", .bool o.strictMode), ("no-escape", .bool o.noEscape),
      ("data", .object o.data)])

end TemplateOptions

namespace Config

/-- The keys of the options of an engine. -/
def keys : List String :=
  ["view-path", "extname", "partials-path", "layouts-path", "default-layout",
    "content-helper-name", "block-helper-name", "locals", "disable-cache", "host-key",
    "template-options", "log-level"]

variable {m : Type → Type} [Monad m] {Part : Type}

/-- Overlays the option of a key. -/
def overlay (form : Form m Part) (c : Config) (entry : String × Part) : m Config :=
  let (key, part) := entry
  if key = "view-path" then return { c with viewPath := ← form.text part }
  else if key = "extname" then return { c with extname := ← form.text part }
  else if key = "partials-path" then return { c with partialsPath := ← form.text part }
  else if key = "layouts-path" then return { c with layoutsPath := ← form.text part }
  else if key = "default-layout" then
    return { c with defaultLayout := ← form.optionalText part }
  else if key = "content-helper-name" then
    return { c with contentHelperName := ← form.text part }
  else if key = "block-helper-name" then
    return { c with blockHelperName := ← form.text part }
  else if key = "locals" then return { c with locals := ← form.fields part }
  else if key = "disable-cache" then return { c with disableCache := ← form.flag part }
  else if key = "host-key" then return { c with hostKey := ← form.text part }
  else if key = "template-options" then
    return { c with templateOptions := ← TemplateOptions.decodeWith form part }
  else if key = "log-level" then return { c with logLevel := ← form.optionalText part }
  else return c

/-- Decodes a configuration. -/
def decodeWith (form : Form m Part) (part : Part) : m Config :=
  form.parts keys part >>= fun entries => entries.foldlM (overlay form) {}

/-! ## Values -/

/-- A text or null. -/
def encodeOptional : Option String → Value
  | some s => .string s
  | none => .null

/-- The configuration as a document. -/
def encode (c : Config) : Value :=
  .object (Table.ofList
    [("view-path", .string c.viewPath), ("extname", .string c.extname),
      ("partials-path", .string c.partialsPath), ("layouts-path", .string c.layoutsPath),
      ("default-layout", encodeOptional c.defaultLayout),
      ("content-helper-name", .string c.contentHelperName),
      ("block-helper-name", .string c.blockHelperName), ("locals", .object c.locals),
      ("disable-cache", .bool c.disableCache), ("host-key", .string c.hostKey),
      ("template-options", c.templateOptions.encode), ("log-level", encodeOptional c.logLevel)])

/-- Documents that are values: options have exactly their own type, and a list gives the options in
the order of their keys. -/
def valueForm : Form Option Value where
  text
    | .string s => some s
    | _ => none
  optionalText
    | .string s => some (some s)
    | .null => some none
    | _ => none
  flag
    | .bool b => some b
    | _ => none
  fields
    | .object fs => some fs
    | _ => none
  parts keys
    | .object fs => some fs
    | .array items => if items.length ≤ keys.length then some (keys.zip items) else none
    | _ => none

/-- Decodes a document that is a value. -/
def decode (v : Value) : Option Config := decodeWith valueForm v

end Config

end Views
