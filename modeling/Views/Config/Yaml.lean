import Views.Config.Document
import Views.Yaml.Decode

/-!
# Configurations in YAML

A text field takes any scalar as its text, an optional one is nothing where a plain scalar is null,
and an empty scalar is an object without fields.
-/

set_option autoImplicit false

namespace Views.Config

/-- How the parts of a YAML document are read. -/
def yamlForm (d : Yaml.Document) : Form Yaml.Decoding Yaml.Part where
  text p := Yaml.textOf d p.node
  optionalText p := Yaml.optionalTextOf d p.node
  flag p := Yaml.flagOf d p.node
  fields p := Yaml.fieldsOf d p
  parts keys p := Yaml.partsOf d keys p

/-- How deep the collections of a document may be nested. -/
def maxLevels : Nat := 128

/-- The configuration that a YAML text describes. A text without a document is the default one. -/
def ofYaml? (text : String) : Option Config := do
  let d ← Yaml.Document.read? text
  match d.root with
  | none => pure {}
  | some root =>
    let (config, _) ← (decodeWith (yamlForm d) ⟨maxLevels, root⟩).run (100 * d.size)
    pure config

end Views.Config
