import Views.Engine.Program
import Views.Files.Path

/-!
# Resolving names

A name leads to a file in the directory of the views. A path that was found is kept, if there is
caching, and from then on given without looking again; that a file was missing is never kept. An
absolute name stands for itself.
-/

set_option autoImplicit false

namespace Views

/-- Where templates and layouts are, and how their files end. -/
structure Resolver where
  viewPath : String
  layoutsPath : String
  extname : String
  caching : Bool

namespace Resolver

/-- The path of a view's file, whether it is there or not. -/
def templatePath (r : Resolver) (name : String) : String :=
  Files.join r.viewPath (name ++ r.extname)

/-- The path of a layout's file. -/
def layoutPath (r : Resolver) (name : String) : String :=
  Files.join r.layoutsPath (name ++ r.extname)

/-- The path of a view's file, if it is there. -/
def resolve (r : Resolver) (name : String) : Program (Option String) := do
  if Files.isAbsolute name then return some (name ++ r.extname)
  match ← Program.request (.recallPath name) with
  | some path => return some path
  | none =>
    let path := r.templatePath name
    if ← Program.request (.probe path) then
      if r.caching then Program.request (.storePath name path)
      return some path
    else return none

end Resolver

end Views
