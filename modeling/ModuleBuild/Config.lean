import ModuleBuild.Failure.Basic
import ModuleBuild.Options
import ModuleBuild.Path

/-! # The configuration file

A directory may hold a file with compiler options, written as a YAML mapping.  The options
of the file stand between the defaults and those that are asked for.

YAML is read by a parser of the host's, `parse`, which gives the value of a text or says why
the text is no YAML.
-/
namespace ModuleBuild

/-- What reading a file comes to. -/
inductive FileContent where
  | absent
  /-- The file is there but cannot be read. -/
  | unreadable (reason : String)
  | text (content : String)

namespace Config

/-- The name of the configuration file. -/
def fileName : String := "modforge.config.yaml"

/-- The path of a directory's configuration file. -/
def path (directory : String) : String := Path.resolve directory fileName

/-- What is wrong with a field, if anything is. -/
def fieldFault? (name : String) (v : Value) : Option String :=
  if name = "relativeTo" then
    if v.asText?.isSome then none else some "relativeTo must be a string"
  else if ["docs", "ignoreModuleConflict", "internal"].contains name then
    if v.asBool?.isSome then none else some (name ++ " must be true or false")
  else some ("unknown field " ++ name)

/-- The first fault of a file's fields. -/
def fault? (fields : List (String × Value)) : Option String :=
  fields.findSome? fun f => fieldFault? f.1 f.2

/-- The options that a file's fields set; a relative path is read in the directory. -/
def layer (directory : String) (v : Value) : OptionLayer Bool String where
  docs := (v.get "docs").asBool?
  ignoreModuleConflict := (v.get "ignoreModuleConflict").asBool?
  isInternal := (v.get "internal").asBool?
  relativeTo := (v.get "relativeTo").asText?.map (Path.resolve directory)

/-- The options that the value of a file sets, or what is wrong with it.  An empty file
sets none, and so does an object of a class, which has no fields. -/
def ofValue (directory : String) : Value → Except String (OptionLayer Bool String)
  | .null => .ok .unset
  | .undefined => .ok .unset
  | .foreign (.object _ _ _) => .ok .unset
  | .fields fs =>
    match fault? fs with
    | some reason => .error reason
    | none => .ok (layer directory (.fields fs))
  | _ => .error "must be a mapping"

section File

variable (parse : String → Except String Value)

/-- The options that a file sets, or what is wrong with it. -/
def ofFile (directory : String) : FileContent → Except String (OptionLayer Bool String)
  | .absent => .ok .unset
  | .unreadable reason => .error ("failed to read file (" ++ reason ++ ")")
  | .text content =>
    match parse content with
    | .error reason => .error ("invalid YAML (" ++ reason ++ ")")
    | .ok v => ofValue directory v

/-- The options of a compiler in a directory: those asked for, then those of the file,
then the defaults. -/
def load {φ δ : Type} (flag : Bool → φ) (text : String → δ) (base : Options φ δ)
    (directory : String) (file : FileContent) (overrides : OptionLayer φ δ) :
    Except Condition (Options φ δ) :=
  match ofFile parse directory file with
  | .error reason => .error (.configurationInvalid (path directory) reason)
  | .ok layer => .ok (base.resolve [layer.map (·.map flag) (·.map text), overrides])

end File

end Config
end ModuleBuild
