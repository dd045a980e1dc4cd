/-! # Attribute policies

Each attribute key has a policy: whether writes to it accumulate, and whether its
values persist into the artifact.  Every module starts with the same policies.
-/
namespace ModuleBuild

/-- What happens to the values of a key. -/
structure AttributePolicy where
  accumulate : Bool
  persist : Bool
  deriving DecidableEq, Repr

/-- The keys whose policies are not the plain one. -/
structure PolicyTable where
  accumulating : List String
  persisted : List String
  deriving DecidableEq, Repr, Inhabited

/-- Put a key into a list of keys, or take it out. -/
def toggleKey (keys : List String) (key : String) (on : Bool) : List String :=
  if on then if keys.contains key then keys else keys ++ [key]
  else keys.filter (· ≠ key)

namespace PolicyTable

/-- The table that lists of keys give, each key once. -/
def ofLists (accumulating persisted : List String) : PolicyTable :=
  ⟨accumulating.eraseDups, persisted.eraseDups⟩

/-- Give a key a policy. -/
def declare (t : PolicyTable) (key : String) (p : AttributePolicy) : PolicyTable :=
  ⟨toggleKey t.accumulating key p.accumulate, toggleKey t.persisted key p.persist⟩

/-- Whether writes to a key accumulate. -/
def accumulates (t : PolicyTable) (key : String) : Bool := t.accumulating.contains key

/-- Whether the values of a key persist. -/
def persists (t : PolicyTable) (key : String) : Bool := t.persisted.contains key

/-- The policies that every module starts with. -/
def initial : PolicyTable where
  accumulating :=
    ["before_compile", "after_compile", "on_definition", "derive", "spec", "type", "typep",
     "opaque", "callback", "macrocallback", "optional_callbacks", "behaviour", "on_load",
     "compile", "external_resource", "dialyzer"]
  persisted := ["vsn", "behaviour", "on_load", "compile", "external_resource", "dialyzer"]

end PolicyTable
end ModuleBuild
