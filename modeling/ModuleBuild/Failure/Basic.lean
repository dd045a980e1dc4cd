import ModuleBuild.Catalogue
import ModuleBuild.Definition.NameArity
import ModuleBuild.Location
import ModuleBuild.Value.Display

/-! # Failures

A `Condition` is a cause for which a compilation stops; its code, its context and
its wording are functions of it.  A `Failure` is anything that can be thrown while
modules are compiled: a condition with the place and the calls it arose from, a
call of a function that does not exist, an exception of the host's, or any value.
A value that has no text cannot be described: whoever tries fails with a type error.

Failures can have causes, and a chain of causes may lead back into itself:
`Cause.enclosing n` is the failure that encloses it at distance `n`.
-/
namespace ModuleBuild

/-- A call on the stack while a module is compiled. -/
structure Frame where
  module : String
  function : String
  arity : Int
  location : Option Location := none
  /-- Set on frames of the evaluator's own. -/
  isInternal : Option Bool := none
  deriving DecidableEq, Repr

namespace Frame

/-- A frame on one line. -/
def text (f : Frame) : String :=
  f.module ++ "." ++ f.function ++ "/" ++ toString f.arity
    ++ ((f.location.map fun l => " (" ++ l.text ++ ")").getD "")

/-- The frames of user code, and then the call that led there: nothing is kept
from the first internal frame on. -/
def prune (frames : List Frame) (callSite : Frame) : List Frame :=
  frames.takeWhile (fun f => f.isInternal ≠ some true) ++ [callSite]

end Frame

/-- The causes for which a compilation stops. -/
inductive Condition where
  | moduleReserved (module : String)
  | moduleBeingDefined (module : String) (definedAt : Location)
  | moduleNameInvalid (module : String)
  | moduleNotOpen (module : String)
  | resourceInvalid (value : Value)
  | policyChanged (key : String) (accumulate : Bool)
  | keyReserved (key : String)
  | internalOverridden (pair : NameArity)
  | kindClash (kind : DefinitionKind) (pair : NameArity) (existing : DefinitionKind)
      (definedAt : Location)
  | definitionsClosed (pair : NameArity) (module phase : String)
  | typespecInvalid (kind name reason : String)
  | functionNotAvailable (module : String) (pair : NameArity)
  | hookFailed (phase : String) (callSite : Frame) (reason : String)
  | transitionInvalid (module origin target : String)
  | buildFailed (module reason : String)
  | chunkInvalid (reason : String)
  | configurationInvalid (file reason : String)
  /-- A condition that a host words itself. -/
  | worded (code : Code) (message : String) (context : Option (List (String × Value)))

/-- A particular of a condition. -/
inductive Particular where
  | text (s : String)
  | int (i : Int)
  | flag (b : Bool)
  /-- A value that should have been a text. -/
  | unfit (v : Value)

namespace Particular

/-- A particular as a value. -/
def toValue : Particular → Value
  | text s => .text s
  | int i => .int i
  | flag b => .bool b
  | unfit v => v

/-- A particular in a message, which shows a value that should have been a text. -/
def words : Particular → String
  | text s => s
  | int i => (Number.ofInt i).text
  | flag b => if b then "true" else "false"
  | unfit v => v.display

end Particular

namespace Condition

/-- The code of a condition. -/
def code : Condition → Code
  | moduleReserved _ => .moduleReserved
  | moduleBeingDefined _ _ => .moduleBeingDefined
  | moduleNameInvalid _ => .moduleNameInvalid
  | moduleNotOpen _ => .moduleNotOpen
  | resourceInvalid _ => .resourceInvalid
  | policyChanged _ _ => .policyChanged
  | keyReserved _ => .keyReserved
  | internalOverridden _ => .internalOverridden
  | kindClash _ _ _ _ => .kindClash
  | definitionsClosed _ _ _ => .definitionsClosed
  | typespecInvalid _ _ _ => .typespecInvalid
  | functionNotAvailable _ _ => .functionNotAvailable
  | hookFailed _ _ _ => .hookFailed
  | transitionInvalid _ _ _ => .transitionInvalid
  | buildFailed _ _ => .buildFailed
  | chunkInvalid _ => .chunkInvalid
  | configurationInvalid _ _ => .configurationInvalid
  | worded c _ _ => c

/-- The particulars of a condition; none of one that a host words. -/
def particulars : Condition → List (String × Particular)
  | moduleReserved m => [("module", .text m)]
  | moduleBeingDefined m l => [("module", .text m), ("file", .text l.file), ("line", .int l.line)]
  | moduleNameInvalid m => [("module", .text m)]
  | moduleNotOpen m => [("module", .text m)]
  | resourceInvalid v => [("value", .unfit v)]
  | policyChanged k a => [("key", .text k), ("accumulate", .flag a)]
  | keyReserved k => [("key", .text k)]
  | internalOverridden p => [("name", .text p.name), ("arity", .int p.arity)]
  | kindClash k p e l =>
    [("kind", .text k.word), ("name", .text p.name), ("arity", .int p.arity),
      ("existing", .text e.word), ("file", .text l.file), ("line", .int l.line)]
  | definitionsClosed p m ph =>
    [("name", .text p.name), ("arity", .int p.arity), ("module", .text m), ("phase", .text ph)]
  | typespecInvalid k n r => [("kind", .text k), ("name", .text n), ("reason", .text r)]
  | functionNotAvailable m p =>
    [("module", .text m), ("function", .text p.name), ("arity", .int p.arity)]
  | hookFailed ph s r =>
    [("phase", .text ph), ("module", .text s.module), ("function", .text s.function),
      ("arity", .int s.arity), ("reason", .text r)]
  | transitionInvalid m a b => [("module", .text m), ("from", .text a), ("to", .text b)]
  | buildFailed m r => [("module", .text m), ("reason", .text r)]
  | chunkInvalid r => [("reason", .text r)]
  | configurationInvalid f r => [("file", .text f), ("reason", .text r)]
  | worded _ _ _ => []

/-- The context of a condition. -/
def context : Condition → Option (List (String × Value))
  | worded _ _ c => c
  | c => some (c.particulars.map fun p => (p.1, p.2.toValue))

/-- The wording of a condition. -/
def detail : Condition → String
  | worded _ m _ => m
  | c => c.code.wording (c.particulars.map fun p => (p.1, p.2.words))

/-- The condition that a host reports with a context of its own. -/
def create (code : Code) (context : List (String × Value)) : Except TextFault Condition :=
  (code.message context).map fun m => worded code m (some context)

end Condition

/-- A condition and the place it concerns, if one is known. -/
structure Problem where
  condition : Condition
  location : Option Location := none

/-- The kinds of exceptions that hosts throw. -/
inductive ExceptionKind where
  | plain
  | type
  | range
  | malformed
  deriving DecidableEq, Repr

mutual

/-- Anything that can be thrown while modules are compiled. -/
inductive Failure where
  | condition (condition : Condition) (location : Option Location) (frames : List Frame)
      (origin : Option Frame) (cause : Cause)
  | undefinedFunction (module : String) (pair : NameArity) (frames : List Frame) (cause : Cause)
  | exception (kind : ExceptionKind) (message : String) (frames : Option (List Frame))
      (cause : Cause)
  | thrown (value : Value)

/-- What a failure was caused by. -/
inductive Cause where
  | none
  | failure (f : Failure)
  /-- The failure that encloses this cause at a distance. -/
  | enclosing (distance : Nat)

end

namespace Failure

instance : Inhabited Failure := ⟨thrown .undefined⟩

/-- The failure that a problem is. -/
def ofProblem (p : Problem) : Failure := condition p.condition p.location [] Option.none .none

/-- A type error of the host's. -/
def typeError (message : String) : Failure := exception .type message Option.none .none

/-- The error of a host that names a condition the catalogue does not have. -/
def unknownCode (id : String) : Failure := typeError ("Unknown error ID: " ++ id)

/-- A call of a function that does not exist, made by the evaluator. -/
def undefinedCall (module function : String) (arity : Nat) : Failure :=
  undefinedFunction module ⟨function, arity⟩
    [{ module, function, arity },
     { module := "evaluator", function := "eval_forms", arity := 3, isInternal := some true }]
    .none

/-- The failure to give a text. -/
def ofFault (fault : TextFault) : Failure := typeError fault.message

/-- What a failure says, without its place.  A thrown value says what its text is, and
the attempt fails if it has none. -/
def describe : Failure → Except Failure String
  | condition c _ _ _ _ => .ok c.detail
  | undefinedFunction m p _ _ =>
    .ok ("function " ++ m ++ "." ++ p.name ++ "/" ++ toString p.arity
      ++ " is undefined (module " ++ m ++ " is not available)")
  | exception _ message _ _ => .ok message
  | thrown v => v.toText.mapError ofFault

/-- What a failure says, with its place if it has one. -/
def message : Failure → Except Failure String
  | condition c l _ _ _ => .ok (c.detail ++ ((l.map fun l => " at " ++ l.text).getD ""))
  | f => f.describe

/-- The frames that a failure carries, if it is of a kind that carries them. -/
def frames? : Failure → Option (List Frame)
  | condition _ _ fs _ _ => some fs
  | undefinedFunction _ _ fs _ => some fs
  | exception _ _ fs _ => fs
  | thrown _ => Option.none

/-- The frames of a failure; none for failures that carry none. -/
def frames (f : Failure) : List Frame := f.frames?.getD []

/-- The cause of a failure. -/
def cause : Failure → Cause
  | condition _ _ _ _ c => c
  | undefinedFunction _ _ _ c => c
  | exception _ _ _ c => c
  | thrown _ => .none

/-- A failure with the frames that a host gave it. -/
def withFrames (fs : List Frame) : Failure → Failure
  | condition c l _ o k => condition c l fs o k
  | undefinedFunction m p _ k => undefinedFunction m p fs k
  | exception e m _ k => exception e m (some fs) k
  | thrown v => thrown v

/-- A failure with another cause. -/
def withCause (k : Cause) : Failure → Failure
  | condition c l fs o _ => condition c l fs o k
  | undefinedFunction m p fs _ => undefinedFunction m p fs k
  | exception e m fs _ => exception e m fs k
  | thrown v => thrown v

/-- The cause that a condition keeps: thrown `undefined` is no cause. -/
def asCause : Failure → Cause
  | thrown .undefined => .none
  | f => .failure f

/-- The failure that says something, or else that of the attempt to find the words. -/
def saying (words : Except Failure String) (f : String → Failure) : Failure :=
  match words with
  | .ok text => f text
  | .error e => e

/-- The failure of a hook: what it threw, called from a place in the module. -/
def ofHook (phase : String) (callSite : Frame) (frames : List Frame) (cause : Failure)
    (location : Option Location) : Failure :=
  saying cause.describe fun reason =>
    condition (.hookFailed phase callSite reason) location frames (some callSite) cause.asCause

/-- The failure to build a module's artifact. -/
def ofBuild (module reason : String) (location : Option Location) (cause : Cause) : Failure :=
  condition (.buildFailed module reason) location [] Option.none cause

end Failure
end ModuleBuild
