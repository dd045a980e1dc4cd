import ModuleBuild.Artifact.Backend
import ModuleBuild.Artifact.Basic
import ModuleBuild.Assembly
import ModuleBuild.Digest.Md5
import ModuleBuild.Term

/-! # Building artifacts

The chunks of an assembled module, each the payload of one value, and the
injection of further chunks.  What cannot be encoded makes the build fail, with the
refusal as the cause.
-/
namespace ModuleBuild

namespace Definition

/-- A definition as the code chunk keeps it. -/
def codeValue (d : Definition) : Value :=
  .record [("name", .text d.pair.name), ("arity", .int d.pair.arity),
    ("kind", .text d.kind.word), ("line", .int d.location.line), ("clauses", .list d.clauses)]

/-- A location as a value. -/
def locationValue (l : Location) : Value :=
  .record [("file", .text l.file), ("line", .int l.line)]

/-- A definition as a value. -/
def toValue (d : Definition) : Value :=
  .record [("name", .text d.pair.name), ("arity", .int d.pair.arity),
    ("kind", .text d.kind.word), ("clauses", .list d.clauses),
    ("location", locationValue d.location)]

end Definition

namespace Assembly

/-- Pairs as a value. -/
def pairsValue (ps : List NameArity) : Value := .list (ps.map NameArity.toValue)

/-- What the `Info` chunk answers. -/
def infoValue (m : Assembly) (flags : List Value) (checksum : String) : Value :=
  .record
    [("attributes", .list (m.attributes.map fun s => .list [.text s.key, s.value])),
     ("compile-opts", .list flags),
     ("exports", pairsValue m.exports),
     ("functions", pairsValue m.functions),
     ("macros", pairsValue m.macros),
     ("checksum", .text checksum),
     ("module", .text m.module),
     ("native-addresses", .list [])]

/-- What the `CInf` chunk holds. -/
def compileInfoValue (m : Assembly) (options : BackendOptions) : Value :=
  .record <| ("options", .list options.flags) ::
    if options.deterministic then [] else [("source", .text m.location.file)]

/-- What the `Code` chunk holds. -/
def codeValue (m : Assembly) : Value := .list (m.definitions.map Definition.codeValue)

/-- The identifiers and values of the chunks other than `Code`, which comes third:
those before it, and those after it given its digest. -/
def otherValues (m : Assembly) (options : BackendOptions) (checksum : String) :
    List (String × Value) × List (String × Value) :=
  ([("Modl", .record [("module", .text m.module), ("file", .text m.location.file),
      ("line", .int m.location.line)]),
    ("ExpT", pairsValue m.exports)],
   [("Type", .record [("types", .list (m.typespecs.types.map TypeDeclaration.toValue)),
      ("exported", pairsValue m.typespecs.exportedTypes)]),
    ("Spec", .record [("specs", .list (m.typespecs.specs.map SpecDeclaration.toValue)),
      ("callbacks", .list (m.typespecs.callbacks.map SpecDeclaration.toValue)),
      ("optionalCallbacks", pairsValue m.typespecs.optionalCallbacks)]),
    ("Attr", .list (m.attributes.map AttributeSection.toValue)),
    ("CInf", compileInfoValue m options),
    ("Info", infoValue m options.flags checksum)]
   ++ if options.debugInfo then
        [("Dbgi", .record [("module", .text m.module),
          ("definitions", .list (m.definitions.map Definition.toValue))])]
      else [])

/-- The chunks of some values. -/
def encodeAll : List (String × Value) → Except Foreign (List Chunk)
  | [] => .ok []
  | (id, v) :: rest => do
    let data ← Term.encode v
    let more ← encodeAll rest
    .ok ({ id, data } :: more)

/-- The chunks of an assembled module. -/
def chunks (m : Assembly) : Except Foreign (List Chunk) := do
  let options := BackendOptions.ofValues m.compileValues
  let code ← Term.encode m.codeValue
  let (before, after) := m.otherValues options (Md5.hex code)
  let front ← encodeAll before
  let back ← encodeAll after
  .ok (front ++ { id := "Code", data := code } :: back)

/-- The failure of a build that met a value it cannot encode. -/
def refused (module : String) (location : Location) (f : Foreign) : Failure :=
  .ofBuild module (Term.refusal f) (some location)
    (.failure (.typeError (Term.refusal f)))

/-- The artifact of an assembled module. -/
def build (m : Assembly) : Except Failure Artifact :=
  match m.chunks with
  | .error f => .error (refused m.module m.location f)
  | .ok cs =>
    match Artifact.ofChunks cs with
    | .error c => .error (.ofProblem { condition := c })
    | .ok a => .ok a

end Assembly

/-- Who a chunk is added for. -/
structure ChunkOwner where
  module : String
  location : Location

namespace Artifact

/-- The failure of adding a chunk whose payload could not be produced: a condition
stands for itself, anything else makes the build of the owner fail. -/
def injectionFailure (owner : ChunkOwner) : Failure → Failure
  | .condition c l fs o k => .condition c l fs o k
  | f =>
    .saying f.describe fun reason =>
      .ofBuild owner.module reason (some owner.location) f.asCause

/-- The artifact with one more chunk, if its payload can be produced. -/
def inject (a : Artifact) (id : String) (payload : Except Failure Bytes)
    (owner : ChunkOwner) : Except Failure Artifact :=
  match payload with
  | .error f => .error (injectionFailure owner f)
  | .ok data =>
    match a.withChunk { id, data } with
    | .error c => .error (.ofProblem { condition := c })
    | .ok a => .ok a

end Artifact

/-- The payload of a value, or the failure to encode it. -/
def Term.payload (v : Value) : Except Failure Bytes :=
  match Term.encode v with
  | .ok bytes => .ok bytes
  | .error f => .error (.typeError (Term.refusal f))

end ModuleBuild
