import ModuleBuild.Artifact.Chunk

/-! # Artifacts

A compiled module: a container together with the chunks found in it.  Adding a
chunk makes a new artifact.
-/
namespace ModuleBuild

/-- A container and its chunks, in order. -/
structure Artifact where
  binary : Bytes
  chunks : List Chunk

namespace Artifact

/-- The artifact that holds some chunks. -/
def ofChunks (cs : List Chunk) : Except Condition Artifact := do
  let binary ← Chunk.encode cs
  .ok { binary, chunks := cs }

/-- The artifact that a container is. -/
def ofBinary (binary : Bytes) : Except Condition Artifact := do
  let chunks ← Chunk.decode binary
  .ok { binary, chunks }

/-- The number of bytes of the container. -/
def size (a : Artifact) : Nat := a.binary.length

/-- The identifiers of the chunks, in order. -/
def ids (a : Artifact) : List String := a.chunks.map Chunk.id

/-- The payload of the first chunk with an identifier. -/
def read? (a : Artifact) (id : String) : Option Bytes :=
  (a.chunks.find? fun c => c.id = id).map Chunk.data

/-- Whether there is a chunk with an identifier. -/
def has (a : Artifact) (id : String) : Bool := a.chunks.any fun c => c.id = id

/-- The artifact with one more chunk after the others. -/
def withChunk (a : Artifact) (c : Chunk) : Except Condition Artifact := do
  Chunk.checkId c.id
  if a.has c.id then .error (.chunkInvalid ("chunk " ++ c.id ++ " is already present"))
  else ofChunks (a.chunks ++ [c])

end Artifact
end ModuleBuild
