import ModuleBuild.Failure.Basic
import ModuleBuild.Json.Printer

/-! # Chunk containers

A container is a header, then chunks one after the other:

* `FOR1`, the number of bytes that follow, `MODF`;
* per chunk an identifier of four bytes, the length of its payload, the payload,
  and zero bytes up to a multiple of four.

All numbers are four bytes, the most significant first.
-/
namespace ModuleBuild

/-- A sequence of bytes. -/
abbrev Bytes : Type := List UInt8

/-- A named piece of an artifact. -/
structure Chunk where
  id : String
  data : Bytes
  deriving DecidableEq

namespace Chunk

/-- The word that a container begins with. -/
def headerWord : String := "FOR1"

/-- The word that says what a container holds. -/
def formWord : String := "MODF"

/-- Identifiers are four printable ASCII characters. -/
def isValidId (id : String) : Bool :=
  id.toList.length == 4 && id.toList.all fun c => 0x20 ≤ c.toNat && c.toNat ≤ 0x7E

/-- The four bytes of a number, the most significant first. -/
def word (n : Nat) : Bytes :=
  [(n / 0x1000000).toUInt8, (n / 0x10000).toUInt8, (n / 0x100).toUInt8, n.toUInt8]

/-- The number that four bytes are. -/
def ofWord (a b c d : UInt8) : Nat :=
  ((a.toNat * 0x100 + b.toNat) * 0x100 + c.toNat) * 0x100 + d.toNat

/-- The bytes of an ASCII text. -/
def ascii (s : String) : Bytes := s.toList.map fun c => c.toNat.toUInt8

/-- The text of bytes, of which the top bits say nothing. -/
def ofAscii (bs : Bytes) : String := String.ofList (bs.map fun b => Char.ofNat (b.toNat % 0x80))

/-- A length rounded up to a multiple of four, as a signed word of 32 bits. -/
def aligned (n : Nat) : Int := Int.bmod ((n + 3) / 4 * 4 : Nat) 0x100000000

/-- How many bytes go up to the aligned length: none if that is out of the range of
signed words. -/
def padding (n : Nat) : Nat := (aligned n - n).toNat

/-- One chunk with its header and padding. -/
def encodeOne (c : Chunk) : Bytes :=
  ascii c.id ++ word c.data.length ++ c.data ++ List.replicate (padding c.data.length) 0

/-- What follows the length in a container's header. -/
def body (cs : List Chunk) : Bytes := ascii formWord ++ cs.flatMap encodeOne

/-- Why an identifier is refused. -/
def invalidId (id : String) : Condition :=
  .chunkInvalid ("chunk id must be 4 printable ASCII characters, got "
    ++ String.ofList (Json.quote id))

/-- Refuse an identifier that is not valid. -/
def checkId (id : String) : Except Condition Unit :=
  if isValidId id then .ok () else .error (invalidId id)

/-- Refuse the first identifier that is not valid. -/
def checkIds : List Chunk → Except Condition Unit
  | [] => .ok ()
  | c :: rest => do
    checkId c.id
    checkIds rest

/-- The container that holds some chunks. -/
def encode (cs : List Chunk) : Except Condition Bytes := do
  checkIds cs
  .ok (ascii headerWord ++ word (body cs).length ++ body cs)

/-- Split what follows a container's header into chunks.  `offset` is where it
begins in the container; padding may be missing at the very end. -/
def decodeFrom (offset : Nat) : Bytes → Except Condition (List Chunk)
  | [] => .ok []
  | a :: b :: c :: d :: l1 :: l2 :: l3 :: l4 :: rest =>
    let id := ofAscii [a, b, c, d]
    let length := ofWord l1 l2 l3 l4
    if rest.length < length then
      .error (.chunkInvalid ("chunk " ++ id ++ " overruns the container"))
    else do
      let used := length + padding length
      let more ← decodeFrom (offset + 8 + used) (rest.drop used)
      .ok (⟨id, rest.take length⟩ :: more)
  | _ :: _ => .error (.chunkInvalid ("truncated chunk header at byte " ++ toString offset))
termination_by bs => bs.length
decreasing_by
  simp only [List.length_cons, List.length_drop]
  omega

/-- The chunks of a container, in order. -/
def decode (bs : Bytes) : Except Condition (List Chunk) :=
  match bs with
  | f1 :: f2 :: f3 :: f4 :: s1 :: s2 :: s3 :: s4 :: t1 :: t2 :: t3 :: t4 :: rest =>
    let size := bs.length - 8
    if ofAscii [f1, f2, f3, f4] ≠ headerWord then .error (.chunkInvalid "missing FOR1 header")
    else if ofWord s1 s2 s3 s4 ≠ size then
      .error (.chunkInvalid ("declared size " ++ toString (ofWord s1 s2 s3 s4)
        ++ " does not match " ++ toString size))
    else if ofAscii [t1, t2, t3, t4] ≠ formWord then
      .error (.chunkInvalid "form type is not MODF")
    else decodeFrom 12 rest
  | _ => .error (.chunkInvalid ("container is " ++ toString bs.length ++ " bytes long"))

end Chunk
end ModuleBuild
