import Mathlib.Algebra.Ring.Nat
import ModuleBuild.Artifact.Chunk

/-! # Reading containers back

A container is read by a loop that takes one chunk off the front: the bytes of a chunk
followed by anything are read as that chunk, and the reading goes on behind its padding
(`decodeFrom_encodeOne_append`).  So all chunks that were written are found again, in order.
-/
namespace ModuleBuild
namespace Chunk

/-! ## Numbers and identifiers -/

@[simp] theorem length_word (n : Nat) : (word n).length = 4 := rfl

/-- A number that fits four bytes is what they are read as. -/
theorem ofWord_word {n : Nat} (h : n < 2 ^ 32) :
    ofWord (n / 0x1000000).toUInt8 (n / 0x10000).toUInt8 (n / 0x100).toUInt8 n.toUInt8 = n := by
  simp only [ofWord, UInt8.toNat_ofNat', Nat.toUInt8_eq]
  omega

theorem exists_four {bs : Bytes} (h : bs.length = 4) : ∃ a b c d, bs = [a, b, c, d] := by
  match bs, h with
  | [a, b, c, d], _ => exact ⟨a, b, c, d, rfl⟩

/-- A printable ASCII character is what its byte is read as. -/
theorem ofNat_toUInt8 {c : Char} (h : c.toNat ≤ 0x7E) :
    Char.ofNat (c.toNat.toUInt8.toNat % 0x80) = c := by
  have hbyte : c.toNat.toUInt8.toNat % 0x80 = c.toNat := by
    simp only [Nat.toUInt8_eq, UInt8.toNat_ofNat']
    omega
  rw [hbyte, Char.ofNat_toNat]

section Identifiers

variable {id : String}

theorem isValidId_iff : isValidId id = true ↔
    id.toList.length = 4 ∧ ∀ c ∈ id.toList, 0x20 ≤ c.toNat ∧ c.toNat ≤ 0x7E := by
  simp [isValidId]

/-- A valid identifier has four bytes. -/
theorem length_ascii (h : isValidId id = true) : (ascii id).length = 4 := by
  rw [ascii, List.length_map, (isValidId_iff.mp h).1]

/-- A valid identifier is what its bytes are read as. -/
theorem ofAscii_ascii (h : isValidId id = true) : ofAscii (ascii id) = id := by
  have hchars : (ascii id).map (fun b => Char.ofNat (b.toNat % 0x80)) = id.toList := by
    rw [ascii, List.map_map]
    refine (List.map_congr_left fun c hc => ?_).trans (List.map_id _)
    exact ofNat_toUInt8 ((isValidId_iff.mp h).2 c hc).2
  rw [ofAscii, hchars, String.ofList_toList]

end Identifiers

/-! ## Padding -/

/-- Within the range of signed words a length is padded to the next multiple of four. -/
theorem add_padding {n : Nat} (h : n < 2 ^ 31 - 3) : n + padding n = (n + 3) / 4 * 4 := by
  have haligned : aligned n = ((n + 3) / 4 * 4 : Nat) :=
    Int.bmod_eq_of_le (by omega) (by omega)
  rw [padding, haligned]
  omega

section Chunks

variable {c : Chunk} {cs : List Chunk}

theorem length_encodeOne (hid : isValidId c.id = true) (hdata : c.data.length < 2 ^ 31 - 3) :
    (encodeOne c).length = 8 + (c.data.length + 3) / 4 * 4 := by
  have hpad := add_padding hdata
  simp only [encodeOne, List.length_append, length_ascii hid, length_word, List.length_replicate]
  omega

/-! ## The loop -/

/-- **One turn of the loop.**  Four bytes, a length and that many bytes are read as a
chunk, and the reading goes on behind the padding. -/
theorem decodeFrom_append {tag data fill rest : Bytes} (htag : tag.length = 4)
    (hdata : data.length < 2 ^ 32) (hfill : (fill ++ rest).drop (padding data.length) = rest)
    (offset : Nat) :
    decodeFrom offset (tag ++ word data.length ++ data ++ fill ++ rest)
      = (decodeFrom (offset + 8 + (data.length + padding data.length)) rest).map
          (⟨ofAscii tag, data⟩ :: ·) := by
  obtain ⟨a, b, c, d, rfl⟩ := exists_four htag
  have hdrop : (data ++ (fill ++ rest)).drop (data.length + padding data.length) = rest := by
    rw [← List.drop_drop, List.drop_left, hfill]
  simp only [word, List.cons_append, List.nil_append, List.append_assoc]
  rw [decodeFrom, ofWord_word hdata, if_neg (by simp)]
  simp only [hdrop, List.take_left]
  cases decodeFrom (offset + 8 + (data.length + padding data.length)) rest <;> rfl

/-- The bytes of a chunk, whatever follows them, are read as the chunk, and the reading
goes on with what follows. -/
theorem decodeFrom_encodeOne_append (hid : isValidId c.id = true)
    (hdata : c.data.length < 2 ^ 32) (offset : Nat) (rest : Bytes) :
    decodeFrom offset (encodeOne c ++ rest)
      = (decodeFrom (offset + 8 + (c.data.length + padding c.data.length)) rest).map (c :: ·) := by
  rw [encodeOne, decodeFrom_append (length_ascii hid) hdata (List.drop_left' (by simp)),
    ofAscii_ascii hid]

/-- All chunks that were written one after the other are read, in order. -/
theorem decodeFrom_flatMap (hid : ∀ c ∈ cs, isValidId c.id = true)
    (hdata : ∀ c ∈ cs, c.data.length < 2 ^ 32) (offset : Nat) :
    decodeFrom offset (cs.flatMap encodeOne) = .ok cs := by
  induction cs generalizing offset with
  | nil => rw [List.flatMap_nil, decodeFrom]
  | cons c cs ih =>
    rw [List.forall_mem_cons] at hid hdata
    rw [List.flatMap_cons, decodeFrom_encodeOne_append hid.1 hdata.1, ih hid.2 hdata.2]
    rfl

/-! ## Whole containers -/

theorem checkIds_eq_ok (hid : ∀ c ∈ cs, isValidId c.id = true) : checkIds cs = .ok () := by
  induction cs with
  | nil => rfl
  | cons c cs ih =>
    rw [List.forall_mem_cons] at hid
    rw [checkIds, checkId, if_pos hid.1]
    exact ih hid.2

theorem encode_eq_ok (hid : ∀ c ∈ cs, isValidId c.id = true) :
    encode cs = .ok (ascii headerWord ++ word (body cs).length ++ body cs) := by
  rw [encode, checkIds_eq_ok hid]
  rfl

theorem length_data_lt_of_mem (hc : c ∈ cs) : c.data.length < (body cs).length := by
  obtain ⟨before, after, rfl⟩ := List.append_of_mem hc
  simp only [body, encodeOne, List.flatMap_append, List.flatMap_cons, List.length_append,
    length_word]
  omega

/-- A container is a multiple of four bytes long if every payload can be padded. -/
theorem four_dvd_length_body (hid : ∀ c ∈ cs, isValidId c.id = true)
    (hdata : ∀ c ∈ cs, c.data.length < 2 ^ 31 - 3) : 4 ∣ (body cs).length := by
  induction cs with
  | nil => decide
  | cons c cs ih =>
    rw [List.forall_mem_cons] at hid hdata
    have hone := length_encodeOne hid.1 hdata.1
    have hrest := ih hid.2 hdata.2
    simp only [body, List.flatMap_cons, List.length_append] at hrest ⊢
    omega

/-- The size that a container declares: how many bytes follow the first eight. -/
def declaredSize? : Bytes → Option Nat
  | _ :: _ :: _ :: _ :: a :: b :: c :: d :: _ => some (ofWord a b c d)
  | _ => none

/-- **What was encoded is decoded.**  Chunks with valid identifiers, the same one more than
once or not, are encoded, and their container is read as the same chunks in the same order.
It is a multiple of four bytes long and declares the number of bytes behind its first
eight. -/
theorem container_round_trip (hid : ∀ c ∈ cs, isValidId c.id = true)
    (hdata : ∀ c ∈ cs, c.data.length < 2 ^ 31 - 3) (hsize : (body cs).length < 2 ^ 32) :
    ∃ bs, encode cs = .ok bs ∧ decode bs = .ok cs ∧ 4 ∣ bs.length ∧
      ∃ n, declaredSize? bs = some n ∧ n + 8 = bs.length := by
  have hword := ofWord_word hsize
  have hrest : decodeFrom 12 (cs.flatMap encodeOne) = .ok cs :=
    decodeFrom_flatMap hid (fun c hc => Nat.lt_trans (length_data_lt_of_mem hc) hsize) 12
  have hlength : (ascii headerWord ++ word (body cs).length ++ body cs).length
      = (body cs).length + 8 := by
    simp only [List.length_append, length_word, ascii, headerWord, List.length_map]
    exact Nat.add_comm _ _
  refine ⟨_, encode_eq_ok hid, ?_, ?_, ?_⟩
  · have hbytes : ascii headerWord ++ word (body cs).length ++ body cs
        = [0x46, 0x4F, 0x52, 0x31] ++ word (body cs).length
          ++ ([0x4D, 0x4F, 0x44, 0x46] ++ cs.flatMap encodeOne) := rfl
    have hdeclared : (ascii headerWord ++ word (body cs).length ++ body cs).length - 8
        = (body cs).length := by omega
    rw [hbytes] at hdeclared ⊢
    simp only [word, List.cons_append, List.nil_append] at hdeclared ⊢
    rw [decode, hdeclared, if_neg (by decide), if_neg (by rw [hword]; simp), if_neg (by decide)]
    exact hrest
  · rw [hlength]
    exact Nat.dvd_add (four_dvd_length_body hid hdata) (by decide)
  · exact ⟨_, congrArg some hword, hlength.symm⟩

/-- A container with payloads of three, no and five bytes, two of them under one
identifier. -/
theorem container_round_trip_repeated :
    let cs : List Chunk := [⟨"Docs", [1, 2, 3]⟩, ⟨"Docs", []⟩, ⟨"a~ 1", [0, 255, 0, 7, 9]⟩]
    (∀ c ∈ cs, isValidId c.id = true) ∧ (∀ c ∈ cs, c.data.length < 2 ^ 31 - 3) ∧
      (body cs).length < 2 ^ 32 ∧
      ∃ bs, encode cs = .ok bs ∧ decode bs = .ok cs ∧ 4 ∣ bs.length ∧
        ∃ n, declaredSize? bs = some n ∧ n + 8 = bs.length := by
  intro cs
  have hid : ∀ c ∈ cs, isValidId c.id = true := by decide
  have hdata : ∀ c ∈ cs, c.data.length < 2 ^ 31 - 3 := by decide
  have hsize : (body cs).length < 2 ^ 32 := by decide
  exact ⟨hid, hdata, hsize, container_round_trip hid hdata hsize⟩

end Chunks
end Chunk
end ModuleBuild
