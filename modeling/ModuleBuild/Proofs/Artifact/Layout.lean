import Mathlib.Data.List.Basic
import ModuleBuild.Artifact.Basic
import ModuleBuild.Proofs.Artifact.Container
import ModuleBuild.Proofs.Outcome

/-! # What is read as a container

The decoder reads more than the encoder writes.  A `Layout` is everything that it reads:
the words of the header and the identifiers of the chunks with any top bits, identifiers
that are not valid, any bytes where padding belongs, and at the very end less padding than
belongs there.  `decode_eq_ok_iff` says that nothing else is read.

A layout is *exact* if its bytes are as they are documented.  The exact layouts are the
containers that the encoder writes: of the bytes that are read as chunks, those of exact
layouts and no others come back when the chunks are encoded again (`encode_eq_ok_iff`).
-/
namespace ModuleBuild

/-- A chunk as it stands in a container. -/
@[ext]
structure RawChunk where
  /-- The bytes of the identifier. -/
  tag : Bytes
  data : Bytes
  /-- What stands where the padding belongs. -/
  fill : Bytes
  length_tag : tag.length = 4
  length_fill_le : fill.length ≤ Chunk.padding data.length

namespace RawChunk

def bytes (p : RawChunk) : Bytes := p.tag ++ Chunk.word p.data.length ++ p.data ++ p.fill

/-- The chunk that it is read as. -/
def chunk (p : RawChunk) : Chunk := ⟨Chunk.ofAscii p.tag, p.data⟩

/-- No padding is missing. -/
def IsFull (p : RawChunk) : Prop := p.fill.length = Chunk.padding p.data.length

/-- The identifier is printable ASCII, and the padding is complete and zero. -/
structure IsExact (p : RawChunk) : Prop where
  tag : ∀ b ∈ p.tag, 0x20 ≤ b.toNat ∧ b.toNat ≤ 0x7E
  fill : p.fill = List.replicate (Chunk.padding p.data.length) 0

/-- Only the last one may lack padding. -/
def Joined : List RawChunk → Prop
  | [] => True
  | p :: rest => (rest = [] ∨ p.IsFull) ∧ Joined rest

end RawChunk

/-- A container as it is read. -/
@[ext]
structure Layout where
  header : Bytes
  form : Bytes
  raws : List RawChunk
  ofAscii_header : Chunk.ofAscii header = Chunk.headerWord
  ofAscii_form : Chunk.ofAscii form = Chunk.formWord
  joined : RawChunk.Joined raws

namespace Layout

/-- What follows the size. -/
def body (l : Layout) : Bytes := l.form ++ l.raws.flatMap RawChunk.bytes

def bytes (l : Layout) : Bytes := l.header ++ Chunk.word l.body.length ++ l.body

/-- The chunks that it is read as. -/
def chunks (l : Layout) : List Chunk := l.raws.map RawChunk.chunk

/-- The bytes are as they are documented. -/
structure IsExact (l : Layout) : Prop where
  header : l.header = Chunk.ascii Chunk.headerWord
  form : l.form = Chunk.ascii Chunk.formWord
  raws : ∀ p ∈ l.raws, p.IsExact

end Layout

namespace Chunk

/-! ## Numbers and words -/

/-- Four bytes are those of the number that they are read as. -/
theorem word_ofWord (a b c d : UInt8) : word (ofWord a b c d) = [a, b, c, d] := by
  have ha := a.toNat_lt
  have hb := b.toNat_lt
  have hc := c.toNat_lt
  have hd := d.toNat_lt
  simp only [word, ofWord, List.cons.injEq, and_true, ← UInt8.toNat_inj, Nat.toUInt8_eq,
    UInt8.toNat_ofNat']
  omega

theorem ofWord_lt (a b c d : UInt8) : ofWord a b c d < 2 ^ 32 := by
  have ha := a.toNat_lt
  have hb := b.toNat_lt
  have hc := c.toNat_lt
  have hd := d.toNat_lt
  simp only [ofWord]
  omega

theorem length_of_ofAscii {bs : Bytes} {s : String} (h : ofAscii bs = s) :
    bs.length = s.toList.length := by
  rw [← h, ofAscii, String.toList_ofList, List.length_map]

/-! ## The chunks -/

/-- The header of a chunk and enough bytes behind it are a raw chunk and what stands
behind its padding.  If that is anything, no padding is missing. -/
theorem exists_raw {tag rest : Bytes} {n : Nat} (htag : tag.length = 4) (hn : n ≤ rest.length) :
    ∃ p : RawChunk, p.bytes ++ rest.drop (n + padding n) = tag ++ word n ++ rest ∧
      p.chunk = ⟨ofAscii tag, rest.take n⟩ ∧ (rest.drop (n + padding n) = [] ∨ p.IsFull) := by
  have hlength : (rest.take n).length = n := by rw [List.length_take, Nat.min_eq_left hn]
  have hbehind : rest.drop (n + padding n) = (rest.drop n).drop (padding n) :=
    List.drop_drop.symm
  refine ⟨⟨tag, rest.take n, (rest.drop n).take (padding n), htag, ?_⟩, ?_, rfl, ?_⟩
  · rw [hlength, List.length_take]
    exact Nat.min_le_left _ _
  · simp only [RawChunk.bytes, hlength, hbehind, List.append_assoc, List.take_append_drop]
  · simp only [hbehind, RawChunk.IsFull, hlength, List.length_take, List.length_drop,
      List.drop_eq_nil_iff]
    omega

/-- What is read as chunks are raw chunks one after the other, of which only the last may
lack padding. -/
theorem exists_raws_of_decodeFrom {offset : Nat} {bs : Bytes} {cs : List Chunk}
    (h : decodeFrom offset bs = .ok cs) :
    ∃ raws, RawChunk.Joined raws ∧ raws.flatMap RawChunk.bytes = bs ∧
      raws.map RawChunk.chunk = cs := by
  induction offset, bs using decodeFrom.induct generalizing cs with
  | case1 offset =>
    rw [decodeFrom] at h
    cases h
    exact ⟨[], trivial, rfl, rfl⟩
  | case2 offset a b c d l1 l2 l3 l4 rest length =>
    rename_i hshort
    rw [decodeFrom, if_pos hshort] at h
    cases h
  | case3 offset a b c d l1 l2 l3 l4 rest length hlong used =>
    rename_i ih
    rw [decodeFrom, if_neg hlong] at h
    obtain ⟨more, hmore, hcs⟩ := bind_eq_ok.mp h
    cases hcs
    obtain ⟨raws, hjoined, hbytes, hchunks⟩ := ih hmore
    obtain ⟨p, hp, hchunk, hfull⟩ :=
      exists_raw (rfl : [a, b, c, d].length = 4) (Nat.le_of_not_lt hlong)
    rw [word_ofWord] at hp
    refine ⟨p :: raws, ⟨?_, hjoined⟩, ?_, ?_⟩
    · -- further chunks begin behind the whole padding
      refine hfull.imp_left fun hnil => ?_
      cases raws with
      | nil => rfl
      | cons q raws =>
        rw [show rest.drop used = [] from hnil] at hbytes
        simp [RawChunk.bytes, word] at hbytes
    · rw [List.flatMap_cons, hbytes]
      exact hp
    · rw [List.map_cons, hchunks, hchunk]
  | case4 offset head tail hshort =>
    rw [decodeFrom] at h
    · cases h
    · exact hshort

/-- The next chunk begins behind the padding. -/
theorem drop_fill {p : RawChunk} {rest : List RawChunk} (h : rest = [] ∨ p.IsFull) :
    (p.fill ++ rest.flatMap RawChunk.bytes).drop (padding p.data.length)
      = rest.flatMap RawChunk.bytes := by
  rcases h with rfl | hfull
  · rw [List.flatMap_nil, List.append_nil]
    exact List.drop_eq_nil_of_le p.length_fill_le
  · exact List.drop_left' hfull

/-- Raw chunks one after the other are read as their chunks. -/
theorem decodeFrom_raws {raws : List RawChunk} (hjoined : RawChunk.Joined raws)
    (hdata : ∀ p ∈ raws, p.data.length < 2 ^ 32) (offset : Nat) :
    decodeFrom offset (raws.flatMap RawChunk.bytes) = .ok (raws.map RawChunk.chunk) := by
  induction raws generalizing offset with
  | nil => rw [List.flatMap_nil, decodeFrom, List.map_nil]
  | cons p raws ih =>
    rw [List.forall_mem_cons] at hdata
    obtain ⟨hfull, hjoined⟩ := hjoined
    rw [List.flatMap_cons, RawChunk.bytes,
      decodeFrom_append p.length_tag hdata.1 (drop_fill hfull), ih hjoined hdata.2]
    rfl

/-! ## Whole containers -/

theorem length_data_lt_of_raws {raws : List RawChunk} {p : RawChunk} (hp : p ∈ raws) :
    p.data.length < (raws.flatMap RawChunk.bytes).length := by
  obtain ⟨before, after, rfl⟩ := List.append_of_mem hp
  simp only [RawChunk.bytes, List.flatMap_append, List.flatMap_cons, List.length_append,
    length_word, p.length_tag]
  omega

/-- A container that is read has twelve bytes at least. -/
theorem exists_header_of_decode {bs : Bytes} {cs : List Chunk} (h : decode bs = .ok cs) :
    ∃ (header form rest : Bytes) (n : Nat), header.length = 4 ∧ form.length = 4 ∧ n < 2 ^ 32 ∧
      bs = header ++ word n ++ (form ++ rest) := by
  unfold decode at h
  split at h
  next f1 f2 f3 f4 s1 s2 s3 s4 t1 t2 t3 t4 rest =>
    exact ⟨[f1, f2, f3, f4], [t1, t2, t3, t4], rest, ofWord s1 s2 s3 s4, rfl, rfl,
      ofWord_lt s1 s2 s3 s4, by rw [word_ofWord]; rfl⟩
  next => cases h

/-- What the header says is checked, then the chunks are read. -/
theorem decode_append {header form rest : Bytes} {n : Nat} (hheader : header.length = 4)
    (hform : form.length = 4) (hn : n < 2 ^ 32) {cs : List Chunk} :
    decode (header ++ word n ++ (form ++ rest)) = .ok cs ↔
      ofAscii header = headerWord ∧ n = (form ++ rest).length ∧ ofAscii form = formWord ∧
        decodeFrom 12 rest = .ok cs := by
  obtain ⟨f1, f2, f3, f4, rfl⟩ := exists_four hheader
  obtain ⟨t1, t2, t3, t4, rfl⟩ := exists_four hform
  have hsize : ([f1, f2, f3, f4] ++ word n ++ ([t1, t2, t3, t4] ++ rest)).length - 8
      = ([t1, t2, t3, t4] ++ rest).length := by
    simp only [List.length_append, length_word, List.length_cons, List.length_nil]
    omega
  simp only [word, List.cons_append, List.nil_append] at hsize ⊢
  rw [decode, hsize, ofWord_word hn]
  generalize (t1 :: t2 :: t3 :: t4 :: rest).length = size
  simp only [ne_eq, ite_not]
  split_ifs <;> simp [*]

/-- **What is read as chunks** is laid out as a container, and is read as the chunks of the
layout. -/
theorem decode_eq_ok_iff {bs : Bytes} (h : bs.length < 2 ^ 32) {cs : List Chunk} :
    decode bs = .ok cs ↔ ∃ l : Layout, l.bytes = bs ∧ l.chunks = cs := by
  constructor
  · intro hdecode
    obtain ⟨header, form, rest, n, hheader, hform, hn, rfl⟩ := exists_header_of_decode hdecode
    obtain ⟨hheader, hsize, hform, hrest⟩ := (decode_append hheader hform hn).mp hdecode
    obtain ⟨raws, hjoined, hbytes, hchunks⟩ := exists_raws_of_decodeFrom hrest
    refine ⟨⟨header, form, raws, hheader, hform, hjoined⟩, ?_, hchunks⟩
    rw [Layout.bytes, Layout.body, hbytes, hsize]
  · rintro ⟨l, rfl, rfl⟩
    have hlt {k : Nat} (hk : k ≤ l.body.length) : k < 2 ^ 32 := by
      rw [Layout.bytes, List.length_append] at h
      omega
    have hdata (p : RawChunk) (hp : p ∈ l.raws) : p.data.length < 2 ^ 32 := by
      have hle := Nat.le_of_lt (length_data_lt_of_raws hp)
      refine hlt ?_
      rw [Layout.body, List.length_append]
      omega
    exact (decode_append (length_of_ofAscii l.ofAscii_header) (length_of_ofAscii l.ofAscii_form)
      (hlt (Nat.le_refl _))).mpr
        ⟨l.ofAscii_header, rfl, l.ofAscii_form, decodeFrom_raws l.joined hdata 12⟩

theorem decodeFrom_error {offset : Nat} {bs : Bytes} {c : Condition}
    (h : decodeFrom offset bs = .error c) : ∃ reason, c = .chunkInvalid reason := by
  induction offset, bs using decodeFrom.induct with
  | case1 offset =>
    rw [decodeFrom] at h
    cases h
  | case2 offset a b c' d l1 l2 l3 l4 rest length =>
    rename_i hshort
    rw [decodeFrom, if_pos hshort] at h
    cases h
    exact ⟨_, rfl⟩
  | case3 offset a b c' d l1 l2 l3 l4 rest length hlong used =>
    rename_i ih
    rw [decodeFrom, if_neg hlong] at h
    change decodeFrom (offset + 8 + used) (rest.drop used) >>= _ = _ at h
    cases hmore : decodeFrom (offset + 8 + used) (rest.drop used) with
    | error c₁ =>
      rw [hmore] at h
      cases h
      exact ih hmore
    | ok more =>
      rw [hmore] at h
      cases h
  | case4 offset head tail hshort =>
    rw [decodeFrom] at h
    · cases h
      exact ⟨_, rfl⟩
    · exact hshort

/-- Bytes that are not read as a container are refused as one. -/
theorem decode_error {bs : Bytes} {c : Condition} (h : decode bs = .error c) :
    ∃ reason, c = .chunkInvalid reason := by
  unfold decode at h
  split at h
  · dsimp only at h
    split_ifs at h
    · cases h
      exact ⟨_, rfl⟩
    · cases h
      exact ⟨_, rfl⟩
    · cases h
      exact ⟨_, rfl⟩
    · exact decodeFrom_error h
  · cases h
    exact ⟨_, rfl⟩

/-! ## A container has one layout -/

theorem word_injective {n k : Nat} (hn : n < 2 ^ 32) (hk : k < 2 ^ 32) (h : word n = word k) :
    n = k := by
  simp only [word, List.cons.injEq, and_true] at h
  rw [← ofWord_word hn, ← ofWord_word hk, h.1, h.2.1, h.2.2.1, h.2.2.2]

/-- Raw chunks can be told apart by their bytes. -/
theorem raws_injective {raws raws' : List RawChunk} (hjoined : RawChunk.Joined raws)
    (hjoined' : RawChunk.Joined raws') (hdata : ∀ p ∈ raws, p.data.length < 2 ^ 32)
    (hdata' : ∀ p ∈ raws', p.data.length < 2 ^ 32)
    (h : raws.flatMap RawChunk.bytes = raws'.flatMap RawChunk.bytes) : raws = raws' := by
  induction raws generalizing raws' with
  | nil =>
    cases raws' with
    | nil => rfl
    | cons p' raws' => simp [RawChunk.bytes, word] at h
  | cons p raws ih =>
    cases raws' with
    | nil => simp [RawChunk.bytes, word] at h
    | cons p' raws' =>
      rw [List.forall_mem_cons] at hdata hdata'
      simp only [List.flatMap_cons, RawChunk.bytes, List.append_assoc] at h
      obtain ⟨htag, h⟩ := List.append_inj h (p.length_tag.trans p'.length_tag.symm)
      obtain ⟨hword, h⟩ := List.append_inj h rfl
      have hlength := word_injective hdata.1 hdata'.1 hword
      obtain ⟨hpayload, h⟩ := List.append_inj h hlength
      -- behind the padding the same bytes follow
      have hrest : raws.flatMap RawChunk.bytes = raws'.flatMap RawChunk.bytes := by
        rw [← drop_fill hjoined.1, ← drop_fill hjoined'.1, h, hlength]
      have hfill : p.fill = p'.fill := by
        rw [hrest] at h
        exact List.append_cancel_right h
      rw [RawChunk.ext htag hpayload hfill, ih hjoined.2 hjoined'.2 hdata.2 hdata'.2 hrest]

/-- **Layouts can be told apart by their bytes.** -/
theorem layout_injective {l l' : Layout} (hsize : l.bytes.length < 2 ^ 32)
    (h : l.bytes = l'.bytes) : l = l' := by
  have hlt (l : Layout) (hsize : l.bytes.length < 2 ^ 32) (p : RawChunk) (hp : p ∈ l.raws) :
      p.data.length < 2 ^ 32 := by
    have hle := length_data_lt_of_raws hp
    simp only [Layout.bytes, Layout.body, List.length_append] at hsize
    omega
  have hsize' : l'.bytes.length < 2 ^ 32 := h ▸ hsize
  have hdata := hlt l hsize
  have hdata' := hlt l' hsize'
  simp only [Layout.bytes, Layout.body, List.append_assoc] at h
  obtain ⟨hheader, h⟩ := List.append_inj h
    ((length_of_ofAscii l.ofAscii_header).trans (length_of_ofAscii l'.ofAscii_header).symm)
  obtain ⟨-, h⟩ := List.append_inj h rfl
  obtain ⟨hform, h⟩ := List.append_inj h
    ((length_of_ofAscii l.ofAscii_form).trans (length_of_ofAscii l'.ofAscii_form).symm)
  exact Layout.ext hheader hform (raws_injective l.joined l'.joined hdata hdata' h)

/-! ## Exact layouts -/

/-- A byte without the top bit is the number of the character that it is read as. -/
theorem toNat_ofNat {b : UInt8} (h : b.toNat ≤ 0x7E) :
    (Char.ofNat (b.toNat % 0x80)).toNat = b.toNat := by
  have hvalid : b.toNat.isValidChar := Or.inl (by omega)
  rw [Nat.mod_eq_of_lt (by omega), Char.ofNat, dif_pos hvalid]
  rfl

/-- The bytes of an exact chunk are those that the encoder writes for it. -/
theorem bytes_of_isExact {p : RawChunk} (h : p.IsExact) :
    isValidId p.chunk.id = true ∧ p.bytes = encodeOne p.chunk := by
  have htag : ascii (ofAscii p.tag) = p.tag := by
    rw [ascii, ofAscii, String.toList_ofList, List.map_map]
    refine (List.map_congr_left fun b hb => ?_).trans (List.map_id _)
    rw [Function.comp_apply, toNat_ofNat (h.tag b hb).2]
    exact UInt8.ofNat_toNat
  refine ⟨isValidId_iff.mpr ⟨?_, ?_⟩, ?_⟩
  · rw [RawChunk.chunk, ← length_of_ofAscii rfl, p.length_tag]
  · intro c hc
    rw [RawChunk.chunk, ofAscii, String.toList_ofList, List.mem_map] at hc
    obtain ⟨b, hb, rfl⟩ := hc
    rw [toNat_ofNat (h.tag b hb).2]
    exact h.tag b hb
  · rw [RawChunk.bytes, encodeOne, RawChunk.chunk, htag, h.fill]

/-- The chunk as the encoder writes it. -/
def rawOf (c : Chunk) (hid : isValidId c.id = true) : RawChunk where
  tag := ascii c.id
  data := c.data
  fill := List.replicate (padding c.data.length) 0
  length_tag := length_ascii hid
  length_fill_le := Nat.le_of_eq List.length_replicate

theorem chunk_rawOf (c : Chunk) (hid : isValidId c.id = true) : (rawOf c hid).chunk = c := by
  rw [RawChunk.chunk, rawOf, ofAscii_ascii hid]

theorem isExact_rawOf (c : Chunk) (hid : isValidId c.id = true) : (rawOf c hid).IsExact where
  tag b hb := by
    obtain ⟨ch, hch, rfl⟩ := List.mem_map.mp hb
    have hrange := (isValidId_iff.mp hid).2 ch hch
    rw [Nat.toUInt8_eq, UInt8.toNat_ofNat', Nat.mod_eq_of_lt (by omega)]
    exact hrange
  fill := by rw [rawOf]

theorem isFull_rawOf (c : Chunk) (hid : isValidId c.id = true) : (rawOf c hid).IsFull := by
  rw [RawChunk.IsFull, rawOf, List.length_replicate]

/-- Chunks with valid identifiers are written as exact raw chunks. -/
theorem exists_exact_raws {cs : List Chunk} (hid : ∀ c ∈ cs, isValidId c.id = true) :
    ∃ raws, RawChunk.Joined raws ∧ raws.flatMap RawChunk.bytes = cs.flatMap encodeOne ∧
      raws.map RawChunk.chunk = cs ∧ ∀ p ∈ raws, p.IsExact := by
  induction cs with
  | nil => exact ⟨[], trivial, rfl, rfl, fun _ hp => (List.not_mem_nil hp).elim⟩
  | cons c cs ih =>
    rw [List.forall_mem_cons] at hid
    obtain ⟨raws, hjoined, hbytes, hchunks, hexact⟩ := ih hid.2
    refine ⟨rawOf c hid.1 :: raws, ⟨Or.inr (isFull_rawOf c hid.1), hjoined⟩, ?_, ?_, ?_⟩
    · rw [List.flatMap_cons, List.flatMap_cons, hbytes, RawChunk.bytes, rawOf, encodeOne]
    · rw [List.map_cons, chunk_rawOf, hchunks]
    · exact List.forall_mem_cons.mpr ⟨isExact_rawOf c hid.1, hexact⟩

theorem checkIds_eq_ok_iff {cs : List Chunk} :
    checkIds cs = .ok () ↔ ∀ c ∈ cs, isValidId c.id = true := by
  refine ⟨fun h => ?_, checkIds_eq_ok⟩
  induction cs with
  | nil => exact nofun
  | cons c cs ih =>
    obtain ⟨_, hid, hrest⟩ := bind_eq_ok.mp h
    refine List.forall_mem_cons.mpr ⟨?_, ih hrest⟩
    by_contra hno
    rw [checkId, if_neg hno] at hid
    cases hid

/-- Chunks are encoded if all identifiers are valid. -/
theorem exists_encode_iff {cs : List Chunk} :
    (∃ bs, encode cs = .ok bs) ↔ ∀ c ∈ cs, isValidId c.id = true := by
  refine ⟨?_, fun hid => ⟨_, encode_eq_ok hid⟩⟩
  rintro ⟨bs, h⟩
  obtain ⟨_, hcheck, -⟩ := bind_eq_ok.mp h
  exact checkIds_eq_ok_iff.mp hcheck

/-- **What is written** are the exact layouts. -/
theorem encode_eq_ok_iff {cs : List Chunk} {bs : Bytes} :
    encode cs = .ok bs ↔ ∃ l : Layout, l.IsExact ∧ l.bytes = bs ∧ l.chunks = cs := by
  constructor
  · intro h
    have hid := exists_encode_iff.mp ⟨bs, h⟩
    rw [encode_eq_ok hid] at h
    cases h
    obtain ⟨raws, hjoined, hbytes, hchunks, hexact⟩ := exists_exact_raws hid
    refine ⟨⟨ascii headerWord, ascii formWord, raws, by decide, by decide, hjoined⟩,
      ⟨rfl, rfl, hexact⟩, ?_, hchunks⟩
    rw [Layout.bytes, Layout.body, hbytes]
    rfl
  · rintro ⟨l, hexact, rfl, rfl⟩
    have hid (c : Chunk) (hc : c ∈ l.chunks) : isValidId c.id = true := by
      obtain ⟨p, hp, rfl⟩ := List.mem_map.mp hc
      exact (bytes_of_isExact (hexact.raws p hp)).1
    have hbytes : l.raws.flatMap RawChunk.bytes = l.chunks.flatMap encodeOne := by
      rw [Layout.chunks, List.flatMap_map]
      exact List.flatMap_congr fun p hp => (bytes_of_isExact (hexact.raws p hp)).2
    rw [encode_eq_ok hid, Layout.bytes, Layout.body, hbytes, hexact.header, hexact.form]
    rfl

/-! ## What comes back -/

/-- An artifact takes one more chunk if the identifiers of its own are valid. -/
theorem exists_withChunk_iff {a : Artifact} {c : Chunk} (hid : isValidId c.id = true)
    (hnew : a.has c.id = false) :
    (∃ a', a.withChunk c = .ok a') ↔ ∀ id ∈ a.ids, isValidId id = true := by
  have hwith : a.withChunk c = Artifact.ofChunks (a.chunks ++ [c]) := by
    rw [Artifact.withChunk, checkId, if_pos hid, hnew]
    rfl
  have hchunks : (∃ a', Artifact.ofChunks (a.chunks ++ [c]) = .ok a') ↔
      ∃ bs, encode (a.chunks ++ [c]) = .ok bs := by
    rw [Artifact.ofChunks]
    cases encode (a.chunks ++ [c]) with
    | error _ =>
      constructor
      · rintro ⟨_, h⟩
        cases h
      · rintro ⟨_, h⟩
        cases h
    | ok bs =>
      constructor
      · intro _
        exact ⟨bs, rfl⟩
      · intro _
        exact ⟨_, rfl⟩
  rw [hwith, hchunks, exists_encode_iff, List.forall_mem_append, List.forall_mem_singleton,
    and_iff_left hid, Artifact.ids, List.forall_mem_map]

/-- **What is read as a container.**  Bytes are read as chunks if they have a layout, and
then as the chunks of the layout; all others are refused.  Encoding the chunks gives the
bytes back if the layout is exact, and otherwise no chunks are encoded as these bytes.  An
artifact that was read can be extended if all identifiers that were read are valid. -/
theorem decode_laws {bs : Bytes} (h : bs.length < 2 ^ 31) :
    (∀ cs, decode bs = .ok cs ↔ ∃ l : Layout, l.bytes = bs ∧ l.chunks = cs) ∧
    (∀ l : Layout, l.bytes = bs → (encode l.chunks = .ok bs ↔ l.IsExact) ∧
      ((∃ cs, encode cs = .ok bs) ↔ l.IsExact)) ∧
    ((∀ l : Layout, l.bytes ≠ bs) →
      ∃ c, decode bs = .error c ∧ c.code.id = "MODF-B002") ∧
    ∀ a c, Artifact.ofBinary bs = .ok a → isValidId c.id = true → a.has c.id = false →
      ((∃ a', a.withChunk c = .ok a') ↔ ∀ id ∈ a.ids, isValidId id = true) := by
  have hsize : bs.length < 2 ^ 32 := Nat.lt_trans h (by decide)
  have hread (cs : List Chunk) :
      decode bs = .ok cs ↔ ∃ l : Layout, l.bytes = bs ∧ l.chunks = cs := decode_eq_ok_iff hsize
  have hexact (l : Layout) (hl : l.bytes = bs) (cs : List Chunk) (hcs : encode cs = .ok bs) :
      l.IsExact := by
    obtain ⟨l', hexact, hl', -⟩ := encode_eq_ok_iff.mp hcs
    rw [layout_injective (hl ▸ hsize) (hl.trans hl'.symm)]
    exact hexact
  have hback (l : Layout) (hl : l.bytes = bs) (h : l.IsExact) : encode l.chunks = .ok bs :=
    encode_eq_ok_iff.mpr ⟨l, h, hl, rfl⟩
  refine ⟨hread, fun l hl => ⟨⟨hexact l hl _, hback l hl⟩, ?_⟩, ?_, ?_⟩
  · constructor
    · rintro ⟨cs, hcs⟩
      exact hexact l hl cs hcs
    · intro hl'
      exact ⟨_, hback l hl hl'⟩
  · intro hno
    cases hdecode : decode bs with
    | ok cs =>
      obtain ⟨l, hl, -⟩ := (hread cs).mp hdecode
      exact (hno l hl).elim
    | error c =>
      obtain ⟨reason, rfl⟩ := decode_error hdecode
      exact ⟨_, rfl, rfl⟩
  · intro a c _ hid hnew
    exact exists_withChunk_iff hid hnew

/-- A byte that is not zero in the place of padding is read over, and does not come back. -/
theorem decode_laws_padding :
    let bs : Bytes := [0x46, 0x4F, 0x52, 0x31, 0, 0, 0, 16, 0x4D, 0x4F, 0x44, 0x46,
      0x44, 0x6F, 0x63, 0x73, 0, 0, 0, 3, 0x61, 0x62, 0x63, 0xFF]
    bs.length < 2 ^ 31 ∧ decode bs = .ok [⟨"Docs", [0x61, 0x62, 0x63]⟩] ∧
      ¬ ∃ cs, encode cs = .ok bs := by
  intro bs
  have hsize : bs.length < 2 ^ 31 := by decide
  let p : RawChunk := ⟨[0x44, 0x6F, 0x63, 0x73], [0x61, 0x62, 0x63], [0xFF], rfl, by decide⟩
  let l : Layout :=
    ⟨ascii headerWord, ascii formWord, [p], by decide, by decide, Or.inl rfl, trivial⟩
  have hbytes : l.bytes = bs := by decide
  obtain ⟨hread, hexact, -⟩ := decode_laws hsize
  refine ⟨hsize, (hread _).mpr ⟨l, hbytes, by decide⟩, fun h => ?_⟩
  have hfill := (((hexact l hbytes).2.mp h).raws p (List.mem_singleton_self p)).fill
  exact absurd hfill (by decide)

end Chunk
end ModuleBuild
