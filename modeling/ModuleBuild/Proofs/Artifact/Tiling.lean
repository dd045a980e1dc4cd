import Mathlib.Data.List.Chain
import ModuleBuild.Proofs.Artifact.Layout

/-! # How a container is tiled

Where the chunks of a container stand is told by offsets alone: the first header is at byte
12, a header gives the length of its payload, and behind the payload the next multiple of
four is the offset of the next header.  `IsTiling` says that chunks which stand in this way
cover the bytes, `Reached` which offsets are come to.

The decoder takes a chunk off what is left of the bytes.  One turn of its loop either is at
the end, or reads the chunk at the offset and goes on at the next one, or fails because the
chunk there does not fit (`decodeFrom_turn`).  By induction on what is left it answers the
chunks of a tiling, or has reached an offset where nothing fits (`decodeFrom_walk`).
-/
namespace ModuleBuild
namespace Chunk

/-! ## Places -/

/-- The number in the four bytes at an offset. -/
def numberAt? (b : Bytes) (offset : Nat) : Option Nat :=
  match b.drop offset with
  | b1 :: b2 :: b3 :: b4 :: _ => some (ofWord b1 b2 b3 b4)
  | _ => none

/-- Where a chunk stands: the offset of its header and the length of its payload. -/
structure Place where
  offset : Nat
  length : Nat

namespace Place

/-- Where the payload begins. -/
def start (p : Place) : Nat := p.offset + 8

/-- Where the payload ends. -/
def stop (p : Place) : Nat := p.start + p.length

/-- The next multiple of four, where the padding ends. -/
def next (p : Place) : Nat := (p.stop + 3) / 4 * 4

/-- The header stands in the bytes and declares the length, and the payload stands in
them. -/
structure FitsIn (p : Place) (b : Bytes) : Prop where
  start_le : p.start ≤ b.length
  declared : numberAt? b (p.offset + 4) = some p.length
  stop_le : p.stop ≤ b.length

/-- The chunk that stands there. -/
def chunk (p : Place) (b : Bytes) : Chunk :=
  ⟨ofAscii ((b.drop p.offset).take 4), (b.drop p.start).take p.length⟩

end Place

/-- The header at an offset does not fit in the bytes, or the payload that it declares does
not. -/
def Overruns (b : Bytes) (offset : Nat) : Prop :=
  b.length < offset + 8 ∨
    ∃ n, numberAt? b (offset + 4) = some n ∧ b.length < offset + 8 + n

/-- The offsets that are come to: the one behind the first twelve bytes, and those behind a
chunk that fits. -/
inductive Reached (b : Bytes) : Nat → Prop
  | first : Reached b 12
  | next {p : Place} (before : Reached b p.offset) (fits : p.FitsIn b) : Reached b p.next

/-- From an offset on the bytes are those of chunks that fit, one behind the other. -/
inductive Tiles (b : Bytes) : Nat → List Place → Prop
  | done {offset : Nat} (behind : b.length ≤ offset) : Tiles b offset []
  | chunk {p : Place} {ps : List Place} (fits : p.FitsIn b) (rest : Tiles b p.next ps) :
      Tiles b p.offset (p :: ps)

/-- Behind the first twelve bytes, the bytes are those of chunks at some places. -/
structure IsTiling (b : Bytes) (ps : List Place) : Prop where
  twelve_le : 12 ≤ b.length
  first : ∀ p, ps.head? = some p → p.offset = 12
  fits : ∀ p ∈ ps, p.FitsIn b
  consecutive : ps.IsChain fun p q => p.next = q.offset
  aligned : ∀ p ∈ ps, 4 ∣ p.offset
  padding_le : ∀ p ∈ ps, p.stop ≤ p.next ∧ p.next ≤ p.stop + 3
  /-- Only the padding of the last one may be cut. -/
  padded : ∀ p ∈ ps.dropLast, p.next ≤ b.length
  last : ∀ p, ps.getLast? = some p → b.length ≤ p.next
  empty : ps = [] → b.length = 12
  /-- Every other byte is in one header, payload or padding. -/
  cover : ∀ i, 12 ≤ i → i < b.length → ∃! p, p ∈ ps ∧ p.offset ≤ i ∧ i < p.next

/-! ## The first twelve bytes -/

/-- The first twelve bytes: `FOR1`, how many bytes follow the size, `MODF`. -/
def HasHeader (b : Bytes) : Prop :=
  b.take 12 = ascii headerWord ++ word (b.length - 8) ++ ascii formWord

instance (b : Bytes) : Decidable (HasHeader b) := inferInstanceAs (Decidable (_ = _))

/-- Bytes without their top bits. -/
def lowBits (bs : Bytes) : Bytes := bs.map (· % 0x80)

/-- The first twelve bytes are those of a header but for the top bits of its words. -/
def HeaderReads (b : Bytes) : Prop :=
  ∃ header form, lowBits header = ascii headerWord ∧ lowBits form = ascii formWord ∧
    b.take 12 = header ++ word (b.length - 8) ++ form

theorem ascii_ofAscii (bs : Bytes) : ascii (ofAscii bs) = lowBits bs := by
  rw [ascii, ofAscii, String.toList_ofList, List.map_map, lowBits]
  refine List.map_congr_left fun b _ => ?_
  have hvalid : (b.toNat % 0x80).isValidChar := Or.inl (by omega)
  have hchar : (Char.ofNat (b.toNat % 0x80)).toNat = b.toNat % 0x80 := by
    rw [Char.ofNat, dif_pos hvalid]
    rfl
  rw [Function.comp_apply, hchar, ← UInt8.toNat_inj, Nat.toUInt8_eq, UInt8.toNat_ofNat',
    UInt8.toNat_mod]
  exact Nat.mod_eq_of_lt (by omega)

theorem ofAscii_lowBits (bs : Bytes) : ofAscii (lowBits bs) = ofAscii bs := by
  rw [ofAscii, ofAscii, lowBits, List.map_map]
  refine congrArg String.ofList (List.map_congr_left fun b _ => ?_)
  rw [Function.comp_apply, UInt8.toNat_mod]
  exact congrArg Char.ofNat (Nat.mod_mod _ _)

/-- Bytes are read as a printable word if they are its bytes without their top bits. -/
theorem ofAscii_eq_iff {bs : Bytes} {s : String} (hs : isValidId s = true) :
    ofAscii bs = s ↔ lowBits bs = ascii s := by
  constructor
  · rintro rfl
    exact (ascii_ofAscii bs).symm
  · intro h
    rw [← ofAscii_lowBits, h, ofAscii_ascii hs]

theorem length_of_lowBits {bs cs : Bytes} (h : lowBits bs = cs) : bs.length = cs.length := by
  rw [← h, lowBits, List.length_map]

theorem lowBits_of_lt {bs : Bytes} (h : ∀ b ∈ bs, b.toNat < 0x80) : lowBits bs = bs := by
  refine (List.map_congr_left fun b hb => ?_).trans (List.map_id _)
  rw [← UInt8.toNat_inj, UInt8.toNat_mod]
  exact Nat.mod_eq_of_lt (h b hb)

theorem HeaderReads.twelve_le {b : Bytes} (h : HeaderReads b) : 12 ≤ b.length := by
  obtain ⟨header, form, hheader, hform, htake⟩ := h
  have hlength := congrArg List.length htake
  rw [List.length_take, List.length_append, List.length_append, length_word,
    length_of_lowBits hheader, length_of_lowBits hform] at hlength
  have hwords : (ascii headerWord).length = 4 ∧ (ascii formWord).length = 4 := by decide
  omega

/-- Without top bits, nothing but the header is read as one. -/
theorem headerReads_iff {b : Bytes}
    (h : ∀ x ∈ b.take 4 ++ (b.drop 8).take 4, x.toNat < 0x80) : HeaderReads b ↔ HasHeader b := by
  constructor
  · rintro ⟨header, form, hheader, hform, htake⟩
    have hfour : header.length = 4 := length_of_lowBits hheader
    have hfour' : form.length = 4 := length_of_lowBits hform
    have hb : b = header ++ (word (b.length - 8) ++ (form ++ b.drop 12)) := by
      conv_lhs => rw [← List.take_append_drop 12 b, htake]
      simp only [List.append_assoc]
    have hfirst : b.take 4 = header := by
      rw [hb]
      exact List.take_left' hfour
    have hthird : (b.drop 8).take 4 = form := by
      have hdrop : b.drop 8 = form ++ b.drop 12 := by
        conv_lhs => rw [hb, ← List.append_assoc]
        exact List.drop_left' (by rw [List.length_append, hfour, length_word])
      rw [hdrop]
      exact List.take_left' hfour'
    rw [List.forall_mem_append, hfirst, hthird] at h
    rw [HasHeader, htake, ← hheader, ← hform, lowBits_of_lt h.1, lowBits_of_lt h.2]
  · intro hheader
    exact ⟨ascii headerWord, ascii formWord, by decide, by decide, hheader⟩

/-! ## One turn of the loop -/

/-- The payload behind a header overruns, or the chunk is read and the reading goes on behind
its padding. -/
theorem decodeFrom_word {tag : Bytes} {n : Nat} (htag : tag.length = 4) (hn : n < 2 ^ 32)
    (offset : Nat) (rest : Bytes) :
    (rest.length < n ∧ ∃ e, decodeFrom offset (tag ++ word n ++ rest) = .error e) ∨
    (n ≤ rest.length ∧ decodeFrom offset (tag ++ word n ++ rest)
      = (decodeFrom (offset + 8 + (n + padding n)) (rest.drop (n + padding n))).map
          (⟨ofAscii tag, rest.take n⟩ :: ·)) := by
  obtain ⟨a, b, c, d, rfl⟩ := exists_four htag
  simp only [word, List.cons_append, List.nil_append]
  rw [decodeFrom, ofWord_word hn]
  by_cases hshort : rest.length < n
  · rw [if_pos hshort]
    exact Or.inl ⟨hshort, _, rfl⟩
  · rw [if_neg hshort]
    refine Or.inr ⟨Nat.le_of_not_lt hshort, ?_⟩
    dsimp only
    cases decodeFrom (offset + 8 + (n + padding n)) (rest.drop (n + padding n)) <;> rfl

theorem decodeFrom_short {bs : Bytes} (hpos : 0 < bs.length) (h : bs.length < 8)
    (offset : Nat) : ∃ e, decodeFrom offset bs = .error e := by
  cases bs with
  | nil => cases hpos
  | cons head tail =>
    rw [decodeFrom]
    · exact ⟨_, rfl⟩
    · rintro x1 x2 x3 x4 x5 x6 x7 rest rfl
      simp only [List.length_cons] at h
      omega

theorem exists_header_of_length {bs : Bytes} (h : 8 ≤ bs.length) :
    ∃ tag n rest, tag.length = 4 ∧ n < 2 ^ 32 ∧ bs = tag ++ word n ++ rest := by
  match bs, h with
  | a :: b :: c :: d :: l1 :: l2 :: l3 :: l4 :: rest, _ =>
    exact ⟨[a, b, c, d], ofWord l1 l2 l3 l4, rest, rfl, ofWord_lt l1 l2 l3 l4,
      by rw [word_ofWord]; rfl⟩

theorem numberAt?_of_drop {b rest : Bytes} {offset n : Nat} (hn : n < 2 ^ 32)
    (h : b.drop offset = word n ++ rest) : numberAt? b offset = some n := by
  rw [numberAt?, h]
  exact congrArg some (ofWord_word hn)

/-- One turn of the loop, at an offset that is a multiple of four: it is at the end, or the
chunk there overruns, or the chunk is read and the next offset is gone on at. -/
theorem decodeFrom_turn {b : Bytes} (hb : b.length < 2 ^ 31) {offset : Nat}
    (haligned : 4 ∣ offset) :
    (b.length ≤ offset ∧ decodeFrom offset (b.drop offset) = .ok []) ∨
    (offset < b.length ∧ Overruns b offset ∧
      ∃ e, decodeFrom offset (b.drop offset) = .error e) ∨
    ∃ p : Place, p.offset = offset ∧ p.FitsIn b ∧ decodeFrom offset (b.drop offset)
      = (decodeFrom p.next (b.drop p.next)).map (p.chunk b :: ·) := by
  rcases Nat.lt_or_ge offset b.length with hlt | hge
  case inr =>
    refine Or.inl ⟨hge, ?_⟩
    rw [List.drop_eq_nil_of_le hge, decodeFrom]
  refine Or.inr ?_
  have hleft : (b.drop offset).length = b.length - offset := List.length_drop
  rcases Nat.lt_or_ge (b.drop offset).length 8 with hshort | hlong
  case inl =>
    exact Or.inl ⟨hlt, Or.inl (by omega), decodeFrom_short (by omega) hshort offset⟩
  obtain ⟨tag, n, rest, htag, hn, hbs⟩ := exists_header_of_length hlong
  have hword : b.drop (offset + 4) = word n ++ rest := by
    rw [← List.drop_drop, hbs, List.append_assoc]
    exact List.drop_left' htag
  have hnumber : numberAt? b (offset + 4) = some n := numberAt?_of_drop hn hword
  have hrest : b.drop (offset + 8) = rest := by
    rw [← List.drop_drop, hbs]
    exact List.drop_left' (by rw [List.length_append, htag, length_word])
  have hlength : rest.length = b.length - (offset + 8) := by rw [← hrest, List.length_drop]
  rw [hbs]
  rcases decodeFrom_word htag hn offset rest with ⟨hover, herror⟩ | ⟨hfits, hread⟩
  case inl => exact Or.inl ⟨hlt, Or.inr ⟨n, hnumber, by omega⟩, herror⟩
  refine Or.inr ⟨⟨offset, n⟩, rfl, ⟨?_, hnumber, ?_⟩, ?_⟩
  · change offset + 8 ≤ b.length
    omega
  · change offset + 8 + n ≤ b.length
    omega
  · -- from a multiple of four, the aligned length leads to the next one
    have hpad := add_padding (n := n) (by omega)
    have hnext : offset + 8 + (n + padding n) = (offset + 8 + n + 3) / 4 * 4 := by omega
    have hdrop : rest.drop (n + padding n) = b.drop ((offset + 8 + n + 3) / 4 * 4) := by
      rw [← hrest, List.drop_drop, hnext]
    have htake : (b.drop offset).take 4 = tag := by
      rw [hbs, List.append_assoc]
      exact List.take_left' htag
    rw [hread, hnext, hdrop, Place.chunk, Place.start, htake, hrest]
    rfl

/-! ## The whole loop -/

theorem Place.four_dvd_next (p : Place) : 4 ∣ p.next := Nat.dvd_mul_left 4 _

theorem Place.stop_le_next (p : Place) : p.stop ≤ p.next ∧ p.next ≤ p.stop + 3 := by
  rw [Place.next]
  omega

theorem Place.offset_lt_next (p : Place) : p.offset < p.next := by
  have hstop := p.stop_le_next.1
  rw [Place.stop, Place.start] at hstop
  omega

/-- **The loop** answers the chunks of a tiling, or comes to a chunk that overruns. -/
theorem decodeFrom_walk {b : Bytes} (hb : b.length < 2 ^ 31) {offset : Nat}
    (haligned : 4 ∣ offset) (hreached : Reached b offset) :
    (∃ ps, Tiles b offset ps ∧
      decodeFrom offset (b.drop offset) = .ok (ps.map fun p => p.chunk b)) ∨
    ∃ stuck, Reached b stuck ∧ stuck < b.length ∧ Overruns b stuck ∧
      ∃ e, decodeFrom offset (b.drop offset) = .error e := by
  -- every turn leaves fewer bytes
  induction hleft : b.length - offset using Nat.strong_induction_on generalizing offset with
  | h left ih =>
    rcases decodeFrom_turn hb haligned with ⟨hend, hdone⟩ | ⟨hlt, hover, herror⟩ |
      ⟨p, rfl, hfits, hread⟩
    case inl => exact Or.inl ⟨[], .done hend, hdone⟩
    case inr.inl => exact Or.inr ⟨offset, hreached, hlt, hover, herror⟩
    have hadvance := p.offset_lt_next
    have hin := hfits.start_le
    rw [Place.start] at hin
    rw [hread]
    rcases ih _ (by omega) p.four_dvd_next (hreached.next hfits) rfl with
      ⟨ps, htiles, hrest⟩ | ⟨stuck, hstuck, hlt, hover, e, herror⟩
    · refine Or.inl ⟨p :: ps, .chunk hfits htiles, ?_⟩
      rw [hrest]
      rfl
    · refine Or.inr ⟨stuck, hstuck, hlt, hover, e, ?_⟩
      rw [herror]
      rfl

/-! ## Tilings -/

section Tilings

variable {b : Bytes} {offset : Nat} {p q : Place} {ps : List Place}

/-- What fits does not overrun. -/
theorem Place.FitsIn.not_overruns (h : p.FitsIn b) : ¬ Overruns b p.offset := by
  rintro (hheader | ⟨n, hn, hpayload⟩)
  · exact Nat.not_lt_of_le h.start_le hheader
  · rw [h.declared] at hn
    cases hn
    exact Nat.not_lt_of_le h.stop_le hpayload

/-- One length fits at an offset. -/
theorem Place.FitsIn.unique (hp : p.FitsIn b) (hq : q.FitsIn b) (h : p.offset = q.offset) :
    p = q := by
  obtain ⟨offset, n⟩ := p
  obtain ⟨offset', k⟩ := q
  cases h
  cases hp.declared.symm.trans hq.declared
  rfl

/-- Where the bytes are tiled from, they are at the end, or a chunk stands there. -/
theorem Tiles.inversion (h : Tiles b offset ps) : (b.length ≤ offset ∧ ps = []) ∨
    ∃ p rest, p.offset = offset ∧ p.FitsIn b ∧ Tiles b p.next rest ∧ ps = p :: rest := by
  cases h with
  | done hbehind => exact Or.inl ⟨hbehind, rfl⟩
  | chunk hfits hrest => exact Or.inr ⟨_, _, rfl, hfits, hrest, rfl⟩

/-- In bytes that are tiled, all offsets that are come to are followed by tiles. -/
theorem Tiles.of_reached (h : Tiles b 12 ps) (hreached : Reached b offset) :
    ∃ rest, Tiles b offset rest := by
  induction hreached with
  | first => exact ⟨ps, h⟩
  | next _ hfits ih =>
    obtain ⟨rest, hrest⟩ := ih
    rcases hrest.inversion with ⟨hend, -⟩ | ⟨q, more, hoffset, hq, hmore, -⟩
    · have hstart := hfits.start_le
      rw [Place.start] at hstart
      omega
    · rw [hfits.unique hq hoffset.symm]
      exact ⟨more, hmore⟩

theorem Tiles.not_overruns (h : Tiles b 12 ps) (hreached : Reached b offset)
    (hlt : offset < b.length) : ¬ Overruns b offset := by
  obtain ⟨rest, hrest⟩ := h.of_reached hreached
  rcases hrest.inversion with ⟨hend, -⟩ | ⟨q, more, rfl, hq, -, -⟩
  · omega
  · exact hq.not_overruns

theorem Tiles.fits (h : Tiles b offset ps) : ∀ p ∈ ps, p.FitsIn b := by
  induction h with
  | done _ => exact nofun
  | chunk hfits _ ih => exact List.forall_mem_cons.mpr ⟨hfits, ih⟩

theorem Tiles.offset_le (h : Tiles b offset ps) : ∀ p ∈ ps, offset ≤ p.offset := by
  induction h with
  | done _ => exact nofun
  | chunk _ _ ih =>
    refine List.forall_mem_cons.mpr ⟨Nat.le_refl _, fun q hq => ?_⟩
    exact Nat.le_trans (Nat.le_of_lt (Place.offset_lt_next _)) (ih q hq)

theorem Tiles.aligned (h : Tiles b offset ps) (haligned : 4 ∣ offset) : ∀ p ∈ ps, 4 ∣ p.offset := by
  induction h with
  | done _ => exact nofun
  | chunk _ _ ih => exact List.forall_mem_cons.mpr ⟨haligned, ih (Place.four_dvd_next _)⟩

theorem Tiles.consecutive (h : Tiles b offset ps) : ps.IsChain fun p q => p.next = q.offset := by
  induction h with
  | done _ => exact List.isChain_nil
  | chunk _ hrest ih =>
    rcases hrest.inversion with ⟨-, rfl⟩ | ⟨q, more, hoffset, -, -, rfl⟩
    · exact List.isChain_singleton _
    · exact List.isChain_cons_cons.mpr ⟨hoffset.symm, ih⟩

theorem Tiles.padded (h : Tiles b offset ps) : ∀ p ∈ ps.dropLast, p.next ≤ b.length := by
  induction h with
  | done _ => exact nofun
  | chunk _ hrest ih =>
    rcases hrest.inversion with ⟨-, rfl⟩ | ⟨q, more, hoffset, hq, -, rfl⟩
    · exact nofun
    · rw [List.dropLast_cons_cons]
      refine List.forall_mem_cons.mpr ⟨?_, ih⟩
      have hstart := hq.start_le
      rw [Place.start] at hstart
      omega

theorem Tiles.last (h : Tiles b offset ps) : ∀ p, ps.getLast? = some p → b.length ≤ p.next := by
  induction h with
  | done _ => exact nofun
  | chunk _ hrest ih =>
    intro q hq
    rcases hrest.inversion with ⟨hend, rfl⟩ | ⟨_, _, -, -, -, rfl⟩
    · cases hq
      exact hend
    · exact ih q hq

/-- **Every byte** behind the offset is in one chunk or its padding. -/
theorem Tiles.cover (h : Tiles b offset ps) {i : Nat} (hle : offset ≤ i) (hlt : i < b.length) :
    ∃! p, p ∈ ps ∧ p.offset ≤ i ∧ i < p.next := by
  induction h with
  | done hbehind => omega
  | @chunk p rest _ hrest ih =>
    rcases Nat.lt_or_ge i p.next with hin | hbehind
    · refine ⟨p, ⟨List.mem_cons_self, hle, hin⟩, ?_⟩
      rintro q ⟨hq, hqle, -⟩
      rcases List.mem_cons.mp hq with rfl | hq
      · rfl
      · have := hrest.offset_le q hq
        omega
    · obtain ⟨q, ⟨hq, hqle, hqlt⟩, hunique⟩ := ih hbehind
      refine ⟨q, ⟨List.mem_cons_of_mem _ hq, hqle, hqlt⟩, ?_⟩
      rintro q' ⟨hq', hqle', hqlt'⟩
      rcases List.mem_cons.mp hq' with rfl | hq'
      · omega
      · exact hunique q' ⟨hq', hqle', hqlt'⟩

theorem Tiles.isTiling (h : Tiles b 12 ps) (htwelve : 12 ≤ b.length) : IsTiling b ps where
  twelve_le := htwelve
  first p hp := by
    rcases h.inversion with ⟨-, rfl⟩ | ⟨q, _, hoffset, -, -, rfl⟩
    · cases hp
    · cases hp
      exact hoffset
  fits := h.fits
  consecutive := h.consecutive
  aligned := h.aligned (by decide)
  padding_le p _ := p.stop_le_next
  padded := h.padded
  last := h.last
  empty hempty := by
    rcases h.inversion with ⟨hend, -⟩ | ⟨_, _, -, -, -, rfl⟩
    · omega
    · cases hempty
  cover _ hle hlt := h.cover hle hlt

end Tilings

/-! ## Whole containers -/

/-- The header is checked, then the loop runs behind it. -/
theorem decode_eq_ok_iff_headerReads {b : Bytes} (hb : b.length < 2 ^ 31) (cs : List Chunk) :
    decode b = .ok cs ↔ HeaderReads b ∧ decodeFrom 12 (b.drop 12) = .ok cs := by
  constructor
  · intro h
    obtain ⟨header, form, rest, n, hheader, hform, hn, rfl⟩ := exists_header_of_decode h
    obtain ⟨hreads, hsize, hreads', hrest⟩ := (decode_append hheader hform hn).mp h
    have hlength : (header ++ word n ++ (form ++ rest)).length - 8 = n := by
      rw [List.length_append, List.length_append, hheader, length_word, ← hsize]
      omega
    have htwelve : (header ++ word n ++ form).length = 12 := by
      rw [List.length_append, List.length_append, hheader, length_word, hform]
    refine ⟨⟨header, form, (ofAscii_eq_iff (by decide)).mp hreads,
      (ofAscii_eq_iff (by decide)).mp hreads', ?_⟩, ?_⟩
    · rw [hlength, ← List.append_assoc]
      exact List.take_left' htwelve
    · rw [← List.append_assoc, List.drop_left' htwelve]
      exact hrest
  · rintro ⟨hheads, hrest⟩
    have htwelve := hheads.twelve_le
    obtain ⟨header, form, hheader, hform, htake⟩ := hheads
    have hfour' : form.length = 4 := length_of_lowBits hform
    have hbytes : b = header ++ word (b.length - 8) ++ (form ++ b.drop 12) := by
      conv_lhs => rw [← List.take_append_drop 12 b, htake]
      simp only [List.append_assoc]
    rw [hbytes]
    refine (decode_append (length_of_lowBits hheader) hfour' (by omega)).mpr
      ⟨(ofAscii_eq_iff (by decide)).mpr hheader, ?_, (ofAscii_eq_iff (by decide)).mpr hform, hrest⟩
    rw [List.length_append, List.length_drop, hfour']
    omega

/-- **Decoding tiles the bytes or refuses them.**  The chunks that are answered are those of a
tiling.  Bytes are refused, as an invalid container, exactly if their first twelve are not
read as a header or a chunk that is come to overruns them.  Of header words without top bits
only the documented ones are read. -/
theorem decode_tiling {b : Bytes} (hb : b.length < 2 ^ 31) :
    (∀ cs, decode b = .ok cs → ∃ ps, IsTiling b ps ∧ cs = ps.map fun p => p.chunk b) ∧
    (∀ e, decode b = .error e → e.code.id = "MODF-B002") ∧
    ((∃ e, decode b = .error e) ↔
      ¬ HeaderReads b ∨ ∃ offset, Reached b offset ∧ offset < b.length ∧ Overruns b offset) ∧
    ((∀ x ∈ b.take 4 ++ (b.drop 8).take 4, x.toNat < 0x80) → (HeaderReads b ↔ HasHeader b)) := by
  have hok := decode_eq_ok_iff_headerReads hb
  have haligned : 4 ∣ 12 := by decide
  have hwalk := decodeFrom_walk hb haligned .first
  refine ⟨?tiling, ?refusal, ⟨?refused, ?refuses⟩, headerReads_iff⟩
  case tiling =>
    intro cs hdecode
    obtain ⟨hheader, hrest⟩ := (hok cs).mp hdecode
    rcases hwalk with ⟨ps, htiles, hread⟩ | ⟨_, -, -, -, e, herror⟩
    · rw [hread] at hrest
      cases hrest
      exact ⟨ps, htiles.isTiling hheader.twelve_le, rfl⟩
    · rw [herror] at hrest
      cases hrest
  case refusal =>
    intro e hdecode
    obtain ⟨reason, rfl⟩ := decode_error hdecode
    rfl
  case refused =>
    rintro ⟨e, hdecode⟩
    by_contra hno
    rw [not_or, not_not] at hno
    obtain ⟨hheader, hfits⟩ := hno
    rcases hwalk with ⟨ps, -, hread⟩ | ⟨stuck, hstuck, hlt, hover, -⟩
    · rw [(hok _).mpr ⟨hheader, hread⟩] at hdecode
      cases hdecode
    · exact hfits ⟨stuck, hstuck, hlt, hover⟩
  case refuses =>
    intro h
    cases hdecode : decode b with
    | error e => exact ⟨e, rfl⟩
    | ok cs =>
      obtain ⟨hheader, hrest⟩ := (hok cs).mp hdecode
      rcases hwalk with ⟨ps, htiles, -⟩ | ⟨_, -, -, -, e, herror⟩
      · rcases h with hno | ⟨offset, hreached, hlt, hover⟩
        · exact (hno hheader).elim
        · exact (htiles.not_overruns hreached hlt hover).elim
      · rw [herror] at hrest
        cases hrest

/-- A header whose first byte has its top bit set is read as one. -/
theorem decode_tiling_topBit :
    let b : Bytes := [0xC6, 0x4F, 0x52, 0x31, 0, 0, 0, 4, 0x4D, 0x4F, 0x44, 0x46]
    b.length < 2 ^ 31 ∧ ¬ HasHeader b ∧ HeaderReads b ∧ decode b = .ok [] ∧
      ¬ ∃ e, decode b = .error e := by
  intro b
  have hb : b.length < 2 ^ 31 := by decide
  have hheader : HeaderReads b :=
    ⟨[0xC6, 0x4F, 0x52, 0x31], [0x4D, 0x4F, 0x44, 0x46], by decide, by decide, by decide⟩
  have htiles : Tiles b 12 [] := .done (by decide)
  have haccepted : ¬ ∃ e, decode b = .error e := by
    rw [(decode_tiling hb).2.2.1]
    rintro (hno | ⟨offset, hreached, hlt, hover⟩)
    · exact hno hheader
    · exact htiles.not_overruns hreached hlt hover
  refine ⟨hb, by decide, hheader, ?_, haccepted⟩
  cases hdecode : decode b with
  | error e => exact (haccepted ⟨e, hdecode⟩).elim
  | ok cs =>
    obtain ⟨ps, htiling, rfl⟩ := (decode_tiling hb).1 cs hdecode
    cases ps with
    | nil => rfl
    | cons p ps =>
      have hstart := (htiling.fits p List.mem_cons_self).start_le
      have hfirst := htiling.first p rfl
      rw [Place.start, hfirst] at hstart
      exact absurd hstart (by decide)

end Chunk
end ModuleBuild
