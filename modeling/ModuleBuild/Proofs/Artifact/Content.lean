import Mathlib.Data.List.Forall2
import ModuleBuild.Artifact.Build
import ModuleBuild.Proofs.Outcome
import ModuleBuild.Proofs.Term.RoundTrip

/-! # What the chunks of an artifact hold

Building an assembled module writes one value per chunk (`Assembly.holds_of_build`), so
each chunk of the artifact is read back as the reading of its value
(`Assembly.contents_of_build`).
-/
namespace ModuleBuild

/-- The value that the first chunk with an identifier holds. -/
def Artifact.content? (a : Artifact) (id : String) : Option Value :=
  (a.read? id).bind Term.decode

/-- The chunk has the identifier and is the payload of the value. -/
def Chunk.Holds (e : String × Value) (c : Chunk) : Prop :=
  c.id = e.1 ∧ Term.encode e.2 = .ok c.data

/-- The first chunk with an identifier holds the first value under it. -/
theorem Chunk.find?_of_holds {es : List (String × Value)} {cs : List Chunk} {id : String}
    {v : Value} (hall : List.Forall₂ Holds es cs) (hfind : Value.findField id es = some v) :
    ∃ c, cs.find? (fun c => c.id = id) = some c ∧ Term.encode v = .ok c.data := by
  induction hall with
  | nil => cases hfind
  | @cons e c es cs hc _ ih =>
    obtain ⟨n, w⟩ := e
    obtain ⟨hid, hdata⟩ := hc
    by_cases hn : n = id
    · rw [Value.findField, if_pos hn] at hfind
      cases hfind
      exact ⟨c, by simp [hid, hn], hdata⟩
    · rw [Value.findField, if_neg hn] at hfind
      obtain ⟨c', hread, hencode⟩ := ih hfind
      exact ⟨c', by simpa [hid, hn] using hread, hencode⟩

/-- A chunk is read back as the reading of its value. -/
theorem Artifact.content?_of_holds {a : Artifact} {es : List (String × Value)} {id : String}
    {v : Value} (hall : List.Forall₂ Chunk.Holds es a.chunks)
    (hfind : Value.findField id es = some v) : a.content? id = some (Term.reading v) := by
  obtain ⟨c, hc, hencode⟩ := Chunk.find?_of_holds hall hfind
  rw [content?, read?, hc]
  exact Term.decode_of_encode hencode

namespace Assembly

open Term

variable {m : Assembly} {a : Artifact}

theorem holds_of_encodeAll {es : List (String × Value)} {cs : List Chunk}
    (h : encodeAll es = .ok cs) : List.Forall₂ Chunk.Holds es cs := by
  induction es generalizing cs with
  | nil =>
    cases h
    exact .nil
  | cons e rest ih =>
    obtain ⟨id, v⟩ := e
    obtain ⟨data, hdata, h⟩ := bind_eq_ok.mp h
    obtain ⟨more, hmore, h⟩ := bind_eq_ok.mp h
    cases h
    exact .cons ⟨rfl, hdata⟩ (ih hmore)

/-- What the backend is asked for by the `compile` attribute. -/
def options (m : Assembly) : BackendOptions := .ofValues m.compileValues

/-- The values of all chunks under their identifiers, given the payload of the code. -/
def values (m : Assembly) (code : Bytes) : List (String × Value) :=
  let (before, after) := m.otherValues m.options (Md5.hex code)
  before ++ ("Code", m.codeValue) :: after

theorem holds_of_chunks {cs : List Chunk} (h : m.chunks = .ok cs) :
    ∃ code, Term.encode m.codeValue = .ok code ∧ List.Forall₂ Chunk.Holds (m.values code) cs := by
  obtain ⟨code, hcode, h⟩ := bind_eq_ok.mp h
  obtain ⟨front, hfront, h⟩ := bind_eq_ok.mp h
  obtain ⟨back, hback, h⟩ := bind_eq_ok.mp h
  cases h
  have hrest : List.Forall₂ Chunk.Holds
      (("Code", m.codeValue) :: (m.otherValues m.options (Md5.hex code)).2)
      ({ id := "Code", data := code } :: back) :=
    .cons ⟨rfl, hcode⟩ (holds_of_encodeAll hback)
  exact ⟨code, hcode, List.rel_append (holds_of_encodeAll hfront) hrest⟩

/-- **Building writes every value into a chunk.** -/
theorem holds_of_build (h : m.build = .ok a) :
    ∃ code, Term.encode m.codeValue = .ok code ∧
      List.Forall₂ Chunk.Holds (m.values code) a.chunks := by
  unfold build at h
  split at h
  · cases h
  · next cs hcs =>
    split at h
    · cases h
    · next a' ha =>
      cases h
      obtain ⟨binary, -, ha⟩ := bind_eq_ok.mp ha
      cases ha
      exact holds_of_chunks hcs

/-- The chunks of an artifact hold what is written for an assembled module, given the
payload of the code. -/
structure Contents (m : Assembly) (a : Artifact) (payload : Bytes) : Prop where
  codePayload : a.read? "Code" = some payload
  code : a.content? "Code" = some (reading m.codeValue)
  module : a.content? "Modl" = some (reading (.record [("module", .text m.module),
    ("file", .text m.location.file), ("line", .int m.location.line)]))
  exports : a.content? "ExpT" = some (reading (pairsValue m.exports))
  attributes : a.content? "Attr"
    = some (reading (.list (m.attributes.map AttributeSection.toValue)))
  compileInfo : a.content? "CInf" = some (reading (m.compileInfoValue m.options))
  info : a.content? "Info" = some (reading (m.infoValue m.options.flags (Md5.hex payload)))

theorem contents_of_build (h : m.build = .ok a) : ∃ code, Contents m a code := by
  obtain ⟨code, hencode, hall⟩ := holds_of_build h
  have hcontent {id : String} {v : Value} (hfind : Value.findField id (m.values code) = some v) :
      a.content? id = some (reading v) := Artifact.content?_of_holds hall hfind
  have hpayload : a.read? "Code" = some code := by
    have hfind : Value.findField "Code" (m.values code) = some m.codeValue := rfl
    obtain ⟨c, hc, hdata⟩ := Chunk.find?_of_holds hall hfind
    rw [hencode] at hdata
    cases hdata
    rw [Artifact.read?, hc]
    rfl
  refine ⟨code, hpayload, ?_, ?_, ?_, ?_, ?_, ?_⟩
  all_goals exact hcontent rfl

end Assembly

end ModuleBuild
