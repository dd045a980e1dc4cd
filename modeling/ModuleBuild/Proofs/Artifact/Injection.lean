import ModuleBuild.Proofs.Artifact.Layout

/-! # Chunks added to an artifact

A chunk is added by encoding all chunks again.  What is made in this way is nevertheless the
old container with bytes behind it: only its header is written anew.  An artifact is
*composed* if its container is the encoding of its chunks; those that are made of chunks are,
each added chunk keeps it so (`composed_of_withChunk`), and by induction any number of
attempts does, of which the refused ones change nothing (`Composed.addAll`).
-/
namespace ModuleBuild
namespace Artifact

/-! ## Attempts -/

/-- The artifact after one attempt to add each of some chunks.  A refused attempt leaves the
artifact that it was made on. -/
def addAll (a : Artifact) : List Chunk → Artifact
  | [] => a
  | c :: rest =>
    match a.withChunk c with
    | .ok a' => a'.addAll rest
    | .error _ => a.addAll rest

/-- The chunks whose attempts are not refused, in order. -/
def accepted (a : Artifact) : List Chunk → List Chunk
  | [] => []
  | c :: rest =>
    match a.withChunk c with
    | .ok a' => c :: a'.accepted rest
    | .error _ => a.accepted rest

/-- The container is the encoding of the chunks. -/
def Composed (a : Artifact) : Prop := ofChunks a.chunks = .ok a

section Lemmas

variable {a a' : Artifact} {c : Chunk} {cs tries : List Chunk}

theorem ofChunks_eq_ok_iff : ofChunks cs = .ok a ↔
    (∀ c ∈ cs, Chunk.isValidId c.id = true) ∧ a.chunks = cs ∧
      a.binary = Chunk.ascii Chunk.headerWord ++ Chunk.word (Chunk.body cs).length
        ++ Chunk.body cs := by
  constructor
  · intro h
    obtain ⟨binary, hbinary, hmade⟩ := bind_eq_ok.mp h
    cases hmade
    have hid := Chunk.exists_encode_iff.mp ⟨binary, hbinary⟩
    rw [Chunk.encode_eq_ok hid] at hbinary
    cases hbinary
    exact ⟨hid, rfl, rfl⟩
  · rintro ⟨hid, rfl, hbinary⟩
    rw [ofChunks, Chunk.encode_eq_ok hid, ← hbinary]
    rfl

theorem composed_of_ofChunks (h : ofChunks cs = .ok a) : a.Composed := by
  rw [Composed, (ofChunks_eq_ok_iff.mp h).2.1, h]

theorem Composed.isValidId (h : a.Composed) : ∀ c ∈ a.chunks, Chunk.isValidId c.id = true :=
  (ofChunks_eq_ok_iff.mp h).1

/-- Behind the header stand the encoded chunks. -/
theorem Composed.drop_binary (h : a.Composed) :
    a.binary.drop 12 = a.chunks.flatMap Chunk.encodeOne := by
  rw [(ofChunks_eq_ok_iff.mp h).2.2]
  rfl

theorem has_eq_true_iff {id : String} : a.has id = true ↔ id ∈ a.ids := by
  simp [has, ids]

/-! ## One attempt -/

/-- A chunk that is not refused has a valid identifier that is not there yet. -/
theorem withChunk_eq_ok (h : a.withChunk c = .ok a') :
    Chunk.isValidId c.id = true ∧ c.id ∉ a.ids ∧ ofChunks (a.chunks ++ [c]) = .ok a' := by
  obtain ⟨_, hid, h⟩ := bind_eq_ok.mp h
  rw [Chunk.checkId] at hid
  split at hid
  case isFalse => cases hid
  case isTrue hvalid =>
    split at h
    · cases h
    · rename_i hnew
      exact ⟨hvalid, fun hmem => hnew (has_eq_true_iff.mpr hmem), h⟩

/-- One more chunk is added exactly if its identifier is valid and not there yet. -/
theorem Composed.exists_withChunk_iff (h : a.Composed) : (∃ a', a.withChunk c = .ok a') ↔
    Chunk.isValidId c.id = true ∧ c.id ∉ a.ids := by
  constructor
  · rintro ⟨a', hwith⟩
    obtain ⟨hvalid, hnew, -⟩ := withChunk_eq_ok hwith
    exact ⟨hvalid, hnew⟩
  · rintro ⟨hvalid, hnew⟩
    have hfree : a.has c.id = false := Bool.eq_false_iff.mpr fun hhas =>
      hnew (has_eq_true_iff.mp hhas)
    exact (Chunk.exists_withChunk_iff hvalid hfree).mpr
      (List.forall_mem_map.mpr h.isValidId)

/-- Whatever is refused is refused as an invalid chunk. -/
theorem Composed.withChunk_error (h : a.Composed) {e : Condition}
    (hwith : a.withChunk c = .error e) : e.code.id = "MODF-B002" := by
  rw [withChunk, Chunk.checkId] at hwith
  split at hwith
  case isFalse =>
    cases hwith
    rfl
  case isTrue hvalid =>
    change (if a.has c.id then _ else _) = _ at hwith
    split at hwith
    · cases hwith
      rfl
    · -- the identifiers of all chunks are valid, so that they are encoded
      have hid : ∀ c' ∈ a.chunks ++ [c], Chunk.isValidId c'.id = true :=
        List.forall_mem_append.mpr ⟨h.isValidId, List.forall_mem_singleton.mpr hvalid⟩
      rw [ofChunks, Chunk.encode_eq_ok hid] at hwith
      cases hwith

theorem composed_of_withChunk (h : a.withChunk c = .ok a') : a'.Composed :=
  composed_of_ofChunks (withChunk_eq_ok h).2.2

theorem chunks_of_withChunk (h : a.withChunk c = .ok a') : a'.chunks = a.chunks ++ [c] :=
  (ofChunks_eq_ok_iff.mp (withChunk_eq_ok h).2.2).2.1

theorem ids_of_withChunk (h : a.withChunk c = .ok a') : a'.ids = a.ids ++ [c.id] := by
  rw [ids, chunks_of_withChunk h, List.map_append]
  rfl

/-- What is read under an identifier is not changed by chunks that stand behind. -/
theorem read?_of_chunks_append {more : List Chunk} (h : a'.chunks = a.chunks ++ more)
    {id : String} (hid : id ∈ a.ids) : a'.read? id = a.read? id := by
  obtain ⟨c, hc, rfl⟩ := List.mem_map.mp hid
  have hfound : (a.chunks.find? fun c' => c'.id = c.id).isSome = true :=
    List.find?_isSome.mpr ⟨c, hc, decide_eq_true rfl⟩
  rw [read?, read?, h, List.find?_append, Option.or_of_isSome hfound]

/-- An added chunk is read back. -/
theorem read?_of_withChunk (h : a.withChunk c = .ok a') : a'.read? c.id = some c.data := by
  have hnone : (a.chunks.find? fun c' => c'.id = c.id) = none := by
    rw [List.find?_eq_none]
    intro c' hc' heq
    exact (withChunk_eq_ok h).2.1 (List.mem_map.mpr ⟨c', hc', of_decide_eq_true heq⟩)
  have hself : [c].find? (fun c' => c'.id = c.id) = some c :=
    List.find?_cons_of_pos (decide_eq_true rfl)
  rw [read?, chunks_of_withChunk h, List.find?_append, hnone, Option.none_or, hself]
  rfl

/-! ## Any number of attempts -/

/-- The accepted chunks stand behind those that were there. -/
theorem chunks_addAll (a : Artifact) (tries : List Chunk) :
    (a.addAll tries).chunks = a.chunks ++ a.accepted tries := by
  induction tries generalizing a with
  | nil => exact (List.append_nil _).symm
  | cons c rest ih =>
    rw [addAll, accepted]
    cases hwith : a.withChunk c with
    | error e => exact ih a
    | ok a' =>
      change (a'.addAll rest).chunks = a.chunks ++ c :: a'.accepted rest
      rw [ih a', chunks_of_withChunk hwith, List.append_assoc]
      rfl

/-- The container stays the encoding of the chunks. -/
theorem Composed.addAll (h : a.Composed) (tries : List Chunk) : (a.addAll tries).Composed := by
  induction tries generalizing a with
  | nil => exact h
  | cons c rest ih =>
    rw [Artifact.addAll]
    cases hwith : a.withChunk c with
    | error e => exact ih h
    | ok a' => exact ih (composed_of_withChunk hwith)

theorem addAll_append (a : Artifact) (before after : List Chunk) :
    a.addAll (before ++ after) = (a.addAll before).addAll after := by
  induction before generalizing a with
  | nil => rfl
  | cons c rest ih =>
    rw [List.cons_append, addAll, addAll]
    cases a.withChunk c with
    | error e => exact ih a
    | ok a' => exact ih a'

theorem read?_addAll {id : String} (hid : id ∈ a.ids) (tries : List Chunk) :
    (a.addAll tries).read? id = a.read? id :=
  read?_of_chunks_append (chunks_addAll a tries) hid

theorem read?_of_mem_accepted (hc : c ∈ a.accepted tries) :
    (a.addAll tries).read? c.id = some c.data := by
  induction tries generalizing a with
  | nil => cases hc
  | cons c' rest ih =>
    rw [accepted] at hc
    rw [addAll]
    cases hwith : a.withChunk c' with
    | error e =>
      rw [hwith] at hc
      exact ih hc
    | ok a' =>
      rw [hwith] at hc
      rcases List.mem_cons.mp hc with rfl | hc
      · -- it was read back when it was added, and nothing behind it changes that
        have hmem : c.id ∈ a'.ids := by
          rw [ids_of_withChunk hwith]
          exact List.mem_append_right _ (List.mem_singleton_self _)
        exact (read?_addAll hmem rest).trans (read?_of_withChunk hwith)
      · exact ih hc

end Lemmas

/-- **Chunks added one after the other.**  An attempt is refused, as an invalid chunk, exactly
if its identifier is malformed or there already.  The others together make the artifact of the
first chunks and the accepted ones: its bytes behind the header begin with those that were
there, every accepted chunk is read back, what was read under an identifier is read ever
after, and the container is read as this artifact. -/
theorem addAll_laws {cs : List Chunk} {a : Artifact} (ha : ofChunks cs = .ok a)
    (tries : List Chunk) (hsize : (Chunk.body (cs ++ a.accepted tries)).length < 2 ^ 32) :
    (∀ before c after, tries = before ++ c :: after →
      ((∃ e, (a.addAll before).withChunk c = .error e) ↔
        Chunk.isValidId c.id = false ∨ c.id ∈ (a.addAll before).ids) ∧
      ∀ e, (a.addAll before).withChunk c = .error e → e.code.id = "MODF-B002") ∧
    ofChunks (cs ++ a.accepted tries) = .ok (a.addAll tries) ∧
    a.binary.drop 12 <+: (a.addAll tries).binary.drop 12 ∧
    (∀ c ∈ a.accepted tries, (a.addAll tries).read? c.id = some c.data) ∧
    (∀ before after, tries = before ++ after → ∀ id ∈ (a.addAll before).ids,
      (a.addAll tries).read? id = (a.addAll before).read? id) ∧
    ((∀ c ∈ cs ++ a.accepted tries, c.data.length < 2 ^ 31 - 3) →
      ofBinary (a.addAll tries).binary = .ok (a.addAll tries)) := by
  have hcomposed := composed_of_ofChunks ha
  have hchunks : (a.addAll tries).chunks = cs ++ a.accepted tries := by
    rw [chunks_addAll, (ofChunks_eq_ok_iff.mp ha).2.1]
  have hmade := hcomposed.addAll tries
  refine ⟨?refused, ?made, ?bytes, fun c hc => read?_of_mem_accepted hc, ?read, ?decoded⟩
  case refused =>
    intro before c after _
    have hbefore := hcomposed.addAll before
    refine ⟨?_, fun e he => hbefore.withChunk_error he⟩
    have hok := hbefore.exists_withChunk_iff (c := c)
    cases hwith : (a.addAll before).withChunk c with
    | error e =>
      refine iff_of_true ⟨e, rfl⟩ ?_
      by_contra hno
      rw [not_or, Bool.not_eq_false] at hno
      obtain ⟨a', ha'⟩ := hok.mpr hno
      rw [hwith] at ha'
      cases ha'
    | ok a' =>
      obtain ⟨hvalid, hnew⟩ := hok.mp ⟨a', hwith⟩
      refine iff_of_false nofun ?_
      rintro (hinvalid | hmem)
      · rw [hvalid] at hinvalid
        cases hinvalid
      · exact hnew hmem
  case made =>
    rw [← hchunks]
    exact hmade
  case bytes =>
    rw [hcomposed.drop_binary, hmade.drop_binary, chunks_addAll, List.flatMap_append]
    exact List.prefix_append _ _
  case read =>
    rintro before after rfl id hid
    rw [addAll_append]
    exact read?_addAll hid after
  case decoded =>
    intro hdata
    obtain ⟨binary, hencode, hdecode, -⟩ :=
      Chunk.container_round_trip (hchunks ▸ hmade.isValidId) hdata hsize
    have hbinary : (⟨binary, cs ++ a.accepted tries⟩ : Artifact) = a.addAll tries := by
      have hmade' : ofChunks (cs ++ a.accepted tries) = .ok (a.addAll tries) := hchunks ▸ hmade
      rw [ofChunks, hencode] at hmade'
      exact Except.ok.inj hmade'
    rw [← hbinary, ofBinary, hdecode]
    rfl

/-- A malformed identifier, one that is there already, a new one and the same again. -/
theorem addAll_laws_four :
    let cs : List Chunk := [⟨"Code", [1, 2, 3, 4, 5]⟩]
    let tries : List Chunk := [⟨"Doc", [1]⟩, ⟨"Code", []⟩, ⟨"Docs", [7, 0, 7]⟩, ⟨"Docs", [8]⟩]
    ∃ a, ofChunks cs = .ok a ∧ (Chunk.body (cs ++ a.accepted tries)).length < 2 ^ 32 ∧
      a.accepted tries = [⟨"Docs", [7, 0, 7]⟩] ∧
      ofChunks (cs ++ [⟨"Docs", [7, 0, 7]⟩]) = .ok (a.addAll tries) ∧
      (a.addAll tries).read? "Docs" = some [7, 0, 7] := by
  intro cs tries
  let a : Artifact :=
    ⟨Chunk.ascii Chunk.headerWord ++ Chunk.word (Chunk.body cs).length ++ Chunk.body cs, cs⟩
  have ha : ofChunks cs = .ok a := ofChunks_eq_ok_iff.mpr ⟨by decide, rfl, rfl⟩
  have haccepted : a.accepted tries = [⟨"Docs", [7, 0, 7]⟩] := by decide +kernel
  have hsize : (Chunk.body (cs ++ a.accepted tries)).length < 2 ^ 32 := by decide +kernel
  obtain ⟨-, hmade, -, hread, -⟩ := addAll_laws ha tries hsize
  exact ⟨_, ha, hsize, haccepted, haccepted ▸ hmade,
    hread ⟨"Docs", [7, 0, 7]⟩ (haccepted ▸ List.mem_singleton_self _)⟩

end Artifact
end ModuleBuild
