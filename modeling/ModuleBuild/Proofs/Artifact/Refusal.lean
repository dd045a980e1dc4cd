import ModuleBuild.Proofs.Artifact.Container
import ModuleBuild.Proofs.Artifact.Documentation

/-! # What assembling and building refuse

A module that cannot be assembled is refused by a condition that has a place, that of a
definition or that of the module (`Assembly.isPlaced_ofTables`), unless no condition can name what
is wrong.  The chunks of a module have
valid identifiers and one each, so building refuses nothing but values that cannot be encoded,
with the place of the module (`Assembly.build_eq_error`, `Artifact.inject_eq_error`).
-/
namespace ModuleBuild

/-! ## Failures with a place -/

/-- A problem that has a place. -/
def Problem.IsPlaced (p : Problem) : Prop := p.location.isSome = true

/-- A failure that has a place if it is a condition. -/
def Failure.IsPlaced : Failure → Prop
  | condition _ l _ _ _ => l.isSome = true
  | _ => True

theorem Problem.IsPlaced.ofProblem {p : Problem} (h : p.IsPlaced) :
    (Failure.ofProblem p).IsPlaced := h

namespace Typespec

variable (location : Location)

theorem isPlaced_malformed {α : Type} (key name reason : String) :
    FailsAs Failure.IsPlaced (malformed key name reason location : Except Failure α) :=
  failsAs_error (Eq.refl true)

/-- What would follow does not matter. -/
theorem isPlaced_malformed_bind {α β : Type} (key name reason : String)
    (f : α → Except Failure β) :
    FailsAs Failure.IsPlaced (malformed key name reason location >>= f) :=
  failsAs_error (Eq.refl true)

/-- A form without a name and a text is refused by no condition. -/
theorem isPlaced_nameless {α : Type} (key reason : String) (form : Value) :
    FailsAs Failure.IsPlaced (nameless key form reason location : Except Failure α) := by
  refine failsAs_bind ?_ fun _ => isPlaced_malformed ..
  unfold nameOf
  split
  · exact failsAs_ok _
  · refine failsAs_mapError (?_ : FailsAs (fun _ => True) _) fun _ _ => trivial
    exact ⟨fun _ _ => trivial⟩

theorem isPlaced_formName (key : String) (form : Value) :
    FailsAs Failure.IsPlaced (formName key form location) := by
  unfold formName
  split
  · exact failsAs_ok _
  · exact isPlaced_nameless ..

theorem isPlaced_formLine (key name : String) (form : Value) :
    FailsAs Failure.IsPlaced (formLine key name form location) := by
  unfold formLine
  split
  · exact failsAs_ok _
  · split
    · exact failsAs_ok _
    · exact isPlaced_malformed ..

theorem isPlaced_translateType (kind : TypeKind) (form : Value) :
    FailsAs Failure.IsPlaced (translateType kind form location) := by
  refine failsAs_bind (isPlaced_formName ..) fun name => ?_
  split
  · refine failsAs_bind (failsAs_ok _) fun params => ?_
    dsimp only
    split
    · refine failsAs_bind (failsAs_ok _) fun type => ?_
      refine failsAs_bind (isPlaced_formLine ..) fun line => ?_
      split
      · exact isPlaced_malformed ..
      · exact failsAs_ok _
    · exact isPlaced_malformed_bind ..
  · exact isPlaced_malformed_bind ..

theorem isPlaced_readSpec (kind : SpecKind) (form : Value) :
    FailsAs Failure.IsPlaced (readSpec kind form location) := by
  refine failsAs_bind (isPlaced_formName ..) fun name => ?_
  split
  · split
    · refine failsAs_bind (failsAs_ok _) fun params => ?_
      dsimp only
      split
      · exact failsAs_bind (isPlaced_formLine ..) fun _ => failsAs_ok _
      · exact isPlaced_malformed ..
    · exact isPlaced_malformed_bind ..
  · exact isPlaced_malformed_bind ..

theorem isPlaced_declarations (t : AttributeTable) (kind : SpecKind) :
    FailsAs Failure.IsPlaced (declarations t location kind) :=
  failsAs_mapM (fun form => failsAs_bind (isPlaced_readSpec location kind form) fun _ =>
    failsAs_ok _) _

theorem isPlaced_optionalPairs (v : Value) :
    FailsAs Failure.IsPlaced (optionalPairs location v) := by
  refine failsAs_mapM (fun entry => ?_) _
  unfold optionalPair
  split
  · exact failsAs_ok _
  · exact isPlaced_nameless ..

/-- Typespecs are refused at the place of their module. -/
theorem isPlaced_sections (t : AttributeTable) (definitions : DefinitionSummary) :
    FailsAs Failure.IsPlaced (sections t definitions location) := by
  have htypes : FailsAs Failure.IsPlaced (typesOf t location) := by
    refine failsAs_bind (failsAs_mapM (fun kind => ?_) _) fun _ => failsAs_ok _
    exact failsAs_mapM (fun form => isPlaced_translateType location kind form) _
  refine failsAs_bind htypes fun types => ?_
  refine failsAs_bind (isPlaced_declarations ..) fun specs => ?_
  refine failsAs_bind (isPlaced_declarations ..) fun callbacks => ?_
  refine failsAs_bind (isPlaced_declarations ..) fun macroCallbacks => ?_
  exact failsAs_bind (failsAs_mapM (isPlaced_optionalPairs location) _) fun _ => failsAs_ok _

end Typespec

/-- So are external resources. -/
theorem AttributeTable.isPlaced_sections (t : AttributeTable) (location : Location) :
    FailsAs Problem.IsPlaced (t.sections location) := by
  have hresources : FailsAs Problem.IsPlaced (t.resources location) := by
    unfold resources
    split
    · exact failsAs_ok _
    · exact failsAs_error (Eq.refl true)
  have hsections (key : String) (cell : AttributeCell) :
      FailsAs Problem.IsPlaced (t.sectionsOf location key cell) := by
    unfold sectionsOf
    split
    · split
      · exact failsAs_bind hresources fun _ => failsAs_ok _
      · exact failsAs_ok _
    · exact failsAs_ok _
  unfold sections
  generalize t.cells.entries = cells
  induction cells with
  | nil => exact failsAs_ok []
  | cons e rest ih =>
    exact failsAs_bind (hsections _ _) fun _ => failsAs_bind ih fun _ => failsAs_ok _

namespace Assembly

/-- **A module that cannot be assembled is refused at a place**, if it is refused by a
condition. -/
theorem isPlaced_ofTables (module : String) (location : Location) (attributes : AttributeTable)
    (definitions : DefinitionTable) (withDocs isInternal : Bool) :
    FailsAs Failure.IsPlaced
      (ofTables module location attributes definitions withDocs isInternal) := by
  have htypespecs : FailsAs Failure.IsPlaced
      (typespecsOf isInternal attributes definitions.summary location) := by
    unfold typespecsOf
    split
    · exact failsAs_ok _
    · exact failsAs_bind (Typespec.isPlaced_sections ..) fun _ => failsAs_ok _
  have hsections : FailsAs Failure.IsPlaced
      ((attributes.sections location).mapError Failure.ofProblem) :=
    failsAs_mapError (attributes.isPlaced_sections location) fun _ => Problem.IsPlaced.ofProblem
  unfold ofTables
  split
  · exact failsAs_error (Eq.refl true)
  · exact failsAs_bind htypespecs fun _ => failsAs_bind hsections fun _ => failsAs_ok _

end Assembly

/-! ## Building -/

/-- Chunks with valid identifiers make an artifact. -/
theorem Artifact.exists_ofChunks {cs : List Chunk} (h : ∀ c ∈ cs, Chunk.isValidId c.id = true) :
    ∃ binary, ofChunks cs = .ok ⟨binary, cs⟩ := by
  rw [ofChunks, Chunk.encode_eq_ok h]
  exact ⟨_, rfl⟩

namespace Assembly

variable {m : Assembly} {f : Failure}

/-- The chunks of a module have valid identifiers. -/
theorem isValidId_of_mem_chunks {cs : List Chunk} (h : m.chunks = .ok cs) :
    ∀ c ∈ cs, Chunk.isValidId c.id = true := by
  obtain ⟨code, -, hall⟩ := holds_of_chunks h
  have hids : cs.map Chunk.id = ["Modl", "ExpT", "Code", "Type", "Spec", "Attr", "CInf", "Info"]
      ++ if m.options.debugInfo then ["Dbgi"] else [] := by
    rw [Chunk.ids_of_holds hall, values, otherValues]
    cases m.options.debugInfo <;> rfl
  have hvalid : ∀ id ∈ cs.map Chunk.id, Chunk.isValidId id = true := by
    rw [hids]
    cases m.options.debugInfo <;> decide
  exact fun c hc => hvalid _ (List.mem_map_of_mem hc)

theorem isValidId_of_mem_build {a : Artifact} (h : m.build = .ok a) :
    ∀ c ∈ a.chunks, Chunk.isValidId c.id = true := by
  have hvalid : ∀ id ∈ a.ids, Chunk.isValidId id = true := by
    rw [ids_of_build h]
    cases m.options.debugInfo <;> decide
  exact fun c hc => hvalid _ (List.mem_map_of_mem hc)

/-- **A module that cannot be built holds a value that cannot be encoded.** -/
theorem build_eq_error (h : m.build = .error f) :
    ∃ v, m.chunks = .error v ∧ f = refused m.module m.location v := by
  unfold build at h
  split at h
  · next v hv =>
    cases h
    exact ⟨v, hv, rfl⟩
  · next cs hcs =>
    obtain ⟨binary, hbinary⟩ := Artifact.exists_ofChunks (isValidId_of_mem_chunks hcs)
    rw [hbinary] at h
    cases h

end Assembly

/-- **Documentation that cannot be added cannot be encoded**, if the artifact has none. -/
theorem Artifact.inject_eq_error {a : Artifact} {v : Value} {owner : ChunkOwner} {f : Failure}
    (hids : ∀ c ∈ a.chunks, Chunk.isValidId c.id = true) (hdocs : Chunk.docsId ∉ a.ids)
    (h : a.inject Chunk.docsId (Term.payload v) owner = .error f) :
    ∃ reason cause, f = .ofBuild owner.module reason (some owner.location) cause := by
  unfold inject Term.payload at h
  cases hencode : Term.encode v with
  | error refused =>
    rw [hencode] at h
    cases h
    exact ⟨_, _, rfl⟩
  | ok data =>
    have hhas : a.has Chunk.docsId = false := by
      simpa [has, ids] using hdocs
    have hall : ∀ c ∈ a.chunks ++ [⟨Chunk.docsId, data⟩], Chunk.isValidId c.id = true := by
      intro c hc
      rcases List.mem_append.mp hc with hc | hc
      · exact hids c hc
      · rw [List.mem_singleton.mp hc]
        exact (by decide : Chunk.isValidId Chunk.docsId = true)
    obtain ⟨binary, hbinary⟩ := exists_ofChunks hall
    have hwith : a.withChunk ⟨Chunk.docsId, data⟩
        = .ok ⟨binary, a.chunks ++ [⟨Chunk.docsId, data⟩]⟩ := by
      have hid : Chunk.checkId Chunk.docsId = .ok () := by
        rw [Chunk.checkId, if_pos (by decide)]
      unfold withChunk
      simp only [hid, hhas]
      exact hbinary
    simp only [hencode, hwith] at h
    cases h

end ModuleBuild
