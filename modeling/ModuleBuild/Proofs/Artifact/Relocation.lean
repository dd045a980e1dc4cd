import ModuleBuild.Proofs.Artifact.Content
import ModuleBuild.Proofs.Definition.Relocation

/-! # Artifacts of a file under two names

The code chunk keeps the line of a definition and no file, so artifacts of the same definitions
under two names of their file differ in one chunk at most: the one that keeps the definitions with
their places (`Chunk.Relocated`).  Whether an artifact can be built depends on the clauses, which
the code chunk has as well, so it can be built under both names or under none
(`Assembly.Relocated.build`).
-/
namespace ModuleBuild

/-! ## Values that can be written -/

namespace Term

/-- The value can be written: nothing in it exists only at compile time. -/
def Writable (v : Value) : Prop := ∃ j, tag v = .ok j

theorem writable_list_iff {vs : List Value} : Writable (.list vs) ↔ ∀ v ∈ vs, Writable v := by
  constructor
  · rintro ⟨j, hj⟩
    obtain ⟨js, hjs, -⟩ := tag_list_ok hj
    clear hj
    induction vs generalizing js with
    | nil => nofun
    | cons v rest ih =>
      obtain ⟨j, hj, js', hjs', -⟩ := tagItems_cons_ok hjs
      exact List.forall_mem_cons.mpr ⟨⟨j, hj⟩, ih js' hjs'⟩
  · intro h
    obtain ⟨js, hjs⟩ := tagItems_ok h
    exact ⟨.list js, by rw [tag, hjs]; rfl⟩

theorem writable_record {es : List (String × Value)} (h : ∀ e ∈ es, Writable e.2) :
    Writable (.record es) := by
  obtain ⟨ms, hms⟩ := tagFields_ok fun f hf => h f (Value.mem_of_mem_fieldsOf hf)
  rw [Writable, Value.record, tag, hms]
  split <;> exact ⟨_, rfl⟩

/-- What is written last to a field of a record is written with the record. -/
theorem writable_of_record {es : List (String × Value)} {v : Value} (name : String)
    (h : Writable (.record es)) (hv : Value.findField name es.reverse = some v) : Writable v := by
  obtain ⟨j, hj⟩ := h
  obtain ⟨ms, hms, -⟩ := tag_fields_ok hj
  rw [← Value.findField_fieldsOf] at hv
  clear hj
  generalize Value.fieldsOf es = fs at hms hv
  induction fs generalizing ms with
  | nil => cases hv
  | cons f rest ih =>
    obtain ⟨n, w⟩ := f
    obtain ⟨j, hj, ms', hms', -⟩ := tagFields_cons_ok hms
    rw [Value.findField] at hv
    split at hv
    · cases hv
      exact ⟨j, hj⟩
    · exact ih ms' hms' hv

theorem exists_encode_iff {v : Value} : (∃ data, encode v = .ok data) ↔ Writable v := by
  constructor
  · rintro ⟨data, h⟩
    obtain ⟨j, hj, -⟩ := map_eq_ok.mp h
    exact ⟨j, hj⟩
  · rintro ⟨j, hj⟩
    exact ⟨Utf8.encode j.render, by rw [encode, hj]; rfl⟩

end Term

namespace Definition

variable {r : Relocation}

/-- What the chunk of definitions with their places holds. -/
def debugInfo (module : String) (ds : List Definition) : Value :=
  .record [("module", .text module), ("definitions", .list (ds.map toValue))]

/-- A definition can be kept with its place if it can be kept as code. -/
theorem writable_toValue {d : Definition} (h : Term.Writable d.codeValue) :
    Term.Writable d.toValue := by
  have hclauses : Term.Writable (.list d.clauses) :=
    Term.writable_of_record "clauses" h rfl
  have hplace : Term.Writable (locationValue d.location) := by
    apply Term.writable_record
    simp only [List.forall_mem_cons]
    exact ⟨⟨_, rfl⟩, ⟨_, rfl⟩, nofun⟩
  apply Term.writable_record
  simp only [List.forall_mem_cons]
  exact ⟨⟨_, rfl⟩, ⟨_, rfl⟩, ⟨_, rfl⟩, hclauses, hplace, nofun⟩

/-- So can all definitions of a module. -/
theorem writable_debugInfo (module : String) {ds : List Definition}
    (h : Term.Writable (.list (ds.map codeValue))) : Term.Writable (debugInfo module ds) := by
  have hdefinitions : Term.Writable (.list (ds.map toValue)) := by
    rw [Term.writable_list_iff, List.forall_mem_map] at h ⊢
    exact fun d hd => writable_toValue (h d hd)
  apply Term.writable_record
  simp only [List.forall_mem_cons]
  exact ⟨⟨_, rfl⟩, hdefinitions, nofun⟩

/-- Code has no places in it but lines. -/
theorem Relocated.map_codeValue {ds ds' : List Definition}
    (h : List.Forall₂ (Definition.Relocated r) ds ds') :
    ds'.map codeValue = ds.map codeValue := by
  induction h with
  | nil => rfl
  | cons hd _ ih =>
    cases hd with
    | mk kind pair clauses hplace =>
      rw [List.map_cons, List.map_cons, ih, codeValue, codeValue, hplace.line]

end Definition

/-! ## Chunks and artifacts -/

/-- The identifier of the chunk that keeps the definitions with their places. -/
def Chunk.definitionsId : String := "Dbgi"

/-- Chunks that are the same, or that keep definitions of a file under its two names. -/
inductive Chunk.Relocated (r : Relocation) : Chunk → Chunk → Prop where
  | same (c : Chunk) : Relocated r c c
  | definitions {module : String} {ds ds' : List Definition} {data data' : Bytes}
      (h : List.Forall₂ (Definition.Relocated r) ds ds')
      (hdata : Term.encode (Definition.debugInfo module ds) = .ok data)
      (hdata' : Term.encode (Definition.debugInfo module ds') = .ok data') :
      Relocated r ⟨definitionsId, data⟩ ⟨definitionsId, data'⟩

/-- Artifacts that are the same but for the chunk of definitions with their places. -/
structure Artifact.Relocated (r : Relocation) (a a' : Artifact) : Prop where
  chunks : List.Forall₂ (Chunk.Relocated r) a.chunks a'.chunks
  binary : a'.chunks = a.chunks → a'.binary = a.binary

variable {r : Relocation}

theorem Chunk.Relocated.id_eq {c c' : Chunk} (h : Relocated r c c') : c'.id = c.id := by
  cases h <;> rfl

theorem Chunk.Relocated.eq_of_id_ne {c c' : Chunk} (h : Relocated r c c')
    (hid : c.id ≠ definitionsId) : c' = c := by
  cases h with
  | same => rfl
  | definitions => exact absurd rfl hid

theorem Chunk.Relocated.forall₂_refl (cs : List Chunk) : List.Forall₂ (Relocated r) cs cs :=
  List.forall₂_same.mpr fun c _ => .same c

theorem Chunk.Relocated.map_id {cs cs' : List Chunk} (h : List.Forall₂ (Relocated r) cs cs') :
    cs'.map Chunk.id = cs.map Chunk.id := by
  induction h with
  | nil => rfl
  | cons hc _ ih => rw [List.map_cons, List.map_cons, hc.id_eq, ih]

theorem Chunk.Relocated.checkIds {cs cs' : List Chunk} (h : List.Forall₂ (Relocated r) cs cs') :
    Chunk.checkIds cs' = Chunk.checkIds cs := by
  induction h with
  | nil => rfl
  | cons hc _ ih => rw [Chunk.checkIds, Chunk.checkIds, hc.id_eq, ih]

/-- Artifacts of such chunks can be made both or neither. -/
theorem Chunk.Relocated.ofChunks {cs cs' : List Chunk} (h : List.Forall₂ (Relocated r) cs cs') :
    EndAlike Eq (Artifact.Relocated r) (Artifact.ofChunks cs) (Artifact.ofChunks cs') := by
  unfold Artifact.ofChunks Chunk.encode
  rw [Chunk.Relocated.checkIds h]
  cases Chunk.checkIds cs with
  | error c => exact .error rfl
  | ok _ =>
    refine .ok ⟨h, fun heq => ?_⟩
    obtain rfl : cs' = cs := heq
    rfl

namespace Artifact.Relocated

variable {a a' : Artifact}

theorem refl (a : Artifact) : Relocated r a a := ⟨Chunk.Relocated.forall₂_refl _, fun _ => rfl⟩

variable (h : Relocated r a a')
include h

theorem ids : a'.ids = a.ids := Chunk.Relocated.map_id h.chunks

/-- The other chunks are the same. -/
theorem read?_of_ne {id : String} (hid : id ≠ Chunk.definitionsId) : a'.read? id = a.read? id := by
  have hchunks := h.chunks
  unfold read?
  generalize a.chunks = cs at hchunks ⊢
  generalize a'.chunks = cs' at hchunks ⊢
  congr 1
  induction hchunks with
  | nil => rfl
  | @cons c c' _ _ hc _ ih =>
    rw [List.find?_cons, List.find?_cons, hc.id_eq, ih]
    by_cases hfound : c.id = id
    · rw [hc.eq_of_id_ne (hfound ▸ hid)]
    · rw [decide_eq_false hfound]

/-- Artifacts without that chunk are the same, byte for byte. -/
theorem eq_of_not_mem (hids : Chunk.definitionsId ∉ a.ids) : a' = a := by
  have hchunks : a'.chunks = a.chunks := by
    have hall := h.chunks
    unfold Artifact.ids at hids
    generalize a.chunks = cs at hall hids ⊢
    generalize a'.chunks = cs' at hall ⊢
    induction hall with
    | nil => rfl
    | cons hc _ ih =>
      rw [List.map_cons, List.mem_cons, not_or] at hids
      rw [hc.eq_of_id_ne (Ne.symm hids.1), ih hids.2]
  have hbinary := h.binary hchunks
  cases a
  cases a'
  cases hchunks
  cases hbinary
  rfl

theorem withChunk (c : Chunk) :
    EndAlike Eq (Relocated r) (a.withChunk c) (a'.withChunk c) := by
  have hhas : a'.has c.id = a.has c.id := by
    have hany (a : Artifact) : a.has c.id = a.ids.any fun id => id = c.id := by
      rw [Artifact.has, Artifact.ids, List.any_map]
      rfl
    rw [hany, hany, h.ids]
  unfold Artifact.withChunk
  rw [hhas]
  cases Chunk.checkId c.id with
  | error e => exact .error rfl
  | ok _ =>
    cases a.has c.id with
    | true => exact .error rfl
    | false =>
      exact Chunk.Relocated.ofChunks (List.rel_append h.chunks (.cons (.same c) .nil))

/-- **One more chunk is added to both or to neither.** -/
theorem inject (id : String) (payload : Except Failure Bytes) (owner : ChunkOwner) :
    EndAlike Eq (Relocated r) (a.inject id payload owner) (a'.inject id payload owner) := by
  unfold Artifact.inject
  cases payload with
  | error f => exact .error rfl
  | ok data =>
    have hwith := h.withChunk ⟨id, data⟩
    dsimp only
    generalize a.withChunk ⟨id, data⟩ = x at hwith ⊢
    generalize a'.withChunk ⟨id, data⟩ = x' at hwith ⊢
    cases hwith with
    | error hc =>
      cases hc
      exact .error rfl
    | ok ha => exact .ok ha

end Artifact.Relocated

/-! ## Assembled modules -/

/-- Modules that are the same but for the places of their definitions. -/
structure Assembly.Relocated (r : Relocation) (m m' : Assembly) : Prop where
  definitions : List.Forall₂ (Definition.Relocated r) m.definitions m'.definitions
  others : m' = { m with definitions := m'.definitions }

namespace Assembly

/-- **The same is assembled**, or the same is refused, but for the place of a definition. -/
theorem relocated_ofTables {t t' : DefinitionTable} (h : DefinitionTable.Relocated r t t')
    {E : Failure → Failure → Prop} (hsame : ∀ f, E f f)
    (hproblem : ∀ p p', Problem.Relocated r p p' → E (.ofProblem p) (.ofProblem p'))
    (module : String) (location : Location) (attributes : AttributeTable)
    (withDocs isInternal : Bool) :
    EndAlike E (Assembly.Relocated r)
      (ofTables module location attributes t withDocs isInternal)
      (ofTables module location attributes t' withDocs isInternal) := by
  have hget : Option.Rel (Definition.Relocated r) (t.get? Introspection.pair)
      (t'.get? Introspection.pair) := h.definitions.get? Introspection.pair
  unfold ofTables
  generalize t.get? Introspection.pair = found at hget ⊢
  generalize t'.get? Introspection.pair = found' at hget ⊢
  cases hget with
  | some hd =>
    cases hd with
    | mk kind pair clauses hplace => exact .error (hproblem _ _ (.overridden _ hplace))
  | none =>
    -- nothing but the definitions themselves is taken from what differs in the summaries
    have htypespecs : typespecsOf isInternal attributes t'.summary location
        = typespecsOf isInternal attributes t.summary location := by
      rw [h.summary]
      rfl
    dsimp only
    rw [htypespecs]
    refine (EndAlike.refl hsame (fun _ => rfl) _).bind ?_
    rintro typespecs _ rfl
    refine (EndAlike.refl hsame (fun _ => rfl) _).bind ?_
    rintro sections _ rfl
    exact .ok ⟨h.all, by rw [h.summary]; rfl⟩

theorem encodeAll_append (es es' : List (String × Value)) :
    encodeAll (es ++ es') = (do
      let cs ← encodeAll es
      let cs' ← encodeAll es'
      .ok (cs ++ cs')) := by
  induction es with
  | nil =>
    rw [List.nil_append]
    cases encodeAll es' <;> rfl
  | cons e rest ih =>
    obtain ⟨id, v⟩ := e
    rw [List.cons_append, encodeAll, encodeAll, ih]
    cases Term.encode v with
    | error f => rfl
    | ok data =>
      cases encodeAll rest with
      | error f => rfl
      | ok cs => cases encodeAll es' <;> rfl

/-- The chunks after the code are the same but for the one that keeps the definitions, which can
be written as the code can. -/
theorem encodeAll_after {m : Assembly} {ds' : List Definition}
    (h : List.Forall₂ (Definition.Relocated r) m.definitions ds')
    (hcode : Term.Writable m.codeValue) (options : BackendOptions) (checksum : String) :
    EndAlike Eq (List.Forall₂ (Chunk.Relocated r))
      (encodeAll (m.otherValues options checksum).2)
      (encodeAll (otherValues { m with definitions := ds' } options checksum).2) := by
  let common := (m.otherValues { options with debugInfo := false } checksum).2
  have hsplit (ds : List Definition) :
      (otherValues { m with definitions := ds } options checksum).2 = common ++
        if options.debugInfo then
          [(Chunk.definitionsId, Definition.debugInfo m.module ds)] else [] := rfl
  rw [hsplit ds', show (m.otherValues options checksum).2 = _ from hsplit m.definitions,
    encodeAll_append, encodeAll_append]
  refine (EndAlike.refl (fun _ => rfl) (fun _ => rfl) _).bind ?_
  rintro cs _ rfl
  have hcs : List.Forall₂ (Chunk.Relocated r) cs cs := Chunk.Relocated.forall₂_refl cs
  cases options.debugInfo with
  | false => exact .ok (List.rel_append hcs .nil)
  | true =>
    have hcode' : Term.Writable (.list (ds'.map Definition.codeValue)) := by
      rw [Definition.Relocated.map_codeValue h]
      exact hcode
    obtain ⟨data, hdata⟩ :=
      Term.exists_encode_iff.mpr (Definition.writable_debugInfo m.module hcode)
    obtain ⟨data', hdata'⟩ :=
      Term.exists_encode_iff.mpr (Definition.writable_debugInfo m.module hcode')
    simp only [if_true, encodeAll, hdata, hdata']
    exact .ok (List.rel_append hcs (.cons (.definitions h hdata hdata') .nil))

namespace Relocated

variable {m m' : Assembly} (h : Assembly.Relocated r m m')
include h

theorem codeValue_eq : m'.codeValue = m.codeValue := by
  rw [codeValue, codeValue, Definition.Relocated.map_codeValue h.definitions]

/-- **The chunks of both can be written, or those of neither.** -/
theorem chunks : EndAlike Eq (List.Forall₂ (Chunk.Relocated r)) m.chunks m'.chunks := by
  have hcode := h.codeValue_eq
  obtain ⟨hds, hothers⟩ := h
  generalize m'.definitions = ds' at hds hothers
  subst hothers
  have hchunks (m : Assembly) : m.chunks = (do
      let code ← Term.encode m.codeValue
      let front ← encodeAll (m.otherValues m.options (Md5.hex code)).1
      let back ← encodeAll (m.otherValues m.options (Md5.hex code)).2
      .ok (front ++ { id := "Code", data := code } :: back)) := rfl
  rw [hchunks, hchunks, hcode]
  cases hencode : Term.encode m.codeValue with
  | error f => exact .error rfl
  | ok code =>
    have hwritable : Term.Writable m.codeValue := Term.exists_encode_iff.mp ⟨code, hencode⟩
    have hfront := EndAlike.refl (fun _ => rfl) (fun _ => rfl)
      (encodeAll (m.otherValues m.options (Md5.hex code)).1)
    refine hfront.bind ?_
    rintro front _ rfl
    refine (encodeAll_after hds hwritable _ _).bind fun back back' hback => ?_
    exact .ok (List.rel_append (Chunk.Relocated.forall₂_refl front) (.cons (.same _) hback))

/-- **Both artifacts can be built, or neither.** -/
theorem build : EndAlike Eq (Artifact.Relocated r) m.build m'.build := by
  have hchunks := h.chunks
  have hmodule : m'.module = m.module := by rw [h.others]
  have hlocation : m'.location = m.location := by rw [h.others]
  unfold Assembly.build
  rw [hmodule, hlocation]
  generalize m.chunks = cs at hchunks ⊢
  generalize m'.chunks = cs' at hchunks ⊢
  cases hchunks with
  | error hf =>
    cases hf
    exact .error rfl
  | ok hcs =>
    have hartifact := Chunk.Relocated.ofChunks hcs
    dsimp only
    generalize Artifact.ofChunks _ = a at hartifact ⊢
    generalize Artifact.ofChunks _ = a' at hartifact ⊢
    cases hartifact with
    | error hc =>
      cases hc
      exact .error rfl
    | ok ha => exact .ok ha

end Relocated
end Assembly
end ModuleBuild
