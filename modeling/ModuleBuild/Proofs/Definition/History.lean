import Mathlib.Data.List.Induction
import ModuleBuild.Proofs.Definition.Key
import ModuleBuild.Proofs.Definition.Summary

/-! # Histories of a definition table

A history is a sequence of calls that define something or record a pair as used; a
definition may be refused.  What the table holds under a pair afterwards is what the
definitions of that pair that were accepted come to (`get?_runAll`): the kind and the place
of the first one, with the clauses of all of them in order.
-/
namespace ModuleBuild

/-- A call on a definition table. -/
inductive DefinitionCall where
  | define (d : Definition)
  | recordLocal (pair : NameArity)

/-- A definition with the clauses of a later one of its kind. -/
def Definition.grow (d later : Definition) : Definition :=
  { d with clauses := d.clauses ++ later.clauses }

/-- What definitions of one pair come to: the first one, with the clauses of all. -/
def Definition.gathered : List Definition → Option Definition
  | [] => none
  | first :: rest => some { first with clauses := (first :: rest).flatMap Definition.clauses }

theorem Definition.gathered_append_singleton (ds : List Definition) (d : Definition) :
    gathered (ds ++ [d]) = some (((gathered ds).map fun old => old.grow d).getD d) := by
  cases ds with
  | nil => simp [gathered]
  | cons first rest => simp [gathered, grow]

/-- The kind and the place are those of the first definition. -/
theorem Definition.head?_of_gathered {ds : List Definition} {e : Definition}
    (h : gathered ds = some e) :
    ∃ first, ds.head? = some first ∧ first.kind = e.kind ∧ first.location = e.location := by
  cases ds with
  | nil => cases h
  | cons first rest =>
    cases h
    exact ⟨first, rfl, rfl, rfl⟩

theorem Definition.gathered_eq_none_iff {ds : List Definition} : gathered ds = none ↔ ds = [] := by
  cases ds <;> simp [gathered]

/-! ## One call on a table -/

namespace DefinitionTable

variable {t : DefinitionTable} {d old : Definition} {p : NameArity}

@[simp] theorem get?_put (t : DefinitionTable) (d : Definition) (p : NameArity) :
    (t.put d).get? p = if d.pair = p then some d else t.get? p :=
  OrderedMap.get?_insert t.definitions d.pair p d

@[simp] theorem locals_put (t : DefinitionTable) (d : Definition) :
    (t.put d).locals = t.locals := rfl

/-- A definition is accepted unless one of another kind stands under its pair.  What stands
there afterwards, and is answered, is the definition itself or the earlier one with its
clauses. -/
theorem define_cases (t : DefinitionTable) (d : Definition) :
    (∃ e, t.define d = .ok (e, (t.get? d.pair).isNone, t.put e) ∧ e.pair = d.pair ∧
        e = ((t.get? d.pair).map fun old => old.grow d).getD d ∧
        ∀ old, t.get? d.pair = some old → old.kind = d.kind) ∨
      ∃ old, t.get? d.pair = some old ∧ old.kind ≠ d.kind ∧
        t.define d = .error ⟨.kindClash d.kind d.pair old.kind old.location, some d.location⟩ := by
  unfold define
  cases hold : t.get? d.pair with
  | none => exact Or.inl ⟨d, rfl, rfl, rfl, nofun⟩
  | some old =>
    by_cases hkind : old.kind = d.kind
    · refine Or.inl ⟨old.grow d, ?_, ?_, rfl, ?_⟩
      · simp only [if_pos hkind]
        rfl
      · exact (pair_of_get? hold : old.pair = d.pair)
      · rintro _ ⟨⟩
        exact hkind
    · refine Or.inr ⟨old, rfl, hkind, ?_⟩
      simp only [if_neg hkind]

/-- The table holds the same entries under the written keys. -/
theorem get?_key (t : DefinitionTable) (p : NameArity) :
    Entries.get? p.key (t.definitions.entries.map fun e => (e.1.key, e.2)) = t.get? p := by
  rw [get?, OrderedMap.get?]
  induction t.definitions.entries with
  | nil => rfl
  | cons e rest ih =>
    by_cases he : e.1 = p
    · simp [Entries.get?, he]
    · have hkey : e.1.key ≠ p.key := fun h => he (NameArity.key_injective h)
      simp [Entries.get?, he, hkey, ih]

theorem mem_locals_recordLocal {q : NameArity} :
    q ∈ (t.recordLocal p).locals ↔ q ∈ t.locals ∨ q = p := by
  unfold recordLocal
  split
  · next h =>
    have hp : p ∈ t.locals := List.contains_iff_mem.mp h
    refine ⟨Or.inl, ?_⟩
    rintro (hq | rfl)
    · exact hq
    · exact hp
  · simp

theorem definitions_recordLocal (t : DefinitionTable) (p : NameArity) :
    (t.recordLocal p).definitions = t.definitions := by
  unfold recordLocal
  split <;> rfl

theorem get?_recordLocal (q : NameArity) : (t.recordLocal p).get? q = t.get? q :=
  congrArg (·.get? q) (definitions_recordLocal t p)

end DefinitionTable

/-! ## Histories -/

namespace DefinitionStore

/-- The store after a call; a call that is refused leaves it as it is. -/
def run (s : DefinitionStore) : DefinitionCall → DefinitionStore
  | .define d =>
    match s.define d with
    | .ok (_, _, s') => s'
    | .error _ => s
  | .recordLocal p =>
    match s.recordLocal p with
    | .ok s' => s'
    | .error _ => s

/-- The store of a module after a history. -/
def runAll (module : String) (calls : List DefinitionCall) : DefinitionStore :=
  calls.foldl run (.new module)

/-- The definition of a pair that a call adds: the one it asks for, if it is accepted. -/
def acceptedBy (s : DefinitionStore) (p : NameArity) : DefinitionCall → List Definition
  | .define d => if d.pair = p ∧ (s.define d).isOk = true then [d] else []
  | .recordLocal _ => []

/-- The definitions of a pair that are accepted in the course of some calls, in order. -/
def acceptedFrom (s : DefinitionStore) (p : NameArity) : List DefinitionCall → List Definition
  | [] => []
  | call :: rest => s.acceptedBy p call ++ (s.run call).acceptedFrom p rest

/-- The definitions of a pair that were accepted in a history, in order. -/
def accepted (module : String) (calls : List DefinitionCall) (p : NameArity) : List Definition :=
  (new module).acceptedFrom p calls

theorem runAll_append_singleton (module : String) (calls : List DefinitionCall)
    (call : DefinitionCall) :
    runAll module (calls ++ [call]) = (runAll module calls).run call := by
  simp [runAll]

theorem acceptedFrom_append (s : DefinitionStore) (p : NameArity)
    (calls calls' : List DefinitionCall) :
    s.acceptedFrom p (calls ++ calls')
      = s.acceptedFrom p calls ++ (calls.foldl run s).acceptedFrom p calls' := by
  induction calls generalizing s with
  | nil => rfl
  | cons call rest ih => simp only [List.cons_append, acceptedFrom, ih, List.append_assoc,
      List.foldl_cons]

theorem accepted_append_singleton (module : String) (calls : List DefinitionCall)
    (call : DefinitionCall) (p : NameArity) :
    accepted module (calls ++ [call]) p
      = accepted module calls p ++ (runAll module calls).acceptedBy p call := by
  simp [accepted, acceptedFrom_append, acceptedFrom, runAll]

section Calls

variable (module : String) {t : DefinitionTable}

/-- A store with a table answers a definition as its table does. -/
theorem define_live (t : DefinitionTable) (d : Definition) :
    define ⟨module, some t⟩ d
      = (t.define d).map fun r => (r.1, r.2.1, ⟨module, some r.2.2⟩) := by
  simp only [define, live]
  cases t.define d <;> rfl

/-- A definition that is accepted is put into the table, one that is refused is not. -/
theorem run_define {d e : Definition} {isNew : Bool} (h : t.define d = .ok (e, isNew, t.put e)) :
    run ⟨module, some t⟩ (.define d) = ⟨module, some (t.put e)⟩ ∧
      ∀ p, acceptedBy ⟨module, some t⟩ p (.define d) = if d.pair = p then [d] else [] := by
  have hdefine := define_live module t d
  rw [h] at hdefine
  simp [run, acceptedBy, hdefine, Except.map, Except.isOk, Except.toBool]

theorem run_define_error {d : Definition} {problem : Problem} (h : t.define d = .error problem) :
    run ⟨module, some t⟩ (.define d) = ⟨module, some t⟩ ∧
      ∀ p, acceptedBy ⟨module, some t⟩ p (.define d) = [] := by
  have hdefine := define_live module t d
  rw [h] at hdefine
  simp [run, acceptedBy, hdefine, Except.map, Except.isOk, Except.toBool]

end Calls

/-- A store that accepts a definition has a table, and puts the answered definition into it. -/
theorem define_eq_ok {s s' : DefinitionStore} {d e : Definition} {isNew : Bool}
    (h : s.define d = .ok (e, isNew, s')) :
    ∃ t, s.table = some t ∧ s' = { s with table := some (t.put e) } ∧
      isNew = (t.get? d.pair).isNone ∧ e.pair = d.pair := by
  obtain ⟨module, _ | t⟩ := s
  · cases h
  · rw [define_live] at h
    rcases t.define_cases d with ⟨e', hdefine, hpair, -⟩ | ⟨old, -, -, hdefine⟩
    · rw [hdefine] at h
      cases h
      exact ⟨t, rfl, rfl, rfl, hpair⟩
    · rw [hdefine] at h
      cases h

/-- A definition that is new is answered as it was made. -/
theorem eq_of_define_new {s s' : DefinitionStore} {d e : Definition}
    (h : s.define d = .ok (e, true, s')) : e = d := by
  obtain ⟨module, _ | t⟩ := s
  · cases h
  · rw [define_live] at h
    rcases t.define_cases d with ⟨e', hdefine, -, he', -⟩ | ⟨old, -, -, hdefine⟩
    · rw [hdefine] at h
      obtain ⟨rfl, hnew, -⟩ : e' = e ∧ (t.get? d.pair).isNone = true ∧ _ := by
        simpa [Except.map] using h
      rw [he', Option.isNone_iff_eq_none.mp hnew]
      rfl
    · rw [hdefine] at h
      cases h

theorem recordLocal_eq_ok {s s' : DefinitionStore} {p : NameArity}
    (h : s.recordLocal p = .ok s') :
    ∃ t, s.table = some t ∧ s' = { s with table := some (t.recordLocal p) } := by
  obtain ⟨module, _ | t⟩ := s
  · cases h
  · cases h
    exact ⟨t, rfl, rfl⟩

/-- **What a history leaves.**  The store has a table; it holds under each pair what the
accepted definitions of the pair come to, and its locals are the recorded pairs. -/
theorem runAll_eq (module : String) (calls : List DefinitionCall) :
    ∃ t, runAll module calls = ⟨module, some t⟩ ∧
      (∀ p, t.get? p = Definition.gathered (accepted module calls p)) ∧
      ∀ p, p ∈ t.locals ↔ .recordLocal p ∈ calls := by
  induction calls using List.reverseRecOn with
  | nil => exact ⟨.empty, rfl, fun _ => rfl, fun _ => by simp [DefinitionTable.empty]⟩
  | append_singleton calls call ih =>
    obtain ⟨t, hrun, hentry, hlocals⟩ := ih
    simp only [runAll_append_singleton, accepted_append_singleton, hrun]
    cases call with
    | recordLocal q =>
      refine ⟨t.recordLocal q, rfl, fun p => ?_, fun p => ?_⟩
      · rw [DefinitionTable.get?_recordLocal, hentry, acceptedBy, List.append_nil]
      · simp [DefinitionTable.mem_locals_recordLocal, hlocals]
    | define d =>
      rcases t.define_cases d with ⟨e, hok, hpair, he, -⟩ | ⟨old, -, -, herror⟩
      · obtain ⟨hstore, haccepted⟩ := run_define module hok
        refine ⟨t.put e, hstore, fun p => ?_, fun p => ?_⟩
        · rw [DefinitionTable.get?_put, hpair, haccepted]
          by_cases hp : d.pair = p
          · subst hp
            rw [if_pos rfl, if_pos rfl, Definition.gathered_append_singleton, ← hentry, he]
          · rw [if_neg hp, if_neg hp, List.append_nil, hentry]
        · simpa using hlocals p
      · obtain ⟨hstore, haccepted⟩ := run_define_error module herror
        refine ⟨t, hstore, fun p => ?_, fun p => ?_⟩
        · rw [haccepted, List.append_nil, hentry]
        · simpa using hlocals p

/-- A definition of the kind of the first one is accepted, and new if there is none. -/
theorem define_runAll_of_same_kind {module : String} {calls : List DefinitionCall}
    {d : Definition}
    (h : ∀ first ∈ (accepted module calls d.pair).head?, first.kind = d.kind) :
    ∃ e isNew, (runAll module calls).define d
        = .ok (e, isNew, runAll module (calls ++ [.define d])) ∧
      (isNew = true ↔ accepted module calls d.pair = []) ∧
      accepted module (calls ++ [.define d]) d.pair = accepted module calls d.pair ++ [d] ∧
      some e = Definition.gathered (accepted module (calls ++ [.define d]) d.pair) := by
  obtain ⟨t, hrun, hentry, -⟩ := runAll_eq module calls
  rcases t.define_cases d with ⟨e, hok, -, he, -⟩ | ⟨old, hold, hkind, -⟩
  · obtain ⟨hstore, haccepted⟩ := run_define module hok
    rw [runAll_append_singleton, accepted_append_singleton, hrun, hstore, haccepted, if_pos rfl,
      Definition.gathered_append_singleton, ← hentry, ← he, define_live, hok]
    refine ⟨e, _, rfl, ?_, rfl, rfl⟩
    rw [Option.isNone_iff_eq_none, hentry, Definition.gathered_eq_none_iff]
  · -- what stands under the pair has the kind of the first definition
    obtain ⟨first, hfirst, hsame, -⟩ := Definition.head?_of_gathered (hentry _ ▸ hold)
    exact absurd (hsame.symm.trans (h first hfirst)) hkind

/-- A definition of another kind than the first one is refused, and changes nothing. -/
theorem define_runAll_of_other_kind {module : String} {calls : List DefinitionCall}
    {d first : Definition} (hfirst : first ∈ (accepted module calls d.pair).head?)
    (hkind : first.kind ≠ d.kind) :
    (runAll module calls).define d
        = .error ⟨.kindClash d.kind d.pair first.kind first.location, some d.location⟩ ∧
      runAll module (calls ++ [.define d]) = runAll module calls := by
  obtain ⟨t, hrun, hentry, -⟩ := runAll_eq module calls
  have hhead {e : Definition} (he : t.get? d.pair = some e) :
      first.kind = e.kind ∧ first.location = e.location := by
    obtain ⟨first', hfirst', hsame⟩ := Definition.head?_of_gathered (hentry _ ▸ he)
    cases hfirst'.symm.trans hfirst
    exact hsame
  rcases t.define_cases d with ⟨e, -, -, -, hsame⟩ | ⟨old, hold, -, herror⟩
  · cases hget : t.get? d.pair with
    | none =>
      rw [hentry, Definition.gathered_eq_none_iff] at hget
      rw [hget] at hfirst
      cases hfirst
    | some old => exact absurd ((hhead hget).1.trans (hsame old hget)) hkind
  · obtain ⟨hkind', hlocation⟩ := hhead hold
    obtain ⟨hstore, -⟩ := run_define_error module herror
    rw [runAll_append_singleton, hrun, hstore, define_live, herror, hkind', hlocation]
    exact ⟨rfl, rfl⟩

/-- **The laws of a definition table, after any history.**  Two pairs have the same written
key exactly if name and arity are equal, and the table holds the same entries under the
written keys.  An entry has the kind and the place of the first definition of its pair that
was accepted, and the clauses of all of them in order.  A definition is accepted unless the
first one has another kind, it is new exactly if there is none, and one that is refused names
the kind and the place of the first and changes nothing.  The summary lists each entry once,
under its kind, and as unreachable the private ones never recorded as used. -/
theorem definition_history_laws (module : String) (calls : List DefinitionCall) :
    (∀ p q : NameArity, p.key = q.key ↔ p.name = q.name ∧ p.arity = q.arity) ∧
    ∃ t, (runAll module calls).live = .ok t ∧
      (∀ p, Entries.get? p.key (t.definitions.entries.map fun e => (e.1.key, e.2)) = t.get? p) ∧
      (∀ p, t.get? p = Definition.gathered (accepted module calls p)) ∧
      (∀ d, (∀ first ∈ (accepted module calls d.pair).head?, first.kind = d.kind) →
        ∃ e isNew, (runAll module calls).define d
            = .ok (e, isNew, runAll module (calls ++ [.define d])) ∧
          (isNew = true ↔ accepted module calls d.pair = []) ∧
          accepted module (calls ++ [.define d]) d.pair = accepted module calls d.pair ++ [d] ∧
          some e = Definition.gathered (accepted module (calls ++ [.define d]) d.pair)) ∧
      (∀ d, ∀ first ∈ (accepted module calls d.pair).head?, first.kind ≠ d.kind →
        (runAll module calls).define d
            = .error ⟨.kindClash d.kind d.pair first.kind first.location, some d.location⟩ ∧
          runAll module (calls ++ [.define d]) = runAll module calls) ∧
      (∀ k p, p ∈ t.summary.ofKind k ↔ ∃ e, t.get? p = some e ∧ e.kind = k) ∧
      (∀ k, (t.summary.ofKind k).Nodup) ∧
      (∀ p, p ∈ t.summary.unreachable ↔
        ∃ e, t.get? p = some e ∧ e.kind.isPublic = false ∧ .recordLocal p ∉ calls) := by
  refine ⟨fun p q => ⟨?_, ?_⟩, ?_⟩
  · intro h
    rw [NameArity.key_injective h]
    exact ⟨rfl, rfl⟩
  · rintro ⟨hname, harity⟩
    rw [NameArity.key, NameArity.key, hname, harity]
  obtain ⟨t, hrun, hentry, hlocals⟩ := runAll_eq module calls
  refine ⟨t, by rw [hrun]; rfl, t.get?_key, hentry, fun d => define_runAll_of_same_kind,
    fun d first => define_runAll_of_other_kind, ?_, ?_, ?_⟩
  · exact fun k p => DefinitionTable.mem_ofKind_summary
  · intro k
    rw [DefinitionTable.ofKind_summary]
    exact (NameArity.ascending_sorted _).nodup
  · intro p
    rw [DefinitionTable.mem_unreachable_summary, hlocals]

/-- A private function whose name holds a slash: it was recorded before its definition, a
function of the same pair is refused, and one whose name ends at the slash is another. -/
theorem definition_history_laws_slashed :
    let private1 : Definition := ⟨.privateFunction, ⟨"a/1", 2⟩, [.text "x"], ⟨"f", 1⟩⟩
    let public2 : Definition := ⟨.function, ⟨"a/1", 2⟩, [.text "y"], ⟨"f", 2⟩⟩
    let private3 : Definition := ⟨.privateFunction, ⟨"a/1", 2⟩, [.text "z"], ⟨"f", 3⟩⟩
    let other : Definition := ⟨.function, ⟨"a", 1⟩, [], ⟨"f", 4⟩⟩
    let calls : List DefinitionCall :=
      [.recordLocal ⟨"a/1", 2⟩, .define private1, .define public2, .define private3, .define other]
    (runAll "M" calls).define public2
        = .error ⟨.kindClash .function ⟨"a/1", 2⟩ .privateFunction ⟨"f", 1⟩, some ⟨"f", 2⟩⟩ ∧
      ∃ t, (runAll "M" calls).live = .ok t ∧
        t.get? ⟨"a/1", 2⟩ = some { private1 with clauses := [.text "x", .text "z"] } ∧
        ⟨"a", 1⟩ ∈ t.summary.ofKind .function ∧ ⟨"a/1", 2⟩ ∉ t.summary.unreachable := by
  intro private1 public2 private3 other calls
  have haccepted : accepted "M" calls ⟨"a/1", 2⟩ = [private1, private3] := rfl
  have hother : accepted "M" calls ⟨"a", 1⟩ = [other] := rfl
  obtain ⟨-, t, hlive, -, hentry, -, hrefused, hkinds, -, hunreachable⟩ :=
    definition_history_laws "M" calls
  refine ⟨(hrefused public2 private1 (by rw [haccepted]; rfl) (by decide)).1, t, hlive, ?_, ?_, ?_⟩
  · rw [hentry, haccepted]
    rfl
  · exact (hkinds _ _).mpr ⟨other, by rw [hentry, hother]; rfl, rfl⟩
  · intro hmem
    obtain ⟨-, -, -, hnot⟩ := (hunreachable _).mp hmem
    exact hnot (List.mem_cons_self)

end DefinitionStore
end ModuleBuild
