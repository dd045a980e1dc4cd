import ModuleBuild.Proofs.Definition.Order
import ModuleBuild.Proofs.Relation

/-! # Definitions of a file under two names

A file that is compiled under two names (`Relocation`) makes the same definitions, but for where
they stand (`Definition.Relocated`).  Tables of such definitions accept and refuse the same, and a
refusal differs in the places that it names at most (`DefinitionTable.Relocated.define`).  Their
summaries are the same, but for the definitions in them.
-/
namespace ModuleBuild

/-- The names of one file in two compilations. -/
structure Relocation where
  origin : String
  target : String

variable {r : Relocation}

/-- Places that are the same, or one line of the file under its two names. -/
inductive Location.Relocated (r : Relocation) : Location → Location → Prop where
  | same (l : Location) : Relocated r l l
  | moved (line : Int) : Relocated r ⟨r.origin, line⟩ ⟨r.target, line⟩

theorem Location.Relocated.line {l l' : Location} (h : Relocated r l l') : l'.line = l.line := by
  cases h <;> rfl

/-- Definitions that are the same but for their places. -/
inductive Definition.Relocated (r : Relocation) : Definition → Definition → Prop where
  | mk (kind : DefinitionKind) (pair : NameArity) (clauses : List Value) {l l' : Location}
      (h : Location.Relocated r l l') :
      Relocated r ⟨kind, pair, clauses, l⟩ ⟨kind, pair, clauses, l'⟩

theorem Definition.Relocated.refl (d : Definition) : Relocated r d d := .mk _ _ _ (.same _)

/-- Problems that are the same but for the places of definitions that they name. -/
inductive Problem.Relocated (r : Relocation) : Problem → Problem → Prop where
  | same (p : Problem) : Relocated r p p
  | overridden (pair : NameArity) {l l' : Location} (h : Location.Relocated r l l') :
      Relocated r ⟨.internalOverridden pair, some l⟩ ⟨.internalOverridden pair, some l'⟩
  | closed (pair : NameArity) (module phase : String) {l l' : Location}
      (h : Location.Relocated r l l') :
      Relocated r ⟨.definitionsClosed pair module phase, some l⟩
        ⟨.definitionsClosed pair module phase, some l'⟩
  | clash (kind : DefinitionKind) (pair : NameArity) (existing : DefinitionKind)
      {d d' l l' : Location} (hd : Location.Relocated r d d') (h : Location.Relocated r l l') :
      Relocated r ⟨.kindClash kind pair existing d, some l⟩
        ⟨.kindClash kind pair existing d', some l'⟩

/-! ## Tables -/

/-- Tables of the same definitions but for their places. -/
structure DefinitionTable.Relocated (r : Relocation) (t t' : DefinitionTable) : Prop where
  definitions : t.definitions.Related (Definition.Relocated r) t'.definitions
  locals : t'.locals = t.locals

namespace DefinitionTable.Relocated

variable {t t' : DefinitionTable} (h : Relocated r t t')

theorem refl (t : DefinitionTable) : Relocated r t t :=
  ⟨.refl Definition.Relocated.refl _, rfl⟩

include h

theorem put {d d' : Definition} (hd : Definition.Relocated r d d') :
    Relocated r (t.put d) (t'.put d') := by
  cases hd with
  | mk kind pair clauses hplace => exact ⟨h.definitions.insert _ (.mk _ _ _ hplace), h.locals⟩

/-- **The same definitions are accepted.** -/
theorem define {d d' : Definition} (hd : Definition.Relocated r d d') :
    EndAlike (Problem.Relocated r)
      (fun x x' => Definition.Relocated r x.1 x'.1 ∧ x'.2.1 = x.2.1 ∧ Relocated r x.2.2 x'.2.2)
      (t.define d) (t'.define d') := by
  cases hd with
  | @mk kind pair clauses l l' hplace =>
    have hget : Option.Rel (Definition.Relocated r) (t.get? pair) (t'.get? pair) :=
      h.definitions.get? pair
    unfold DefinitionTable.define
    dsimp only
    generalize t.get? pair = found at hget ⊢
    generalize t'.get? pair = found' at hget ⊢
    cases hget with
    | none =>
      have hnew : Definition.Relocated r ⟨kind, pair, clauses, l⟩ ⟨kind, pair, clauses, l'⟩ :=
        .mk _ _ _ hplace
      exact .ok ⟨hnew, rfl, h.put hnew⟩
    | some hold =>
      cases hold with
      | @mk existing pair' old k k' hold =>
        dsimp only
        by_cases hkind : existing = kind
        · rw [if_pos hkind, if_pos hkind]
          have hgrown : Definition.Relocated r ⟨existing, pair', old ++ clauses, k⟩
              ⟨existing, pair', old ++ clauses, k'⟩ := .mk _ _ _ hold
          exact .ok ⟨hgrown, rfl, h.put hgrown⟩
        · rw [if_neg hkind, if_neg hkind]
          exact .error (.clash _ _ _ hold hplace)

theorem recordLocal (p : NameArity) : Relocated r (t.recordLocal p) (t'.recordLocal p) := by
  unfold DefinitionTable.recordLocal
  rw [h.locals]
  split
  · exact h
  · exact ⟨h.definitions, rfl⟩

end DefinitionTable.Relocated

/-! ## Summaries -/

/-- The pairs of definitions that are chosen by kind and pair do not depend on the places. -/
theorem Definition.Relocated.map_pair_filter {ds ds' : List Definition}
    (h : List.Forall₂ (Definition.Relocated r) ds ds') (p : DefinitionKind → NameArity → Bool) :
    (ds'.filter fun d => p d.kind d.pair).map Definition.pair
      = (ds.filter fun d => p d.kind d.pair).map Definition.pair := by
  induction h with
  | nil => rfl
  | cons hd _ ih =>
    cases hd with
    | mk kind pair clauses =>
      rw [List.filter_cons, List.filter_cons]
      by_cases hp : p kind pair
      · rw [if_pos hp, if_pos hp, List.map_cons, List.map_cons, ih]
      · rw [if_neg hp, if_neg hp, ih]

/-- Sorting by pairs puts definitions in the same order, wherever they stand. -/
theorem Definition.Relocated.sortBy {ds ds' : List Definition}
    (h : List.Forall₂ (Definition.Relocated r) ds ds') :
    List.Forall₂ (Definition.Relocated r) (NameArity.sortBy Definition.pair ds)
      (NameArity.sortBy Definition.pair ds') := by
  obtain ⟨hlength, hzip⟩ := List.forall₂_iff_zip.mp h
  -- both lists are sorted as the list of their pairs of definitions is
  let before (d e : Definition) : Bool := (NameArity.compare d.pair e.pair).isLE
  let zipped := (ds.zip ds').mergeSort fun z y => before z.1 y.1
  have hfirst : zipped.map Prod.fst = ds.mergeSort before := by
    have hsorted : zipped.map Prod.fst = ((ds.zip ds').map Prod.fst).mergeSort before :=
      List.map_mergeSort fun _ _ _ _ => rfl
    rwa [List.map_fst_zip (Nat.le_of_eq hlength)] at hsorted
  have hsecond : zipped.map Prod.snd = ds'.mergeSort before := by
    have hpair : ∀ z ∈ ds.zip ds', z.2.pair = z.1.pair := by
      rintro ⟨d, d'⟩ hz
      cases hzip hz
      rfl
    have hsorted : zipped.map Prod.snd = ((ds.zip ds').map Prod.snd).mergeSort before :=
      List.map_mergeSort fun z hz y hy => by
        dsimp only [before]
        rw [hpair z hz, hpair y hy]
    rwa [List.map_snd_zip (Nat.le_of_eq hlength.symm)] at hsorted
  show List.Forall₂ _ (ds.mergeSort before) (ds'.mergeSort before)
  rw [← hfirst, ← hsecond, List.forall₂_map_left_iff, List.forall₂_map_right_iff]
  exact List.forall₂_same.mpr fun z hz => hzip (List.mem_mergeSort.mp hz)

namespace DefinitionTable.Relocated

variable {t t' : DefinitionTable} (h : Relocated r t t')
include h

theorem all : List.Forall₂ (Definition.Relocated r) t.summary.all t'.summary.all :=
  Definition.Relocated.sortBy h.definitions.values

/-- **Summaries differ in the places of definitions at most.** -/
theorem summary : t'.summary = { t.summary with all := t'.summary.all } := by
  have hpairs (p : DefinitionKind → NameArity → Bool) :=
    Definition.Relocated.map_pair_filter h.definitions.values p
  have hkind (k : DefinitionKind) : t'.pairsOf k = t.pairsOf k := hpairs fun kind _ => kind = k
  have hunreachable := hpairs fun kind pair => !kind.isPublic && !t.locals.contains pair
  unfold DefinitionTable.summary
  simp only [hkind, h.locals, hunreachable]

end DefinitionTable.Relocated

/-! ## Stores -/

/-- Stores of the same definitions but for their places. -/
structure DefinitionStore.Relocated (r : Relocation) (s s' : DefinitionStore) : Prop where
  module : s'.module = s.module
  table : Option.Rel (DefinitionTable.Relocated r) s.table s'.table

namespace DefinitionStore.Relocated

variable {s s' : DefinitionStore} (h : Relocated r s s')

theorem refl (s : DefinitionStore) : Relocated r s s where
  module := rfl
  table := by
    cases s.table with
    | none => exact .none
    | some t => exact .some (.refl t)

include h

theorem live : EndAlike Eq (DefinitionTable.Relocated r) s.live s'.live := by
  have htable := h.table
  unfold DefinitionStore.live
  rw [h.module]
  generalize s.table = table at htable ⊢
  generalize s'.table = table' at htable ⊢
  cases htable with
  | none => exact .error rfl
  | some ht => exact .ok ht

/-- **The same definitions are accepted**, while there is a table. -/
theorem define {d d' : Definition} (hd : Definition.Relocated r d d') :
    EndAlike (Problem.Relocated r)
      (fun x x' => Definition.Relocated r x.1 x'.1 ∧ x'.2.1 = x.2.1 ∧ Relocated r x.2.2 x'.2.2)
      (s.define d) (s'.define d') := by
  have hlive := h.live
  unfold DefinitionStore.define
  generalize s.live = live at hlive ⊢
  generalize s'.live = live' at hlive ⊢
  cases hlive with
  | error hc =>
    cases hc
    exact .error (.same _)
  | ok ht =>
    refine (ht.define hd).bind ?_
    rintro ⟨e, isNew, t⟩ ⟨e', _, t'⟩ ⟨he, rfl, ht⟩
    exact .ok ⟨he, rfl, h.module, .some ht⟩

theorem recordLocal (p : NameArity) :
    EndAlike Eq (Relocated r) (s.recordLocal p) (s'.recordLocal p) :=
  h.live.bind fun _ _ ht => .ok ⟨h.module, .some (ht.recordLocal p)⟩

theorem destroy : Relocated r s.destroy s'.destroy := ⟨h.module, .none⟩

end DefinitionStore.Relocated
end ModuleBuild
