import ModuleBuild.Assembly
import ModuleBuild.Proofs.Attribute.Record
import ModuleBuild.Proofs.Outcome
import ModuleBuild.Registry

/-! # Attributes up to documentation

Documentation waits under three keys, whose values neither accumulate nor persist.  Tables that
differ only in the values of these (`AttributeTable.SameButDocs`) still do when the same is
written to both, up to documentation, and whatever is assembled of them is the same
(`Assembly.ofTables_eq_of_sameButDocs`): whether documentation waits is seen in both, what it
says in neither.
-/
namespace ModuleBuild

/-- The keys that documentation waits under. -/
def docKeys : List String := ["doc", "typedoc", "moduledoc"]

/-- A value of a key, left out if it is documentation. -/
def maskDocs (key : String) (v : Value) : Value := if key ∈ docKeys then .null else v

theorem maskDocs_of_not_mem {key : String} (h : key ∉ docKeys) (v : Value) : maskDocs key v = v :=
  if_neg h

namespace Entries

variable {κ α β : Type} [DecidableEq κ] (f : κ → α → β)

/-- The entries with their values changed, each by its key. -/
def mapValues (l : List (κ × α)) : List (κ × β) := l.map fun e => (e.1, f e.1 e.2)

theorem get?_mapValues (k : κ) (l : List (κ × α)) :
    get? k (mapValues f l) = (get? k l).map (f k) := by
  induction l with
  | nil => rfl
  | cons e rest ih =>
    obtain ⟨k', v⟩ := e
    by_cases hk : k' = k
    · subst hk
      simp [mapValues, get?]
    · unfold mapValues at ih ⊢
      simpa [get?, hk] using ih

theorem mapValues_insert (k : κ) (v : α) (l : List (κ × α)) :
    mapValues f (insert k v l) = insert k (f k v) (mapValues f l) := by
  induction l with
  | nil => rfl
  | cons e rest ih =>
    obtain ⟨k', v'⟩ := e
    by_cases hk : k' = k
    · simp [mapValues, insert, hk]
    · unfold mapValues at ih ⊢
      simpa [insert, hk] using ih

theorem mapValues_erase (k : κ) (l : List (κ × α)) :
    mapValues f (erase k l) = erase k (mapValues f l) := by
  unfold mapValues erase
  rw [List.filter_map]
  rfl

end Entries

namespace AttributeCell

/-- A cell of a key without its documentation. -/
def mask (key : String) : AttributeCell → AttributeCell
  | single v => single (maskDocs key v)
  | c => c

theorem mask_of_not_mem {key : String} (h : key ∉ docKeys) (c : AttributeCell) :
    c.mask key = c := by
  cases c with
  | single v => rw [mask, maskDocs_of_not_mem h]
  | control | accumulated => rfl

theorem isEmpty_values_mask (key : String) (c : AttributeCell) :
    (c.mask key).values.isEmpty = c.values.isEmpty := by
  cases c <;> rfl

end AttributeCell

namespace AttributeTable

/-- The cells of a table without documentation. -/
def masked (t : AttributeTable) : List (String × AttributeCell) :=
  Entries.mapValues AttributeCell.mask t.cells.entries

/-- The tables have the same keys in the same order, and they differ only in the values of those
of documentation, whose values neither accumulate nor persist. -/
structure SameButDocs (t t' : AttributeTable) : Prop where
  masked : t'.masked = t.masked
  plain : ∀ key ∈ docKeys,
    t.policies.accumulates key = false ∧ t.policies.persists key = false

namespace SameButDocs

variable {t t' u u' : AttributeTable} (h : t.SameButDocs t')

/-! ## What is read -/

section Reading

include h

theorem mask_get? (key : String) :
    (t'.cells.get? key).map (AttributeCell.mask key)
      = (t.cells.get? key).map (AttributeCell.mask key) := by
  have hget := congrArg (Entries.get? key) h.masked
  rwa [AttributeTable.masked, AttributeTable.masked, Entries.get?_mapValues,
    Entries.get?_mapValues] at hget

theorem get?_eq {key : String} (hkey : key ∉ docKeys) :
    t'.cells.get? key = t.cells.get? key := by
  have hid : AttributeCell.mask key = id := funext (AttributeCell.mask_of_not_mem hkey)
  have hmask := h.mask_get? key
  rwa [hid, Option.map_id, id, id] at hmask

theorem policies_eq : t'.policies = t.policies := by
  have haccumulate := h.get?_eq (show accumulateKey ∉ docKeys by decide)
  have hpersist := h.get?_eq (show persistKey ∉ docKeys by decide)
  unfold AttributeTable.policies controlKeys
  rw [haccumulate, hpersist]

theorem readAll_eq {key : String} (hkey : key ∉ docKeys) : t'.readAll key = t.readAll key := by
  unfold AttributeTable.readAll
  rw [h.get?_eq hkey]

/-- Whether documentation waits is seen in both. -/
theorem has_eq (key : String) : t'.has key = t.has key := by
  have hisEmpty (u : AttributeTable) : u.has key
      = !(((u.cells.get? key).map (AttributeCell.mask key)).map AttributeCell.values
          |>.getD []).isEmpty := by
    rw [AttributeTable.has, AttributeTable.readAll]
    cases u.cells.get? key with
    | none => rfl
    | some c => exact congrArg not (c.isEmpty_values_mask key).symm
  rw [hisEmpty, hisEmpty, h.mask_get?]

theorem unusedDocs_eq (location : Location) : t'.unusedDocs location = t.unusedDocs location := by
  unfold AttributeTable.unusedDocs
  simp only [h.has_eq]

end Reading

/-! ## What is written -/

section Writing

include h

theorem setCell {key : String} {cell cell' : Option AttributeCell}
    (hcell : cell'.map (AttributeCell.mask key) = cell.map (AttributeCell.mask key))
    (hkey : ¬ isReserved key = true) :
    (t.setCell key cell hkey).SameButDocs (t'.setCell key cell' hkey) := by
  constructor
  · have hset (u : AttributeTable) (c : Option AttributeCell) :
        (u.setCell key c hkey).masked = (c.map (AttributeCell.mask key)).elim
          (Entries.erase key u.masked) fun c => Entries.insert key c u.masked := by
      cases c with
      | some c => exact Entries.mapValues_insert ..
      | none => exact Entries.mapValues_erase ..
    rw [hset, hset, hcell, h.masked]
  · intro k hk
    rw [policies_setCell]
    exact h.plain k hk

theorem ofCells {policies : PolicyTable}
    (hplain : ∀ key ∈ docKeys, policies.accumulates key = false ∧ policies.persists key = false) :
    (AttributeTable.ofCells t.cells policies).SameButDocs
      (AttributeTable.ofCells t'.cells policies) := by
  constructor
  · have hcontrol (u : AttributeTable) : (AttributeTable.ofCells u.cells policies).masked
        = Entries.insert persistKey (.control policies.persisted)
            (Entries.insert accumulateKey (.control policies.accumulating) u.masked) := by
      show Entries.mapValues AttributeCell.mask (Entries.insert _ _ (Entries.insert _ _ _)) = _
      rw [Entries.mapValues_insert, Entries.mapValues_insert]
      rfl
    rw [hcontrol, hcontrol, h.masked]
  · rw [policies_ofCells]
    exact hplain

/-- Writing values that differ at most as documentation does. -/
theorem write {key : String} {v v' : Value} (hv : maskDocs key v' = maskDocs key v)
    (hu : t.write key v = .ok u) (hu' : t'.write key v' = .ok u') : u.SameButDocs u' := by
  unfold AttributeTable.write at hu hu'
  by_cases hkey : isReserved key = true
  · rw [dif_pos hkey] at hu
    cases hu
  · rw [dif_neg hkey] at hu hu'
    cases hu
    cases hu'
    refine h.setCell ?_ hkey
    rw [h.policies_eq]
    by_cases hdoc : key ∈ docKeys
    · -- there is one value, which the new one replaces
      rw [(h.plain key hdoc).1]
      show some (AttributeCell.single (maskDocs key v')) = some (.single (maskDocs key v))
      rw [hv]
    · rw [maskDocs_of_not_mem hdoc, maskDocs_of_not_mem hdoc] at hv
      rw [hv, h.get?_eq hdoc]

theorem delete {key : String} (hu : t.delete key = .ok u) (hu' : t'.delete key = .ok u') :
    u.SameButDocs u' := by
  unfold AttributeTable.delete at hu hu'
  by_cases hkey : isReserved key = true
  · rw [dif_pos hkey] at hu
    cases hu
  · rw [dif_neg hkey] at hu hu'
    cases hu
    cases hu'
    refine h.setCell ?_ hkey
    by_cases hdoc : key ∈ docKeys
    · have hmask := h.mask_get? key
      generalize t.cells.get? key = c at hmask ⊢
      generalize t'.cells.get? key = c' at hmask ⊢
      -- the cells are of one kind
      rcases c with _ | _ | _ | _ <;> rcases c' with _ | _ | _ | _ <;> first | rfl | cases hmask
    · rw [h.get?_eq hdoc]

/-- Giving another key a policy. -/
theorem declare {key : String} {p : AttributePolicy} (hkey : key ∉ docKeys)
    (hu : t.declare key p = .ok u) (hu' : t'.declare key p = .ok u') : u.SameButDocs u' := by
  unfold AttributeTable.declare at hu hu'
  rw [h.policies_eq, h.has_eq, h.get?_eq hkey] at hu'
  by_cases hreserved : isReserved key = true
  · rw [dif_pos hreserved] at hu
    cases hu
  · rw [dif_neg hreserved] at hu hu'
    split at hu
    · cases hu
    · next hkeeps =>
      rw [if_neg hkeeps] at hu'
      have hdeclared : (AttributeTable.ofCells t.cells (t.policies.declare key p)).SameButDocs
          (AttributeTable.ofCells t'.cells (t.policies.declare key p)) := by
        refine h.ofCells fun k hk => ?_
        have hne : key ≠ k := by
          rintro rfl
          exact hkey hk
        rw [PolicyTable.accumulates_declare, PolicyTable.persists_declare, if_neg hne, if_neg hne]
        exact h.plain k hk
      cases hu
      cases hu'
      split
      · exact hdeclared
      · exact hdeclared.setCell rfl hreserved
      · exact hdeclared.setCell rfl hreserved
      · exact hdeclared

end Writing

/-! ## What is assembled -/

section Sections

theorem sectionsOf_mask (hplain : ∀ key ∈ docKeys, t.policies.persists key = false)
    (location : Location) (key : String) (cell : AttributeCell) :
    t.sectionsOf location key (cell.mask key) = t.sectionsOf location key cell := by
  by_cases hdoc : key ∈ docKeys
  · unfold AttributeTable.sectionsOf
    rw [hplain key hdoc]
    rfl
  · rw [AttributeCell.mask_of_not_mem hdoc]

theorem sectionsFrom_mapValues (hplain : ∀ key ∈ docKeys, t.policies.persists key = false)
    (location : Location) (l : List (String × AttributeCell)) :
    t.sectionsFrom location (Entries.mapValues AttributeCell.mask l)
      = t.sectionsFrom location l := by
  induction l with
  | nil => rfl
  | cons e rest ih =>
    show (do
      let here ← t.sectionsOf location e.1 (e.2.mask e.1)
      let more ← t.sectionsFrom location (Entries.mapValues AttributeCell.mask rest)
      .ok (here ++ more)) = _
    rw [sectionsOf_mask hplain, ih]
    rfl

include h

theorem sectionsFrom_eq (location : Location) (l : List (String × AttributeCell)) :
    t'.sectionsFrom location l = t.sectionsFrom location l := by
  have hresources : t'.resources location = t.resources location := by
    unfold AttributeTable.resources
    rw [h.readAll_eq (by decide)]
  induction l with
  | nil => rfl
  | cons e rest ih =>
    unfold AttributeTable.sectionsFrom AttributeTable.sectionsOf AttributeTable.shownValues
    rw [ih, h.policies_eq, hresources]

/-- **Documentation does not persist.** -/
theorem sections_eq (location : Location) : t'.sections location = t.sections location := by
  have hplain : ∀ key ∈ docKeys, t.policies.persists key = false :=
    fun key hkey => (h.plain key hkey).2
  calc t'.sectionsFrom location t'.cells.entries
      = t.sectionsFrom location t'.cells.entries := h.sectionsFrom_eq location _
    _ = t.sectionsFrom location t'.masked := (sectionsFrom_mapValues hplain location _).symm
    _ = t.sectionsFrom location t.masked := by rw [h.masked]
    _ = t.sectionsFrom location t.cells.entries := sectionsFrom_mapValues hplain location _

theorem typespecs_eq (s : DefinitionSummary) (location : Location) :
    Typespec.sections t' s location = Typespec.sections t s location := by
  have htypes (kind : TypeKind) : t'.readAll kind.key = t.readAll kind.key :=
    h.readAll_eq (by cases kind <;> decide)
  have hspecs (kind : SpecKind) : t'.readAll kind.key = t.readAll kind.key :=
    h.readAll_eq (by rcases kind with _ | _ | _ <;> decide)
  have hoptional : t'.readAll "optional_callbacks" = t.readAll "optional_callbacks" :=
    h.readAll_eq (by decide)
  simp only [Typespec.sections, Typespec.typesOf, Typespec.declarations, htypes, hspecs, hoptional]

end Sections
end SameButDocs

end AttributeTable

/-- **What is assembled does not depend on what documentation says.** -/
theorem Assembly.ofTables_eq_of_sameButDocs {t t' : AttributeTable} (h : t.SameButDocs t')
    (module : String) (location : Location) (definitions : DefinitionTable)
    (withDocs isInternal : Bool) :
    ofTables module location t' definitions withDocs isInternal
      = ofTables module location t definitions withDocs isInternal := by
  have htypespecs (s : DefinitionSummary) :
      typespecsOf isInternal t' s location = typespecsOf isInternal t s location := by
    unfold typespecsOf
    rw [h.typespecs_eq]
  have hcompile : t'.readAll "compile" = t.readAll "compile" := h.readAll_eq (by decide)
  unfold ofTables
  simp only [htypespecs, h.sections_eq, hcompile, h.unusedDocs_eq]

/-- Nothing is warned of unless documentation is collected. -/
theorem Assembly.warnings_of_ofTables {module : String} {location : Location}
    {attributes : AttributeTable} {definitions : DefinitionTable} {withDocs isInternal : Bool}
    {m : Assembly} (hdocs : withDocs = false)
    (h : ofTables module location attributes definitions withDocs isInternal = .ok m) :
    m.warnings = [] := by
  subst hdocs
  unfold ofTables at h
  split at h
  · cases h
  · obtain ⟨_, -, h⟩ := bind_eq_ok.mp h
    obtain ⟨_, -, h⟩ := bind_eq_ok.mp h
    cases h
    rfl

/-- Every module starts with keys of documentation that are plain. -/
theorem ModuleEntry.sameButDocs_initialAttributes (withDocs : Bool) :
    (initialAttributes withDocs).SameButDocs (initialAttributes withDocs) where
  masked := rfl
  plain := by
    unfold initialAttributes AttributeTable.ofPolicies
    rw [AttributeTable.policies_setCell, AttributeTable.policies_setCell,
      AttributeTable.policies_ofCells]
    decide

end ModuleBuild
