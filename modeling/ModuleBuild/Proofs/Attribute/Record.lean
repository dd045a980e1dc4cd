import ModuleBuild.Attribute.Store

/-! # The record of a key

All that an attribute table knows of a key is a policy and the values written under it since
it was last deleted.  `AttributeTable.Represents` says so of what the control cells list and of
the cell of the key; the kind of the cell follows the policy.  Each call keeps it for its own
key (`represents_call`) and for the other keys (`represents_call_of_ne`), the control keys
among them: they show nothing, whatever they list.
-/
namespace ModuleBuild

/-- A call that changes attributes. -/
inductive AttributeCall where
  | declare (key : String) (policy : AttributePolicy)
  | write (key : String) (value : Value)
  | delete (key : String)

/-- The key that a call is about. -/
def AttributeCall.key : AttributeCall → String
  | declare key _ => key
  | write key _ => key
  | delete key => key

/-- The policy of a key, and the values written under it since it was last deleted. -/
structure AttributeRecord where
  policy : AttributePolicy
  written : List Value

namespace AttributeRecord

/-- What a key reads as: the values in order if its writes accumulate, else the last one. -/
def read (r : AttributeRecord) : Value :=
  if r.policy.accumulate then .list r.written else r.written.getLast?.getD .undefined

/-- The values that a key shows: all, or the last one. -/
def readAll (r : AttributeRecord) : List Value :=
  if r.policy.accumulate then r.written else r.written.getLast?.toList

/-- Why a call on a key is refused: the key is the compiler's own, or whether its writes
accumulate is to change while there are values. -/
def refusal? (r : AttributeRecord) (call : AttributeCall) : Option Condition :=
  if AttributeTable.isReserved call.key then some (.keyReserved call.key)
  else
    match call with
    | .declare key p =>
      if r.written.isEmpty ∨ r.policy.accumulate = p.accumulate then none
      else some (.policyChanged key p.accumulate)
    | _ => none

/-- What a call makes of the record of its key; one that is refused leaves it as it is. -/
def after (r : AttributeRecord) (call : AttributeCall) : AttributeRecord :=
  match r.refusal? call, call with
  | some _, _ => r
  | none, .declare _ p => { r with policy := p }
  | none, .write _ v => { r with written := r.written ++ [v] }
  | none, .delete _ => { r with written := [] }

/-- The cell of a key holds what its record says.  Only keys whose writes do not accumulate
have single cells, and only keys whose writes do have accumulated ones; a control cell has no
values. -/
inductive Fills : AttributeRecord → Option AttributeCell → Prop
  | absent {policy : AttributePolicy} : Fills ⟨policy, []⟩ none
  | control {policy : AttributePolicy} {keys : List String} :
      Fills ⟨policy, []⟩ (some (.control keys))
  | single {persist : Bool} {earlier : List Value} {v : Value} :
      Fills ⟨⟨false, persist⟩, earlier ++ [v]⟩ (some (.single v))
  | accumulated {persist : Bool} {vs : List Value} :
      Fills ⟨⟨true, persist⟩, vs⟩ (some (.accumulated vs))

variable {r : AttributeRecord} {c : AttributeCall}

theorem refusal?_of_isReserved (r : AttributeRecord)
    (h : AttributeTable.isReserved c.key = true) : r.refusal? c = some (.keyReserved c.key) :=
  if_pos h

theorem refusal?_declare_eq_none_iff {key : String} {p : AttributePolicy} :
    r.refusal? (.declare key p) = none ↔ AttributeTable.isReserved key = false ∧
      (r.written.isEmpty = true ∨ r.policy.accumulate = p.accumulate) := by
  by_cases hkey : AttributeTable.isReserved key = true
  · have hsome : r.refusal? (.declare key p) = some (.keyReserved key) := if_pos hkey
    rw [hsome, hkey]
    exact ⟨nofun, fun h => nomatch h.1⟩
  · by_cases hkeep : r.written.isEmpty = true ∨ r.policy.accumulate = p.accumulate
    · exact iff_of_true ((if_neg hkey).trans (if_pos hkeep)) ⟨Bool.eq_false_iff.mpr hkey, hkeep⟩
    · have hsome : r.refusal? (.declare key p) = some (.policyChanged key p.accumulate) :=
        (if_neg hkey).trans (if_neg hkeep)
      rw [hsome]
      exact ⟨nofun, fun h => absurd h.2 hkeep⟩

end AttributeRecord

/-! ## Policies -/

theorem contains_toggleKey (keys : List String) (key k : String) (on : Bool) :
    (toggleKey keys key on).contains k = if key = k then on else keys.contains k := by
  rw [Bool.eq_iff_iff]
  by_cases hk : key = k
  · subst hk
    cases on <;> simp [toggleKey]
    split <;> simp_all
  · cases on <;> simp [toggleKey, hk, Ne.symm hk]
    split <;> simp [Ne.symm hk]

namespace PolicyTable

@[simp] theorem accumulates_declare (t : PolicyTable) (key k : String) (p : AttributePolicy) :
    (t.declare key p).accumulates k = if key = k then p.accumulate else t.accumulates k :=
  contains_toggleKey t.accumulating key k p.accumulate

@[simp] theorem persists_declare (t : PolicyTable) (key k : String) (p : AttributePolicy) :
    (t.declare key p).persists k = if key = k then p.persist else t.persists k :=
  contains_toggleKey t.persisted key k p.persist

end PolicyTable

namespace AttributeTable

section Policies

variable (t : AttributeTable) (cells : OrderedMap String AttributeCell)
  (policies : PolicyTable) {key k : String} (cell : Option AttributeCell)

theorem controlKeys_eq {t : AttributeTable} {keys : List String}
    (h : t.cells.get? key = some (.control keys)) : t.controlKeys key = keys := by
  simp only [controlKeys, h]

@[simp] theorem policies_ofCells : (ofCells cells policies).policies = policies := by
  rw [AttributeTable.policies, controlKeys_eq (get?_controlCells_accumulateKey ..),
    controlKeys_eq (get?_controlCells_persistKey ..)]

/-- Policies are seen in the control cells only. -/
theorem get?_controlCells (h : k ≠ accumulateKey ∧ k ≠ persistKey) :
    (controlCells cells policies).get? k = cells.get? k := by
  rw [controlCells, OrderedMap.get?_insert, if_neg h.2.symm, OrderedMap.get?_insert,
    if_neg h.1.symm]

theorem ne_of_not_isReserved (hkey : ¬isReserved key = true) (hk : isReserved k = true) :
    key ≠ k := by
  rintro rfl
  exact hkey hk

theorem ne_controlKeys (hkey : ¬isReserved key = true) :
    key ≠ accumulateKey ∧ key ≠ persistKey :=
  ⟨ne_of_not_isReserved hkey (by decide), ne_of_not_isReserved hkey (by decide)⟩

@[simp] theorem get?_setCell (hkey : ¬isReserved key = true) (k : String) :
    (t.setCell key cell hkey).cells.get? k = if key = k then cell else t.cells.get? k :=
  get?_cellsWith t.cells key k cell

/-- The cells of the users' keys do not count for the policies. -/
@[simp] theorem policies_setCell (hkey : ¬isReserved key = true) :
    (t.setCell key cell hkey).policies = t.policies := by
  have hcontrol {k : String} (hk : isReserved k = true) :
      (t.setCell key cell hkey).controlKeys k = t.controlKeys k := by
    rw [controlKeys, get?_setCell, if_neg (ne_of_not_isReserved hkey hk), controlKeys]
  rw [AttributeTable.policies, hcontrol (by decide), hcontrol (by decide),
    AttributeTable.policies]

end Policies

/-- The table after a call, or why the call is refused. -/
def call (t : AttributeTable) : AttributeCall → Except Condition AttributeTable
  | .declare key p => t.declare key p
  | .write key v => t.write key v
  | .delete key => t.delete key

/-- The table knows of a key what the record says. -/
structure Represents (t : AttributeTable) (key : String) (r : AttributeRecord) : Prop where
  accumulates : t.policies.accumulates key = r.policy.accumulate
  persists : t.policies.persists key = r.policy.persist
  cell : r.Fills (t.cells.get? key)

/-- What the table shows of a key is what the record says: its policy, what it reads as, its
values, and whether there are any. -/
structure Shows (t : AttributeTable) (key : String) (r : AttributeRecord) : Prop where
  accumulates : t.policies.accumulates key = r.policy.accumulate
  persists : t.policies.persists key = r.policy.persist
  read : t.read key = r.read
  readAll : t.readAll key = r.readAll
  has : t.has key = !r.written.isEmpty

variable {t t' : AttributeTable} {key : String} {r : AttributeRecord} {c : AttributeCall}

section Reading

theorem Represents.read (h : t.Represents key r) : t.read key = r.read := by
  obtain ⟨haccumulates, -, hcell⟩ := h
  unfold AttributeTable.read AttributeRecord.read
  rw [haccumulates]
  generalize t.cells.get? key = cell at hcell
  cases hcell with
  | @absent policy => cases policy.accumulate <;> rfl
  | @control policy => cases policy.accumulate <;> rfl
  | single => simp
  | accumulated => rfl

theorem Represents.readAll (h : t.Represents key r) : t.readAll key = r.readAll := by
  obtain ⟨-, -, hcell⟩ := h
  unfold AttributeTable.readAll AttributeRecord.readAll
  generalize t.cells.get? key = cell at hcell
  cases hcell with
  | absent => simp
  | control => simp [AttributeCell.values]
  | single => simp [AttributeCell.values]
  | accumulated => simp [AttributeCell.values]

theorem Represents.has (h : t.Represents key r) : t.has key = !r.written.isEmpty := by
  rw [AttributeTable.has, h.readAll, AttributeRecord.readAll]
  cases r.policy.accumulate with
  | true => rfl
  | false =>
    rcases List.eq_nil_or_concat r.written with hnil | ⟨earlier, v, hv⟩
    · simp [hnil]
    · simp [hv]

theorem Represents.shows (h : t.Represents key r) : t.Shows key r :=
  ⟨h.accumulates, h.persists, h.read, h.readAll, h.has⟩

/-- The cell of a key that has no values and whose writes do not accumulate shows nothing. -/
theorem Represents.shown?_eq_none {persist : Bool} {cell : AttributeCell}
    (h : t.Represents key ⟨⟨false, persist⟩, []⟩) (hget : t.cells.get? key = some cell) :
    cell.shown? = none := by
  obtain ⟨-, -, hcell⟩ := h
  rw [hget] at hcell
  generalize hr : (⟨⟨false, persist⟩, []⟩ : AttributeRecord) = r at hcell
  cases hcell with
  | control => rfl
  | single => simp at hr
  | accumulated => cases hr

end Reading

/-! ## One call -/

theorem call_of_isReserved (t : AttributeTable) (h : isReserved c.key = true) :
    t.call c = .error (.keyReserved c.key) := by
  cases c <;> exact dif_pos h

/-- The control keys have no values. -/
theorem written_eq_nil (t : AttributeTable) (h : r.Fills (t.cells.get? key))
    (hkey : key = accumulateKey ∨ key = persistKey) : r.written = [] := by
  have hcontrol : ∃ keys, t.cells.get? key = some (.control keys) := by
    rcases hkey with rfl | rfl
    · exact t.controls.accumulating
    · exact t.controls.persisted
  obtain ⟨keys, hkeys⟩ := hcontrol
  rw [hkeys] at h
  cases h
  rfl

/-- Whatever the control keys list, their cells have no values. -/
theorem fills_controlCells {cells : OrderedMap String AttributeCell} (policies : PolicyTable)
    (hnil : key = accumulateKey ∨ key = persistKey → r.written = [])
    (h : r.Fills (cells.get? key)) : r.Fills ((controlCells cells policies).get? key) := by
  obtain ⟨policy, written⟩ := r
  by_cases haccumulate : key = accumulateKey
  · obtain rfl : written = [] := hnil (Or.inl haccumulate)
    rw [haccumulate, get?_controlCells_accumulateKey]
    exact .control
  by_cases hpersist : key = persistKey
  · obtain rfl : written = [] := hnil (Or.inr hpersist)
    rw [hpersist, get?_controlCells_persistKey]
    exact .control
  · rwa [get?_controlCells _ _ ⟨haccumulate, hpersist⟩]

/-- A cell that is set at a key is what the table knows of the key besides its policy. -/
theorem represents_setCell {cell : Option AttributeCell} (hkey : ¬isReserved key = true)
    (haccumulates : t.policies.accumulates key = r.policy.accumulate)
    (hpersists : t.policies.persists key = r.policy.persist) (hcell : r.Fills cell) :
    (t.setCell key cell hkey).Represents key r := by
  constructor
  · rwa [policies_setCell]
  · rwa [policies_setCell]
  · rwa [get?_setCell, if_pos rfl]

theorem represents_write (h : t.Represents key r) (hkey : ¬isReserved key = true) (v : Value) :
    ∃ t', t.write key v = .ok t' ∧ t'.Represents key { r with written := r.written ++ [v] } := by
  refine ⟨_, dif_neg hkey, represents_setCell hkey h.accumulates h.persists ?_⟩
  obtain ⟨haccumulates, -, hcell⟩ := h
  rw [haccumulates]
  generalize t.cells.get? key = cell at hcell
  cases hcell with
  | @absent policy | @control policy =>
    obtain ⟨_ | _, persist⟩ := policy
    · exact .single
    · exact .accumulated
  | single => exact .single
  | accumulated => exact .accumulated

theorem represents_delete (h : t.Represents key r) (hkey : ¬isReserved key = true) :
    ∃ t', t.delete key = .ok t' ∧ t'.Represents key { r with written := [] } := by
  refine ⟨_, dif_neg hkey, represents_setCell hkey h.accumulates h.persists ?_⟩
  obtain ⟨-, -, hcell⟩ := h
  generalize t.cells.get? key = cell at hcell
  cases hcell with
  | accumulated => exact .accumulated
  | _ => exact .absent

/-- A key can be declared if it has no values, or if whether its writes accumulate does not
change; whether its values persist is free. -/
theorem represents_declare {p : AttributePolicy} (h : t.Represents key r)
    (hkey : ¬isReserved key = true)
    (hkeep : r.written.isEmpty = true ∨ r.policy.accumulate = p.accumulate) :
    ∃ t', t.declare key p = .ok t' ∧ t'.Represents key { r with policy := p } := by
  have hallowed : ¬(t.has key = true ∧ t.policies.accumulates key ≠ p.accumulate) := by
    rw [h.has, h.accumulates]
    rintro ⟨hhas, hne⟩
    rcases hkeep with hempty | heq
    · simp [hempty] at hhas
    · exact hne heq
  refine ⟨_, (dif_neg hkey).trans (if_neg hallowed), ?_⟩
  obtain ⟨-, -, hcell⟩ := h
  obtain ⟨a, persist⟩ := p
  have hkept : (ofCells t.cells (t.policies.declare key ⟨a, persist⟩)).cells.get? key
      = t.cells.get? key := get?_controlCells _ _ (ne_controlKeys hkey)
  generalize t.cells.get? key = cell at hcell hkept
  cases hcell with
  | absent | control =>
    cases a with
    | false => exact ⟨by simp, by simp, by rw [hkept]; constructor⟩
    | true => exact represents_setCell hkey (by simp) (by simp) .accumulated
  | @single persist' earlier v =>
    -- the values stay, so the writes still do not accumulate
    obtain rfl : false = a := by simpa using hkeep
    exact ⟨by simp, by simp, by rw [hkept]; exact .single⟩
  | @accumulated persist' vs =>
    cases a with
    | true => exact ⟨by simp, by simp, by rw [hkept]; exact .accumulated⟩
    | false =>
      obtain rfl : vs = [] := by simpa using hkeep
      exact represents_setCell hkey (by simp) (by simp) .absent

/-- While a key has values, whether its writes accumulate cannot change. -/
theorem declare_eq_error {p : AttributePolicy} (h : t.Represents key r)
    (hkey : ¬isReserved key = true)
    (hchange : ¬(r.written.isEmpty = true ∨ r.policy.accumulate = p.accumulate)) :
    t.declare key p = .error (.policyChanged key p.accumulate) := by
  rw [not_or] at hchange
  have hrefused : t.has key = true ∧ t.policies.accumulates key ≠ p.accumulate := by
    rw [h.has, h.accumulates]
    exact ⟨by simpa using hchange.1, hchange.2⟩
  exact (dif_neg hkey).trans (if_pos hrefused)

/-- **One call, for its own key.**  It is refused exactly if the record of the key says so;
else it leaves what the record says. -/
theorem represents_call (h : t.Represents c.key r) :
    (∃ e, t.call c = .error e ∧ r.refusal? c = some e) ∨
      ∃ t', t.call c = .ok t' ∧ r.refusal? c = none ∧ t'.Represents c.key (r.after c) := by
  by_cases hkey : isReserved c.key = true
  · exact Or.inl ⟨_, call_of_isReserved t hkey, r.refusal?_of_isReserved hkey⟩
  cases c with
  | write key v =>
    obtain ⟨t', hcall, ht'⟩ := represents_write h hkey v
    have hnone : r.refusal? (.write key v) = none := if_neg hkey
    exact Or.inr ⟨t', hcall, hnone, by simpa only [AttributeRecord.after, hnone] using ht'⟩
  | delete key =>
    obtain ⟨t', hcall, ht'⟩ := represents_delete h hkey
    have hnone : r.refusal? (.delete key) = none := if_neg hkey
    exact Or.inr ⟨t', hcall, hnone, by simpa only [AttributeRecord.after, hnone] using ht'⟩
  | declare key p =>
    by_cases hkeep : r.written.isEmpty = true ∨ r.policy.accumulate = p.accumulate
    · obtain ⟨t', hcall, ht'⟩ := represents_declare h hkey hkeep
      have hnone : r.refusal? (.declare key p) = none := (if_neg hkey).trans (if_pos hkeep)
      exact Or.inr ⟨t', hcall, hnone, by simpa only [AttributeRecord.after, hnone] using ht'⟩
    · exact Or.inl ⟨_, declare_eq_error h hkey hkeep, (if_neg hkey).trans (if_neg hkeep)⟩

/-- What a call that is not refused does: it sets the cell of its key, and a declaration
changes the policies first. -/
theorem call_eq_ok (hcall : t.call c = .ok t') : ∃ hkey : ¬isReserved c.key = true,
    (∃ cell, t' = t.setCell c.key cell hkey) ∨
      ∃ p, c = .declare c.key p ∧ (t' = ofCells t.cells (t.policies.declare c.key p) ∨
        ∃ cell, t' = (ofCells t.cells (t.policies.declare c.key p)).setCell c.key cell hkey) := by
  have hkey : ¬isReserved c.key = true := by
    intro hreserved
    rw [call_of_isReserved t hreserved] at hcall
    cases hcall
  refine ⟨hkey, ?_⟩
  cases c with
  | write key v => exact Or.inl ⟨_, (Except.ok.inj ((dif_neg hkey).symm.trans hcall)).symm⟩
  | delete key => exact Or.inl ⟨_, (Except.ok.inj ((dif_neg hkey).symm.trans hcall)).symm⟩
  | declare key p =>
    refine Or.inr ⟨p, rfl, ?_⟩
    have hok := (dif_neg hkey).symm.trans hcall
    split at hok
    · cases hok
    · have heq := Except.ok.inj hok
      split at heq
      · exact Or.inl heq.symm
      · exact Or.inr ⟨_, heq.symm⟩
      · exact Or.inr ⟨_, heq.symm⟩
      · exact Or.inl heq.symm

/-- Only a declaration changes the policies. -/
theorem policies_of_call (hcall : t.call c = .ok t') : t'.policies = t.policies ∨
    ∃ key p, c = .declare key p ∧ t'.policies = t.policies.declare key p := by
  obtain ⟨hkey, ⟨cell, rfl⟩ | ⟨p, hc, rfl | ⟨cell, rfl⟩⟩⟩ := call_eq_ok hcall
  · exact Or.inl (policies_setCell ..)
  · exact Or.inr ⟨c.key, p, hc, policies_ofCells ..⟩
  · exact Or.inr ⟨c.key, p, hc, (policies_setCell ..).trans (policies_ofCells ..)⟩

theorem represents_setCell_of_ne {k : String} {cell : Option AttributeCell}
    (h : t.Represents key r) (hne : k ≠ key) (hk : ¬isReserved k = true) :
    (t.setCell k cell hk).Represents key r := by
  obtain ⟨haccumulates, hpersists, hcell⟩ := h
  constructor
  · rwa [policies_setCell]
  · rwa [policies_setCell]
  · rwa [get?_setCell, if_neg hne]

/-- The policy of a key is none of the other keys' business, the control keys among them. -/
theorem represents_ofCells_of_ne {k : String} {p : AttributePolicy}
    (h : t.Represents key r) (hne : k ≠ key) :
    (ofCells t.cells (t.policies.declare k p)).Represents key r := by
  obtain ⟨haccumulates, hpersists, hcell⟩ := h
  constructor
  · rwa [policies_ofCells, PolicyTable.accumulates_declare, if_neg hne]
  · rwa [policies_ofCells, PolicyTable.persists_declare, if_neg hne]
  · exact fills_controlCells _ (t.written_eq_nil hcell) hcell

/-- **One call, for the other keys.**  It changes nothing of what the table knows of them. -/
theorem represents_call_of_ne (h : t.Represents key r) (hne : c.key ≠ key)
    (hcall : t.call c = .ok t') : t'.Represents key r := by
  obtain ⟨hkey, ⟨cell, rfl⟩ | ⟨p, -, rfl | ⟨cell, rfl⟩⟩⟩ := call_eq_ok hcall
  · exact represents_setCell_of_ne h hne hkey
  · exact represents_ofCells_of_ne h hne
  · exact represents_setCell_of_ne (represents_ofCells_of_ne h hne) hne hkey

end AttributeTable
end ModuleBuild
