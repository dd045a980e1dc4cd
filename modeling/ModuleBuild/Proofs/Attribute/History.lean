import Mathlib.Data.List.Induction
import ModuleBuild.Proofs.Attribute.Record
import ModuleBuild.Proofs.Outcome

/-! # Histories of an attribute store

A history is a sequence of calls that declare keys, write values and delete them, any of
which may be refused.  After a history the store knows of every key what the record of the
key says (`runAll_eq`), and the record follows from the calls on that key alone.
-/
namespace ModuleBuild
namespace AttributeRecord

/-- The record of a key of a new module. -/
def initial (key : String) : AttributeRecord :=
  ⟨⟨PolicyTable.initial.accumulates key, PolicyTable.initial.persists key⟩, []⟩

/-- The record of a key after a history, which the calls on other keys do not touch. -/
def ofHistory (key : String) (calls : List AttributeCall) : AttributeRecord :=
  calls.foldl (fun r c => if c.key = key then r.after c else r) (initial key)

variable {key : String} {r : AttributeRecord} {c : AttributeCall}

theorem ofHistory_append_singleton (key : String) (calls : List AttributeCall)
    (c : AttributeCall) :
    ofHistory key (calls ++ [c])
      = if c.key = key then (ofHistory key calls).after c else ofHistory key calls := by
  simp [ofHistory]

theorem after_of_refused {e : Condition} (h : r.refusal? c = some e) : r.after c = r := by
  simp only [after, h]

/-- Whether writes accumulate changes only by a declaration, and while there are no
values. -/
theorem after_accumulate (h : (r.after c).policy.accumulate ≠ r.policy.accumulate) :
    r.written = [] ∧ ∃ p, c = .declare c.key p := by
  cases hrefusal : r.refusal? c with
  | some e => exact absurd (congrArg (fun r => r.policy.accumulate) (after_of_refused hrefusal)) h
  | none =>
    cases c with
    | write key v => simp [after, hrefusal] at h
    | delete key => simp [after, hrefusal] at h
    | declare key p =>
      simp only [after, hrefusal] at h
      obtain ⟨-, hkeep⟩ := refusal?_declare_eq_none_iff.mp hrefusal
      exact ⟨List.isEmpty_iff.mp (hkeep.resolve_right (Ne.symm h)), p, rfl⟩

/-- The keys that a new module has policies for are none of the compiler's own. -/
theorem initial_of_isReserved (h : AttributeTable.isReserved key = true) :
    initial key = ⟨⟨false, false⟩, []⟩ := by
  have haccumulating : ∀ k ∈ PolicyTable.initial.accumulating,
      AttributeTable.isReserved k = false := by decide
  have hpersisted : ∀ k ∈ PolicyTable.initial.persisted,
      AttributeTable.isReserved k = false := by decide
  have hno {keys : List String} (hkeys : ∀ k ∈ keys, AttributeTable.isReserved k = false) :
      keys.contains key = false := by
    rw [List.contains_eq_mem, decide_eq_false_iff_not]
    intro hmem
    rw [hkeys key hmem] at h
    cases h
  rw [initial, PolicyTable.accumulates, PolicyTable.persists, hno haccumulating, hno hpersisted]

theorem ofHistory_of_isReserved (h : AttributeTable.isReserved key = true)
    (calls : List AttributeCall) : ofHistory key calls = ⟨⟨false, false⟩, []⟩ := by
  induction calls using List.reverseRecOn with
  | nil => exact initial_of_isReserved h
  | append_singleton calls c ih =>
    rw [ofHistory_append_singleton]
    split
    · next hkey =>
      subst hkey
      rw [after_of_refused (refusal?_of_isReserved _ h), ih]
    · exact ih

end AttributeRecord

namespace AttributeStore

/-- The store after a call, or why the call is refused. -/
def call (s : AttributeStore) : AttributeCall → Except Condition AttributeStore
  | .declare key p => s.declare key p
  | .write key v => s.write key v
  | .delete key => s.delete key

/-- The store after a call; one that is refused leaves it as it is. -/
def run (s : AttributeStore) (c : AttributeCall) : AttributeStore :=
  match s.call c with
  | .ok s' => s'
  | .error _ => s

/-- The store of a module after a history. -/
def runAll (module : String) (calls : List AttributeCall) : AttributeStore :=
  calls.foldl run (.new module .initial)

theorem runAll_append_singleton (module : String) (calls : List AttributeCall)
    (c : AttributeCall) : runAll module (calls ++ [c]) = (runAll module calls).run c := by
  simp [runAll]

/-- A store with a table answers as its table does. -/
theorem call_live (module : String) (t : AttributeTable) (c : AttributeCall) :
    call ⟨module, some t⟩ c = (t.call c).map fun t' => ⟨module, some t'⟩ := by
  cases c <;> rfl

theorem represents_new (key : String) :
    (AttributeTable.ofPolicies .initial).Represents key (.initial key) :=
  ⟨congrArg (·.accumulates key) (AttributeTable.policies_ofCells ..),
    congrArg (·.persists key) (AttributeTable.policies_ofCells ..),
    AttributeTable.fills_controlCells _ (fun _ => rfl) .absent⟩

open AttributeRecord (ofHistory)

/-- **What a history leaves.**  The store has a table, which knows of every key what its
record says. -/
theorem runAll_eq (module : String) (calls : List AttributeCall) :
    ∃ t, runAll module calls = ⟨module, some t⟩ ∧
      ∀ key, t.Represents key (ofHistory key calls) := by
  induction calls using List.reverseRecOn with
  | nil => exact ⟨_, rfl, represents_new⟩
  | append_singleton calls c ih =>
    obtain ⟨t, hrun, hrep⟩ := ih
    rw [runAll_append_singleton, hrun, run, call_live]
    simp only [AttributeRecord.ofHistory_append_singleton]
    rcases AttributeTable.represents_call (hrep c.key) with ⟨e, herror, hrefusal⟩ | ⟨t', hok, -, ht'⟩
    · refine ⟨t, by rw [herror]; rfl, fun key => ?_⟩
      split
      · next hkey =>
        subst hkey
        rw [AttributeRecord.after_of_refused hrefusal]
        exact hrep _
      · exact hrep key
    · refine ⟨t', by rw [hok]; rfl, fun key => ?_⟩
      split
      · next hkey =>
        subst hkey
        exact ht'
      · next hne => exact AttributeTable.represents_call_of_ne (hrep key) hne hok

/-- What a store answers after a history, and what it leaves then. -/
theorem call_runAll (module : String) (calls : List AttributeCall) (c : AttributeCall) :
    (∃ e, (runAll module calls).call c = .error e ∧
        (ofHistory c.key calls).refusal? c = some e ∧
        runAll module (calls ++ [c]) = runAll module calls) ∨
      (runAll module calls).call c = .ok (runAll module (calls ++ [c])) ∧
        (ofHistory c.key calls).refusal? c = none := by
  obtain ⟨t, hrun, hrep⟩ := runAll_eq module calls
  rw [runAll_append_singleton, hrun, run, call_live]
  rcases AttributeTable.represents_call (hrep c.key) with ⟨e, herror, hrefusal⟩ | ⟨t', hok, hnone, -⟩
  · exact Or.inl ⟨e, by rw [herror]; rfl, hrefusal, by rw [herror]; rfl⟩
  · exact Or.inr ⟨by rw [hok]; rfl, hnone⟩

/-- Whether the writes to a key accumulate changes only by a declaration of the key, and
while it has no values. -/
theorem accumulates_runAll_ne {module : String} {calls : List AttributeCall} {c : AttributeCall}
    {t t' : AttributeTable} (hrun : runAll module calls = ⟨module, some t⟩)
    (hrun' : runAll module (calls ++ [c]) = ⟨module, some t'⟩) {key : String}
    (hne : t'.policies.accumulates key ≠ t.policies.accumulates key) :
    (ofHistory key calls).written = [] ∧ ∃ p, c = .declare key p := by
  obtain ⟨u, hu, hrep⟩ := runAll_eq module calls
  obtain ⟨u', hu', hrep'⟩ := runAll_eq module (calls ++ [c])
  cases hrun.symm.trans hu
  cases hrun'.symm.trans hu'
  rw [(hrep' key).accumulates, (hrep key).accumulates,
    AttributeRecord.ofHistory_append_singleton] at hne
  split at hne
  · next hkey =>
    subst hkey
    exact AttributeRecord.after_accumulate hne
  · exact absurd rfl hne

/-- The policies change only by a declaration that is accepted. -/
theorem policies_runAll {module : String} {calls : List AttributeCall} {c : AttributeCall}
    {t t' : AttributeTable} (hrun : runAll module calls = ⟨module, some t⟩)
    (hrun' : runAll module (calls ++ [c]) = ⟨module, some t'⟩) :
    t'.policies = t.policies ∨
      ∃ key p, c = .declare key p ∧ (runAll module calls).call c = .ok ⟨module, some t'⟩ ∧
        t'.policies = t.policies.declare key p := by
  rcases call_runAll module calls c with ⟨e, -, -, hsame⟩ | ⟨hok, -⟩
  · rw [hrun', hrun] at hsame
    cases hsame
    exact Or.inl rfl
  · have htable : t.call c = .ok t' := by
      rw [hrun', hrun, call_live] at hok
      obtain ⟨u, hu, heq⟩ := map_eq_ok.mp hok
      cases heq
      exact hu
    rcases AttributeTable.policies_of_call htable with hsame | ⟨key, p, hc, hdeclared⟩
    · exact Or.inl hsame
    · exact Or.inr ⟨key, p, hc, hrun' ▸ hok, hdeclared⟩

/-- **The laws of an attribute store, after any history.**  What it shows of a key is what the
record of the key says: its policy, and the values written since it was last deleted.  A call
is refused exactly if the record says so, and then changes nothing.  Whether writes accumulate
changes only while there are no values, whether values persist may change at any time.  What
the control cells list changes by nothing but a declaration that is accepted, and the keys of
the compiler's own show nothing. -/
theorem attribute_history_laws (module : String) (calls : List AttributeCall) :
    ∃ t, (runAll module calls).live = .ok t ∧
      (∀ key, t.Shows key (ofHistory key calls)) ∧
      (∀ c, (∃ e, (runAll module calls).call c = .error e ∧
            (ofHistory c.key calls).refusal? c = some e ∧
            runAll module (calls ++ [c]) = runAll module calls) ∨
          (runAll module calls).call c = .ok (runAll module (calls ++ [c])) ∧
            (ofHistory c.key calls).refusal? c = none) ∧
      (∀ c t', (runAll module (calls ++ [c])).live = .ok t' →
        ∀ key, t'.policies.accumulates key ≠ t.policies.accumulates key →
          (ofHistory key calls).written = [] ∧ ∃ p, c = .declare key p) ∧
      (∀ key persist, AttributeTable.isReserved key = false →
        ∃ s, (runAll module calls).declare key ⟨t.policies.accumulates key, persist⟩ = .ok s) ∧
      (∀ c t', (runAll module (calls ++ [c])).live = .ok t' → t'.policies = t.policies ∨
        ∃ key p s, c = .declare key p ∧ (runAll module calls).call c = .ok s ∧
          t'.policies = t.policies.declare key p) ∧
      (∀ key, AttributeTable.isReserved key = true →
        t.read key = .undefined ∧ t.readAll key = [] ∧ t.has key = false) ∧
      ∀ e ∈ t.entries, AttributeTable.isReserved e.1 = false := by
  obtain ⟨t, hrun, hrep⟩ := runAll_eq module calls
  have hlive {c : AttributeCall} {t' : AttributeTable}
      (h : (runAll module (calls ++ [c])).live = .ok t') :
      runAll module (calls ++ [c]) = ⟨module, some t'⟩ := by
    obtain ⟨u, hu, -⟩ := runAll_eq module (calls ++ [c])
    rw [hu] at h ⊢
    cases h
    rfl
  refine ⟨t, by rw [hrun]; rfl, fun key => (hrep key).shows, call_runAll module calls, ?_, ?_, ?_,
    ?_, ?_⟩
  · intro c t' h key hne
    exact accumulates_runAll_ne hrun (hlive h) hne
  · intro key persist hkey
    have hnone : (ofHistory key calls).refusal?
        (.declare key ⟨t.policies.accumulates key, persist⟩) = none :=
      AttributeRecord.refusal?_declare_eq_none_iff.mpr ⟨hkey, Or.inr (hrep key).accumulates.symm⟩
    rcases call_runAll module calls (.declare key ⟨t.policies.accumulates key, persist⟩) with
      ⟨e, -, hsome, -⟩ | ⟨hok, -⟩
    · exact absurd (hnone.symm.trans hsome) nofun
    · exact ⟨_, hok⟩
  · intro c t' h
    rcases policies_runAll hrun (hlive h) with hsame | ⟨key, p, hc, hok, hdeclared⟩
    · exact Or.inl hsame
    · exact Or.inr ⟨key, p, _, hc, hok, hdeclared⟩
  · intro key hkey
    have hshows := (hrep key).shows
    rw [AttributeRecord.ofHistory_of_isReserved hkey] at hshows
    exact ⟨hshows.read, hshows.readAll, hshows.has⟩
  · intro e he
    by_contra hkey
    rw [Bool.not_eq_false] at hkey
    obtain ⟨⟨key, cell⟩, hcell, hshown⟩ := List.mem_filterMap.mp he
    obtain ⟨v, hv, rfl⟩ := Option.map_eq_some_iff.mp hshown
    have hnone := hrep key
    rw [AttributeRecord.ofHistory_of_isReserved hkey] at hnone
    rw [hnone.shown?_eq_none (OrderedMap.mem_entries_iff.mp hcell)] at hv
    cases hv

/-- A key with a value cannot be declared to accumulate, but can once it is deleted; the
control key that then lists it still shows nothing. -/
theorem attribute_history_laws_redeclared :
    (runAll "M" [.write "vsn" (.text "1"), .write "vsn" (.text "2")]).call
        (.declare "vsn" ⟨true, false⟩) = .error (.policyChanged "vsn" true) ∧
      ∃ t, (runAll "M" [.write "vsn" (.text "1"), .declare "vsn" ⟨true, false⟩, .delete "vsn",
          .declare "vsn" ⟨true, false⟩, .write "vsn" .null]).live = .ok t ∧
        t.read "vsn" = .list [.null] ∧ t.policies.accumulates "vsn" = true ∧
        t.policies.persists "vsn" = false ∧
        t.read AttributeTable.accumulateKey = .undefined := by
  constructor
  · obtain ⟨t, -, -, hcall, -⟩ :=
      attribute_history_laws "M" [.write "vsn" (.text "1"), .write "vsn" (.text "2")]
    rcases hcall (.declare "vsn" ⟨true, false⟩) with ⟨e, herror, hrefusal, -⟩ | ⟨-, hnone⟩
    · cases hrefusal
      exact herror
    · cases hnone
  · obtain ⟨t, hlive, hshows, -, -, -, -, hreserved, -⟩ := attribute_history_laws "M"
      [.write "vsn" (.text "1"), .declare "vsn" ⟨true, false⟩, .delete "vsn",
        .declare "vsn" ⟨true, false⟩, .write "vsn" .null]
    have hvsn := hshows "vsn"
    exact ⟨t, hlive, hvsn.read, hvsn.accumulates, hvsn.persists, (hreserved _ (by decide)).1⟩

end AttributeStore
end ModuleBuild
