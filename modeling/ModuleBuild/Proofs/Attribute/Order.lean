import ModuleBuild.Attribute.Section
import ModuleBuild.Proofs.Attribute.History

/-! # The order of the keys

The users' keys of an attribute table stand in the order in which their cells were made.  A
write makes the cell of a key that has none, and so does a declaration that its writes
accumulate; a declaration that they do not takes an empty cell away.  `AttributeLedger` says so
of a history without mentioning cells: besides the records of the keys it has their places.

Hence the order is that of the first writes as long as no key is declared to accumulate before
it is written (`places_eq_firstWrites`).  A key that is declared so early keeps the place of its
declaration.
-/
namespace ModuleBuild

/-- The keys with one more at the end, unless it is among them. -/
def addPlace (places : List String) (key : String) : List String :=
  if key ∈ places then places else places ++ [key]

theorem mem_addPlace {places : List String} {key k : String} :
    k ∈ addPlace places key ↔ k ∈ places ∨ k = key := by
  unfold addPlace
  split
  · next h => exact ⟨Or.inl, fun hk => hk.elim id (· ▸ h)⟩
  · simp

/-- The policy that a call declares for a key. -/
def AttributeCall.policyFor? (key : String) : AttributeCall → Option AttributePolicy
  | declare k p => if k = key then some p else none
  | _ => none

/-- The users' key that a call writes. -/
def AttributeCall.writtenKey? : AttributeCall → Option String
  | write key _ => if AttributeTable.isReserved key then none else some key
  | _ => none

/-- The keys that a history writes, in the order of their first writes. -/
def firstWrites (calls : List AttributeCall) : List String :=
  (calls.filterMap AttributeCall.writtenKey?).eraseDups

/-- A call that deletes nothing. -/
def AttributeCall.Keeping (c : AttributeCall) : Prop := ∀ key, c ≠ .delete key

namespace AttributeRecord

/-- The places of the keys after a call on the key of this record.  A write and a declaration
that writes accumulate give the key a place; a declaration that they do not takes it from a
key without values. -/
def placesAfter (r : AttributeRecord) (places : List String) (call : AttributeCall) :
    List String :=
  match r.refusal? call, call with
  | some _, _ => places
  | none, .write key _ => addPlace places key
  | none, .declare key p =>
    if p.accumulate then addPlace places key
    else if r.written.isEmpty then places.filter (· ≠ key) else places
  | none, .delete key => if r.policy.accumulate then places else places.filter (· ≠ key)

/-- The values that a key leaves in an artifact: none unless they persist, and those of the
resources sorted and each once. -/
def kept (r : AttributeRecord) (key : String) : List Value :=
  if r.policy.persist then
    if key = AttributeTable.resourceKey then
      (Text.sort (r.readAll.filterMap Value.asText?).eraseDups).map .text
    else r.readAll
  else []

variable {r : AttributeRecord} {c : AttributeCall} {key : String}

theorem placesAfter_of_refused {e : Condition} (h : r.refusal? c = some e)
    (places : List String) : r.placesAfter places c = places := by
  simp only [placesAfter, h]

/-- A call moves no key but its own. -/
theorem mem_placesAfter_of_ne (hne : c.key ≠ key) (places : List String) :
    key ∈ r.placesAfter places c ↔ key ∈ places := by
  have hadd : key ∈ addPlace places c.key ↔ key ∈ places := by
    simp [mem_addPlace, Ne.symm hne]
  have hdrop : key ∈ places.filter (· ≠ c.key) ↔ key ∈ places := by
    simp [Ne.symm hne]
  unfold placesAfter
  cases r.refusal? c with
  | some e => rfl
  | none =>
    cases c with
    | write k v => exact hadd
    | declare k p =>
      dsimp only
      split
      · exact hadd
      · split
        · exact hdrop
        · rfl
    | delete k =>
      dsimp only
      split
      · rfl
      · exact hdrop

theorem refusal?_write_eq_none {v : Value} (hkey : AttributeTable.isReserved key = false) :
    r.refusal? (.write key v) = none :=
  if_neg (Bool.eq_false_iff.mp hkey)

/-- Unless values are deleted, a key has some once it is written. -/
theorem written_after_ne_nil_iff (hkeeping : c.Keeping) :
    (r.after c).written ≠ [] ↔ r.written ≠ [] ∨ c.writtenKey? = some c.key := by
  by_cases hreserved : AttributeTable.isReserved c.key = true
  · rw [after_of_refused (r.refusal?_of_isReserved hreserved)]
    cases c with
    | write k v =>
      have hk : AttributeTable.isReserved k = true := hreserved
      simp [AttributeCall.writtenKey?, hk]
    | declare | delete => simp [AttributeCall.writtenKey?]
  · rw [Bool.not_eq_true] at hreserved
    cases c with
    | write k v =>
      have hk : AttributeTable.isReserved k = false := hreserved
      simp [after, refusal?_write_eq_none hk, AttributeCall.writtenKey?, AttributeCall.key, hk]
    | declare k p =>
      cases hrefusal : r.refusal? (.declare k p) <;>
        simp [after, hrefusal, AttributeCall.writtenKey?]
    | delete k => exact absurd rfl (hkeeping k)

end AttributeRecord

/-- What a history says of the attributes of a module: the record of every key, and the keys
that have a place, in order. -/
structure AttributeLedger where
  record : String → AttributeRecord
  places : List String

namespace AttributeLedger

/-- The ledger of a module that starts with these policies. -/
def initial (policies : PolicyTable) : AttributeLedger where
  record key := ⟨⟨policies.accumulates key, policies.persists key⟩, []⟩
  places := []

/-- The ledger after a call. -/
def after (l : AttributeLedger) (c : AttributeCall) : AttributeLedger where
  record key := if c.key = key then (l.record key).after c else l.record key
  places := (l.record c.key).placesAfter l.places c

/-- The ledger after a history. -/
def ofHistory (policies : PolicyTable) (calls : List AttributeCall) : AttributeLedger :=
  calls.foldl after (initial policies)

variable {l : AttributeLedger} {c : AttributeCall} {policies : PolicyTable}
  {calls : List AttributeCall} {key : String}

theorem ofHistory_append_singleton (policies : PolicyTable) (calls : List AttributeCall)
    (c : AttributeCall) :
    ofHistory policies (calls ++ [c]) = (ofHistory policies calls).after c := by
  simp [ofHistory]

theorem after_of_refused {e : Condition} (h : (l.record c.key).refusal? c = some e) :
    l.after c = l := by
  have hrecord : (l.after c).record = l.record := by
    funext key
    by_cases hkey : c.key = key
    · subst hkey
      exact (if_pos rfl).trans (AttributeRecord.after_of_refused h)
    · exact if_neg hkey
  have hplaces : (l.after c).places = l.places := AttributeRecord.placesAfter_of_refused h _
  generalize l.after c = l' at *
  cases l'
  cases hrecord
  cases hplaces
  rfl

/-! ## Histories without deletions -/

theorem writtenKey?_of_ne (hne : c.key ≠ key) : c.writtenKey? ≠ some key := by
  cases c with
  | write k v =>
    intro h
    obtain ⟨-, hk⟩ := Option.ite_none_left_eq_some.mp h
    exact hne (Option.some.inj hk)
  | declare | delete => nofun

/-- Without deletions the keys with values are those that were written. -/
theorem mem_firstWrites_iff (hkeeping : ∀ c ∈ calls, c.Keeping) :
    key ∈ firstWrites calls ↔ ((ofHistory policies calls).record key).written ≠ [] := by
  rw [firstWrites, List.mem_eraseDups]
  induction calls using List.reverseRecOn with
  | nil => simp [ofHistory, initial]
  | append_singleton calls c ih =>
    rw [List.forall_mem_append, List.forall_mem_singleton] at hkeeping
    rw [ofHistory_append_singleton, List.filterMap_append, List.mem_append, ih hkeeping.1]
    generalize ofHistory policies calls = l
    have hlast : key ∈ [c].filterMap AttributeCall.writtenKey? ↔ c.writtenKey? = some key := by
      simp
    rw [hlast]
    by_cases hkey : c.key = key
    · subst hkey
      simp only [after, if_true]
      exact (AttributeRecord.written_after_ne_nil_iff hkeeping.2).symm
    · simp only [after, if_neg hkey, writtenKey?_of_ne hkey, or_false]

/-- A key without values has a place exactly if its writes were last declared to accumulate. -/
theorem mem_places_iff (hkeeping : ∀ c ∈ calls, c.Keeping)
    (hkey : AttributeTable.isReserved key = false) :
    key ∈ (ofHistory policies calls).places ↔
      ((ofHistory policies calls).record key).written ≠ [] ∨
        ∃ p, (calls.filterMap (AttributeCall.policyFor? key)).getLast? = some p ∧
          p.accumulate = true := by
  induction calls using List.reverseRecOn with
  | nil => simp [ofHistory, initial]
  | append_singleton calls c ih =>
    rw [List.forall_mem_append, List.forall_mem_singleton] at hkeeping
    specialize ih hkeeping.1
    rw [ofHistory_append_singleton]
    generalize ofHistory policies calls = l at ih
    have hlast : (calls ++ [c]).filterMap (AttributeCall.policyFor? key)
        = calls.filterMap (AttributeCall.policyFor? key)
          ++ (AttributeCall.policyFor? key c).toList := by
      cases hp : AttributeCall.policyFor? key c <;> simp [hp]
    rw [hlast]
    by_cases hc : c.key = key
    · subst hc
      simp only [after, if_true]
      cases c with
      | write k v =>
        have hnone : (l.record k).refusal? (.write k v) = none :=
          AttributeRecord.refusal?_write_eq_none hkey
        simp [AttributeRecord.placesAfter, AttributeRecord.after, AttributeCall.key, hnone,
          mem_addPlace]
      | declare k p =>
        have hpolicy : AttributeCall.policyFor? k (.declare k p) = some p := if_pos rfl
        simp only [AttributeCall.key] at ih hkey ⊢
        simp only [hpolicy, Option.toList_some, List.getLast?_concat, Option.some.injEq,
          exists_eq_left']
        cases hrefusal : (l.record k).refusal? (.declare k p) with
        | some e =>
          have hwritten : (l.record k).written ≠ [] := by
            intro hnil
            rw [AttributeRecord.refusal?_declare_eq_none_iff.mpr ⟨hkey, Or.inl (by simp [hnil])⟩]
              at hrefusal
            cases hrefusal
          rw [AttributeRecord.placesAfter_of_refused hrefusal,
            AttributeRecord.after_of_refused hrefusal]
          exact iff_of_true (ih.mpr (Or.inl hwritten)) (Or.inl hwritten)
        | none =>
          simp only [AttributeRecord.placesAfter, AttributeRecord.after, hrefusal]
          cases p.accumulate with
          | true => simp [mem_addPlace]
          | false =>
            by_cases hwritten : (l.record k).written = []
            · simp [hwritten]
            · simpa [hwritten] using ih.mpr (Or.inl hwritten)
      | delete k => exact absurd rfl (hkeeping.2 k)
    · have hnone : AttributeCall.policyFor? key c = none := by
        cases c with
        | declare k p => exact if_neg hc
        | write | delete => rfl
      simp only [after, if_neg hc, hnone, Option.toList_none, List.append_nil]
      rw [AttributeRecord.mem_placesAfter_of_ne hc, ih]

/-- A key is declared to accumulate before it is written. -/
def Early (calls : List AttributeCall) : Prop :=
  ∃ made key p rest, calls = made ++ .declare key p :: rest ∧ p.accumulate = true ∧
    AttributeTable.isReserved key = false ∧ key ∉ firstWrites made

theorem Early.append {made : List AttributeCall} (h : Early made)
    (more : List AttributeCall) : Early (made ++ more) := by
  obtain ⟨before, key, p, rest, rfl, hp⟩ := h
  exact ⟨before, key, p, rest ++ more, by simp, hp⟩

theorem firstWrites_append_of_none (h : c.writtenKey? = none) :
    firstWrites (calls ++ [c]) = firstWrites calls := by
  simp [firstWrites, h]

theorem firstWrites_append_of_some (h : c.writtenKey? = some key) :
    firstWrites (calls ++ [c]) = addPlace (firstWrites calls) key := by
  have hmem : key ∈ firstWrites calls ↔ key ∈ calls.filterMap AttributeCall.writtenKey? :=
    List.mem_eraseDups
  have hlast : [c].filterMap AttributeCall.writtenKey? = [key] := by simp [h]
  rw [addPlace, firstWrites, List.filterMap_append, hlast, List.eraseDups_append, List.removeAll]
  unfold firstWrites at hmem ⊢
  generalize calls.filterMap AttributeCall.writtenKey? = written at hmem ⊢
  split
  · next hkey => simp [hmem.mp hkey]
  · next hkey => simp [mt hmem.mpr hkey, List.eraseDups_cons]

/-- **First-write order.**  Unless a key is declared to accumulate before it is written, the
keys have their places in the order of their first writes. -/
theorem places_eq_firstWrites (hkeeping : ∀ c ∈ calls, c.Keeping) (hearly : ¬Early calls) :
    (ofHistory policies calls).places = firstWrites calls := by
  induction calls using List.reverseRecOn with
  | nil => rfl
  | append_singleton calls c ih =>
    have hbefore : ∀ c ∈ calls, c.Keeping := fun c hc =>
      hkeeping c (List.mem_append_left _ hc)
    specialize ih hbefore (mt (·.append [c]) hearly)
    have hwritten (key : String) : key ∈ firstWrites calls ↔
        ((ofHistory policies calls).record key).written ≠ [] := mem_firstWrites_iff hbefore
    rw [ofHistory_append_singleton]
    generalize ofHistory policies calls = l at ih hwritten
    cases c with
    | delete k => exact absurd rfl (hkeeping (.delete k) (by simp) k)
    | write k v =>
      by_cases hreserved : AttributeTable.isReserved k = true
      · have hno : AttributeCall.writtenKey? (.write k v) = none := if_pos hreserved
        have hrefusal : (l.record k).refusal? (.write k v) = some (.keyReserved k) :=
          if_pos hreserved
        rw [after_of_refused hrefusal, firstWrites_append_of_none hno, ih]
      · have hk : AttributeCall.writtenKey? (.write k v) = some k := if_neg hreserved
        rw [firstWrites_append_of_some hk, ← ih]
        have hnone : (l.record k).refusal? (.write k v) = none := if_neg hreserved
        simp only [after, AttributeCall.key, AttributeRecord.placesAfter, hnone]
    | declare k p =>
      rw [firstWrites_append_of_none rfl]
      cases hrefusal : (l.record k).refusal? (.declare k p) with
      | some e => rw [after_of_refused hrefusal, ih]
      | none =>
        have hreserved := (AttributeRecord.refusal?_declare_eq_none_iff.mp hrefusal).1
        simp only [after, AttributeCall.key, AttributeRecord.placesAfter, hrefusal, ih]
        split
        · next haccumulate =>
          have hk : k ∈ firstWrites calls := by
            by_contra hk
            exact hearly ⟨calls, k, p, [], rfl, haccumulate, hreserved, hk⟩
          rw [addPlace, if_pos hk]
        · split
          · next hempty =>
            have hk : k ∉ firstWrites calls := by
              rw [hwritten, not_not]
              exact List.isEmpty_iff.mp hempty
            exact List.filter_eq_self.mpr fun k' hk' =>
              decide_eq_true (ne_of_mem_of_not_mem hk' hk)
          · rfl

end AttributeLedger

namespace AttributeTable

/-- The users' keys that have a cell, in order. -/
def userKeys (t : AttributeTable) : List String := t.cells.keys.filter (!isReserved ·)

/-- The control cells are those of the compiler's own keys. -/
def ControlReserved (cells : OrderedMap String AttributeCell) : Prop :=
  ∀ key cell, cells.get? key = some cell →
    (isReserved key = true ↔ ∃ keys, cell = .control keys)

/-- The users' keys stand in these places, and the control cells are those of the compiler's
own keys. -/
structure Placed (t : AttributeTable) (places : List String) : Prop where
  userKeys : t.userKeys = places
  control : ControlReserved t.cells

/-- The table keeps what the ledger says. -/
structure Keeps (t : AttributeTable) (l : AttributeLedger) : Prop where
  represents : ∀ key, t.Represents key (l.record key)
  placed : t.Placed l.places

variable {t t' : AttributeTable} {l : AttributeLedger} {c : AttributeCall} {key : String}
  {places : List String}

theorem control_controlCells {cells : OrderedMap String AttributeCell} (policies : PolicyTable)
    (h : ControlReserved cells) : ControlReserved (controlCells cells policies) := by
  intro k cell hget
  by_cases haccumulate : k = accumulateKey
  · subst haccumulate
    rw [get?_controlCells_accumulateKey] at hget
    exact iff_of_true (by decide) ⟨_, (Option.some.inj hget).symm⟩
  by_cases hpersist : k = persistKey
  · subst hpersist
    rw [get?_controlCells_persistKey] at hget
    exact iff_of_true (by decide) ⟨_, (Option.some.inj hget).symm⟩
  rw [get?_controlCells _ _ ⟨haccumulate, hpersist⟩] at hget
  exact h k cell hget

/-! ## One call -/

section Placed

variable (h : t.Placed places)

include h

theorem Placed.mem_iff (hkey : ¬isReserved key = true) :
    key ∈ places ↔ ∃ cell, t.cells.get? key = some cell := by
  rw [← h.userKeys, AttributeTable.userKeys, List.mem_filter, OrderedMap.mem_keys_iff]
  simp [hkey]

theorem Placed.ne_control (hkey : ¬isReserved key = true) (keys : List String) :
    t.cells.get? key ≠ some (.control keys) := fun hget =>
  hkey ((h.control _ _ hget).mpr ⟨keys, rfl⟩)

theorem Placed.addPlace_eq {cell : AttributeCell} (hkey : ¬isReserved key = true)
    (hget : t.cells.get? key = some cell) : addPlace places key = places :=
  if_pos ((h.mem_iff hkey).mpr ⟨cell, hget⟩)

theorem Placed.filter_eq (hkey : ¬isReserved key = true) (hget : t.cells.get? key = none) :
    places.filter (· ≠ key) = places := by
  have hnot : key ∉ places := by
    rw [h.mem_iff hkey, hget]
    rintro ⟨_, ⟨⟩⟩
  exact List.filter_eq_self.mpr fun k hk => decide_eq_true (ne_of_mem_of_not_mem hk hnot)

theorem Placed.setCell_some {cell : AttributeCell} (hkey : ¬isReserved key = true)
    (hcell : ∀ keys, cell ≠ .control keys) :
    (t.setCell key (some cell) hkey).Placed (addPlace places key) := by
  constructor
  · have hmem : key ∈ t.cells.keys ↔ key ∈ places := by
      rw [OrderedMap.mem_keys_iff, h.mem_iff hkey]
    have hkeys : (t.setCell key (some cell) hkey).cells.keys
        = addPlace t.cells.keys key := OrderedMap.keys_insert ..
    rw [AttributeTable.userKeys, hkeys]
    unfold addPlace
    rw [← h.userKeys] at hmem ⊢
    by_cases hin : key ∈ t.cells.keys
    · rw [if_pos hin, if_pos (hmem.mp hin)]
      rfl
    · rw [if_neg hin, if_neg (mt hmem.mpr hin)]
      simp [AttributeTable.userKeys, hkey]
  · intro k cell' hget
    rw [get?_setCell] at hget
    split at hget
    · next hk =>
      subst hk
      obtain rfl := Option.some.inj hget
      exact iff_of_false hkey (not_exists.mpr hcell)
    · exact h.control k cell' hget

theorem Placed.setCell_none (hkey : ¬isReserved key = true) :
    (t.setCell key none hkey).Placed (places.filter (· ≠ key)) := by
  constructor
  · have hkeys : (t.setCell key none hkey).cells.keys = t.cells.keys.filter (· ≠ key) :=
      OrderedMap.keys_erase ..
    rw [AttributeTable.userKeys, hkeys, ← h.userKeys, AttributeTable.userKeys,
      List.filter_filter, List.filter_filter]
    simp only [Bool.and_comm]
  · intro k cell hget
    rw [get?_setCell] at hget
    split at hget
    · cases hget
    · exact h.control k cell hget

/-- The control cells have their places from the start. -/
theorem Placed.ofCells (policies : PolicyTable) : (ofCells t.cells policies).Placed places := by
  obtain ⟨accumulating, haccumulating⟩ := t.controls.accumulating
  obtain ⟨persisted, hpersisted⟩ := t.controls.persisted
  refine ⟨?_, control_controlCells policies h.control⟩
  have hkeys : (controlCells t.cells policies).keys = t.cells.keys := by
    have haccumulate := OrderedMap.mem_keys_iff.mpr ⟨_, haccumulating⟩
    have hpersist := OrderedMap.mem_keys_iff.mpr ⟨_, hpersisted⟩
    rw [controlCells, OrderedMap.keys_insert, OrderedMap.keys_insert, if_pos haccumulate,
      if_pos hpersist]
  rw [AttributeTable.userKeys, AttributeTable.ofCells, hkeys, ← h.userKeys,
    AttributeTable.userKeys]

end Placed

section Calls

variable {r : AttributeRecord} (h : t.Placed places) (hkey : ¬isReserved key = true)

include h hkey

theorem placed_write {v : Value} (hcall : t.write key v = .ok t') :
    t'.Placed (addPlace places key) := by
  obtain rfl := Except.ok.inj ((dif_neg hkey).symm.trans hcall)
  refine h.setCell_some hkey fun keys => ?_
  split <;> simp

theorem placed_delete (hrep : t.Represents key r) (hcall : t.delete key = .ok t') :
    t'.Placed (if r.policy.accumulate then places else places.filter (· ≠ key)) := by
  obtain rfl := Except.ok.inj ((dif_neg hkey).symm.trans hcall)
  have hcell := hrep.cell
  have hnocontrol := h.ne_control hkey
  generalize hget : t.cells.get? key = cell at hcell hnocontrol ⊢
  cases hcell with
  | absent =>
    have hdrop := h.setCell_none hkey
    rw [h.filter_eq hkey hget] at hdrop ⊢
    simpa using hdrop
  | control => exact absurd rfl (hnocontrol _)
  | single => exact h.setCell_none hkey
  | accumulated =>
    have hkept : (t.setCell key (some (.accumulated [])) hkey).Placed _ :=
      h.setCell_some hkey (by simp)
    rwa [h.addPlace_eq hkey hget] at hkept

theorem placed_declare {p : AttributePolicy} (hrep : t.Represents key r)
    (hrefusal : r.refusal? (.declare key p) = none) (hcall : t.declare key p = .ok t') :
    t'.Placed (if p.accumulate then addPlace places key
      else if r.written.isEmpty then places.filter (· ≠ key) else places) := by
  have hok := (dif_neg hkey).symm.trans hcall
  split at hok
  · cases hok
  have hdeclared := h.ofCells (t.policies.declare key p)
  obtain rfl := Except.ok.inj hok
  have hcell := hrep.cell
  have hnocontrol := h.ne_control hkey
  generalize hget : t.cells.get? key = cell at hcell hnocontrol ⊢
  cases hp : p.accumulate with
  | true =>
    cases hcell with
    | control => exact absurd rfl (hnocontrol _)
    | absent | single => exact hdeclared.setCell_some hkey (by simp)
    | accumulated =>
      rw [if_pos rfl, h.addPlace_eq hkey hget]
      exact hdeclared
  | false =>
    rw [if_neg Bool.false_ne_true]
    cases hcell with
    | control => exact absurd rfl (hnocontrol _)
    | absent =>
      simp only [List.isEmpty_nil, if_true]
      rw [h.filter_eq hkey hget]
      exact hdeclared
    | single =>
      rw [if_neg (by simp)]
      exact hdeclared
    | @accumulated persist vs =>
      -- the writes no longer accumulate, so there were no values
      obtain rfl : vs = [] := by
        simpa [hp] using (AttributeRecord.refusal?_declare_eq_none_iff.mp hrefusal).2
      exact hdeclared.setCell_none hkey

end Calls

/-- **One call, for the places.** -/
theorem placed_call (h : t.Keeps l) (hcall : t.call c = .ok t') :
    t'.Placed ((l.record c.key).placesAfter l.places c) := by
  have hrecord := h.represents c.key
  have hrefusal : (l.record c.key).refusal? c = none := by
    rcases represents_call hrecord with ⟨e, herror, -⟩ | ⟨-, -, hnone, -⟩
    · cases hcall.symm.trans herror
    · exact hnone
  obtain ⟨hkey, -⟩ := call_eq_ok hcall
  simp only [AttributeRecord.placesAfter, hrefusal]
  cases c with
  | write key v => exact placed_write h.placed hkey hcall
  | delete key => exact placed_delete h.placed hkey hrecord hcall
  | declare key p => exact placed_declare h.placed hkey hrecord hrefusal hcall

/-- **One step.**  The table goes on keeping what the ledger says. -/
theorem keeps_call (h : t.Keeps l) (hcall : t.call c = .ok t') : t'.Keeps (l.after c) := by
  refine ⟨fun key => ?_, placed_call h hcall⟩
  by_cases hkey : c.key = key
  · subst hkey
    have hsame : (l.after c).record c.key = (l.record c.key).after c := if_pos rfl
    rw [hsame]
    rcases represents_call (h.represents c.key) with ⟨e, herror, -⟩ | ⟨u, hu, -, hrep⟩
    · exact absurd (hcall.symm.trans herror) nofun
    · obtain rfl := Except.ok.inj (hcall.symm.trans hu)
      exact hrep
  · have hother : (l.after c).record key = l.record key := if_neg hkey
    rw [hother]
    exact represents_call_of_ne (h.represents key) hkey hcall

theorem keeps_ofPolicies (policies : PolicyTable) :
    (ofPolicies policies).Keeps (.initial policies) := by
  constructor
  · intro key
    exact ⟨congrArg (·.accumulates key) (policies_ofCells ..),
      congrArg (·.persists key) (policies_ofCells ..),
      fills_controlCells _ (fun _ => rfl) .absent⟩
  · refine ⟨?_, control_controlCells policies nofun⟩
    have hkeys : (controlCells .empty policies).keys = [accumulateKey, persistKey] := by
      have hempty : (OrderedMap.empty : OrderedMap String AttributeCell).keys = [] := rfl
      have hne : persistKey ∉ [accumulateKey] := by decide
      rw [controlCells, OrderedMap.keys_insert, OrderedMap.keys_insert, hempty,
        if_neg List.not_mem_nil, List.nil_append, if_neg hne]
      rfl
    rw [userKeys, ofPolicies, AttributeTable.ofCells, hkeys]
    exact (by decide : [accumulateKey, persistKey].filter (!isReserved ·) = [])

/-! ## What is shown -/

theorem Keeps.shown?_eq {cell : AttributeCell} (h : t.Keeps l)
    (hget : t.cells.get? key = some cell) :
    cell.shown? = if isReserved key then none else some (l.record key).read := by
  have hcell := (h.represents key).cell
  have hcontrol := h.placed.control key cell hget
  rw [hget] at hcell
  generalize l.record key = r at hcell
  cases hcell with
  | control => rw [if_pos (hcontrol.mpr ⟨_, rfl⟩), AttributeCell.shown?]
  | single =>
    rw [if_neg fun hkey => nomatch hcontrol.mp hkey]
    simp [AttributeCell.shown?, AttributeRecord.read]
  | accumulated =>
    rw [if_neg fun hkey => nomatch hcontrol.mp hkey]
    rfl

/-- The users see the keys in their places, each with what it reads as. -/
theorem Keeps.entries_eq (h : t.Keeps l) :
    t.entries = l.places.map fun key => (key, (l.record key).read) := by
  have hsome (es : List (String × AttributeCell)) (hes : ∀ e ∈ es, t.cells.get? e.1 = some e.2) :
      es.filterMap (fun e => e.2.shown?.map fun v => (e.1, v))
        = ((es.map Prod.fst).filter (!isReserved ·)).map fun key => (key, (l.record key).read) := by
    induction es with
    | nil => rfl
    | cons e rest ih =>
      rw [List.forall_mem_cons] at hes
      simp only [List.filterMap_cons, h.shown?_eq hes.1, ih hes.2, List.map_cons, List.filter_cons]
      cases isReserved e.1 <;> rfl
  rw [← h.placed.userKeys]
  exact hsome _ fun e he => OrderedMap.mem_entries_iff.mp he

/-! ## What persists -/

theorem allTexts_eq_ok {vs : List Value} {names : List String} (h : allTexts vs = .ok names) :
    names = vs.filterMap Value.asText? := by
  induction vs generalizing names with
  | nil =>
    cases h
    rfl
  | cons v rest ih =>
    cases v with
    | text s =>
      obtain ⟨more, hmore, rfl⟩ := map_eq_ok.mp h
      simp [Value.asText?, ih hmore]
    | _ => cases h

theorem exists_allTexts_iff {vs : List Value} :
    (∃ names, allTexts vs = .ok names) ↔ ∀ v ∈ vs, ∃ s, v = .text s := by
  induction vs with
  | nil => exact iff_of_true ⟨_, rfl⟩ nofun
  | cons v rest ih =>
    rw [List.forall_mem_cons, ← ih]
    cases v with
    | text s =>
      constructor
      · rintro ⟨names, h⟩
        obtain ⟨more, hmore, -⟩ := map_eq_ok.mp h
        exact ⟨⟨s, rfl⟩, more, hmore⟩
      · rintro ⟨-, more, hmore⟩
        exact ⟨_, map_eq_ok.mpr ⟨more, hmore, rfl⟩⟩
    | _ => exact iff_of_false (fun ⟨_, h⟩ => nomatch h) (fun h => nomatch h.1)

section Sections

variable {cell : AttributeCell} {location : Location} {sections : List AttributeSection}

/-- A list is shown for the values of a key exactly if writes to the key accumulate, so a list
that is a value itself is not taken apart. -/
theorem Represents.shownValues_eq {r : AttributeRecord} (h : t.Represents key r)
    (hget : t.cells.get? key = some cell) : t.shownValues key cell = r.readAll := by
  obtain ⟨haccumulates, -, hcell⟩ := h
  unfold shownValues AttributeRecord.readAll
  rw [haccumulates]
  rw [hget] at hcell
  cases hcell with
  | @control policy => cases policy.accumulate <;> rfl
  | single => simp [AttributeCell.shown?]
  | accumulated => rfl

/-- The sections of a key are the values that it leaves. -/
theorem Keeps.sectionsOf_eq (h : t.Keeps l) (hget : t.cells.get? key = some cell)
    (hok : t.sectionsOf location key cell = .ok sections) :
    sections = ((l.record key).kept key).map (⟨key, ·⟩) := by
  have hvalues : t.shownValues key cell = t.readAll key :=
    ((h.represents key).shownValues_eq hget).trans (h.represents key).readAll.symm
  unfold sectionsOf at hok
  unfold AttributeRecord.kept
  rw [← (h.represents key).persists, ← (h.represents key).readAll]
  split at hok
  · next hpersist =>
    rw [if_pos hpersist]
    split at hok
    · next hkey =>
      subst hkey
      obtain ⟨names, hnames, hsections⟩ := bind_eq_ok.mp hok
      unfold resources at hnames
      split at hnames
      · next texts htexts =>
        cases hnames
        cases hsections
        rw [if_pos rfl, ← allTexts_eq_ok htexts, List.map_map]
        rfl
      · cases hnames
    · next hkey =>
      cases hok
      rw [if_neg hkey, hvalues]
  · next hpersist =>
    cases hok
    rw [if_neg hpersist]
    rfl

/-- Only a resource that is no text leaves a key without sections. -/
theorem Keeps.exists_sectionsOf_iff (h : t.Keeps l) (location : Location) (key : String)
    (cell : AttributeCell) : (∃ sections, t.sectionsOf location key cell = .ok sections) ↔
      (key = resourceKey → (l.record resourceKey).policy.persist = true →
        ∀ v ∈ (l.record resourceKey).readAll, ∃ s, v = .text s) := by
  have hrep := h.represents resourceKey
  rw [← hrep.persists, ← hrep.readAll, ← exists_allTexts_iff]
  unfold sectionsOf
  by_cases hkey : key = resourceKey
  · subst hkey
    by_cases hpersist : t.policies.persists resourceKey = true
    · rw [if_pos hpersist, if_pos rfl]
      unfold resources
      cases htexts : allTexts (t.readAll resourceKey) with
      | ok names => exact iff_of_true ⟨_, rfl⟩ fun _ _ => ⟨names, rfl⟩
      | error v =>
        refine iff_of_false (fun ⟨_, hok⟩ => ?_) fun himp => ?_
        · cases hok
        · obtain ⟨_, hok⟩ := himp rfl hpersist
          cases hok
    · rw [if_neg hpersist]
      exact iff_of_true ⟨_, rfl⟩ fun _ hp => absurd hp hpersist
  · rw [if_neg hkey]
    refine iff_of_true ?_ fun hk => absurd hk hkey
    split <;> exact ⟨_, rfl⟩

/-- The compiler's own keys leave nothing. -/
theorem Keeps.kept_eq_nil (h : t.Keeps l) (hget : t.cells.get? key = some cell)
    (hkey : isReserved key = true) : (l.record key).kept key = [] := by
  have hne : key ≠ resourceKey := by
    rintro rfl
    exact absurd hkey (by decide)
  obtain ⟨keys, rfl⟩ := (h.placed.control key cell hget).mp hkey
  have hvalues : t.readAll key = [] := by rw [readAll, hget]; rfl
  rw [AttributeRecord.kept, if_neg hne, ← (h.represents key).readAll, hvalues, ite_self]

/-- **The sections of a module** are those of its keys in their places. -/
theorem Keeps.sections_eq (h : t.Keeps l) (hok : t.sections location = .ok sections) :
    sections = l.places.flatMap fun key => ((l.record key).kept key).map (⟨key, ·⟩) := by
  have hall (es : List (String × AttributeCell)) (hes : ∀ e ∈ es, t.cells.get? e.1 = some e.2)
      {sections : List AttributeSection} (hok : t.sectionsFrom location es = .ok sections) :
      sections = ((es.map Prod.fst).filter (!isReserved ·)).flatMap fun key =>
        ((l.record key).kept key).map (⟨key, ·⟩) := by
    induction es generalizing sections with
    | nil =>
      cases hok
      rfl
    | cons e rest ih =>
      rw [List.forall_mem_cons] at hes
      obtain ⟨here, hhere, hrest⟩ := bind_eq_ok.mp hok
      obtain ⟨more, hmore, hsections⟩ := bind_eq_ok.mp hrest
      cases hsections
      rw [h.sectionsOf_eq hes.1 hhere, ih hes.2 hmore, List.map_cons, List.filter_cons]
      cases hkey : isReserved e.1 with
      | false => rfl
      | true =>
        rw [h.kept_eq_nil hes.1 hkey]
        rfl
  rw [← h.placed.userKeys]
  exact hall _ (fun e he => OrderedMap.mem_entries_iff.mp he) hok

/-- A module has sections unless a resource that persists is no text. -/
theorem Keeps.exists_sections_iff (h : t.Keeps l) (location : Location) :
    (∃ sections, t.sections location = .ok sections) ↔
      ((l.record resourceKey).policy.persist = true →
        ∀ v ∈ (l.record resourceKey).readAll, ∃ s, v = .text s) := by
  have hall (es : List (String × AttributeCell)) :
      (∃ sections, t.sectionsFrom location es = .ok sections) ↔
        ∀ e ∈ es, ∃ sections, t.sectionsOf location e.1 e.2 = .ok sections := by
    induction es with
    | nil => exact iff_of_true ⟨_, rfl⟩ nofun
    | cons e rest ih =>
      rw [List.forall_mem_cons, ← ih]
      constructor
      · rintro ⟨sections, hok⟩
        obtain ⟨here, hhere, hrest⟩ := bind_eq_ok.mp hok
        obtain ⟨more, hmore, -⟩ := bind_eq_ok.mp hrest
        exact ⟨⟨here, hhere⟩, more, hmore⟩
      · rintro ⟨⟨here, hhere⟩, more, hmore⟩
        exact ⟨here ++ more, bind_eq_ok.mpr ⟨here, hhere, bind_eq_ok.mpr ⟨more, hmore, rfl⟩⟩⟩
  rw [AttributeTable.sections, hall]
  simp only [h.exists_sectionsOf_iff]
  constructor
  · intro hentries
    cases hget : t.cells.get? resourceKey with
    | some cell => exact hentries _ (OrderedMap.mem_of_get? hget) rfl
    | none =>
      have hnil : t.readAll resourceKey = [] := by rw [readAll, hget]; rfl
      rw [← (h.represents resourceKey).readAll, hnil]
      exact fun _ => nofun
  · intro htexts e _ _
    exact htexts

end Sections

end AttributeTable

namespace AttributeStore

open AttributeLedger (ofHistory Early)

/-- **What a history leaves**, with the places of the keys. -/
theorem foldl_run_eq (module : String) (policies : PolicyTable) (calls : List AttributeCall) :
    ∃ t, calls.foldl run (.new module policies) = ⟨module, some t⟩ ∧
      t.Keeps (ofHistory policies calls) := by
  induction calls using List.reverseRecOn with
  | nil => exact ⟨_, rfl, AttributeTable.keeps_ofPolicies policies⟩
  | append_singleton calls c ih =>
    obtain ⟨t, hrun, hkeeps⟩ := ih
    rw [List.foldl_append, hrun, AttributeLedger.ofHistory_append_singleton]
    show ∃ t', run ⟨module, some t⟩ c = _ ∧ _
    rw [run, call_live]
    rcases AttributeTable.represents_call (hkeeps.represents c.key) with
      ⟨e, herror, hrefusal⟩ | ⟨t', hok, -, -⟩
    · rw [herror, AttributeLedger.after_of_refused hrefusal]
      exact ⟨t, rfl, hkeeps⟩
    · rw [hok]
      exact ⟨t', rfl, AttributeTable.keeps_call hkeeps hok⟩

/-- What the users see after a history are the keys with places. -/
theorem map_fst_entries {module : String} {policies : PolicyTable} {calls : List AttributeCall}
    {t : AttributeTable} (hlive : (calls.foldl run (.new module policies)).live = .ok t) :
    t.entries.map Prod.fst = (ofHistory policies calls).places := by
  obtain ⟨u, hrun, hkeeps⟩ := foldl_run_eq module policies calls
  rw [hrun] at hlive
  cases hlive
  rw [hkeeps.entries_eq, List.map_map]
  exact List.map_id _

/-- A key that is declared to accumulate before it is written is seen before it is written. -/
theorem not_early_of_firstWrites {module : String} {policies : PolicyTable}
    {calls : List AttributeCall} (hkeeping : ∀ c ∈ calls, c.Keeping)
    (horder : ∀ made, made <+: calls → ∀ t,
      (made.foldl run (.new module policies)).live = .ok t →
        t.entries.map Prod.fst = firstWrites made) : ¬Early calls := by
  rintro ⟨made, key, p, rest, rfl, haccumulate, hreserved, hkey⟩
  have hbefore : ∀ c ∈ made, c.Keeping := fun c hc => hkeeping c (List.mem_append_left _ hc)
  have hwritten : ((ofHistory policies made).record key).written = [] := by
    rwa [AttributeLedger.mem_firstWrites_iff hbefore, not_not] at hkey
  have hnone : ((ofHistory policies made).record key).refusal? (.declare key p) = none :=
    AttributeRecord.refusal?_declare_eq_none_iff.mpr ⟨hreserved, Or.inl (by simp [hwritten])⟩
  have hplaced : key ∈ (ofHistory policies (made ++ [.declare key p])).places := by
    rw [AttributeLedger.ofHistory_append_singleton]
    simp [AttributeLedger.after, AttributeCall.key, AttributeRecord.placesAfter, hnone,
      haccumulate, mem_addPlace]
  obtain ⟨t, hrun, -⟩ := foldl_run_eq module policies (made ++ [.declare key p])
  have hlive : ((made ++ [AttributeCall.declare key p]).foldl run
      (.new module policies)).live = .ok t := by
    rw [hrun]
    rfl
  rw [← map_fst_entries hlive, horder _ ⟨rest, by simp⟩ t hlive,
    AttributeLedger.firstWrites_append_of_none rfl] at hplaced
  exact hkey hplaced

/-- **The order of the keys, after any history without deletions.**  The users see the keys in
the places that the ledger gives them, each with what it reads as, and the sections follow the
same order: one section per value that the key leaves.  There are sections unless a resource
that persists is no text.  The keys seen are those that were written, and those that were last
declared to accumulate.  That they stand in the order of their first writes, at every moment of
the history, is so exactly if no key is declared to accumulate before it is written. -/
theorem iteration_order (module : String) (policies : PolicyTable) (calls : List AttributeCall)
    (hkeeping : ∀ c ∈ calls, c.Keeping) :
    ∃ t, (calls.foldl run (.new module policies)).live = .ok t ∧
      t.entries = (ofHistory policies calls).places.map
        (fun key => (key, ((ofHistory policies calls).record key).read)) ∧
      (∀ location sections, t.sections location = .ok sections →
        sections = (ofHistory policies calls).places.flatMap fun key =>
          (((ofHistory policies calls).record key).kept key).map (⟨key, ·⟩)) ∧
      (∀ location, (∃ sections, t.sections location = .ok sections) ↔
        (((ofHistory policies calls).record AttributeTable.resourceKey).policy.persist = true →
          ∀ v ∈ ((ofHistory policies calls).record AttributeTable.resourceKey).readAll,
            ∃ s, v = .text s)) ∧
      (∀ key, AttributeTable.isReserved key = false →
        (key ∈ (ofHistory policies calls).places ↔ key ∈ firstWrites calls ∨
          ∃ p, (calls.filterMap (AttributeCall.policyFor? key)).getLast? = some p ∧
            p.accumulate = true)) ∧
      ((∀ made, made <+: calls → ∀ t, (made.foldl run (.new module policies)).live = .ok t →
          t.entries.map Prod.fst = firstWrites made) ↔ ¬Early calls) := by
  obtain ⟨t, hrun, hkeeps⟩ := foldl_run_eq module policies calls
  refine ⟨t, by rw [hrun]; rfl, hkeeps.entries_eq, fun location sections => hkeeps.sections_eq,
    hkeeps.exists_sections_iff, fun key hkey => ?_, not_early_of_firstWrites hkeeping, ?_⟩
  · rw [AttributeLedger.mem_firstWrites_iff hkeeping]
    exact AttributeLedger.mem_places_iff hkeeping hkey
  · rintro hearly made ⟨rest, rfl⟩ u hlive
    rw [map_fst_entries hlive]
    exact AttributeLedger.places_eq_firstWrites
      (fun c hc => hkeeping c (List.mem_append_left _ hc)) (mt (·.append rest) hearly)

/-- A key that is declared to accumulate before it is written stands before a key that is
written before it. -/
theorem iteration_order_early :
    ∃ t, ([.declare "notes" ⟨true, true⟩, .write "vsn" (.text "1"),
          .write "notes" .null].foldl run (.new "M" .initial)).live = .ok t ∧
      t.entries = [("notes", .list [.null]), ("vsn", .text "1")] ∧
      firstWrites [.declare "notes" ⟨true, true⟩, .write "vsn" (.text "1"),
        .write "notes" .null] = ["vsn", "notes"] ∧
      ∀ location sections, t.sections location = .ok sections →
        sections = [⟨"notes", .null⟩, ⟨"vsn", .text "1"⟩] := by
  have hkeeping : ∀ c ∈ ([.declare "notes" ⟨true, true⟩, .write "vsn" (.text "1"),
      .write "notes" .null] : List AttributeCall), c.Keeping := by
    simp [AttributeCall.Keeping]
  obtain ⟨t, hlive, hentries, hsections, -⟩ := iteration_order "M" .initial _ hkeeping
  exact ⟨t, hlive, hentries, by decide, fun location sections hok => hsections _ _ hok⟩

end AttributeStore
end ModuleBuild
