import ModuleBuild.Proofs.Attribute.Order
import ModuleBuild.Proofs.Text.Units

/-! # What the sections of a module hold

Which values of a key reach the artifact follows from the record of the key
(`AttributeRecord.Leaves`): none if they do not persist, the resources in ascending order, and
of any other key all values if its writes accumulate, else the current one, be it a list or
not.  In the sections the values of a key stand side by side, with no other section of the key
(`HoldTogether`), whether or not the key still has a cell.

Only a resource that persists and is no text keeps a module from having sections, and the first
one is named (`AttributeLedger.Obstructs`).
-/
namespace ModuleBuild

/-- The values that a key leaves in an artifact, as its record says. -/
inductive AttributeRecord.Leaves (r : AttributeRecord) (key : String) : List Value → Prop
  /-- Values that do not persist leave nothing. -/
  | nothing (hpersist : r.policy.persist = false) : r.Leaves key []
  /-- The resources of a module, each once and in unit order. -/
  | resources {names : List String} (hpersist : r.policy.persist = true)
      (hkey : key = AttributeTable.resourceKey) (hascending : Text.Ascending names)
      (hnames : ∀ name, name ∈ names ↔ .text name ∈ r.readAll) :
      r.Leaves key (names.map .text)
  /-- All values in the order they were written, if writes accumulate. -/
  | all (hpersist : r.policy.persist = true) (hkey : key ≠ AttributeTable.resourceKey)
      (haccumulate : r.policy.accumulate = true) : r.Leaves key r.written
  /-- The current value, if writes do not accumulate. -/
  | current (hpersist : r.policy.persist = true) (hkey : key ≠ AttributeTable.resourceKey)
      (haccumulate : r.policy.accumulate = false) : r.Leaves key r.written.getLast?.toList

/-- These are the values of the sections of a key, which stand side by side. -/
def HoldTogether (sections : List AttributeSection) (key : String) (values : List Value) : Prop :=
  ∃ before after, sections = before ++ values.map (⟨key, ·⟩) ++ after ∧
    ∀ s ∈ before ++ after, s.key ≠ key

/-- The first of the resources that is no text, if the resources persist. -/
def AttributeLedger.Obstructs (l : AttributeLedger) (v : Value) : Prop :=
  (l.record AttributeTable.resourceKey).policy.persist = true ∧ (∀ s, v ≠ .text s) ∧
    ∃ (texts : List String) (rest : List Value),
      (l.record AttributeTable.resourceKey).readAll = texts.map .text ++ v :: rest

namespace AttributeRecord

variable {r : AttributeRecord} {key : String}

theorem mem_filterMap_asText? {vs : List Value} {s : String} :
    s ∈ vs.filterMap Value.asText? ↔ .text s ∈ vs := by
  have hasText (v : Value) : v.asText? = some s ↔ v = .text s := by
    cases v <;> simp [Value.asText?]
  simp [List.mem_filterMap, hasText]

/-- What the artifact keeps of a key is what the key leaves. -/
theorem leaves_kept (r : AttributeRecord) (key : String) : r.Leaves key (r.kept key) := by
  unfold kept
  cases hpersist : r.policy.persist with
  | false => exact .nothing hpersist
  | true =>
    rw [if_pos rfl]
    split
    · next hkey =>
      refine .resources hpersist hkey (Text.ascending_sort_eraseDups _) fun name => ?_
      rw [Text.mem_sort, List.mem_eraseDups, mem_filterMap_asText?]
    · next hkey =>
      unfold readAll
      cases haccumulate : r.policy.accumulate with
      | true => exact .all hpersist hkey haccumulate
      | false => exact .current hpersist hkey haccumulate

theorem kept_eq_nil (h : r.readAll = []) : r.kept key = [] := by
  simp [kept, h, Text.sort]

end AttributeRecord

/-- Keys that have one place each have their values side by side. -/
theorem holdTogether_flatMap (values : String → List Value) {places : List String} {key : String}
    (hnodup : places.Nodup) (hnone : key ∉ places → values key = []) :
    HoldTogether (places.flatMap fun k => (values k).map (⟨k, ·⟩)) key (values key) := by
  have hothers {ks : List String} (hks : key ∉ ks) :
      ∀ s ∈ ks.flatMap fun k => (values k).map (AttributeSection.mk k ·), s.key ≠ key := by
    intro s hs
    obtain ⟨k, hk, hs⟩ := List.mem_flatMap.mp hs
    obtain ⟨v, -, rfl⟩ := List.mem_map.mp hs
    exact ne_of_mem_of_not_mem hk hks
  by_cases hkey : key ∈ places
  · obtain ⟨before, after, rfl⟩ := List.append_of_mem hkey
    rw [List.nodup_middle, List.nodup_cons, List.mem_append, not_or] at hnodup
    refine ⟨_, _, by rw [List.flatMap_append, List.flatMap_cons, List.append_assoc], ?_⟩
    exact List.forall_mem_append.mpr ⟨hothers hnodup.1.1, hothers hnodup.1.2⟩
  · refine ⟨_, [], by rw [hnone hkey, List.map_nil, List.append_nil, List.append_nil], ?_⟩
    rw [List.append_nil]
    exact hothers hkey

namespace AttributeTable

variable {t : AttributeTable} {l : AttributeLedger} {location : Location} {key : String}

/-! ## The keys with places -/

theorem Keeps.nodup_places (h : t.Keeps l) : l.places.Nodup :=
  h.placed.userKeys ▸ t.cells.nodup.filter _

/-- A key without a place leaves nothing. -/
theorem Keeps.kept_of_not_mem_places (h : t.Keeps l) (hkey : key ∉ l.places) :
    (l.record key).kept key = [] := by
  apply AttributeRecord.kept_eq_nil
  rw [← (h.represents key).readAll, readAll]
  cases hget : t.cells.get? key with
  | none => rfl
  | some cell =>
    by_cases hreserved : isReserved key = true
    · obtain ⟨keys, rfl⟩ := (h.placed.control key cell hget).mp hreserved
      rfl
    · exact absurd ((h.placed.mem_iff hreserved).mpr ⟨cell, hget⟩) hkey

/-! ## Resources that are no texts -/

/-- The first value that is no text is found. -/
theorem allTexts_eq_error_iff {vs : List Value} {v : Value} :
    allTexts vs = .error v ↔
      (∀ s, v ≠ .text s) ∧
        ∃ (texts : List String) (rest : List Value), vs = texts.map .text ++ v :: rest := by
  induction vs with
  | nil =>
    refine iff_of_false nofun ?_
    rintro ⟨-, texts, rest, h⟩
    simp at h
  | cons w more ih =>
    by_cases hw : ∃ s, w = .text s
    · obtain ⟨s, rfl⟩ := hw
      have hmap : (allTexts more).map (s :: ·) = .error v ↔ allTexts more = .error v := by
        cases allTexts more <;> simp [Except.map]
      rw [allTexts, hmap, ih]
      refine and_congr_right fun hv => ?_
      constructor
      · rintro ⟨texts, rest, rfl⟩
        exact ⟨s :: texts, rest, rfl⟩
      · rintro ⟨texts, rest, h⟩
        cases texts with
        | nil => exact absurd (List.cons.inj h).1.symm (hv s)
        | cons s' texts => exact ⟨texts, rest, (List.cons.inj h).2⟩
    · rw [not_exists] at hw
      have hfirst : allTexts (w :: more) = .error w := by
        cases w <;> first | rfl | exact absurd rfl (hw _)
      rw [hfirst]
      constructor
      · intro h
        cases h
        exact ⟨hw, [], more, rfl⟩
      · rintro ⟨-, texts, rest, h⟩
        cases texts with
        | nil => rw [(List.cons.inj h).1]
        | cons s texts => exact absurd (List.cons.inj h).1 (hw s)

/-- Only the resources can keep a key from having sections. -/
theorem sectionsOf_eq_error {cell : AttributeCell} {p : Problem}
    (h : t.sectionsOf location key cell = .error p) :
    ∃ v, t.policies.persists resourceKey = true ∧ allTexts (t.readAll resourceKey) = .error v ∧
      p = ⟨.resourceInvalid v, some location⟩ := by
  unfold sectionsOf at h
  split at h
  · next hpersist =>
    split at h
    · next hkey =>
      subst hkey
      unfold resources at h
      cases htexts : allTexts (t.readAll resourceKey) with
      | ok names =>
        rw [htexts] at h
        cases h
      | error v =>
        rw [htexts] at h
        cases h
        exact ⟨v, hpersist, rfl, rfl⟩
    · cases h
  · cases h

theorem sectionsFrom_eq_error {es : List (String × AttributeCell)} {p : Problem}
    (h : t.sectionsFrom location es = .error p) :
    ∃ v, t.policies.persists resourceKey = true ∧ allTexts (t.readAll resourceKey) = .error v ∧
      p = ⟨.resourceInvalid v, some location⟩ := by
  induction es with
  | nil => cases h
  | cons e rest ih =>
    rw [sectionsFrom] at h
    cases hhere : t.sectionsOf location e.1 e.2 with
    | error q =>
      rw [hhere] at h
      cases h
      exact sectionsOf_eq_error hhere
    | ok here =>
      rw [hhere] at h
      cases hmore : t.sectionsFrom location rest with
      | error q =>
        rw [hmore] at h
        cases h
        exact ih hmore
      | ok more =>
        rw [hmore] at h
        cases h

theorem Keeps.obstructs_iff (h : t.Keeps l) {v : Value} : l.Obstructs v ↔
    t.policies.persists resourceKey = true ∧ allTexts (t.readAll resourceKey) = .error v := by
  rw [(h.represents resourceKey).persists, (h.represents resourceKey).readAll,
    allTexts_eq_error_iff]
  rfl

/-- A module has no sections exactly if a resource that persists is no text, and the first one
is named. -/
theorem Keeps.sections_eq_error_iff (h : t.Keeps l) (location : Location) (p : Problem) :
    t.sections location = .error p ↔
      ∃ v, l.Obstructs v ∧ p = ⟨.resourceInvalid v, some location⟩ := by
  constructor
  · intro herror
    obtain ⟨v, hpersist, htexts, rfl⟩ := sectionsFrom_eq_error herror
    exact ⟨v, h.obstructs_iff.mpr ⟨hpersist, htexts⟩, rfl⟩
  · rintro ⟨v, hv, rfl⟩
    cases hsections : t.sections location with
    | error q =>
      obtain ⟨w, -, htexts, rfl⟩ := sectionsFrom_eq_error hsections
      cases htexts.symm.trans (h.obstructs_iff.mp hv).2
      rfl
    | ok sections =>
      obtain ⟨hpersist, hno, texts, rest, hall⟩ := hv
      obtain ⟨s, hs⟩ := (h.exists_sections_iff location).mp ⟨sections, hsections⟩ hpersist v
        (by simp [hall])
      exact absurd hs (hno s)

/-- The sections of a key hold what the key leaves, side by side. -/
theorem Keeps.holdTogether (h : t.Keeps l) {sections : List AttributeSection}
    (hok : t.sections location = .ok sections) (key : String) :
    HoldTogether sections key ((l.record key).kept key) := by
  rw [h.sections_eq hok]
  exact holdTogether_flatMap (fun k => (l.record k).kept k) h.nodup_places h.kept_of_not_mem_places

end AttributeTable

namespace AttributeStore

open AttributeLedger (ofHistory)

/-- **The sections of a module, after any history.**  There are none exactly if the resources
persist and one of them is no text, and then the first one is named.  Else the sections of
every key stand side by side and hold precisely what the key leaves: nothing if its values do
not persist or there are none, the resources in strictly ascending order, and of another key
all values in the order they were written, or the current one. -/
theorem sections_hold (module : String) (policies : PolicyTable) (calls : List AttributeCall) :
    ∃ t, (calls.foldl run (.new module policies)).live = .ok t ∧ ∀ location,
      (∀ p, t.sections location = .error p ↔
        ∃ v, (ofHistory policies calls).Obstructs v ∧ p = ⟨.resourceInvalid v, some location⟩) ∧
      ∀ sections, t.sections location = .ok sections → ∀ key, ∃ values,
        ((ofHistory policies calls).record key).Leaves key values ∧
          HoldTogether sections key values := by
  obtain ⟨t, hrun, hkeeps⟩ := foldl_run_eq module policies calls
  refine ⟨t, by rw [hrun]; rfl, fun location => ⟨hkeeps.sections_eq_error_iff location, ?_⟩⟩
  intro sections hok key
  exact ⟨_, AttributeRecord.leaves_kept _ key, hkeeps.holdTogether hok key⟩

/-- A list that is the value of a key is one section. -/
example : ∃ t, ([.write "vsn" (.list [.null, .null])].foldl run (.new "M" .initial)).live = .ok t ∧
    t.sections ⟨"lib/a.mod", 1⟩ = .ok [⟨"vsn", .list [.null, .null]⟩] :=
  ⟨_, rfl, rfl⟩

end AttributeStore
end ModuleBuild
