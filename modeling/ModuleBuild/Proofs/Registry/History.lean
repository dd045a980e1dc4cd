import Mathlib.Data.List.Induction
import ModuleBuild.Proofs.Registry.Operations

/-! # Histories of a registry

A history is a sequence of calls to open and close modules, made with any names and
any tickets: a ticket may be closed twice, or closed when its module has long been
opened again under another.  A ticket is *held* after a history if an opening
returned it and it has not been closed since.

`opened_runAll` is the invariant that carries the rest: the names in the table of
open modules are those of the held tickets.  The stores of an entry are there while
its ticket is held (`find?_of_held`) and no longer (`isDestroyed_of_not_held`).
-/
namespace ModuleBuild

/-- A call on a registry. -/
inductive RegistryCall where
  | openModule (loaded : Option LoadedModule) (module sessionId : String) (location : Location)
      (withDocs : Bool)
  | close (ticket : Ticket)

namespace Registry

/-- The registry after a call; an opening that fails leaves it as it is. -/
def run (r : Registry) : RegistryCall → Registry
  | .openModule loaded m s l d =>
    match (r.openModule loaded m s l d).2 with
    | .ok (_, r') => r'
    | .error _ => r
  | .close t => r.close t

/-- The registry after a history. -/
def runAll (calls : List RegistryCall) : Registry := calls.foldl run .empty

/-- A call that opens the module `m` at `l` and returns the ticket `t`. -/
def Opens (r : Registry) (call : RegistryCall) (m : String) (t : Ticket) (l : Location) : Prop :=
  ∃ loaded s d r', call = .openModule loaded m s l d ∧
    (r.openModule loaded m s l d).2 = .ok (t, r')

/-- The ticket `t` was returned for the module `m`, opened at `l`, and has not been
closed since. -/
def Held (calls : List RegistryCall) (m : String) (t : Ticket) (l : Location) : Prop :=
  ∃ earlier call later, calls = earlier ++ call :: later ∧
    (runAll earlier).Opens call m t l ∧ .close t ∉ later

/-! ## One call -/

theorem Opens.unique {r : Registry} {call : RegistryCall} {m m' : String} {t t' : Ticket}
    {l l' : Location} (h : r.Opens call m t l) (h' : r.Opens call m' t' l') :
    m = m' ∧ t = t' ∧ l = l' := by
  obtain ⟨loaded, s, d, r₁, rfl, hok⟩ := h
  obtain ⟨loaded', s', d', r₂, heq, hok'⟩ := h'
  cases heq
  rw [hok] at hok'
  cases hok'
  exact ⟨rfl, rfl, rfl⟩

theorem not_opens_close {r : Registry} {u t : Ticket} {m : String} {l : Location} :
    ¬ r.Opens (.close u) m t l := by
  rintro ⟨_, _, _, _, h, -⟩
  cases h

theorem Opens.ne_close {r : Registry} {call : RegistryCall} {m : String} {t u : Ticket}
    {l : Location} (h : r.Opens call m t l) : call ≠ .close u := by
  rintro rfl
  exact not_opens_close h

/-- A call that opens a module adds its entry under the next ticket. -/
theorem Opens.run_eq {r : Registry} {call : RegistryCall} {m : String} {t : Ticket}
    {l : Location} (h : r.Opens call m t l) :
    r.opened.get? m = none ∧ t = r.entries.length ∧ ∃ s d, r.run call = r.add (.new m s l d) := by
  obtain ⟨loaded, s, d, r', rfl, hok⟩ := h
  obtain ⟨-, hm, ht, hr⟩ := openModule_ok_iff.mp hok
  exact ⟨hm, ht, s, d, by simp only [run, hok, hr]⟩

/-- A call opens a module, or closes a ticket, or leaves the registry as it is. -/
theorem run_cases (r : Registry) (call : RegistryCall) :
    (∃ m t l, r.Opens call m t l) ∨ (∃ t, call = .close t) ∨
      (r.run call = r ∧ (∀ t, call ≠ .close t) ∧ ∀ m t l, ¬ r.Opens call m t l) := by
  cases call with
  | close t => exact Or.inr (Or.inl ⟨t, rfl⟩)
  | openModule loaded m s l d =>
    cases hok : (r.openModule loaded m s l d).2 with
    | ok a => exact Or.inl ⟨m, a.1, l, loaded, s, d, a.2, rfl, hok⟩
    | error p =>
      refine Or.inr (Or.inr ⟨?_, ?_, ?_⟩)
      · simp only [run, hok]
      · intro t h
        cases h
      · rintro m' t l' ⟨loaded', s', d', r', heq, h⟩
        cases heq
        rw [hok] at h
        cases h

theorem runAll_append_singleton (calls : List RegistryCall) (call : RegistryCall) :
    runAll (calls ++ [call]) = (runAll calls).run call := by
  simp [runAll]

/-! ## What is held -/

theorem not_held_nil {m : String} {t : Ticket} {l : Location} : ¬ Held [] m t l := by
  rintro ⟨earlier, call, later, h, -⟩
  simp at h

/-- What is held after one more call: what the call returned, and what was held
before and is not closed by it. -/
theorem held_append_singleton {calls : List RegistryCall} {call : RegistryCall} {m : String}
    {t : Ticket} {l : Location} :
    Held (calls ++ [call]) m t l ↔
      (runAll calls).Opens call m t l ∨ Held calls m t l ∧ call ≠ .close t := by
  constructor
  · rintro ⟨earlier, c, later, hsplit, hopens, hclose⟩
    -- the call that returned the ticket is the last one, or one of those before
    rcases List.eq_nil_or_concat later with rfl | ⟨later', last, rfl⟩
    · obtain ⟨rfl, hlast⟩ := List.append_inj' hsplit rfl
      cases hlast
      exact Or.inl hopens
    · rw [List.concat_eq_append] at hsplit hclose
      rw [← List.cons_append, ← List.append_assoc] at hsplit
      obtain ⟨rfl, hlast⟩ := List.append_inj' hsplit rfl
      cases hlast
      rw [List.mem_append, not_or] at hclose
      exact Or.inr ⟨⟨earlier, c, later', rfl, hopens, hclose.1⟩,
        fun h => hclose.2 (h ▸ List.mem_singleton_self _)⟩
  · rintro (hopens | ⟨⟨earlier, c, later, rfl, hopens, hclose⟩, hne⟩)
    · exact ⟨calls, call, [], rfl, hopens, List.not_mem_nil⟩
    · refine ⟨earlier, c, later ++ [call], by simp, hopens, ?_⟩
      rw [List.mem_append, not_or]
      exact ⟨hclose, fun h => hne (List.mem_singleton.mp h).symm⟩

theorem held_append_opens {calls : List RegistryCall} {call : RegistryCall} {m m' : String}
    {t t' : Ticket} {l l' : Location} (h : (runAll calls).Opens call m t l) :
    Held (calls ++ [call]) m' t' l' ↔ (m = m' ∧ t = t' ∧ l = l') ∨ Held calls m' t' l' := by
  rw [held_append_singleton, and_iff_left h.ne_close]
  refine or_congr_left ⟨h.unique, ?_⟩
  rintro ⟨rfl, rfl, rfl⟩
  exact h

theorem held_append_close {calls : List RegistryCall} {u t : Ticket} {m : String}
    {l : Location} : Held (calls ++ [.close u]) m t l ↔ Held calls m t l ∧ t ≠ u := by
  simp only [held_append_singleton, not_opens_close, false_or, ne_eq, RegistryCall.close.injEq,
    eq_comm]

/-! ## Whole histories -/

/-- **The open names are those of the held tickets.** -/
theorem opened_runAll (calls : List RegistryCall) (m : String) (t : Ticket) :
    (runAll calls).opened.get? m = some t ↔ ∃ l, Held calls m t l := by
  induction calls using List.reverseRecOn generalizing m t with
  | nil => exact ⟨fun h => (nomatch h), fun ⟨_, h⟩ => (not_held_nil h).elim⟩
  | append_singleton calls call ih =>
    rw [runAll_append_singleton]
    rcases (runAll calls).run_cases call with ⟨m', t', l', hopens⟩ | ⟨u, rfl⟩ | ⟨hsame, hne, hno⟩
    · obtain ⟨hnone, ht', s, d, hrun⟩ := hopens.run_eq
      simp only [held_append_opens hopens, hrun, opened_add, OrderedMap.get?_insert,
        ModuleEntry.new_module, ← ht', exists_or, ← ih]
      by_cases hm : m' = m
      · subst hm
        simp [hnone]
      · simp [hm]
    · simp only [run, get?_opened_close, held_append_close, exists_and_right, ih]
    · simp only [hsame, ih, held_append_singleton, hno, hne, ne_eq, not_false_eq_true, and_true,
        false_or]

/-- **The entry under a held ticket** is the one that was opened, and its stores are
there. -/
theorem find?_of_held {calls : List RegistryCall} {m : String} {t : Ticket} {l : Location}
    (h : Held calls m t l) :
    ∃ e, (runAll calls).find? t = some e ∧ e.module = m ∧ e.location = l ∧ ¬ e.IsDestroyed := by
  induction calls using List.reverseRecOn with
  | nil => exact (not_held_nil h).elim
  | append_singleton calls call ih =>
    rw [runAll_append_singleton]
    rcases (runAll calls).run_cases call with ⟨m', t', l', hopens⟩ | ⟨u, rfl⟩ | ⟨hsame, hne, hno⟩
    · obtain ⟨-, ht', s, d, hrun⟩ := hopens.run_eq
      rw [hrun, find?_add]
      rcases (held_append_opens hopens).mp h with ⟨rfl, rfl, rfl⟩ | h
      · rw [if_pos ht']
        exact ⟨_, rfl, rfl, rfl, ModuleEntry.not_isDestroyed_new _ _ _ _⟩
      · -- a ticket that was held before is not the one just returned
        obtain ⟨e, he, hrest⟩ := ih h
        have hlt : t < (runAll calls).entries.length := (List.getElem?_eq_some_iff.mp he).1
        rw [if_neg (Nat.ne_of_lt hlt)]
        exact ⟨e, he, hrest⟩
    · obtain ⟨h, hu⟩ := held_append_close.mp h
      rw [run, find?_close, if_neg hu.symm]
      exact ih h
    · rw [hsame]
      exact ih ((held_append_singleton.mp h).resolve_left (hno m t l)).1

/-- Openings and closings document nothing. -/
theorem docs_runAll {calls : List RegistryCall} {t : Ticket} {e : ModuleEntry}
    (he : (runAll calls).find? t = some e) : e.docs = .empty := by
  induction calls using List.reverseRecOn generalizing e with
  | nil => simp [runAll, find?, empty] at he
  | append_singleton calls call ih =>
    rw [runAll_append_singleton] at he
    rcases (runAll calls).run_cases call with ⟨m', t', l', hopens⟩ | ⟨u, rfl⟩ | ⟨hsame, -⟩
    · obtain ⟨-, -, s, d, hrun⟩ := hopens.run_eq
      rw [hrun, find?_add] at he
      split at he
      · cases he
        rfl
      · exact ih he
    · rw [run, find?_close] at he
      split at he
      · obtain ⟨e', he', rfl⟩ := Option.map_eq_some_iff.mp he
        exact (ModuleEntry.isDestroyed_destroy fun _ => ih he').docs
      · exact ih he
    · rw [hsame] at he
      exact ih he

/-- **The stores of an entry are there only while its ticket is held.** -/
theorem isDestroyed_of_not_held {calls : List RegistryCall} {t : Ticket} {e : ModuleEntry}
    (he : (runAll calls).find? t = some e) (h : ∀ m l, ¬ Held calls m t l) : e.IsDestroyed := by
  induction calls using List.reverseRecOn generalizing e with
  | nil => simp [runAll, find?, empty] at he
  | append_singleton calls call ih =>
    rw [runAll_append_singleton] at he
    rcases (runAll calls).run_cases call with ⟨m', t', l', hopens⟩ | ⟨u, rfl⟩ | ⟨hsame, hne, hno⟩
    · obtain ⟨-, ht', s, d, hrun⟩ := hopens.run_eq
      rw [hrun, find?_add] at he
      -- the ticket just returned is held
      by_cases ht : t = (runAll calls).entries.length
      · exact (h m' l' ((held_append_opens hopens).mpr
          (Or.inl ⟨rfl, ht'.trans ht.symm, rfl⟩))).elim
      · rw [if_neg ht] at he
        exact ih he fun m l hl => h m l ((held_append_opens hopens).mpr (Or.inr hl))
    · rw [run, find?_close] at he
      by_cases hu : u = t
      · rw [if_pos hu] at he
        obtain ⟨e', he', rfl⟩ := Option.map_eq_some_iff.mp he
        exact ModuleEntry.isDestroyed_destroy fun _ => docs_runAll he'
      · rw [if_neg hu] at he
        exact ih he fun m l hl => h m l (held_append_close.mpr ⟨hl, fun h => hu h.symm⟩)
    · rw [hsame] at he
      exact ih he fun m l hl => h m l (held_append_singleton.mpr (Or.inr ⟨hl, hne t⟩))

theorem isOpen_runAll (calls : List RegistryCall) (m : String) :
    (runAll calls).isOpen m = true ↔ ∃ t l, Held calls m t l := by
  simp only [isOpen, OrderedMap.contains, Option.isSome_iff_exists, opened_runAll]

/-- What opening answers for a name that is open: the place of the held entry. -/
theorem openModule_of_held {calls : List RegistryCall} {m : String} {t : Ticket}
    {l₀ : Location} (h : Held calls m t l₀) (hm : refusal? m = none)
    (loaded : Option LoadedModule) (s : String) (l : Location) (d : Bool) :
    ((runAll calls).openModule loaded m s l d).2
      = .error ⟨.moduleBeingDefined m l₀, some l⟩ := by
  obtain ⟨e, he, -, rfl, -⟩ := find?_of_held h
  refine (openModule_error_iff hm).mpr ⟨e, ?_, rfl⟩
  rw [lookup, (opened_runAll calls m t).mpr ⟨_, h⟩]
  exact he

/-- **The laws of a registry, after any history.**  A name is open exactly while a
ticket of it is held, and only then is it refused as being defined, with the place
where the held entry was opened.  The stores of an entry are there exactly while its
ticket is held.  An opening that fails changes nothing.  Closing twice is closing
once, closing a ticket destroys its entry and leaves every other entry as it is, and
a name that is held under another ticket stays open under that one. -/
theorem history_laws (calls : List RegistryCall) :
    (∀ m, (runAll calls).isOpen m = true ↔ ∃ t l, Held calls m t l) ∧
    (∀ m loaded s l d, isValidModuleName m = true → m ∉ reservedModules →
      ((∃ p, ((runAll calls).openModule loaded m s l d).2 = .error p ∧
          p.condition.code = .moduleBeingDefined) ↔ (runAll calls).isOpen m = true) ∧
      ∀ t l₀, Held calls m t l₀ → ((runAll calls).openModule loaded m s l d).2
        = .error ⟨.moduleBeingDefined m l₀, some l⟩) ∧
    (∀ t e, (runAll calls).find? t = some e →
      (¬ e.IsDestroyed ↔ ∃ m l, Held calls m t l)) ∧
    (∀ loaded m s l d p, ((runAll calls).openModule loaded m s l d).2 = .error p →
      runAll (calls ++ [.openModule loaded m s l d]) = runAll calls) ∧
    (∀ t, runAll (calls ++ [.close t, .close t]) = runAll (calls ++ [.close t])) ∧
    (∀ t e, (runAll calls).find? t = some e →
      ∃ e', (runAll (calls ++ [.close t])).find? t = some e' ∧ e'.IsDestroyed) ∧
    (∀ t u, u ≠ t → (runAll (calls ++ [.close t])).find? u = (runAll calls).find? u) ∧
    (∀ t u m l, Held calls m u l → u ≠ t →
      (runAll (calls ++ [.close t])).opened.get? m = some u) := by
  refine ⟨isOpen_runAll calls, ?_, ?_, ?_, ?_, ?_, ?_, ?_⟩
  · intro m loaded s l d hvalid hfree
    have hm : refusal? m = none := (refusal?_eq_none_iff m).mpr ⟨hvalid, hfree⟩
    refine ⟨?_, fun t l₀ h => openModule_of_held h hm loaded s l d⟩
    rw [isOpen_runAll]
    constructor
    · rintro ⟨p, hp, -⟩
      obtain ⟨e, he, -⟩ := (openModule_error_iff hm).mp hp
      obtain ⟨t, ht, -⟩ := Option.bind_eq_some_iff.mp he
      exact ⟨t, (opened_runAll calls m t).mp ht⟩
    · rintro ⟨t, l₀, h⟩
      exact ⟨_, openModule_of_held h hm loaded s l d, rfl⟩
  · intro t e he
    constructor
    · intro hlive
      by_contra hnot
      exact hlive (isDestroyed_of_not_held he fun m l h => hnot ⟨m, l, h⟩)
    · rintro ⟨m, l, h⟩
      obtain ⟨e', he', -, -, hlive⟩ := find?_of_held h
      rw [he] at he'
      cases he'
      exact hlive
  · intro loaded m s l d p hp
    rw [runAll_append_singleton]
    simp only [run, hp]
  · intro t
    rw [show calls ++ [.close t, .close t] = calls ++ [.close t] ++ [.close t] by simp,
      runAll_append_singleton, runAll_append_singleton]
    exact close_close _ t
  · intro t e he
    rw [runAll_append_singleton, run, find?_close, if_pos rfl, he]
    exact ⟨_, rfl, ModuleEntry.isDestroyed_destroy fun _ => docs_runAll he⟩
  · intro t u hu
    rw [runAll_append_singleton, run, find?_close, if_neg hu.symm]
  · intro t u m l h hu
    rw [runAll_append_singleton, run, get?_opened_close]
    exact ⟨(opened_runAll calls m u).mpr ⟨l, h⟩, hu⟩

/-- A module that was opened again stays open when its first ticket is closed once
more, and cannot be opened a third time. -/
theorem history_laws_reopened :
    let calls : List RegistryCall :=
      [.openModule none "Sample" "s" ⟨"a", 1⟩ true, .close 0,
       .openModule none "Sample" "s" ⟨"b", 2⟩ true, .close 0]
    (runAll calls).isOpen "Sample" = true ∧
      ((runAll calls).openModule none "Sample" "s" ⟨"c", 3⟩ true).2
        = .error ⟨.moduleBeingDefined "Sample" ⟨"b", 2⟩, some ⟨"c", 3⟩⟩ := by
  intro calls
  have hheld : Held calls "Sample" 1 ⟨"b", 2⟩ :=
    ⟨[.openModule none "Sample" "s" ⟨"a", 1⟩ true, .close 0],
      .openModule none "Sample" "s" ⟨"b", 2⟩ true, [.close 0], rfl,
      ⟨none, "s", true, _, rfl, rfl⟩, by simp⟩
  obtain ⟨hopen, hrefused, -⟩ := history_laws calls
  exact ⟨(hopen "Sample").mpr ⟨1, _, hheld⟩,
    (hrefused "Sample" none "s" ⟨"c", 3⟩ true (by decide) (by decide)).2 1 _ hheld⟩

end Registry
end ModuleBuild
