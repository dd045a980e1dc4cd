import ModuleBuild.Proofs.Registry.Use

/-! # Calls about different modules

Clients of one registry open modules, use the entries that this gave them and close
them, in any order.  What a call about one module answers, and what it leaves of that
module, depends on the module's own part of the registry only (`serve_congr`), and a
call about another module leaves that part as it is (`view_serve_of_ne`).  By
induction, the answers about one module and what remains of it are those of a
registry on which nobody else is served (`serveAll_interleaved`).

A module's part of the registry is its `view`.  Tickets are not seen in it, for they
are drawn from one count: the entries stand in the order of their opening instead,
and an entry is named by its place.
-/
namespace ModuleBuild

/-- The entry of a module that a call is about. -/
inductive Target where
  /-- The one that the opening of this number returned; the first has number 0. -/
  | returned (number : Nat)
  /-- The one that is open under the module's name. -/
  | current

/-- A call about a module. -/
inductive ModuleCall where
  /-- Open the module, reporting a loaded version or not. -/
  | openModule (reporting : Bool) (sessionId : String) (location : Location) (withDocs : Bool)
  | close (target : Target)
  | use (target : Target) (use : EntryUse)
  | isOpen
  | readAttribute (key : String)

/-- What a call answers. -/
inductive Answer where
  /-- A warning, and the number of the opening or why it failed. -/
  | opening (warning : Option Diagnostic) (result : Except Problem Nat)
  | closed
  | used (result : Except Problem Value)
  | isOpen (answer : Bool)
  | attribute (result : Except Condition Value)
  /-- The module has no such entry. -/
  | missing

namespace Registry

/-- The tickets of a module's entries, in the order of their opening. -/
def ticketsOf (r : Registry) (m : String) : List Ticket :=
  (List.range r.entries.length).filter fun t => (r.find? t).map ModuleEntry.module = some m

/-- The ticket of the entry that a call is about. -/
def ticketOf? (r : Registry) (m : String) : Target → Option Ticket
  | .returned number => (r.ticketsOf m)[number]?
  | .current => r.opened.get? m

/-- Answer a call about a module. -/
def serve (code : CodeSession) (r : Registry) (m : String) : ModuleCall → Answer × Registry
  | .openModule reporting s l d =>
    match r.openModule (if reporting then code.get? m else none) m s l d with
    | (warning, .ok (_, r')) => (.opening warning (.ok (r.ticketsOf m).length), r')
    | (warning, .error p) => (.opening warning (.error p), r)
  | .close target =>
    match r.ticketOf? m target with
    | some t => (.closed, r.close t)
    | none => (.missing, r)
  | .use target u =>
    match r.ticketOf? m target with
    | some t =>
      match (r.find? t).map u.apply with
      | some (.ok (v, s)) => (.used (.ok v), r.update t fun _ => s)
      | some (.error p) => (.used (.error p), r)
      | none => (.missing, r)
    | none => (.missing, r)
  | .isOpen => (.isOpen (r.isOpen m), r)
  | .readAttribute key => (.attribute (r.readAttribute m key), r)

/-- Answer calls about any modules, one after another. -/
def serveAll (code : CodeSession) (r : Registry) :
    List (String × ModuleCall) → List (String × Answer) × Registry
  | [] => ([], r)
  | (m, call) :: rest =>
    let (answer, r₁) := r.serve code m call
    let (answers, r₂) := serveAll code r₁ rest
    ((m, answer) :: answers, r₂)

/-- What there is of a module in a registry: its entries in the order of their
opening, each with whether it is the one that is open. -/
def view (r : Registry) (m : String) : List (Option ModuleEntry × Bool) :=
  (r.ticketsOf m).map fun t => (r.find? t, r.opened.get? m = some t)

/-! ## The tickets of a module -/

theorem mem_ticketsOf_iff {r : Registry} {m : String} {t : Ticket} :
    t ∈ r.ticketsOf m ↔ ∃ e, r.find? t = some e ∧ e.module = m := by
  rw [ticketsOf, List.mem_filter, List.mem_range, decide_eq_true_eq, Option.map_eq_some_iff]
  refine and_iff_right_of_imp ?_
  rintro ⟨e, he, -⟩
  exact (List.getElem?_eq_some_iff.mp he).1

theorem nodup_ticketsOf (r : Registry) (m : String) : (r.ticketsOf m).Nodup :=
  List.nodup_range.filter _

theorem mem_ticketsOf_of_opened {r : Registry} {m : String} {t : Ticket}
    (h : r.opened.get? m = some t) : t ∈ r.ticketsOf m :=
  mem_ticketsOf_iff.mpr (find?_of_opened h)

/-- A ticket is that of one module only. -/
theorem not_mem_ticketsOf_of_ne {r : Registry} {m n : String} (hne : m ≠ n) {t : Ticket}
    (h : t ∈ r.ticketsOf n) : t ∉ r.ticketsOf m := by
  obtain ⟨e, he, rfl⟩ := mem_ticketsOf_iff.mp h
  rintro hm
  obtain ⟨e', he', rfl⟩ := mem_ticketsOf_iff.mp hm
  rw [he] at he'
  cases he'
  exact hne rfl

/-- The ticket that a call about a module is about is one of the module's. -/
theorem mem_ticketsOf_of_ticketOf? {r : Registry} {m : String} {target : Target} {t : Ticket}
    (h : r.ticketOf? m target = some t) : t ∈ r.ticketsOf m := by
  cases target with
  | returned number => exact List.mem_of_getElem? h
  | current => exact mem_ticketsOf_of_opened h

/-- The tickets of a module depend on which module each entry is of. -/
theorem ticketsOf_congr {r r' : Registry} (hlength : r'.entries.length = r.entries.length)
    (hmodule : ∀ t, (r'.find? t).map ModuleEntry.module = (r.find? t).map ModuleEntry.module)
    (m : String) : r'.ticketsOf m = r.ticketsOf m := by
  simp only [ticketsOf, hlength, hmodule]

theorem ticketsOf_update (r : Registry) (t : Ticket) (f : ModuleState → ModuleState)
    (m : String) : (r.update t f).ticketsOf m = r.ticketsOf m := by
  refine ticketsOf_congr (length_entries_update r t f) (fun u => ?_) m
  rw [find?_update]
  split
  · rw [Option.map_map]
    rfl
  · rfl

theorem ticketsOf_close (r : Registry) (t : Ticket) (m : String) :
    (r.close t).ticketsOf m = r.ticketsOf m := by
  refine ticketsOf_congr (length_entries_close r t) (fun u => ?_) m
  rw [find?_close]
  split
  · rw [Option.map_map]
    rfl
  · rfl

theorem find?_add_of_lt {r : Registry} {t : Ticket} (h : t < r.entries.length)
    (e : ModuleEntry) : (r.add e).find? t = r.find? t := by
  rw [find?_add, if_neg (Nat.ne_of_lt h)]

theorem lt_length_of_mem_ticketsOf {r : Registry} {m : String} {t : Ticket}
    (h : t ∈ r.ticketsOf m) : t < r.entries.length :=
  List.mem_range.mp (List.mem_filter.mp h).1

theorem ticketsOf_add (r : Registry) (e : ModuleEntry) (m : String) :
    (r.add e).ticketsOf m
      = r.ticketsOf m ++ if e.module = m then [r.entries.length] else [] := by
  have hlength : (r.add e).entries.length = r.entries.length + 1 := by simp [add]
  have hold : (List.range r.entries.length).filter
      (fun t => ((r.add e).find? t).map ModuleEntry.module = some m) = r.ticketsOf m := by
    refine List.filter_congr fun t ht => ?_
    rw [find?_add_of_lt (List.mem_range.mp ht)]
  rw [ticketsOf, hlength, List.range_succ, List.filter_append, hold, List.filter_cons,
    List.filter_nil, find?_add, if_pos rfl, Option.map_some]
  simp only [Option.some.injEq, decide_eq_true_eq]

/-! ## The view of a module -/

theorem getElem?_view (r : Registry) (m : String) (k : Nat) :
    (r.view m)[k]?
      = (r.ticketsOf m)[k]?.map fun t => (r.find? t, decide (r.opened.get? m = some t)) :=
  List.getElem?_map ..

/-- A change of what is not the module's leaves its view. -/
theorem view_congr {r r' : Registry} {m : String} (htickets : r'.ticketsOf m = r.ticketsOf m)
    (hfind : ∀ t ∈ r.ticketsOf m, r'.find? t = r.find? t)
    (hopened : ∀ t ∈ r.ticketsOf m, r'.opened.get? m = some t ↔ r.opened.get? m = some t) :
    r'.view m = r.view m := by
  rw [view, htickets]
  refine List.map_congr_left fun t ht => ?_
  rw [hfind t ht, decide_eq_decide.mpr (hopened t ht)]

/-- A change of one entry of the module changes the place of that entry in its view. -/
theorem view_modify {r r' : Registry} {m : String} {k : Nat} {t : Ticket}
    (hk : (r.ticketsOf m)[k]? = some t) (htickets : r'.ticketsOf m = r.ticketsOf m)
    {f : Option ModuleEntry × Bool → Option ModuleEntry × Bool}
    (hown : (r'.find? t, decide (r'.opened.get? m = some t))
      = f (r.find? t, decide (r.opened.get? m = some t)))
    (hfind : ∀ u, u ≠ t → r'.find? u = r.find? u)
    (hopened : ∀ u, u ≠ t → (r'.opened.get? m = some u ↔ r.opened.get? m = some u)) :
    r'.view m = (r.view m).modify k f := by
  refine List.ext_getElem? fun i => ?_
  rw [List.getElem?_modify, getElem?_view, getElem?_view, htickets]
  cases hi : (r.ticketsOf m)[i]? with
  | none => simp
  | some u =>
    by_cases hki : k = i
    · subst hki
      rw [hk] at hi
      cases hi
      simp [hown]
    · -- another place holds another ticket
      have hu : u ≠ t := by
        rintro rfl
        obtain ⟨hlt, -⟩ := List.getElem?_eq_some_iff.mp hk
        exact hki ((List.getElem?_inj hlt (r.nodup_ticketsOf m)).mp (hk.trans hi.symm))
      simp [hki, hfind u hu, hopened u hu]

theorem view_update {r : Registry} {m : String} {k : Nat} {t : Ticket}
    (hk : (r.ticketsOf m)[k]? = some t) (f : ModuleState → ModuleState) :
    (r.update t f).view m
      = (r.view m).modify k fun x => (x.1.map (ModuleEntry.change f), x.2) := by
  refine view_modify hk (ticketsOf_update r t f m) ?_ ?_ fun _ _ => Iff.rfl
  · rw [find?_update, if_pos rfl]
    rfl
  · intro u hu
    rw [find?_update, if_neg hu.symm]

theorem view_close {r : Registry} {m : String} {k : Nat} {t : Ticket}
    (hk : (r.ticketsOf m)[k]? = some t) :
    (r.close t).view m = (r.view m).modify k fun x => (x.1.map ModuleEntry.destroy, false) := by
  refine view_modify hk (ticketsOf_close r t m) ?_ ?_ ?_
  · rw [find?_close, if_pos rfl, decide_eq_false]
    intro h
    exact ((get?_opened_close r t t m).mp h).2 rfl
  · intro u hu
    rw [find?_close, if_neg hu.symm]
  · intro u hu
    rw [get?_opened_close, and_iff_left hu]

theorem view_add {r : Registry} {e : ModuleEntry} (h : r.opened.get? e.module = none) :
    (r.add e).view e.module = r.view e.module ++ [(some e, true)] := by
  rw [view, ticketsOf_add, if_pos rfl, List.map_append, List.map_singleton, find?_add,
    if_pos rfl, opened_add, OrderedMap.get?_insert, if_pos rfl, view]
  congr 1
  · refine List.map_congr_left fun t ht => ?_
    have hlt := lt_length_of_mem_ticketsOf ht
    simp [find?_add_of_lt hlt, h, Nat.ne_of_gt hlt]
  · simp

theorem view_update_of_not_mem {r : Registry} {m : String} {t : Ticket}
    (ht : t ∉ r.ticketsOf m) (f : ModuleState → ModuleState) :
    (r.update t f).view m = r.view m := by
  refine view_congr (ticketsOf_update r t f m) (fun u hu => ?_) fun _ _ => Iff.rfl
  rw [find?_update, if_neg (ne_of_mem_of_not_mem hu ht).symm]

theorem view_close_of_not_mem {r : Registry} {m : String} {t : Ticket}
    (ht : t ∉ r.ticketsOf m) : (r.close t).view m = r.view m := by
  refine view_congr (ticketsOf_close r t m) (fun u hu => ?_) fun u hu => ?_
  · rw [find?_close, if_neg (ne_of_mem_of_not_mem hu ht).symm]
  · rw [get?_opened_close, and_iff_left (ne_of_mem_of_not_mem hu ht)]

theorem view_add_of_ne {r : Registry} {m : String} {e : ModuleEntry} (hne : e.module ≠ m) :
    (r.add e).view m = r.view m := by
  refine view_congr ?_ (fun u hu => ?_) fun u hu => ?_
  · rw [ticketsOf_add, if_neg hne, List.append_nil]
  · exact find?_add_of_lt (lt_length_of_mem_ticketsOf hu) e
  · rw [opened_add, OrderedMap.get?_insert, if_neg hne]

/-! ## What the view tells -/

section Congruence

variable {r r' : Registry} {m : String} (h : r.view m = r'.view m)
include h

theorem length_ticketsOf_congr : (r.ticketsOf m).length = (r'.ticketsOf m).length := by
  simpa [view] using congrArg List.length h

/-- A place that one module's view has, the other's has as well, with the same entry,
open or not alike. -/
theorem exists_same_place {k : Nat} {t : Ticket} (hk : (r.ticketsOf m)[k]? = some t) :
    ∃ t', (r'.ticketsOf m)[k]? = some t' ∧ r.find? t = r'.find? t' ∧
      (r.opened.get? m = some t ↔ r'.opened.get? m = some t') := by
  have hplace := congrArg (·[k]?) h
  simp only [getElem?_view, hk, Option.map_some] at hplace
  obtain ⟨t', hk', heq⟩ := Option.map_eq_some_iff.mp hplace.symm
  obtain ⟨hfind, hopened⟩ := Prod.ext_iff.mp heq
  exact ⟨t', hk', hfind.symm, decide_eq_decide.mp hopened.symm⟩

/-- Calls about one module are about entries at the same place. -/
theorem exists_same_ticket {target : Target} {t : Ticket} (ht : r.ticketOf? m target = some t) :
    ∃ (k : Nat) (t' : Ticket), (r.ticketsOf m)[k]? = some t ∧ (r'.ticketsOf m)[k]? = some t' ∧
      r'.ticketOf? m target = some t' ∧ r.find? t = r'.find? t' := by
  cases target with
  | returned k =>
    obtain ⟨t', hk', hfind, -⟩ := exists_same_place h ht
    exact ⟨k, t', ht, hk', hk', hfind⟩
  | current =>
    obtain ⟨k, hk⟩ := List.mem_iff_getElem?.mp (mem_ticketsOf_of_opened ht)
    obtain ⟨t', hk', hfind, hopened⟩ := exists_same_place h hk
    exact ⟨k, t', hk, hk', hopened.mp ht, hfind⟩

theorem ticketOf?_eq_none_congr {target : Target} (ht : r.ticketOf? m target = none) :
    r'.ticketOf? m target = none := by
  cases ht' : r'.ticketOf? m target with
  | none => rfl
  | some t' =>
    obtain ⟨_, t, -, -, htarget, -⟩ := exists_same_ticket h.symm ht'
    rw [ht] at htarget
    cases htarget

theorem lookup_congr : r.lookup m = r'.lookup m := by
  cases ht : r.ticketOf? m .current with
  | none =>
    rw [(lookup_eq_none_iff r m).mpr ht,
      (lookup_eq_none_iff r' m).mpr (ticketOf?_eq_none_congr h ht)]
  | some t =>
    obtain ⟨_, t', -, -, ht', hfind⟩ := exists_same_ticket h ht
    rw [ticketOf?] at ht ht'
    rw [lookup, lookup, ht, ht']
    exact hfind

/-- **The view of a module decides** what a call about it answers, and its view
afterwards. -/
theorem serve_congr (code : CodeSession) (call : ModuleCall) :
    (r.serve code m call).1 = (r'.serve code m call).1 ∧
      (r.serve code m call).2.view m = (r'.serve code m call).2.view m := by
  have hlookup := lookup_congr h
  cases call with
  | openModule reporting s l d =>
    cases hm : refusal? m with
    | some c => exact ⟨by simp only [serve, openModule, hm], by simpa only [serve, openModule, hm]⟩
    | none =>
      cases hl : r.lookup m with
      | some e =>
        have hl' := hlookup.symm.trans hl
        simp only [serve, openModule, hm, enrol, hl, hl', true_and]
        exact h
      | none =>
        have hl' := hlookup.symm.trans hl
        simp only [serve, openModule, hm, enrol, hl, hl', length_ticketsOf_congr h, true_and]
        have hadd {g : Registry} (hg : g.lookup m = none) :
            (g.add (.new m s l d)).view m = g.view m ++ [(some (.new m s l d), true)] :=
          view_add (e := .new m s l d) ((lookup_eq_none_iff g m).mp hg)
        rw [hadd hl, hadd hl', h]
  | close target =>
    cases ht : r.ticketOf? m target with
    | none =>
      simp only [serve, ht, ticketOf?_eq_none_congr h ht, true_and]
      exact h
    | some t =>
      obtain ⟨k, t', hk, hk', ht', -⟩ := exists_same_ticket h ht
      simp only [serve, ht, ht', true_and]
      rw [view_close hk, view_close hk', h]
  | use target u =>
    cases ht : r.ticketOf? m target with
    | none =>
      simp only [serve, ht, ticketOf?_eq_none_congr h ht, true_and]
      exact h
    | some t =>
      obtain ⟨k, t', hk, hk', ht', hfind⟩ := exists_same_ticket h ht
      simp only [serve, ht, ht', hfind]
      cases (r'.find? t').map u.apply with
      | none => exact ⟨rfl, h⟩
      | some answer =>
        cases answer with
        | error p => exact ⟨rfl, h⟩
        | ok a =>
          refine ⟨rfl, ?_⟩
          change (r.update t fun _ => a.2).view m = (r'.update t' fun _ => a.2).view m
          rw [view_update hk, view_update hk', h]
  | isOpen => exact ⟨by simp only [serve, isOpen_eq_isSome_lookup, hlookup], h⟩
  | readAttribute key => exact ⟨by simp only [serve, readAttribute, hlookup], h⟩

end Congruence

/-! ## Calls about other modules -/

/-- **A call about another module** leaves the view of this one. -/
theorem view_serve_of_ne {m n : String} (hne : m ≠ n) (code : CodeSession) (r : Registry)
    (call : ModuleCall) : (r.serve code n call).2.view m = r.view m := by
  have hother {target : Target} {t : Ticket} (ht : r.ticketOf? n target = some t) :
      t ∉ r.ticketsOf m :=
    not_mem_ticketsOf_of_ne hne (mem_ticketsOf_of_ticketOf? ht)
  cases call with
  | openModule reporting s l d =>
    rw [serve]
    split
    next ho =>
      obtain ⟨-, -, -, rfl⟩ := openModule_ok_iff.mp (congrArg Prod.snd ho)
      exact view_add_of_ne hne.symm
    next => rfl
  | close target =>
    rw [serve]
    split
    next t ht => exact view_close_of_not_mem (hother ht)
    next => rfl
  | use target u =>
    rw [serve]
    split
    next t ht =>
      split
      next => exact view_update_of_not_mem (hother ht) _
      next => rfl
      next => rfl
    next => rfl
  | isOpen => rfl
  | readAttribute key => rfl

/-! ## Whole sequences of calls -/

/-- Registries that agree on a module answer the calls about it alike, whatever else
the first is asked. -/
theorem serveAll_congr {m : String} (code : CodeSession) (calls : List (String × ModuleCall))
    {r r' : Registry} (h : r.view m = r'.view m) :
    (r.serveAll code calls).1.filter (fun a => a.1 = m)
        = (r'.serveAll code (calls.filter fun c => c.1 = m)).1 ∧
      (r.serveAll code calls).2.view m
        = (r'.serveAll code (calls.filter fun c => c.1 = m)).2.view m := by
  induction calls generalizing r r' with
  | nil => exact ⟨rfl, h⟩
  | cons c calls ih =>
    obtain ⟨n, call⟩ := c
    by_cases hn : n = m
    · subst hn
      obtain ⟨hanswer, hview⟩ := serve_congr h code call
      obtain ⟨hanswers, hrest⟩ := ih hview
      rw [List.filter_cons_of_pos (by simp)]
      refine ⟨?_, hrest⟩
      rw [serveAll, serveAll, List.filter_cons_of_pos (by simp), hanswer, hanswers]
    · obtain ⟨hanswers, hrest⟩ := ih ((view_serve_of_ne (Ne.symm hn) code r call).trans h)
      rw [List.filter_cons_of_neg (by simpa using hn)]
      refine ⟨?_, hrest⟩
      rw [serveAll, List.filter_cons_of_neg (by simpa using hn)]
      exact hanswers

/-- **Calls about different modules do not interfere.**  However the calls about a
module are interleaved with calls about others, each of them answers what it answers
when the others are left out, and in the end the module has the same entries, in the
same state, and the same one is open. -/
theorem serveAll_interleaved (code : CodeSession) (r : Registry) (m : String)
    (calls : List (String × ModuleCall)) :
    let alone := r.serveAll code (calls.filter fun c => c.1 = m)
    (r.serveAll code calls).1.filter (fun a => a.1 = m) = alone.1 ∧
      (r.serveAll code calls).2.view m = alone.2.view m ∧
      (r.serveAll code calls).2.lookup m = alone.2.lookup m := by
  obtain ⟨hanswers, hview⟩ := serveAll_congr code calls (rfl : r.view m = r.view m)
  exact ⟨hanswers, hview, lookup_congr hview⟩

end Registry
end ModuleBuild
