import ModuleBuild.Proofs.Registry.Operations

/-! # Modules under way

An open module is *under way* until it reaches its last phase.  The modules under way are listed
in the order of their opening (`underWay`).  Opening a module appends it to the list
(`underWay_add`); its last move takes it off, and so does closing it (`underWay_move_closed`,
`underWay_close`); nothing else changes the list.

The list is that of all open modules unless one is open in its last phase
(`underWay_eq_opened_iff`).
-/
namespace ModuleBuild
namespace Registry

/-- There is a module under the ticket, and it has not reached its last phase. -/
def isUnderWay (r : Registry) (t : Ticket) : Bool := (r.find? t).any fun e => e.phase ≠ .closed

/-- The open modules that are under way, with their tickets, in the order of their opening. -/
def underWay (r : Registry) : List (String × Ticket) :=
  r.opened.entries.filter fun x => r.isUnderWay x.2

/-- The open modules are kept in the order in which they were opened, which is that of their
tickets. -/
def InOrder (r : Registry) : Prop := r.opened.values.Pairwise (· < ·)

variable {r : Registry} {m : String} {t : Ticket}

theorem isUnderWay_iff : r.isUnderWay t = true ↔ ∃ e, r.find? t = some e ∧ e.phase ≠ .closed := by
  simp [isUnderWay, Option.any_eq_true]

theorem mem_underWay_iff :
    (m, t) ∈ r.underWay ↔ r.opened.get? m = some t ∧ r.isUnderWay t = true := by
  rw [underWay, List.mem_filter, OrderedMap.mem_entries_iff]

theorem nodup_underWay (r : Registry) : (r.underWay.map Prod.fst).Nodup :=
  r.opened.nodup.sublist (List.filter_sublist.map _)

/-- No ticket is that of two open names. -/
theorem name_of_opened {n : String} (hm : r.opened.get? m = some t)
    (hn : r.opened.get? n = some t) : m = n := by
  obtain ⟨e, he, rfl⟩ := find?_of_opened hm
  obtain ⟨e', he', rfl⟩ := find?_of_opened hn
  rw [Option.some.inj (he.symm.trans he')]

/-- **The modules under way are all that are open**, unless one is open in its last phase. -/
theorem underWay_eq_opened_iff :
    r.underWay.map Prod.fst = r.opened.keys ↔
      ∀ m t, r.opened.get? m = some t → r.isUnderWay t = true := by
  constructor
  · intro h m t hm
    have hlength := congrArg List.length h
    rw [OrderedMap.keys, List.length_map, List.length_map] at hlength
    exact List.length_filter_eq_length_iff.mp hlength (m, t) (OrderedMap.mem_of_get? hm)
  · intro h
    have hall : r.underWay = r.opened.entries :=
      List.filter_eq_self.mpr fun x hx => h x.1 x.2 (OrderedMap.mem_entries_iff.mp hx)
    rw [hall, OrderedMap.keys]

theorem InOrder.tickets (h : r.InOrder) : (r.underWay.map Prod.snd).Pairwise (· < ·) :=
  h.sublist (List.filter_sublist.map _)

/-- Among the modules under way the last one is alone under its ticket. -/
theorem InOrder.filter_ne {stack : List (String × Ticket)} (h : r.InOrder)
    (hstack : r.underWay = stack ++ [(m, t)]) :
    (r.underWay.filter fun x => x.2 ≠ t) = stack := by
  have htickets := h.tickets
  rw [hstack, List.map_append, List.pairwise_append] at htickets
  obtain ⟨-, -, hlt⟩ := htickets
  have hkept : (stack.filter fun x => x.2 ≠ t) = stack :=
    List.filter_eq_self.mpr fun x hx => decide_eq_true <|
      Nat.ne_of_lt (hlt x.2 (List.mem_map_of_mem hx) t (List.mem_singleton_self t))
  rw [hstack, List.filter_append, hkept]
  simp

/-! ## Changing an entry -/

theorem isUnderWay_update (r : Registry) (t u : Ticket) (f : ModuleState → ModuleState) :
    (r.update t f).isUnderWay u
      = if t = u then (r.find? u).any fun e => (f e.toModuleState).phase ≠ .closed
        else r.isUnderWay u := by
  unfold isUnderWay
  rw [find?_update]
  split
  · rw [Option.any_map]
    rfl
  · rfl

/-- A change of a module's state that keeps its phase keeps it under way. -/
theorem isUnderWay_update_of_phase {f : ModuleState → ModuleState}
    (hf : ∀ s, (f s).phase = s.phase) (u : Ticket) :
    (r.update t f).isUnderWay u = r.isUnderWay u := by
  rw [isUnderWay_update]
  simp only [hf]
  exact ite_self _

/-- A move to a phase that is not the last keeps a module under way. -/
theorem isUnderWay_move {e : ModuleEntry} {p : Phase} (he : r.find? t = some e)
    (hphase : e.phase ≠ .closed) (hp : p ≠ .closed) (u : Ticket) :
    (r.update t fun s => { s with phase := p }).isUnderWay u = r.isUnderWay u := by
  rw [isUnderWay_update]
  split
  · next h =>
    subst h
    simp [isUnderWay, he, hphase, hp]
  · rfl

/-- The last move of a module takes it off the list. -/
theorem underWay_move_closed (r : Registry) (t : Ticket) :
    (r.update t fun s => { s with phase := .closed }).underWay
      = r.underWay.filter fun x => x.2 ≠ t := by
  unfold underWay
  rw [opened_update, List.filter_filter]
  refine List.filter_congr fun x _ => ?_
  rw [isUnderWay_update]
  by_cases h : t = x.2
  · simp [h]
  · simp [h, Ne.symm h]

theorem InOrder.update (h : r.InOrder) (f : ModuleState → ModuleState) : (r.update t f).InOrder := h

/-! ## Opening -/

theorem entries_opened_add {e : ModuleEntry} (hname : r.opened.get? e.module = none) :
    (r.add e).opened.entries = r.opened.entries ++ [(e.module, r.entries.length)] :=
  Entries.keys_insert_of_not_mem (Entries.not_mem_keys_of_get? hname)

/-- **A module that is opened is the last of those under way.** -/
theorem underWay_add {e : ModuleEntry} (hname : r.opened.get? e.module = none)
    (hphase : e.phase ≠ .closed) :
    (r.add e).underWay = r.underWay ++ [(e.module, r.entries.length)] := by
  unfold underWay
  rw [entries_opened_add hname, List.filter_append]
  congr 1
  · refine List.filter_congr fun x hx => ?_
    have hlt := lt_length_of_opened (OrderedMap.mem_entries_iff.mp hx)
    rw [isUnderWay, isUnderWay, find?_add, if_neg (Nat.ne_of_lt hlt)]
  · have hnew : (r.add e).isUnderWay r.entries.length = true :=
      isUnderWay_iff.mpr ⟨e, by rw [find?_add, if_pos rfl], hphase⟩
    simp [hnew]

theorem InOrder.add {e : ModuleEntry} (h : r.InOrder) (hname : r.opened.get? e.module = none) :
    (r.add e).InOrder := by
  unfold InOrder OrderedMap.values
  rw [entries_opened_add hname, List.map_append, List.pairwise_append]
  refine ⟨h, List.pairwise_singleton .., fun t ht u hu => ?_⟩
  obtain ⟨x, hx, rfl⟩ := List.mem_map.mp ht
  obtain rfl := List.mem_singleton.mp hu
  exact lt_length_of_opened (OrderedMap.mem_entries_iff.mp hx)

/-! ## Closing -/

/-- Closing takes away what is open under the ticket. -/
theorem entries_opened_close (r : Registry) (t : Ticket) :
    (r.close t).opened.entries = r.opened.entries.filter fun x => x.2 ≠ t := by
  have hopened {x : String × Ticket} (hx : x ∈ r.opened.entries) :
      r.opened.get? x.1 = some x.2 := OrderedMap.mem_entries_iff.mp hx
  -- what is open under the ticket has the name of its entry
  have hnamed {x : String × Ticket} (hx : x ∈ r.opened.entries) (ht : x.2 = t) :
      ∃ e, r.find? t = some e ∧ e.module = x.1 := find?_of_opened (ht ▸ hopened hx)
  have hkept (hnone : ∀ x ∈ r.opened.entries, x.2 ≠ t) :
      r.opened.entries = r.opened.entries.filter fun x => x.2 ≠ t :=
    (List.filter_eq_self.mpr fun x hx => decide_eq_true (hnone x hx)).symm
  unfold close
  cases he : r.find? t with
  | none =>
    refine hkept fun x hx ht => ?_
    obtain ⟨_, he', -⟩ := hnamed hx ht
    cases he.symm.trans he'
  | some e =>
    have hmodule {x : String × Ticket} (hx : x ∈ r.opened.entries) (ht : x.2 = t) :
        e.module = x.1 := by
      obtain ⟨e', he', hm⟩ := hnamed hx ht
      obtain rfl := Option.some.inj (he.symm.trans he')
      exact hm
    by_cases hown : r.opened.get? e.module = some t
    · simp only [hown, if_true, opened_update]
      refine List.filter_congr fun x hx => decide_eq_decide.mpr ⟨fun hne ht => ?_, fun hne h => ?_⟩
      · exact hne (hmodule hx ht).symm
      · exact hne (Option.some.inj ((hopened hx).symm.trans (h ▸ hown)))
    · simp only [hown, if_false, opened_update]
      exact hkept fun x hx ht => hown (by rw [hmodule hx ht, hopened hx, ht])

theorem isUnderWay_close (r : Registry) (t u : Ticket) :
    (r.close t).isUnderWay u = r.isUnderWay u := by
  unfold isUnderWay
  rw [find?_close]
  split
  · rw [Option.any_map]
    rfl
  · rfl

/-- **A module that is closed is not under way any more**, and the others are as they were. -/
theorem underWay_close (r : Registry) (t : Ticket) :
    (r.close t).underWay = r.underWay.filter fun x => x.2 ≠ t := by
  unfold underWay
  rw [entries_opened_close, List.filter_filter, List.filter_filter]
  refine List.filter_congr fun x _ => ?_
  rw [isUnderWay_close, Bool.and_comm]

theorem InOrder.close (h : r.InOrder) (t : Ticket) : (r.close t).InOrder := by
  unfold InOrder OrderedMap.values
  rw [entries_opened_close]
  exact h.sublist (List.filter_sublist.map _)

end Registry
end ModuleBuild
