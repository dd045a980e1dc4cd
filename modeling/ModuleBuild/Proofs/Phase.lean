import ModuleBuild.Phase

/-! # The order of phases

Phases follow each other one by one (`place_of_next?`), and the way to a phase is the same
for all modules (`route`).
-/
namespace ModuleBuild
namespace Phase

/-- The place of a phase in the order of phases. -/
def place : Phase → Nat
  | evaluating => 0
  | beforeHooks => 1
  | assembling => 2
  | building => 3
  | afterHooks => 4
  | closed => 5

/-- The moves that lead from the first phase to a phase, one step at a time. -/
def route (p : Phase) : List Move := (all.zip all.tail).take p.place

variable {p q : Phase}

theorem place_le_closed (p : Phase) : p.place ≤ closed.place := by cases p <;> decide

theorem place_of_next? (h : p.next? = some q) : q.place = p.place + 1 := by
  cases p <;> cases h <;> rfl

theorem route_of_next? (h : p.next? = some q) : q.route = p.route ++ [(p, q)] := by
  cases p <;> cases h <;> rfl

theorem canDefine_eq_true_iff : p.canDefine = true ↔ p = evaluating ∨ p = beforeHooks := by
  cases p <;> simp [canDefine]

/-- Once definitions are closed they stay closed. -/
theorem canDefine_of_place_le (hp : p.canDefine = false) (h : p.place ≤ q.place) :
    q.canDefine = false := by
  cases p <;> cases q <;> simp_all [canDefine, place]

theorem next?_of_advance {module : String} {target : Phase} {m : Move}
    (h : p.advance module target = .ok m) : p.next? = some m.2 := by
  unfold advance at h
  split at h
  · next hnext =>
    cases h
    exact hnext
  · cases h

theorem target_of_advance {module : String} {target : Phase} {m : Move}
    (h : p.advance module target = .ok m) : m.2 = target := by
  unfold advance at h
  split at h <;> cases h
  rfl

/-- The last move leads to the end from the phase it is made in. -/
theorem eq_of_close? {m : Move} (h : p.close? = some m) : m = (p, closed) := by
  unfold close? at h
  split at h
  · cases h
  · exact (Option.some.inj h).symm

end Phase
end ModuleBuild
