import ModuleBuild.Compile.Pipeline

/-! # Runs within a relation of worlds

What a run may do to the world is stated by a relation between the world it starts
in and the world it leaves.  A run is *within* the relation if it relates the two
whenever it settles, with a result or with a failure; nothing is said of a run that
is exhausted.  For a relation that is reflexive and transitive (`Conduct`) the
combinators of runs compose, so a law about all runs of the compiler needs to be
checked only where the world is changed.
-/
namespace ModuleBuild

/-- A relation that any number of steps stays in. -/
structure Conduct (R : World → World → Prop) : Prop where
  refl : ∀ w, R w w
  trans : ∀ {w₁ w₂ w₃}, R w₁ w₂ → R w₂ w₃ → R w₁ w₃

/-- The warning that the observer told of the last event has failed, if it has and it can be said
why. -/
def Host.report? (host : Host) (callback module : String) (location : Location)
    (log : List Event) : Option Diagnostic :=
  (host.observe log).bind fun f => f.describe.toOption.map fun reason =>
    { code := .observerFailed, location
      context := [("callback", callback), ("module", module), ("reason", reason)] }

/-- What the attempt to say why the observer told of the last event has failed fails with, if it
does. -/
def Host.wordless? (host : Host) (log : List Event) : Option Failure :=
  (host.observe log).bind fun f =>
    match f.describe with
    | .ok _ => none
    | .error e => some e

theorem Host.wordless?_eq_some_iff {host : Host} {log : List Event} {e : Failure} :
    host.wordless? log = some e ↔ ∃ f, host.observe log = some f ∧ f.describe = .error e := by
  refine Option.bind_eq_some_iff.trans (exists_congr fun f => and_congr_right fun _ => ?_)
  cases f.describe <;> simp

/-- There is no warning of a failure that cannot be described. -/
theorem Host.report?_of_wordless {host : Host} {callback m : String} {l : Location}
    {log : List Event} {e : Failure} (h : host.wordless? log = some e) :
    host.report? callback m l log = none := by
  obtain ⟨f, hf, he⟩ := wordless?_eq_some_iff.mp h
  rw [report?, hf, Option.bind_some, he]
  rfl

theorem Host.code_of_mem_report? {host : Host} {callback m : String} {l : Location}
    {log : List Event} {d : Diagnostic} (h : d ∈ host.report? callback m l log) :
    d.code = .observerFailed := by
  obtain ⟨_, -, h⟩ := Option.bind_eq_some_iff.mp h
  obtain ⟨_, -, rfl⟩ := Option.map_eq_some_iff.mp h
  rfl

namespace Run

variable {α β : Type} {R S : World → World → Prop}

/-- The run relates the worlds it starts in to those it leaves, when it settles. -/
def Within (R : World → World → Prop) (r : Run α) : Prop :=
  ∀ w, (r w).1 ≠ .error .exhausted → R w (r w).2

/-- The run started in `w` settles: it ends with a result or a failure. -/
def SettlesAs (r : Run α) (w : World) (outcome : Except Failure α) (w' : World) : Prop :=
  r w = (outcome.mapError .failed, w')

/-- A run that is not exhausted settles. -/
theorem exists_settlesAs {r : Run α} {w : World} (h : (r w).1 ≠ .error .exhausted) :
    ∃ outcome w', r.SettlesAs w outcome w' := by
  rcases hrun : r w with ⟨(f | _) | a, w'⟩
  · exact ⟨.error f, w', hrun⟩
  · rw [hrun] at h
    exact (h rfl).elim
  · exact ⟨.ok a, w', hrun⟩

theorem SettlesAs.of_ok {r : Run α} {w w₁ w₂ : World} {outcome : Except Failure α} {a : α}
    (h : r.SettlesAs w outcome w₁) (hr : r w = (.ok a, w₂)) : outcome = .ok a ∧ w₁ = w₂ := by
  obtain ⟨houtcome, rfl⟩ := Prod.mk.inj (h.symm.trans hr)
  cases outcome <;> cases houtcome
  exact ⟨rfl, rfl⟩

theorem SettlesAs.of_error {r : Run α} {w w₁ w₂ : World} {outcome : Except Failure α} {f : Failure}
    (h : r.SettlesAs w outcome w₁) (hr : r w = (.error (.failed f), w₂)) :
    outcome = .error f ∧ w₁ = w₂ := by
  obtain ⟨houtcome, rfl⟩ := Prod.mk.inj (h.symm.trans hr)
  cases outcome <;> cases houtcome
  exact ⟨rfl, rfl⟩

theorem SettlesAs.ne_exhausted {r : Run α} {w w' : World} {outcome : Except Failure α}
    (h : r.SettlesAs w outcome w') : (r w).1 ≠ .error .exhausted := by
  rw [h]
  cases outcome <;> nofun

/-! ## How combinators run -/

theorem bind_apply (x : Run α) (f : α → Run β) (w : World) :
    (x >>= f) w = match x w with
      | (.ok a, w') => f a w'
      | (.error e, w') => (.error e, w') := by
  change (ExceptT.bind x f) w = _
  simp only [ExceptT.bind, ExceptT.mk, ExceptT.bindCont, bind, StateT.bind]
  rcases x w with ⟨_ | _, _⟩ <;> rfl

theorem bind_apply_eq_ok {x : Run α} {f : α → Run β} {w w' : World} {b : β} :
    (x >>= f) w = (.ok b, w') ↔ ∃ a w₁, x w = (.ok a, w₁) ∧ f a w₁ = (.ok b, w') := by
  rw [bind_apply]
  rcases x w with ⟨_ | a, w₁⟩
  · exact ⟨nofun, fun ⟨_, _, h, _⟩ => nomatch h⟩
  · exact ⟨fun h => ⟨a, w₁, rfl, h⟩, fun ⟨_, _, h, hf⟩ => by cases h; exact hf⟩

theorem get_apply (w : World) : (get : Run World) w = (.ok w, w) := rfl

theorem modify_apply (f : World → World) (w : World) :
    (modify f : Run Unit) w = (.ok (), f w) := rfl

theorem emit_apply (e : Event) (answer : List Event → α) (w : World) :
    emit e answer w = (.ok (answer (w.log ++ [e])), { w with log := w.log ++ [e] }) := rfl

/-- A warning is logged, whether or not its receiver fails. -/
theorem warn_apply (host : Host) (m : String) (d : Diagnostic) (w : World) :
    warn host m d w = (match host.warn (w.log ++ [.warned m d]) with
      | some f => .error (.failed f)
      | none => .ok (), { w with log := w.log ++ [.warned m d] }) := by
  unfold warn
  rw [bind_apply, emit_apply]
  cases host.warn (w.log ++ [.warned m d]) <;> rfl

/-- Telling an observer logs the event, and a warning if the observer fails; if it cannot be said
why, telling it fails. -/
theorem notify_apply (host : Host) (callback m : String) (l : Location) (e : Event) (w : World) :
    notify host callback m l e w = match host.wordless? (w.log ++ [e]) with
      | some f => (.error (.failed f), { w with log := w.log ++ [e] })
      | none => match host.report? callback m l (w.log ++ [e]) with
        | some d => warn host m d { w with log := w.log ++ [e] }
        | none => (.ok (), { w with log := w.log ++ [e] }) := by
  unfold notify Host.wordless? Host.report?
  rw [bind_apply, emit_apply]
  cases host.observe (w.log ++ [e]) with
  | none => rfl
  | some f =>
    simp only [Option.bind_some]
    cases f.describe <;> rfl

/-- Nothing but the log changes, whether or not the observer and the receiver fail. -/
theorem world_notify (host : Host) (callback m : String) (l : Location) (e : Event) (w : World) :
    (notify host callback m l e w).2 = { w with
      log := w.log ++ e :: (host.report? callback m l (w.log ++ [e])).toList.map (.warned m) } := by
  rw [notify_apply]
  cases hwordless : host.wordless? (w.log ++ [e]) with
  | some f =>
    rw [Host.report?_of_wordless hwordless]
    rfl
  | none =>
    cases host.report? callback m l (w.log ++ [e]) with
    | none => rfl
    | some d =>
      simp only [warn_apply, List.append_assoc]
      rfl

theorem entry_apply (s : ModuleScope) (w : World) :
    entry s w = match w.registry.find? s.ticket with
      | some e => (.ok e, w)
      | none => (.error (.failed (.ofProblem { condition := .moduleNotOpen s.module })), w) := by
  unfold entry
  rw [bind_apply, get_apply]
  simp only
  cases w.registry.find? s.ticket <;> rfl

theorem attributes_apply {s : ModuleScope} {w : World} {e : ModuleEntry} {t : AttributeTable}
    (he : w.registry.find? s.ticket = some e) (ht : e.attributes.table = some t) :
    attributes s w = (.ok t, w) := by
  unfold attributes
  rw [bind_apply, entry_apply, he]
  simp only [AttributeStore.live, ht]
  rfl

theorem attributes_apply_of_none {s : ModuleScope} {w : World} {e : ModuleEntry}
    (he : w.registry.find? s.ticket = some e) (ht : e.attributes.table = none) :
    attributes s w = (.error (.failed (.ofProblem
      { condition := .moduleNotOpen e.attributes.module })), w) := by
  unfold attributes
  rw [bind_apply, entry_apply, he]
  simp only [AttributeStore.live, ht]
  rfl

/-- A change of the attributes, where they can be read. -/
theorem changeAttributes_apply {s : ModuleScope} {w : World} {e : ModuleEntry}
    {t : AttributeTable} (he : w.registry.find? s.ticket = some e)
    (ht : e.attributes.table = some t)
    (f : AttributeTable → Except Condition AttributeTable) :
    changeAttributes s (·.modify f) w = match f t with
      | .ok u => (.ok (), { w with registry := w.registry.update s.ticket fun state =>
          { state with attributes := { e.attributes with table := some u } } })
      | .error c => (.error (.failed (.ofProblem { condition := c })), w) := by
  unfold changeAttributes
  rw [bind_apply, entry_apply, he]
  simp only [AttributeStore.modify, AttributeStore.live, ht]
  cases hf : f t <;> simp only [bind, Except.bind, hf] <;> rfl

theorem changeAttributes_apply_of_none {s : ModuleScope} {w : World} {e : ModuleEntry}
    (he : w.registry.find? s.ticket = some e) (ht : e.attributes.table = none)
    (f : AttributeTable → Except Condition AttributeTable) :
    changeAttributes s (·.modify f) w = (.error (.failed (.ofProblem
      { condition := .moduleNotOpen e.attributes.module })), w) := by
  unfold changeAttributes
  rw [bind_apply, entry_apply, he]
  simp only [AttributeStore.modify, AttributeStore.live, ht]
  rfl

/-- The attributes of a module can be read while the module has an entry that is not
destroyed. -/
theorem attributes_cases (s : ModuleScope) (w : World) :
    (∃ e t, w.registry.find? s.ticket = some e ∧ e.attributes.table = some t ∧
        attributes s w = (.ok t, w)) ∨
      ∃ m, attributes s w
        = (.error (.failed (.ofProblem { condition := .moduleNotOpen m })), w) := by
  cases he : w.registry.find? s.ticket with
  | none =>
    refine .inr ⟨s.module, ?_⟩
    unfold attributes
    rw [bind_apply, entry_apply, he]
  | some e =>
    cases ht : e.attributes.table with
    | none => exact .inr ⟨_, attributes_apply_of_none he ht⟩
    | some t => exact .inl ⟨e, t, rfl, ht, attributes_apply he ht⟩

theorem attempt_eq_ok {r : Run α} {w w' : World} {a : α} (h : attempt r w = (.ok (.ok a), w')) :
    r w = (.ok a, w') := by
  unfold attempt at h
  rcases hrun : r w with ⟨(f | _) | b, w₁⟩
  · rw [hrun] at h
    cases h
  · rw [hrun] at h
    cases h
  · rw [hrun] at h
    cases h
    rfl

/-- An attempt stops only if it is exhausted. -/
theorem exhausted_of_attempt_error {r : Run α} {w w' : World} {e : Stop}
    (h : attempt r w = (.error e, w')) : e = .exhausted := by
  unfold attempt at h
  split at h <;> cases h
  rfl

/-! ## Rules -/

theorem Within.mono {r : Run α} (h : Within R r) (hRS : ∀ w w', R w w' → S w w') :
    Within S r :=
  fun w hw => hRS _ _ (h w hw)

theorem Within.of_ok {r : Run α} (h : Within R r) {w w' : World} {a : α}
    (hr : r w = (.ok a, w')) : R w w' := by
  have hw := h w
  rw [hr] at hw
  exact hw nofun

theorem within_attempt {r : Run α} (hr : Within R r) : Within R (attempt r) := by
  intro w
  have hw := hr w
  unfold attempt
  rcases hrun : r w with ⟨(e | a), w'⟩
  · rw [hrun] at hw
    cases e with
    | failed f => exact fun _ => hw fun h => nomatch h
    | exhausted => exact fun hne => (hne rfl).elim
  · rw [hrun] at hw
    exact fun _ => hw fun h => nomatch h

theorem within_modify {f : World → World} (h : ∀ w, R w (f w)) :
    Within R (modify f : Run Unit) :=
  fun w _ => h w

section Rules

variable (hR : Conduct R)
include hR

/-- A run that changes nothing is within every conduct. -/
theorem within_of_unchanged {r : Run α} (h : ∀ w, (r w).2 = w) : Within R r := by
  intro w _
  rw [h]
  exact hR.refl w

theorem within_pure (a : α) : Within R (pure a) := within_of_unchanged hR fun _ => rfl

theorem within_fail (f : Failure) : Within R (fail f : Run α) :=
  within_of_unchanged hR fun _ => rfl

theorem within_get : Within R (get : Run World) := within_of_unchanged hR fun _ => rfl

/-- What goes on from a run that relates the worlds it starts in here and ends in. -/
theorem within_bind_of {x : Run α} {f : α → Run β} {w : World}
    (hx : (x w).1 ≠ .error .exhausted → R w (x w).2) (hf : ∀ a, Within R (f a)) :
    ((x >>= f) w).1 ≠ .error .exhausted → R w ((x >>= f) w).2 := by
  rw [bind_apply]
  rcases hrun : x w with ⟨(e | a), w'⟩
  · simp only [hrun] at hx ⊢
    intro hne
    exact hx fun h => hne (by cases h; rfl)
  · -- the first run has settled, and the second goes on from the world it left
    simp only [hrun] at hx ⊢
    intro hne
    exact hR.trans (hx (fun h => nomatch h)) (hf a w' hne)

theorem within_bind {x : Run α} {f : α → Run β} (hx : Within R x) (hf : ∀ a, Within R (f a)) :
    Within R (x >>= f) :=
  fun w => within_bind_of hR (hx w) hf

end Rules
end Run
end ModuleBuild
