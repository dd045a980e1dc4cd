import ModuleBuild.Proofs.Compile.Reports

/-! # Modules that stay open

When a module is closed it makes its last move, of which observers are told, and only then is its
entry closed.  If the observer fails at that move, and it cannot be said why or the receiver of the
warning fails as well, the entry is not closed any more: the module stays open in its last phase
(`Host.BreaksClosing`).  Those are the only ways (`closes_of_compile`): wherever else observers and
the receiver fail, and whatever bodies and hooks do, a module that was opened is closed.
-/
namespace ModuleBuild

open Run

/-- A log ends with the last move of a module, at which its observer failed, and the host broke off
what was to come then. -/
inductive Host.BreaksClosing (host : Host) (m : String) : List Event → Prop where
  /-- It cannot be said why the observer failed. -/
  | unsaid (before : List Event) (p : Phase) (f : Failure)
      (hobserve : host.observe (before ++ [.moved m (p, .closed)]) = some f)
      (hwords : ¬ f.HasWords) :
      BreaksClosing host m (before ++ [.moved m (p, .closed)])
  /-- The receiver of the warning that the observer failed has failed as well. -/
  | unheard (before : List Event) (p : Phase) (d : Diagnostic)
      (hobserve : (host.observe (before ++ [.moved m (p, .closed)])).isSome = true)
      (hwarn : (host.warn (before ++ [.moved m (p, .closed), .warned m d])).isSome = true) :
      BreaksClosing host m (before ++ [.moved m (p, .closed), .warned m d])

namespace World

/-- The module that was opened under a ticket is closed: its name is not open, and its stores are
gone. -/
structure HasClosed (m : String) (t : Ticket) (w : World) : Prop where
  name : w.registry.opened.get? m = none
  stores : ∃ e, w.registry.find? t = some e ∧ e.HasNoStores

/-- The module that was opened under a ticket is open in some phase. -/
structure HasOpen (m : String) (t : Ticket) (p : Phase) (w : World) : Prop where
  name : w.registry.opened.get? m = some t
  entry : w.OpenIn t p

/-- The module is closed, unless the host broke that off. -/
def HasEnded (host : Host) (m : String) (t : Ticket) (w : World) : Prop :=
  w.HasClosed m t ∧ ¬ host.BreaksClosing m w.log ∨
    w.HasOpen m t .closed ∧ host.BreaksClosing m w.log

end World

/-- Nothing was broken off if observers were told of the closing. -/
theorem not_breaksClosing {host : Host} {m : String} (log : List Event) (fulfilled : Bool)
    (d : Option Diagnostic) :
    ¬ host.BreaksClosing m (log ++ .closed m fulfilled :: d.toList.map (.warned m)) := by
  generalize hlog : log ++ .closed m fulfilled :: d.toList.map (.warned m) = ended
  intro hbreaks
  -- the two logs differ in the last event, or in the one before
  have hback := congrArg List.reverse hlog
  cases hbreaks <;> cases d <;> simp at hback

namespace Engine

variable {g : Engine} {o : Opening} {w w₁ : World} {p : Phase}

/-! ## Closing -/

/-- An entry that is closed is gone. -/
theorem hasClosed_close (hname : w.registry.opened.get? o.scope.module = some o.scope.ticket)
    {e : ModuleEntry} (he : w.registry.find? o.scope.ticket = some e) (log : List Event) :
    World.HasClosed o.scope.module o.scope.ticket
      { w with registry := w.registry.close o.scope.ticket, log } := by
  refine ⟨Option.eq_none_iff_forall_ne_some.mpr fun t ht => ?_, e.destroy, ?_,
    e.hasNoStores_destroy⟩
  · obtain ⟨ht, hne⟩ := (Registry.get?_opened_close ..).mp ht
    exact hne (Option.some.inj (ht.symm.trans hname))
  · simp only [Registry.find?_close, if_true, he, Option.map_some]

/-- The last move of a module returns, or the host breaks the closing off at it. -/
theorem lastMove_cases (g : Engine) (o : Opening) (p : Phase) (w : World) :
    let closing (log : List Event) : World := { w with
      registry := w.registry.update o.scope.ticket fun s => { s with phase := .closed }, log }
    (∃ log, g.move o (p, .closed) w = (.ok (), closing log)) ∨
      ∃ f log, g.move o (p, .closed) w = (.error (.failed f), closing log) ∧
        g.host.BreaksClosing o.scope.module log := by
  intro closing
  let told : Event := .moved o.scope.module (p, .closed)
  have hmove : g.move o (p, .closed) w
      = notify g.host "onPhase" o.scope.module o.location told (closing w.log) := rfl
  rw [hmove, notify_apply]
  simp only [closing]
  cases hunsaid : g.host.wordless? (w.log ++ [told]) with
  | some e =>
    obtain ⟨f, hobserve, hf⟩ := Host.wordless?_eq_some_iff.mp hunsaid
    exact .inr ⟨e, _, rfl, .unsaid w.log p f hobserve (Failure.not_hasWords_iff.mpr ⟨e, hf⟩)⟩
  | none =>
    cases hreport : g.host.report? "onPhase" o.scope.module o.location (w.log ++ [told]) with
    | none => exact .inl ⟨_, rfl⟩
    | some d =>
      simp only [warn_apply, List.append_assoc, List.cons_append, List.nil_append]
      cases hwarn : g.host.warn (w.log ++ [told, .warned o.scope.module d]) with
      | none => exact .inl ⟨_, rfl⟩
      | some f =>
        obtain ⟨f', hobserve, -⟩ := Option.bind_eq_some_iff.mp hreport
        exact .inr ⟨f, _, rfl, .unheard w.log p d (Option.isSome_iff_exists.mpr ⟨f', hobserve⟩)
          (Option.isSome_iff_exists.mpr ⟨f, hwarn⟩)⟩

/-- **A module that is open is closed**, unless the host breaks that off at the last move. -/
theorem hasEnded_closeModule (fulfilled : Bool)
    (hopen : w.HasOpen o.scope.module o.scope.ticket p) :
    (g.closeModule o fulfilled w).2.HasEnded g.host o.scope.module o.scope.ticket := by
  obtain ⟨hname, e, he, rfl, hlive⟩ := hopen
  have hlast {w : World} {e : ModuleEntry}
      (hname : w.registry.opened.get? o.scope.module = some o.scope.ticket)
      (he : w.registry.find? o.scope.ticket = some e) :
      ((do
        modify fun w : World => { w with registry := w.registry.close o.scope.ticket }
        notify g.host "onModuleClose" o.scope.module o.location
          (.closed o.scope.module fulfilled) : Run Unit) w).2.HasEnded
        g.host o.scope.module o.scope.ticket := by
    rw [bind_apply, modify_apply]
    simp only [world_notify]
    exact .inl ⟨hasClosed_close hname he _, not_breaksClosing _ _ _⟩
  unfold closeModule
  rw [bind_apply, entry_apply, he]
  cases hclose : e.phase.close? with
  | none =>
    simp only [hclose]
    exact hlast hname he
  | some m =>
    obtain rfl := Phase.eq_of_close? hclose
    simp only [hclose, bind_apply]
    have hmoved (log : List Event) : World.OpenIn o.scope.ticket .closed { w with
        registry := w.registry.update o.scope.ticket fun s => { s with phase := .closed }, log } :=
      .update he rfl ⟨hlive.attributes, hlive.definitions⟩
    rcases lastMove_cases g o e.phase w with ⟨log, hmove⟩ | ⟨f, log, hmove, hbreaks⟩
    · rw [hmove]
      obtain ⟨e', he', -⟩ := hmoved log
      exact hlast hname he'
    · rw [hmove]
      exact .inr ⟨⟨hname, hmoved log⟩, hbreaks⟩

/-! ## From opening to closing -/

/-- **An opened module that lived is still open**, however its life ended. -/
theorem leads_live_open {evaluate : EvaluateBody} {thrown : Failure → Prop}
    (hown : w₁.registry.opened.get? o.scope.module = some o.scope.ticket)
    (hentry : w₁.OpenIn o.scope.ticket .evaluating)
    (hthrown : ∀ f, g.host.Throws f → thrown f)
    (hskirts : g.FiresWithin o.scope World.Skirts)
    (hevaluate : ∀ env, Within World.Skirts (evaluate env o.scope))
    (habides : g.FiresAbiding)
    (hbody : ∀ env, Abides (Failure.Points thrown) o.scope.ticket (evaluate env o.scope)) :
    Leads (· = w₁) (g.live o evaluate)
      (fun _ w => ∃ p, w.HasOpen o.scope.module o.scope.ticket p)
      fun _ w => ∃ p, w.HasOpen o.scope.module o.scope.ticket p := by
  have hspeaks := leads_live_speaking hown hskirts hevaluate
  have hlive : Leads (· = w₁) (g.live o evaluate)
      (fun _ => World.OpenIn o.scope.ticket .afterHooks) (Faulty thrown o.scope.ticket) := by
    rintro w rfl
    exact leads_live hthrown habides hbody w hentry
  refine (hspeaks.and hlive).mono (fun c w h => ?_) fun f w h => ?_
  · obtain ⟨⟨_, -, hspeaks⟩, hopen⟩ := h
    exact ⟨_, hspeaks.own, hopen⟩
  · obtain ⟨⟨_, hspeaks⟩, -, p, hopen⟩ := h
    exact ⟨p, hspeaks.own, hopen⟩

/-- Concluding the life of a module leads where closing it leads, once the observer has been told of
a failure. -/
theorem leads_conclude {pre err : World → Prop}
    (htold : ∀ w, pre w → ∀ f (d : Option Diagnostic), pre { w with
      log := w.log ++ .failed o.scope.module f :: d.toList.map (.warned o.scope.module) })
    (hclose : ∀ fulfilled, Leads pre (g.closeModule o fulfilled) (fun _ => err) fun _ => err)
    (outcome : Except Failure CompiledModule) :
    Leads pre (g.conclude o outcome) (fun _ => err) fun _ => err := by
  cases outcome with
  | ok c => exact leads_bind (hclose true) fun _ => leads_pure fun _ hw => hw
  | error f =>
    have hreject : Leads pre (g.reject (α := CompiledModule) o f) (fun _ _ => False)
        fun _ => pre := by
      refine leads_bind (leads_of_world fun w hw => ?_) fun _ => leads_fail fun _ hw => hw
      rw [world_notify]
      exact htold w hw _ _
    refine leads_bind (leads_attempt hreject) fun rejected => ?_
    cases rejected with
    | ok c => exact fun _ hw => hw.elim
    | error f' => exact leads_bind (hclose false) fun _ => leads_fail fun _ hw => hw

/-- **What becomes of an open module when its life is over**: it is closed, or the host breaks
that off. -/
theorem leads_conclude_ended (outcome : Except Failure CompiledModule) :
    Leads (fun w => ∃ p, w.HasOpen o.scope.module o.scope.ticket p) (g.conclude o outcome)
      (fun _ w => w.HasEnded g.host o.scope.module o.scope.ticket)
      fun _ w => w.HasEnded g.host o.scope.module o.scope.ticket :=
  leads_conclude (fun _ ⟨p, hname, hentry⟩ _ _ => ⟨p, hname, hentry⟩)
    (fun fulfilled => leads_of_world fun _ ⟨_, hw⟩ => hasEnded_closeModule fulfilled hw) outcome

/-- **A compilation that opened its module has closed it**, unless the host broke that off. -/
theorem ended_of_compile {evaluate : EvaluateBody} {thrown : Failure → Prop} {name : String}
    {env : CompileEnv} (hthrown : ∀ f, g.host.Throws f → thrown f)
    (hskirts : ∀ scope, g.FiresWithin scope World.Skirts)
    (hevaluate : ∀ env scope, Within World.Skirts (evaluate env scope))
    (habides : g.FiresAbiding)
    (hbody : ∀ env (scope : ModuleScope),
      Abides (Failure.Points thrown) scope.ticket (evaluate env scope))
    (hopen : g.openModule name env w = (.ok o, w₁))
    (hsettles : (g.compile name env evaluate w).1 ≠ .error .exhausted) :
    (g.compile name env evaluate w).2.HasEnded g.host name o.scope.ticket := by
  rcases openModule_cases g name env w with ⟨f, ds, hopen', -⟩ | ⟨-, hopen'⟩
  · rw [hopen'] at hopen
    cases hopen
  · obtain ⟨ho, hw₁⟩ := Prod.mk.inj (hopen'.symm.trans hopen)
    cases ho
    have hregistry : w₁.registry = w.registry.add (g.newEntry name env w) := by rw [← hw₁]
    have hlived := leads_live_open (o := g.opening name env w)
      (hregistry ▸ g.get?_opened_opening name env w) (openIn_opening hregistry) hthrown
      (hskirts _) (fun env => hevaluate env _) habides fun env => hbody env _
    have hfinish : Leads (· = w₁) (g.finish (g.opening name env w) evaluate)
        (fun _ w' => w'.HasEnded g.host name (g.opening name env w).scope.ticket)
        fun _ w' => w'.HasEnded g.host name (g.opening name env w).scope.ticket := by
      rw [finish_eq]
      refine leads_bind (leads_attempt hlived) fun outcome => ?_
      have hconclude := leads_conclude_ended (g := g) (o := g.opening name env w) outcome
      cases outcome with
      | ok c => exact hconclude
      | error f => exact hconclude
    unfold compile at hsettles ⊢
    rw [bind_apply, hopen] at hsettles ⊢
    exact hfinish.of_settles rfl hsettles

end Engine
end ModuleBuild
