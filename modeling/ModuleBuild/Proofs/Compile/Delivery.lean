import ModuleBuild.Proofs.Compile.Fulfilled

/-! # Handing artifacts over

If the host lets artifacts be delivered, what an opened module has made of itself reaches the
session and is loaded (`handOver_returns`), and nothing after that fails: a compilation
delivers its artifact exactly if it is fulfilled.

What a fulfilled compilation warns of is that its name was loaded already, if it was, and then
what its assembly warns of (`warnings_of_compile`).
-/
namespace ModuleBuild

open Run

/-- The host lets artifacts be delivered: what observers fail with is reported, the listener
returns, and modules are loaded into the code session. -/
structure Host.LetsDeliver (host : Host) : Prop where
  reports : host.ReportsReturn
  listener : ∀ listener, host.listener = some listener → ∀ log, listener log = none
  loader : host.loader = none

/-! ## Closings -/

/-- The modules that were closed after they had been compiled, in order. -/
def fulfilledIn (es : List Event) : List String :=
  es.filterMap fun
    | .closed m true => some m
    | _ => none

@[simp] theorem fulfilledIn_append (es es' : List Event) :
    fulfilledIn (es ++ es') = fulfilledIn es ++ fulfilledIn es' :=
  List.filterMap_append ..

theorem fulfilledIn_eq_nil {es : List Event} (h : ∀ e ∈ es, e.isClosing = false) :
    fulfilledIn es = [] := by
  refine List.filterMap_eq_nil_iff.mpr fun e he => ?_
  have hclosing := h e he
  cases e with
  | closed => cases hclosing
  | _ => rfl

/-- Observers are told of all closings. -/
theorem fulfilledIn_observed (es : List Event) : fulfilledIn (observed es) = fulfilledIn es := by
  induction es with
  | nil => rfl
  | cons e rest ih =>
    have hone : fulfilledIn (observed [e]) = fulfilledIn [e] := by cases e <;> rfl
    rw [← List.singleton_append, observed_append, fulfilledIn_append, fulfilledIn_append, ih, hone]

theorem fulfilledIn_closingEvents (m : String) (p : Phase) (fulfilled : Bool) :
    fulfilledIn (Engine.closingEvents m p fulfilled) = if fulfilled then [m] else [] := by
  have hmoves : fulfilledIn (p.close?.toList.map (.moved m)) = [] :=
    fulfilledIn_eq_nil fun e he => by
      obtain ⟨_, -, rfl⟩ := List.mem_map.mp he
      rfl
  rw [Engine.closingEvents, fulfilledIn_append, hmoves]
  cases fulfilled <;> rfl

/-- Warnings close nothing. -/
theorem not_isClosing_of_warnings {es : List Event} (h : ∀ e ∈ es, ∃ m d, e = .warned m d) :
    ∀ e ∈ es, e.isClosing = false := by
  intro e he
  obtain ⟨m, d, rfl⟩ := h e he
  rfl

theorem fulfilledIn_warned (m : String) (ds : List Diagnostic) :
    fulfilledIn (ds.map (.warned m)) = [] :=
  fulfilledIn_eq_nil fun _ he => by
    obtain ⟨d, -, rfl⟩ := List.mem_map.mp he
    rfl

namespace Engine

variable {g : Engine} {o : Opening} {evaluate : EvaluateBody} {w w' : World}

/-! ## Delivery -/

section Delivering

variable (hhost : g.host.LetsDeliver)
include hhost

/-- **An artifact that is handed over is delivered.** -/
theorem handOver_returns (o : Opening) (value : FormResult) (m : Assembly) (a : Artifact)
    (w : World) :
    ∃ (c : CompiledModule) (es : List Event), c.artifact = a ∧
      (∀ e ∈ es, e.isClosing = false) ∧
      g.handOver o value m a w = (.ok c,
        { w with
          session := w.session.produce o.scope.module a
          code := w.code.register ⟨o.scope.module, a, .memory⟩
          log := w.log ++ es }) := by
  let c : CompiledModule :=
    { module := o.scope.module, location := o.location, artifact := a, exports := m.exports
      warnings := o.warnings ++ m.warnings, value, loaded := ⟨o.scope.module, a, .memory⟩ }
  have hnotify (w : World) : ∃ es : List Event, (∀ e ∈ es, e.isClosing = false) ∧
      Run.notify g.host "onModuleAvailable" o.scope.module o.location
        (.available o.scope.module w.session.id a.size) w
        = (.ok (), { w with log := w.log ++ es }) := by
    obtain ⟨extra, hextra, hrun⟩ := notify_returns hhost.reports "onModuleAvailable" o.scope.module
      o.location (.available o.scope.module w.session.id a.size) w
    refine ⟨.available o.scope.module w.session.id a.size :: extra, fun e he => ?_, ?_⟩
    · rcases List.mem_cons.mp he with rfl | he
      · rfl
      · exact not_isClosing_of_warnings hextra e he
    · rw [hrun, List.append_assoc]
      rfl
  have hproduce : ∃ es : List Event, (∀ e ∈ es, e.isClosing = false) ∧ g.produce o a w
      = (.ok (), { w with
          session := w.session.produce o.scope.module a, log := w.log ++ es }) := by
    unfold produce
    simp only [bind_apply, modify_apply, get_apply]
    cases hlistener : g.host.listener with
    | none =>
      exact hnotify { w with session := w.session.produce o.scope.module a }
    | some listener =>
      let told : Event := .listened o.scope.module
        (w.session.produce o.scope.module a).id o.location.file a
      obtain ⟨es, hes, hrun⟩ := hnotify { w with
        session := w.session.produce o.scope.module a, log := w.log ++ [told] }
      refine ⟨told :: es, fun e he => ?_, ?_⟩
      · rcases List.mem_cons.mp he with rfl | he
        · rfl
        · exact hes e he
      · simp only [bind_apply, emit_apply, hhost.listener listener hlistener]
        rw [List.append_assoc] at hrun
        exact hrun
  obtain ⟨es, hes, hrun⟩ := hproduce
  refine ⟨c, es, rfl, hes, ?_⟩
  unfold handOver load
  simp only [bind_apply, hrun, hhost.loader, modify_apply]
  rfl

end Delivering

/-! ## Warnings -/

theorem code_of_mem_unusedDocs {t : AttributeTable} {l : Location} {d : Diagnostic}
    (h : d ∈ t.unusedDocs l) : d.code = .docUnused ∨ d.code = .typedocUnused := by
  unfold AttributeTable.unusedDocs at h
  simp only [List.mem_append] at h
  rcases h with h | h <;> split at h <;> simp_all

/-- What an assembly warns of is documentation that nothing has taken up. -/
theorem code_of_mem_warnings {module : String} {location : Location} {attributes : AttributeTable}
    {definitions : DefinitionTable} {withDocs isInternal : Bool} {m : Assembly} {d : Diagnostic}
    (h : Assembly.ofTables module location attributes definitions withDocs isInternal = .ok m)
    (hd : d ∈ m.warnings) : d.code = .docUnused ∨ d.code = .typedocUnused := by
  unfold Assembly.ofTables at h
  split at h
  · cases h
  · obtain ⟨_, -, h⟩ := bind_eq_ok.mp h
    obtain ⟨_, -, h⟩ := bind_eq_ok.mp h
    cases h
    simp only at hd
    split at hd
    · exact code_of_mem_unusedDocs hd
    · cases hd

/-- **What a fulfilled compilation warns of**: first that its name is loaded, if it is and that is
to be reported, and then of other things. -/
theorem warnings_of_compile {name : String} {env : CompileEnv} {c : CompiledModule}
    (hfire : g.FiresWithin (g.opening name env w).scope World.Path)
    (hevaluate : ∀ inner, Within World.Path (evaluate inner (g.opening name env w).scope))
    (h : g.compile name env evaluate w = (.ok c, w')) :
    ∃ others, c.warnings = (g.opening name env w).warnings ++ others ∧
      (∀ d ∈ others, d.code ≠ .moduleRedefined) ∧
      w.log ++ (g.opening name env w).warnings.map (.warned name) <+: w'.log := by
  obtain ⟨o, w₁, w₂, hopen, hlive, hclose⟩ := compile_eq_ok h
  rcases openModule_cases g name env w with ⟨f, ds, hopen', -⟩ | ⟨hname, hopen'⟩
  · rw [hopen'] at hopen
    cases hopen
  · rw [hopen'] at hopen
    cases hopen
    obtain ⟨value, m, _, _, hprepare, -, hwarnings⟩ := live_eq_ok hlive
    obtain ⟨_, _, hm⟩ := assembled_of_prepare hprepare
    have hR := scopeConduct_path (g.opening name env w).scope.ticket
    have hlived := (hR.within_live hfire hevaluate).of_ok hlive
    have hclosed : Within World.Path (g.closeModule (g.opening name env w) true) :=
      hR.within_closeModule (fun _ => .single (.close _)) fun _ => .single (.log _)
    have hlog := World.Path.log_grows (hlived.trans (hclosed.of_ok hclose))
    refine ⟨m.warnings, hwarnings, fun d hd => ?_, hlog⟩
    rcases code_of_mem_warnings hm hd with hcode | hcode <;> rw [hcode] <;> nofun

end Engine
end ModuleBuild
