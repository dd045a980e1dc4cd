import ModuleBuild.Proofs.Compile.Delivery
import ModuleBuild.Proofs.Compile.Rejection

/-! # Warnings that are returned and warnings that are given

What is warned of on behalf of a module is of two kinds: what the compilation reports, and that
observers failed.  The receiver of warnings gets both, and the compiled module returns the first
kind only.  In the events of one life (`Reported`) the warnings of the second kind are one for each
event whose observer fails, in order (`observerWarnings`).

Code of a module says nothing of modules that are open: it compiles modules that are not, and
leaves the open ones open (`World.Skirts`).  So only the pipeline itself speaks of the module that
it compiles, and each of its steps is one event with what comes of telling it, or one warning
(`leads_finish_speaking`).
-/
namespace ModuleBuild

open Run

/-! ## Events -/

/-- The module that an event is about: the one that observers are told of, or the one that is
warned of.  That a name is loaded already is not counted, as it is said before a module is open,
and also if it cannot be opened because it is open. -/
def Event.regarded? : Event → Option String
  | .warned m d => if d.code = .moduleRedefined then none else some m
  | e => e.observed?

theorem Event.regarded?_of_isOfCode {e : Event} (h : e.isOfCode = true) : e.regarded? = none := by
  cases e with
  | opened | moved | available | failed | closed | warned => cases h
  | _ => rfl

theorem Event.regarded?_of_observed? {e : Event} {m : String} (h : e.observed? = some m) :
    e.regarded? = some m := by
  cases e with
  | warned => cases h
  | _ => exact h

/-- The callback that tells observers of an event. -/
def Event.callback : Event → String
  | .opened .. => "onModuleOpen"
  | .moved .. => "onPhase"
  | .available .. => "onModuleAvailable"
  | .failed .. => "onError"
  | .closed .. => "onModuleClose"
  | _ => ""

/-- What is warned of on behalf of an open module.  That its name is loaded is warned of before it
is open, and while it is open only for those nested in it that are refused because it is. -/
def warningsOf (m : String) (es : List Event) : List Diagnostic :=
  es.filterMap fun
    | .warned k d => if k = m ∧ d.code ≠ .moduleRedefined then some d else none
    | _ => none

/-- What is to be warned of if events follow a log: that observers of the module have failed, once
for each event that they are told of and fail at, in order. -/
def observerWarnings (host : Host) (m : String) (l : Location) :
    List Event → List Event → List Diagnostic
  | _, [] => []
  | before, e :: rest =>
    (if e.observed? = some m then (host.report? e.callback m l (before ++ [e])).toList else [])
      ++ observerWarnings host m l (before ++ [e]) rest

/-- Of some warnings those that say that an observer has failed. -/
def ofObservers (ds : List Diagnostic) : List Diagnostic :=
  ds.filter fun d => d.code = .observerFailed

/-- The other warnings. -/
def ofCompilation (ds : List Diagnostic) : List Diagnostic :=
  ds.filter fun d => d.code ≠ .observerFailed

/-- All warnings are of the compilation exactly if none is of observers. -/
theorem ofCompilation_eq_self {ds : List Diagnostic} :
    ofCompilation ds = ds ↔ ofObservers ds = [] := by
  rw [ofCompilation, ofObservers, List.filter_eq_self, List.filter_eq_nil_iff]
  exact forall₂_congr fun d _ => by simp

section Events

variable {host : Host} {m : String} {l : Location} {before es es' : List Event}
  {ds ds' : List Diagnostic}

@[simp] theorem warningsOf_append (m : String) (es es' : List Event) :
    warningsOf m (es ++ es') = warningsOf m es ++ warningsOf m es' :=
  List.filterMap_append ..

theorem observerWarnings_append (before es es' : List Event) :
    observerWarnings host m l before (es ++ es')
      = observerWarnings host m l before es ++ observerWarnings host m l (before ++ es) es' := by
  induction es generalizing before with
  | nil => simp [observerWarnings]
  | cons e rest ih => simp [observerWarnings, ih]

/-- Events that are not about a module warn of nothing on its behalf. -/
theorem warningsOf_eq_nil (h : ∀ e ∈ es, e.regarded? ≠ some m) : warningsOf m es = [] := by
  refine List.filterMap_eq_nil_iff.mpr fun e he => ?_
  have hother := h e he
  cases e with
  | warned k d =>
    refine if_neg fun ⟨hk, hd⟩ => hother ?_
    rw [Event.regarded?, if_neg hd, hk]
  | _ => rfl

/-- No observer of a module fails at events that it is not told of. -/
theorem observerWarnings_eq_nil (h : ∀ e ∈ es, e.observed? ≠ some m) (before : List Event) :
    observerWarnings host m l before es = [] := by
  induction es generalizing before with
  | nil => rfl
  | cons e rest ih =>
    obtain ⟨he, hrest⟩ := List.forall_mem_cons.mp h
    rw [observerWarnings, if_neg he, ih hrest]
    rfl

/-- What is warned of when observers are told of an event. -/
theorem warningsOf_told {e : Event} (he : e.observed? = some m) {d : Option Diagnostic}
    (hd : ∀ x ∈ d, x.code = .observerFailed) :
    warningsOf m (e :: d.toList.map (.warned m)) = d.toList := by
  have hsilent : warningsOf m [e] = [] := by
    cases e with
    | opened | moved | available | failed | closed => rfl
    | _ => cases he
  rw [← List.singleton_append, warningsOf_append, hsilent]
  cases d with
  | none => rfl
  | some x => simp [warningsOf, hd x rfl]

/-- After a log the events report some warnings on behalf of a module, and besides these warn of
the observers that fail. -/
structure Reported (host : Host) (m : String) (l : Location) (before es : List Event)
    (ds : List Diagnostic) : Prop where
  own : ofCompilation (warningsOf m es) = ds
  observers : ofObservers (warningsOf m es) = observerWarnings host m l before es

namespace Reported

theorem of_others (h : ∀ e ∈ es, e.regarded? ≠ some m) : Reported host m l before es [] where
  own := by
    rw [warningsOf_eq_nil h]
    rfl
  observers := by
    rw [warningsOf_eq_nil h, observerWarnings_eq_nil]
    · rfl
    · exact fun e he hm => h e he (Event.regarded?_of_observed? hm)

theorem append (h : Reported host m l before es ds)
    (h' : Reported host m l (before ++ es) es' ds') :
    Reported host m l before (es ++ es') (ds ++ ds') where
  own := by rw [warningsOf_append, ofCompilation, List.filter_append, ← h.own, ← h'.own]; rfl
  observers := by
    rw [warningsOf_append, ofObservers, List.filter_append, observerWarnings_append,
      ← h.observers, ← h'.observers]
    rfl

/-- Telling observers of an event reports nothing. -/
theorem of_event {e : Event} (he : e.observed? = some m) (before : List Event) :
    Reported host m l before
      (e :: (host.report? e.callback m l (before ++ [e])).toList.map (.warned m)) [] := by
  have hcode : ∀ d ∈ host.report? e.callback m l (before ++ [e]), d.code = .observerFailed :=
    fun _ => Host.code_of_mem_report?
  have hrest : observerWarnings host m l (before ++ [e])
      ((host.report? e.callback m l (before ++ [e])).toList.map (.warned m)) = [] :=
    observerWarnings_eq_nil (fun x hx => by
      obtain ⟨_, -, rfl⟩ := List.mem_map.mp hx
      nofun) _
  refine ⟨?_, ?_⟩
  · rw [warningsOf_told he hcode, ofCompilation, List.filter_eq_nil_iff]
    intro d hd
    simp [hcode d (Option.mem_toList.mp hd)]
  · rw [warningsOf_told he hcode, observerWarnings, if_pos he, hrest, List.append_nil, ofObservers,
      List.filter_eq_self]
    intro d hd
    simp [hcode d (Option.mem_toList.mp hd)]

theorem of_warning {d : Diagnostic} (hd : d.code ≠ .moduleRedefined ∧ d.code ≠ .observerFailed)
    (before : List Event) : Reported host m l before [.warned m d] [d] := by
  have hwarned : warningsOf m [.warned m d] = [d] := by simp [warningsOf, hd.1]
  refine ⟨?_, ?_⟩
  · simp [hwarned, hd.2, ofCompilation]
  · simp [hwarned, hd.2, ofObservers, observerWarnings, Event.observed?]

end Reported
end Events

/-! ## Code -/

/-- From one world to the other nothing is said of modules that were open, and they stay open. -/
structure World.Skirts (w w' : World) : Prop where
  opened : ∀ m t, w.registry.opened.get? m = some t → w'.registry.opened.get? m = some t
  told : ∃ es, w'.log = w.log ++ es ∧
    ∀ e ∈ es, ∀ m, e.regarded? = some m → w.registry.opened.get? m = none

namespace World.Skirts

variable {w w' w'' : World}

theorem of_quiet (hopened : w'.registry.opened = w.registry.opened) (hlog : w'.log = w.log) :
    Skirts w w' :=
  ⟨fun _ _ h => hopened ▸ h, [], by rw [hlog, List.append_nil],
    fun _ he => (List.not_mem_nil he).elim⟩

theorem log (w : World) {e : Event} (he : e.regarded? = none) :
    Skirts w { w with log := w.log ++ [e] } := by
  refine ⟨fun _ _ h => h, [e], rfl, fun e' he' m hm => ?_⟩
  rw [List.mem_singleton.mp he', he] at hm
  cases hm

theorem trans (h : Skirts w w') (h' : Skirts w' w'') : Skirts w w'' := by
  refine ⟨fun m t hm => h'.opened m t (h.opened m t hm), ?_⟩
  obtain ⟨es, hlog, hes⟩ := h.told
  obtain ⟨es', hlog', hes'⟩ := h'.told
  refine ⟨es ++ es', by rw [hlog', hlog, List.append_assoc], fun e he m hm => ?_⟩
  rcases List.mem_append.mp he with he | he
  · exact hes e he m hm
  · -- what is not open any more was not open
    refine Option.eq_none_iff_forall_ne_some.mpr fun t ht => ?_
    have hopen := h.opened m t ht
    rw [hes' e he m hm] at hopen
    cases hopen

/-- Nothing is said of a module that is open. -/
theorem ne_regarded {m : String} {t : Ticket} (hm : w.registry.opened.get? m = some t)
    {es : List Event} (h : ∀ e ∈ es, ∀ m, e.regarded? = some m → w.registry.opened.get? m = none) :
    ∀ e ∈ es, e.regarded? ≠ some m := by
  intro e he hregarded
  rw [h e he m hregarded] at hm
  cases hm

end World.Skirts

theorem codeConduct_skirts (t : Ticket) : CodeConduct t World.Skirts where
  refl _ := .of_quiet rfl rfl
  trans := .trans
  note w _ he := .log w (Event.regarded?_of_isOfCode he)
  change _ _ _ _ _ := .of_quiet rfl rfl

/-! ## The pipeline -/

/-- The world is one in the life of an opened module that was opened in `w₁`: some warnings have
been reported since, and nothing was said or done of the other modules that were open. -/
structure Opening.Reports (o : Opening) (host : Host) (w₁ : World) (ds : List Diagnostic)
    (w : World) : Prop where
  others : ∀ m t, t ≠ o.scope.ticket → w₁.registry.opened.get? m = some t →
    w.registry.opened.get? m = some t
  told : ∃ es, w.log = w₁.log ++ es ∧
    Reported host o.scope.module o.location w₁.log es ds ∧
    ∀ e ∈ es, ∀ m, e.regarded? = some m → ∀ t, w₁.registry.opened.get? m = some t →
      t = o.scope.ticket

/-- The same while the module itself is open. -/
structure Opening.Speaks (o : Opening) (host : Host) (w₁ : World) (ds : List Diagnostic)
    (w : World) : Prop extends o.Reports host w₁ ds w where
  own : w.registry.opened.get? o.scope.module = some o.scope.ticket

namespace Opening

/-- Some warnings have been reported since the module was opened. -/
def HasReported (o : Opening) (host : Host) (w₁ w : World) : Prop := ∃ ds, o.Reports host w₁ ds w

/-- The same while the module is open. -/
def HasSpoken (o : Opening) (host : Host) (w₁ w : World) : Prop := ∃ ds, o.Speaks host w₁ ds w

variable {o : Opening} {host : Host} {w₁ w w' : World} {ds ds' : List Diagnostic}

theorem Speaks.start (hown : w₁.registry.opened.get? o.scope.module = some o.scope.ticket) :
    o.Speaks host w₁ [] w₁ :=
  ⟨⟨fun _ _ _ h => h, [], (List.append_nil _).symm,
    .of_others fun _ he => (List.not_mem_nil he).elim, fun _ he => (List.not_mem_nil he).elim⟩, hown⟩

section Steps

variable (hown : w₁.registry.opened.get? o.scope.module = some o.scope.ticket)
include hown

/-- The pipeline says something of its own module. -/
theorem Reports.say (h : o.Reports host w₁ ds w) {es : List Event}
    (hes : Reported host o.scope.module o.location w.log es ds')
    (hregarded : ∀ e ∈ es, e.regarded? = some o.scope.module) {r : Registry}
    (hothers : ∀ m t, t ≠ o.scope.ticket → w.registry.opened.get? m = some t →
      r.opened.get? m = some t) :
    o.Reports host w₁ (ds ++ ds') { w with registry := r, log := w.log ++ es } := by
  obtain ⟨es', hlog', hes', hbeside⟩ := h.told
  refine ⟨fun m t ht hm => hothers m t ht (h.others m t ht hm), es' ++ es, ?_,
    hes'.append (hlog' ▸ hes), fun e he m hm t ht => ?_⟩
  · rw [hlog', List.append_assoc]
  · rcases List.mem_append.mp he with he | he
    · exact hbeside e he m hm t ht
    · rw [hregarded e he] at hm
      obtain rfl : o.scope.module = m := Option.some.inj hm
      exact (Option.some.inj (hown.symm.trans ht)).symm

theorem Speaks.say (h : o.Speaks host w₁ ds w) {es : List Event}
    (hes : Reported host o.scope.module o.location w.log es ds')
    (hregarded : ∀ e ∈ es, e.regarded? = some o.scope.module) :
    o.Speaks host w₁ (ds ++ ds') { w with log := w.log ++ es } :=
  ⟨h.toReports.say hown hes hregarded fun _ _ _ hm => hm, h.own⟩

end Steps

/-- Code says nothing of the module that it belongs to. -/
theorem Speaks.skirts (h : o.Speaks host w₁ ds w) (hskirts : w.Skirts w') :
    o.Speaks host w₁ ds w' := by
  obtain ⟨es, hlog, hes, hbeside⟩ := h.told
  obtain ⟨es', hlog', hbeside'⟩ := hskirts.told
  have hes' : Reported host o.scope.module o.location (w₁.log ++ es) es' [] :=
    .of_others (World.Skirts.ne_regarded h.own hbeside')
  refine ⟨⟨fun m t ht hm => hskirts.opened m t (h.others m t ht hm), es ++ es', ?_, ?_, ?_⟩,
    hskirts.opened _ _ h.own⟩
  · rw [hlog', hlog, List.append_assoc]
  · exact List.append_nil ds ▸ hes.append hes'
  · intro e he m hm t ht
    rcases List.mem_append.mp he with he | he
    · exact hbeside e he m hm t ht
    · -- a module that is open under another ticket is still open
      by_contra hne
      have hopen := h.others m t hne ht
      rw [hbeside' e he m hm] at hopen
      cases hopen

end Opening

/-- All that is logged when observers of a module are told of an event is about the module. -/
theorem regarded?_of_told {host : Host} {callback m : String} {l : Location} {log : List Event}
    {e : Event} (he : e.observed? = some m) :
    ∀ x ∈ e :: (host.report? callback m l log).toList.map (.warned m), x.regarded? = some m := by
  refine List.forall_mem_cons.mpr ⟨Event.regarded?_of_observed? he, fun x hx => ?_⟩
  obtain ⟨d, hd, rfl⟩ := List.mem_map.mp hx
  have hcode := Host.code_of_mem_report? (Option.mem_toList.mp hd)
  rw [Event.regarded?, hcode]
  exact if_neg nofun

namespace Engine

variable {g : Engine} {o : Opening} {w₁ : World} {ds : List Diagnostic}

/-- What skirts the open modules leaves the life of a module as it is. -/
theorem leads_of_skirts {α : Type} {host : Host} {r : Run α} (h : Within World.Skirts r) :
    Leads (o.Speaks host w₁ ds) r (fun _ => o.Speaks host w₁ ds) fun _ => o.HasSpoken host w₁ :=
  (leads_of_within h fun _ _ hw hskirts => hw.skirts hskirts).mono (fun _ _ hw => hw)
    fun _ _ hw => ⟨ds, hw⟩

theorem within_skirts_modify {f : World → World} (hregistry : ∀ w, (f w).registry.opened
    = w.registry.opened) (hlog : ∀ w, (f w).log = w.log) :
    Within World.Skirts (modify f : Run Unit) :=
  within_modify fun w => .of_quiet (hregistry w) (hlog w)

section Pipeline

variable (hown : w₁.registry.opened.get? o.scope.module = some o.scope.ticket)
include hown

/-- **Telling observers of a module's event** reports nothing but that they failed. -/
theorem leads_tell {e : Event} (he : e.observed? = some o.scope.module) :
    Leads (o.Speaks g.host w₁ ds) (notify g.host e.callback o.scope.module o.location e)
      (fun _ => o.Speaks g.host w₁ ds) fun _ => o.HasSpoken g.host w₁ := by
  refine (leads_of_world fun w hw => ?_).mono (fun _ _ h => h) fun _ _ h => ⟨ds, h⟩
  have hsaid := hw.say hown (.of_event he w.log) (regarded?_of_told he)
  rw [world_notify]
  rwa [List.append_nil] at hsaid

/-- **A warning of the compilation** is reported when it is given. -/
theorem leads_warn {d : Diagnostic}
    (hd : d.code ≠ .moduleRedefined ∧ d.code ≠ .observerFailed) :
    Leads (o.Speaks g.host w₁ ds) (warn g.host o.scope.module d)
      (fun _ => o.Speaks g.host w₁ (ds ++ [d])) fun _ => o.HasSpoken g.host w₁ := by
  refine (leads_of_world fun w hw => ?_).mono (fun _ _ h => h) fun _ _ h => ⟨ds ++ [d], h⟩
  rw [warn_apply]
  refine hw.say hown (.of_warning hd w.log) fun e he => ?_
  rw [List.mem_singleton.mp he, Event.regarded?, if_neg hd.1]

theorem leads_warnings {new : List Diagnostic}
    (hnew : ∀ d ∈ new, d.code ≠ .moduleRedefined ∧ d.code ≠ .observerFailed) :
    Leads (o.Speaks g.host w₁ ds) (new.forM (warn g.host o.scope.module))
      (fun _ => o.Speaks g.host w₁ (ds ++ new)) fun _ => o.HasSpoken g.host w₁ := by
  induction new generalizing ds with
  | nil =>
    rw [List.append_nil]
    exact leads_pure fun _ h => h
  | cons d rest ih =>
    obtain ⟨hd, hrest⟩ := List.forall_mem_cons.mp hnew
    refine leads_bind (leads_warn hown hd) fun _ => ?_
    rw [show ds ++ d :: rest = ds ++ [d] ++ rest from List.append_cons ..]
    exact ih hrest

theorem leads_move_speaking (m : Phase.Move) :
    Leads (o.Speaks g.host w₁ ds) (g.move o m) (fun _ => o.Speaks g.host w₁ ds)
      fun _ => o.HasSpoken g.host w₁ :=
  leads_bind (leads_of_skirts (within_skirts_modify (fun _ => rfl) fun _ => rfl)) fun _ =>
    leads_tell hown (e := .moved o.scope.module m) rfl

theorem leads_advance_speaking (target : Phase) :
    Leads (o.Speaks g.host w₁ ds) (g.advance o target) (fun _ => o.Speaks g.host w₁ ds)
      fun _ => o.HasSpoken g.host w₁ := by
  have hP := congruence_within (codeConduct_skirts o.scope.ticket).toConduct
  refine leads_bind (leads_of_skirts (hP.entry _)) fun e => ?_
  refine leads_bind (leads_of_skirts (hP.ofCondition _)) fun m => ?_
  exact leads_move_speaking hown m

omit hown in
/-- What is assembled is to be warned of as the compilation's own. -/
theorem leads_assemble :
    Leads (o.Speaks g.host w₁ ds) (g.assemble o)
      (fun m w => o.Speaks g.host w₁ ds w ∧
        ∀ d ∈ m.warnings, d.code ≠ .moduleRedefined ∧ d.code ≠ .observerFailed)
      fun _ => o.HasSpoken g.host w₁ := by
  have hP := (codeConduct_skirts o.scope.ticket).scopeLaw
  have hassemble : Within World.Skirts (g.assemble o) :=
    related_assemble hP.toCongruence hP.recordLocal
  intro w hw
  have hspeaks := leads_of_skirts hassemble w hw
  rcases hrun : g.assemble o w with ⟨(f | _) | m, w'⟩
  · rw [hrun] at hspeaks
    exact hspeaks
  · trivial
  · rw [hrun] at hspeaks
    obtain ⟨-, _, attributes, definitions, -, -, -, hm⟩ := assemble_eq_ok hrun
    refine ⟨hspeaks, fun d hd => ?_⟩
    rcases code_of_mem_warnings hm hd with hcode | hcode <;> rw [hcode] <;> exact ⟨nofun, nofun⟩

theorem leads_produce (a : Artifact) :
    Leads (o.Speaks g.host w₁ ds) (g.produce o a) (fun _ => o.Speaks g.host w₁ ds)
      fun _ => o.HasSpoken g.host w₁ := by
  have hP := congruence_within (codeConduct_skirts o.scope.ticket).toConduct
  have htell (id : String) : Leads (o.Speaks g.host w₁ ds)
      (notify g.host "onModuleAvailable" o.scope.module o.location
        (.available o.scope.module id a.size))
      (fun _ => o.Speaks g.host w₁ ds) fun _ => o.HasSpoken g.host w₁ :=
    leads_tell hown (e := .available o.scope.module id a.size) rfl
  refine leads_bind (leads_of_skirts (within_skirts_modify (fun _ => rfl) fun _ => rfl)) fun _ => ?_
  refine leads_bind (leads_of_skirts hP.get) fun w => ?_
  cases g.host.listener with
  | none => exact htell _
  | some listener =>
    have hlistened : Within World.Skirts
        (emit (.listened o.scope.module w.session.id o.location.file a) listener) :=
      fun w _ => .log w rfl
    refine leads_bind (leads_of_skirts hlistened) fun answer => ?_
    cases answer with
    | none => exact htell _
    | some f => exact leads_bind (leads_of_skirts (hP.fail f)) fun _ => htell _

omit hown in
theorem within_skirts_load (a : Artifact) : Within World.Skirts (g.load o a) := by
  have hR := (codeConduct_skirts o.scope.ticket).toConduct
  unfold load
  cases g.host.loader with
  | none =>
    exact within_bind hR (within_skirts_modify (fun _ => rfl) fun _ => rfl) fun _ =>
      within_pure hR _
  | some loader =>
    refine within_bind hR (within_get hR) fun w => ?_
    have hloading : Within World.Skirts
        (emit (.loading o.scope.module o.location.file w.session.id) loader) :=
      fun w _ => .log w rfl
    refine within_bind hR hloading fun answer => ?_
    rcases answer with f | reason | origin
    · exact within_fail hR f
    · exact within_fail hR _
    · exact within_pure hR _

section Life

variable {evaluate : EvaluateBody} (hfire : g.FiresWithin o.scope World.Skirts)
  (hevaluate : ∀ env, Within World.Skirts (evaluate env o.scope))
include hfire hevaluate

/-- **The pipeline reports what it returns**: a module that was compiled has the warnings that
were given when it was opened, and those that were reported since. -/
theorem leads_live_speaking :
    Leads (· = w₁) (g.live o evaluate)
      (fun c w => ∃ ds, c.warnings = o.warnings ++ ds ∧ o.Speaks g.host w₁ ds w)
      fun _ => o.HasSpoken g.host w₁ := by
  have hP := (codeConduct_skirts o.scope.ticket).scopeLaw
  have hbefore (env : CompileEnv) : within World.Skirts (g.runBeforeCompile o.scope env)
      (g.runBeforeCompile o.scope env) := related_runBeforeCompile hP hfire env
  have hbuild (m : Assembly) : within World.Skirts (g.build o m) (g.build o m) :=
    related_build hP.toCongruence m
  have hafter (env : CompileEnv) (a : Artifact) :
      within World.Skirts (g.runAfterCompile o.scope env a) (g.runAfterCompile o.scope env a) :=
    related_runAfterCompile hP hfire env a
  have hstart : Leads (· = w₁) (notify g.host "onModuleOpen" o.scope.module o.location
      (.opened o.scope.module o.location o.scope.env.compiling))
      (fun _ => o.Speaks g.host w₁ []) fun _ => o.HasSpoken g.host w₁ := by
    rintro w rfl
    exact leads_tell hown (e := .opened o.scope.module o.location o.scope.env.compiling) rfl w
      (.start hown)
  refine leads_bind hstart fun _ => ?_
  refine leads_bind (leads_of_skirts (hevaluate _)) fun ⟨value, env⟩ => ?_
  refine leads_bind (leads_advance_speaking hown _) fun _ => ?_
  refine leads_bind (leads_of_skirts (hbefore env)) fun env => ?_
  refine leads_bind (leads_advance_speaking hown _) fun _ => ?_
  refine leads_bind leads_assemble fun m => ?_
  refine leads_bind (q := fun _ => o.Speaks g.host w₁ m.warnings) ?_ fun _ => ?_
  · rintro w ⟨hw, hwarnings⟩
    exact leads_warnings hown hwarnings w hw
  refine leads_bind (leads_advance_speaking hown _) fun _ => ?_
  refine leads_bind (leads_of_skirts (hbuild m)) fun a => ?_
  refine leads_bind (leads_advance_speaking hown _) fun _ => ?_
  refine leads_bind (leads_of_skirts (hafter env a)) fun _ => ?_
  refine leads_bind (leads_produce hown a) fun _ => ?_
  refine leads_bind (leads_of_skirts (within_skirts_load a)) fun loaded => ?_
  exact leads_pure fun w hw => ⟨m.warnings, rfl, hw⟩

end Life

/-! ## From opening to closing -/

/-- Telling observers of a failure reports nothing. -/
theorem leads_reject_speaking (f : Failure) :
    Leads (o.HasSpoken g.host w₁) (g.reject (α := CompiledModule) o f) (fun _ _ => False)
      fun _ => o.HasSpoken g.host w₁ := by
  rintro w ⟨ds, hw⟩
  have htell : Leads (o.Speaks g.host w₁ ds) (notify g.host "onError" o.scope.module o.location
      (.failed o.scope.module (f.normalize o.scope.module o.location)))
      (fun _ => o.Speaks g.host w₁ ds) fun _ => o.HasSpoken g.host w₁ :=
    leads_tell hown (e := .failed o.scope.module (f.normalize o.scope.module o.location)) rfl
  exact leads_bind htell (fun _ => leads_fail fun _ hw => ⟨ds, hw⟩) w hw

/-- Neither does closing a module. -/
theorem leads_closeModule_speaking (fulfilled : Bool) :
    Leads (o.Speaks g.host w₁ ds) (g.closeModule o fulfilled)
      (fun _ => o.Reports g.host w₁ ds) fun _ => o.HasReported g.host w₁ := by
  have hP := congruence_within (codeConduct_skirts o.scope.ticket).toConduct
  have hlast : Leads (o.Speaks g.host w₁ ds) (do
      modify fun w : World => { w with registry := w.registry.close o.scope.ticket }
      notify g.host "onModuleClose" o.scope.module o.location
        (.closed o.scope.module fulfilled) : Run Unit)
      (fun _ => o.Reports g.host w₁ ds) fun _ => o.HasReported g.host w₁ := by
    refine (leads_of_world fun w hw => ?_).mono (fun _ _ h => h) fun _ _ h => ⟨ds, h⟩
    have hsaid := hw.toReports.say hown
      (.of_event (e := .closed o.scope.module fulfilled) rfl w.log) (regarded?_of_told rfl)
      fun m t ht hm => (w.registry.get?_opened_close o.scope.ticket t m).mpr ⟨hm, ht⟩
    rw [bind_apply, modify_apply]
    simp only [world_notify]
    rwa [List.append_nil] at hsaid
  refine leads_bind ((leads_of_skirts (hP.entry _)).mono (fun _ _ h => h) ?_) fun e => ?_
  · exact fun _ _ ⟨ds, h⟩ => ⟨ds, h.toReports⟩
  cases e.phase.close? with
  | none => exact hlast
  | some m =>
    refine leads_bind ((leads_move_speaking hown m).mono (fun _ _ h => h) ?_) fun _ => hlast
    exact fun _ _ ⟨ds, h⟩ => ⟨ds, h.toReports⟩

/-- **However the life of a module ends, all that is said on its behalf is reported**, and what
it returns if it was compiled. -/
theorem leads_finish_speaking {evaluate : EvaluateBody}
    (hfire : g.FiresWithin o.scope World.Skirts)
    (hevaluate : ∀ env, Within World.Skirts (evaluate env o.scope)) :
    Leads (· = w₁) (g.finish o evaluate)
      (fun c w => ∃ ds, c.warnings = o.warnings ++ ds ∧ o.Reports g.host w₁ ds w)
      fun _ => o.HasReported g.host w₁ := by
  rw [finish_eq]
  refine leads_bind (leads_attempt (leads_live_speaking hown hfire hevaluate)) fun outcome => ?_
  cases outcome with
  | ok c =>
    rintro w ⟨ds, hwarnings, hw⟩
    refine leads_bind (leads_closeModule_speaking hown true) (fun _ => ?_) w hw
    exact leads_pure fun w hw => ⟨ds, hwarnings, hw⟩
  | error f =>
    refine leads_bind (leads_attempt (leads_reject_speaking hown f)) fun rejected => ?_
    cases rejected with
    | ok c => exact fun _ hw => hw.elim
    | error f' =>
      rintro w ⟨ds, hw⟩
      refine leads_bind (leads_closeModule_speaking hown false) (fun _ => ?_) w hw
      exact leads_fail fun w hw => ⟨ds, hw⟩

end Pipeline

section Compilation

variable {evaluate : EvaluateBody} {name : String} {env : CompileEnv} {w w' : World}
  {c : CompiledModule}

/-- What is warned of when a module is opened is about no module. -/
theorem regarded?_of_redefinitions {m : String} {ds : List Diagnostic}
    (h : ∀ d ∈ ds, d.code = .moduleRedefined) :
    ∀ e ∈ ds.map (Event.warned m), e.regarded? = none := by
  intro e he
  obtain ⟨d, hd, rfl⟩ := List.mem_map.mp he
  exact if_pos (h d hd)

theorem code_of_mem_opening {d : Diagnostic} (h : d ∈ (g.opening name env w).warnings) :
    d.code = .moduleRedefined := by
  obtain ⟨_, -, rfl⟩ := Option.map_eq_some_iff.mp (Option.mem_toList.mp h)
  rfl

variable (hfire : ∀ scope, g.FiresWithin scope World.Skirts)
  (hevaluate : ∀ env scope, Within World.Skirts (evaluate env scope))
include hfire hevaluate

/-- A module that has been opened reports what it returns. -/
theorem leads_finish_opening (name : String) (env : CompileEnv) (w : World) :
    let o := g.opening name env w
    let w₁ : World := { w with
      registry := w.registry.add (g.newEntry name env w)
      log := w.log ++ o.warnings.map (.warned name) }
    Leads (· = w₁) (g.finish o evaluate)
      (fun c w' => ∃ ds, c.warnings = o.warnings ++ ds ∧ o.Reports g.host w₁ ds w')
      fun _ => o.HasReported g.host w₁ := by
  intro o w₁
  have hown : w₁.registry.opened.get? o.scope.module = some o.scope.ticket :=
    g.get?_opened_opening name env w
  exact leads_finish_speaking hown (hfire _) fun env => hevaluate env _

/-- **A compilation says nothing of modules that are open**: neither of those it is nested in nor,
if it is refused because its name is open, of its own. -/
theorem within_skirts_compile (name : String) (env : CompileEnv) :
    Within World.Skirts (g.compile name env evaluate) := by
  intro w hsettles
  unfold compile at hsettles ⊢
  rw [bind_apply] at hsettles ⊢
  rcases openModule_cases g name env w with ⟨f, ds, hopen, hds⟩ | ⟨hname, hopen⟩
  · rw [hopen]
    refine ⟨fun _ _ h => h, _, rfl, fun e he m hm => ?_⟩
    rw [regarded?_of_redefinitions hds e he] at hm
    cases hm
  · simp only [hopen] at hsettles ⊢
    have hreported := (leads_finish_opening hfire hevaluate name env w).mono
      (fun _ _ ⟨ds, _, h⟩ => (⟨ds, h⟩ : Opening.HasReported ..)) fun _ _ h => h
    obtain ⟨ds, hreports⟩ := hreported.of_settles rfl hsettles
    obtain ⟨es, hlog, -, hbeside⟩ := hreports.told
    refine ⟨fun m t hm => ?_, _, hlog.trans (List.append_assoc ..), fun e he m hm => ?_⟩
    · obtain ⟨ht, hm₁⟩ := get?_opened_of_opening hname hm
      exact hreports.others m t ht hm₁
    · rcases List.mem_append.mp he with he | he
      · rw [regarded?_of_redefinitions (fun _ => code_of_mem_opening) e he] at hm
        cases hm
      · -- a module that was open would be open under the new ticket
        refine Option.eq_none_iff_forall_ne_some.mpr fun t ht => ?_
        obtain ⟨hne, ht₁⟩ := get?_opened_of_opening hname ht
        exact hne (hbeside e he m hm t ht₁)

/-- **A compiled module returns what was reported on its behalf.** -/
theorem reports_of_compile (h : g.compile name env evaluate w = (.ok c, w')) :
    ∃ o w₁ ds, g.openModule name env w = (.ok o, w₁) ∧ o.scope.module = name ∧
      w₁.log = w.log ++ o.warnings.map (.warned name) ∧
      (∀ d ∈ o.warnings, d.code = .moduleRedefined) ∧
      c.warnings = o.warnings ++ ds ∧ o.Reports g.host w₁ ds w' := by
  obtain ⟨o, w₁, hopen, hfinish⟩ := bind_apply_eq_ok.mp h
  rcases openModule_cases g name env w with ⟨f, ds, hopen', -⟩ | ⟨-, hopen'⟩
  · rw [hopen'] at hopen
    cases hopen
  · have hreports := leads_finish_opening hfire hevaluate name env w _ rfl
    rw [hopen'] at hopen
    cases hopen
    rw [hfinish] at hreports
    obtain ⟨ds, hwarnings, hreports⟩ := hreports
    exact ⟨_, _, ds, hopen', rfl, rfl, fun _ => code_of_mem_opening, hwarnings, hreports⟩

end Compilation
end Engine
end ModuleBuild
