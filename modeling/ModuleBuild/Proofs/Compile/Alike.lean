import ModuleBuild.Proofs.Attribute.Documentation
import ModuleBuild.Proofs.Compile.Handover

/-! # Runs that are alike up to documentation

Two worlds that a compilation can reach from one start may differ in what documentation says
(`World.SameButDocs`): the modules opened since have attributes that differ in it, nothing is said
of the tables in which documentation was gathered, and the logs and the artifacts may differ.  Two
runs are alike if they take such worlds to such worlds whenever both return (`Run.Alike`); nothing
is said of runs that fail, which they may do for what documentation says.

What code does to the module of a scope is alike, if what it writes is the same up to
documentation and the hooks of other modules are alike (`Engine.FiresAlike`).
-/
namespace ModuleBuild

open Run

/-! ## Worlds -/

/-- States of a module that differ in documentation at most. -/
structure ModuleState.SameButDocs (s s' : ModuleState) : Prop where
  phase : s'.phase = s.phase
  definitions : s'.definitions = s.definitions
  attributes : Option.Rel AttributeTable.SameButDocs s.attributes.table s'.attributes.table

/-- Entries of one name that differ in documentation at most. -/
structure ModuleEntry.SameButDocs (e e' : ModuleEntry) : Prop where
  module : e'.module = e.module
  state : e.toModuleState.SameButDocs e'.toModuleState

/-- Registries that differ in the documentation of entries from a ticket on at most. -/
structure Registry.SameButDocs (n : Ticket) (r r' : Registry) : Prop where
  opened : r'.opened = r.opened
  bound : n ≤ r.entries.length
  length : r'.entries.length = r.entries.length
  entries : ∀ t, n ≤ t → Option.Rel ModuleEntry.SameButDocs (r.find? t) (r'.find? t)

/-- A warning of documentation that nothing has taken up. -/
def Diagnostic.isUnusedDoc (d : Diagnostic) : Bool :=
  d.code = .docUnused || d.code = .typedocUnused

/-- That such a warning is given. -/
def Event.isUnusedDoc : Event → Bool
  | .warned _ d => d.isUnusedDoc
  | _ => false

/-- The warnings of a log that are of documentation that nothing has taken up. -/
def unusedDocsIn (log : List Event) : List Event := log.filter Event.isUnusedDoc

theorem unusedDocsIn_append {log es : List Event} (h : ∀ e ∈ es, e.isUnusedDoc = false) :
    unusedDocsIn (log ++ es) = unusedDocsIn log := by
  have hes : es.filter Event.isUnusedDoc = [] :=
    List.filter_eq_nil_iff.mpr fun e he hunused => by
      rw [h e he] at hunused
      cases hunused
  rw [unusedDocsIn, List.filter_append, hes, List.append_nil, unusedDocsIn]

/-- Worlds reached from a start that differ in documentation at most.  Unless it is collected, no
warning of it has been given since the start. -/
structure World.SameButDocs (docs : Bool) (start w w' : World) : Prop where
  registry : Registry.SameButDocs start.registry.entries.length w.registry w'.registry
  origins : ∀ name,
    (w'.code.get? name).map LoadedModule.origin = (w.code.get? name).map LoadedModule.origin
  silent : docs = false →
    unusedDocsIn w.log = unusedDocsIn start.log ∧ unusedDocsIn w'.log = unusedDocsIn start.log

namespace ModuleState.SameButDocs

variable {s s' : ModuleState} (h : s.SameButDocs s')
include h

theorem docs (d d' : DocTables) :
    ModuleState.SameButDocs { s with docs := d } { s' with docs := d' } :=
  ⟨h.phase, h.definitions, h.attributes⟩

theorem destroy : s.destroy.SameButDocs s'.destroy where
  phase := h.phase
  definitions := congrArg DefinitionStore.destroy h.definitions
  attributes := .none

/-- The tables that can be read in both differ in documentation at most. -/
theorem live {t t' : AttributeTable} (ht : s.attributes.live = .ok t)
    (ht' : s'.attributes.live = .ok t') : t.SameButDocs t' := by
  have htables := h.attributes
  rw [AttributeStore.live_eq_ok ht, AttributeStore.live_eq_ok ht'] at htables
  cases htables with
  | some hsame => exact hsame

end ModuleState.SameButDocs

/-- Entries that are changed, if there are any. -/
theorem ModuleEntry.rel_change {e e' : Option ModuleEntry} {f f' : ModuleState → ModuleState}
    (h : Option.Rel SameButDocs e e') (hf : ∀ s s', s.SameButDocs s' → (f s).SameButDocs (f' s')) :
    Option.Rel SameButDocs (e.map (change f)) (e'.map (change f')) := by
  cases h with
  | none => exact .none
  | some he => exact .some ⟨he.module, hf _ _ he.state⟩

namespace Registry.SameButDocs

variable {n : Ticket} {r r' : Registry} (h : r.SameButDocs n r')
include h

theorem update (t : Ticket) {f f' : ModuleState → ModuleState}
    (hf : ∀ s s', s.SameButDocs s' → (f s).SameButDocs (f' s')) :
    (r.update t f).SameButDocs n (r'.update t f') where
  opened := h.opened
  bound := by
    rw [length_entries_update]
    exact h.bound
  length := by
    rw [length_entries_update, length_entries_update]
    exact h.length
  entries u hu := by
    rw [find?_update, find?_update]
    by_cases ht : t = u
    · rw [if_pos ht, if_pos ht]
      exact ModuleEntry.rel_change (h.entries u hu) hf
    · rw [if_neg ht, if_neg ht]
      exact h.entries u hu

theorem add {e e' : ModuleEntry} (he : e.SameButDocs e') :
    (r.add e).SameButDocs n (r'.add e') where
  opened := by rw [opened_add, opened_add, h.opened, he.module, h.length]
  bound := Nat.le_trans h.bound (by simp [Registry.add])
  length := by simp [Registry.add, h.length]
  entries t ht := by
    rw [find?_add, find?_add, h.length]
    by_cases hnew : t = r.entries.length
    · rw [if_pos hnew, if_pos hnew]
      exact .some he
    · rw [if_neg hnew, if_neg hnew]
      exact h.entries t ht

/-- Closing takes the same name out of both, if the module was opened since. -/
theorem close {t : Ticket} (ht : n ≤ t) : (r.close t).SameButDocs n (r'.close t) where
  opened := by
    have hentry := h.entries t ht
    unfold Registry.close
    generalize r.find? t = e at hentry ⊢
    generalize r'.find? t = e' at hentry ⊢
    cases hentry with
    | none => exact h.opened
    | some he =>
      simp only [opened_update, h.opened, he.module]
      split
      · show r'.opened.erase _ = r.opened.erase _
        rw [h.opened]
      · exact h.opened
  bound := by
    rw [length_entries_close]
    exact h.bound
  length := by
    rw [length_entries_close, length_entries_close]
    exact h.length
  entries u hu := by
    rw [find?_close, find?_close]
    by_cases htu : t = u
    · rw [if_pos htu, if_pos htu]
      exact ModuleEntry.rel_change (h.entries u hu) fun _ _ hs => hs.destroy
    · rw [if_neg htu, if_neg htu]
      exact h.entries u hu

end Registry.SameButDocs

namespace World.SameButDocs

variable {docs : Bool} {start w w' : World}

theorem refl (docs : Bool) (start : World) : World.SameButDocs docs start start start where
  registry :=
    { opened := rfl
      bound := Nat.le_refl _
      length := rfl
      entries := fun t ht => by
        rw [Registry.find?, List.getElem?_eq_none ht]
        exact .none }
  origins _ := rfl
  silent _ := ⟨rfl, rfl⟩

theorem append (h : World.SameButDocs docs start w w') {es es' : List Event}
    (hes : docs = false → ∀ e ∈ es, e.isUnusedDoc = false)
    (hes' : docs = false → ∀ e ∈ es', e.isUnusedDoc = false) :
    World.SameButDocs docs start { w with log := w.log ++ es }
      { w' with log := w'.log ++ es' } where
  registry := h.registry
  origins := h.origins
  silent hdocs := by
    show unusedDocsIn (w.log ++ es) = _ ∧ unusedDocsIn (w'.log ++ es') = _
    rw [unusedDocsIn_append (hes hdocs), unusedDocsIn_append (hes' hdocs)]
    exact h.silent hdocs

end World.SameButDocs

/-! ## Runs -/

namespace Run

/-- The runs are alike: from worlds that differ in documentation at most, if both return, they
leave such worlds and return related results. -/
def Alike (docs : Bool) (start : World) {α β : Type} (V : α → β → Prop) (r : Run α)
    (r' : Run β) : Prop :=
  ∀ ⦃w w' v v' a b⦄, World.SameButDocs docs start w w' → r w = (.ok a, v) → r' w' = (.ok b, v') →
    V a b ∧ World.SameButDocs docs start v v'

/-- Nothing is said of two results. -/
def anything {α β : Type} (_ : α) (_ : β) : Prop := True

section Rules

variable {docs : Bool} {start : World} {α β γ δ : Type} {U : α → β → Prop} {V : γ → δ → Prop}

theorem alike_pure {a : α} {b : β} (h : U a b) : Alike docs start U (pure a) (pure b) := by
  intro w w' v v' a b hw hr hr'
  cases hr
  cases hr'
  exact ⟨h, hw⟩

theorem alike_fail_left (f : Failure) (r' : Run β) :
    Alike docs start U (fail f : Run α) r' :=
  fun _ _ _ _ _ _ _ hr => nomatch hr

theorem alike_fail_right (r : Run α) (f : Failure) :
    Alike docs start U r (fail f : Run β) :=
  fun _ _ _ _ _ _ _ _ hr' => nomatch hr'

/-- What would follow a failure does not matter. -/
theorem alike_fail_bind_left (f : Failure) (k : α → Run γ) (r' : Run δ) :
    Alike docs start V (fail f >>= k) r' := by
  intro w w' v v' a b _ hr
  obtain ⟨_, _, hfail, -⟩ := bind_apply_eq_ok.mp hr
  cases hfail

theorem alike_fail_bind_right (r : Run γ) (f : Failure) (k : β → Run δ) :
    Alike docs start V r (fail f >>= k) := by
  intro w w' v v' a b _ _ hr'
  obtain ⟨_, _, hfail, -⟩ := bind_apply_eq_ok.mp hr'
  cases hfail

theorem alike_get : Alike docs start (World.SameButDocs docs start) (get : Run World) get := by
  intro w w' v v' a b hw hr hr'
  cases hr
  cases hr'
  exact ⟨hw, hw⟩

theorem alike_bind {x : Run α} {x' : Run β} {f : α → Run γ} {f' : β → Run δ}
    (hx : Alike docs start U x x') (hf : ∀ a b, U a b → Alike docs start V (f a) (f' b)) :
    Alike docs start V (x >>= f) (x' >>= f') := by
  intro w w' v v' c d hw hr hr'
  obtain ⟨a, v₁, hx₁, hr⟩ := bind_apply_eq_ok.mp hr
  obtain ⟨b, v₁', hx₁', hr'⟩ := bind_apply_eq_ok.mp hr'
  obtain ⟨hab, hv₁⟩ := hx hw hx₁ hx₁'
  exact hf a b hab hv₁ hr hr'

/-- What comes after an attempt, if a failure of what was attempted stops it. -/
theorem alike_bind_attempt {r : Run α} {r' : Run β} {f : Except Failure α → Run γ}
    {f' : Except Failure β → Run δ} (hr : Alike docs start U r r')
    (hfails : ∀ e w c v, f (.error e) w ≠ (.ok c, v))
    (hfails' : ∀ e w d v, f' (.error e) w ≠ (.ok d, v))
    (hf : ∀ a b, U a b → Alike docs start V (f (.ok a)) (f' (.ok b))) :
    Alike docs start V (attempt r >>= f) (attempt r' >>= f') := by
  intro w w' v v' c d hw h h'
  obtain ⟨outcome, v₁, hattempt, h⟩ := bind_apply_eq_ok.mp h
  obtain ⟨outcome', v₁', hattempt', h'⟩ := bind_apply_eq_ok.mp h'
  cases outcome with
  | error e => exact (hfails _ _ _ _ h).elim
  | ok a =>
    cases outcome' with
    | error e => exact (hfails' _ _ _ _ h').elim
    | ok b =>
      obtain ⟨hab, hv₁⟩ := hr hw (attempt_eq_ok hattempt) (attempt_eq_ok hattempt')
      exact hf a b hab hv₁ h h'

theorem alike_ofCondition {x : Except Condition α} {x' : Except Condition β}
    (h : ∀ a b, x = .ok a → x' = .ok b → U a b) :
    Alike docs start U (ofCondition x) (ofCondition x') := by
  intro w w' v v' a b hw hr hr'
  obtain ⟨ha, rfl⟩ := ofCondition_eq_ok hr
  obtain ⟨hb, rfl⟩ := ofCondition_eq_ok hr'
  exact ⟨h a b ha hb, hw⟩

theorem alike_ofProblem {x : Except Problem α} {x' : Except Problem β}
    (h : ∀ a b, x = .ok a → x' = .ok b → U a b) :
    Alike docs start U (ofProblem x) (ofProblem x') := by
  intro w w' v v' a b hw hr hr'
  obtain ⟨ha, rfl⟩ := ofProblem_eq_ok hr
  obtain ⟨hb, rfl⟩ := ofProblem_eq_ok hr'
  exact ⟨h a b ha hb, hw⟩

theorem alike_ofFailure {x : Except Failure α} {x' : Except Failure β}
    (h : ∀ a b, x = .ok a → x' = .ok b → U a b) :
    Alike docs start U (ofFailure x) (ofFailure x') := by
  intro w w' v v' a b hw hr hr'
  obtain ⟨ha, rfl⟩ := ofFailure_eq_ok hr
  obtain ⟨hb, rfl⟩ := ofFailure_eq_ok hr'
  exact ⟨h a b ha hb, hw⟩

theorem alike_ofCondition_self (x : Except Condition α) :
    Alike docs start Eq (ofCondition x) (ofCondition x) :=
  alike_ofCondition fun _ _ ha hb => Except.ok.inj (ha.symm.trans hb)

theorem alike_ofProblem_self (x : Except Problem α) :
    Alike docs start Eq (ofProblem x) (ofProblem x) :=
  alike_ofProblem fun _ _ ha hb => Except.ok.inj (ha.symm.trans hb)

theorem alike_modify {f f' : World → World}
    (h : ∀ w w', World.SameButDocs docs start w w' →
      World.SameButDocs docs start (f w) (f' w')) :
    Alike docs start anything (modify f : Run Unit) (modify f' : Run Unit) := by
  intro w w' v v' a b hw hr hr'
  cases hr
  cases hr'
  exact ⟨trivial, h w w' hw⟩

theorem alike_forM {f f' : α → Run PUnit} {l : List α}
    (hf : ∀ a ∈ l, Alike docs start anything (f a) (f' a)) :
    Alike docs start anything (l.forM f) (l.forM f') := by
  induction l with
  | nil => exact alike_pure trivial
  | cons a rest ih =>
    obtain ⟨hhead, hrest⟩ := List.forall_mem_cons.mp hf
    exact alike_bind hhead fun _ _ _ => ih hrest

/-! ## Events -/

/-- The host may answer to the logs in different ways. -/
theorem alike_emit {e e' : Event} (he : docs = false → e.isUnusedDoc = false)
    (he' : docs = false → e'.isUnusedDoc = false) (answer : List Event → α)
    (answer' : List Event → β) :
    Alike docs start anything (emit e answer) (emit e' answer') := by
  intro w w' v v' a b hw hr hr'
  cases hr
  cases hr'
  refine ⟨trivial, hw.append ?_ ?_⟩
  · exact fun hdocs => List.forall_mem_singleton.mpr (he hdocs)
  · exact fun hdocs => List.forall_mem_singleton.mpr (he' hdocs)

theorem alike_record {e e' : Event} (he : e.isUnusedDoc = false) (he' : e'.isUnusedDoc = false) :
    Alike docs start anything (record e) (record e') :=
  alike_emit (fun _ => he) (fun _ => he') _ _

theorem alike_warn {host : Host} {m : String} {d : Diagnostic}
    (hd : docs = false → d.isUnusedDoc = false) :
    Alike docs start anything (warn host m d) (warn host m d) := by
  have hemit : Alike docs start anything (emit (.warned m d) host.warn)
      (emit (.warned m d) host.warn) := by
    apply alike_emit
    · exact hd
    · exact hd
  refine alike_bind hemit fun answer answer' _ => ?_
  cases answer with
  | some f => exact alike_fail_left f _
  | none =>
    cases answer' with
    | some f => exact alike_fail_right _ f
    | none => exact alike_pure trivial

/-- An observer that fails leaves a warning, which is not of documentation. -/
theorem log_of_notify (host : Host) (callback m : String) (l : Location) {e : Event}
    (he : e.isUnusedDoc = false) (w : World) :
    ∃ es : List Event, (∀ x ∈ es, x.isUnusedDoc = false) ∧
      (notify host callback m l e w).2 = { w with log := w.log ++ es } := by
  refine ⟨_, fun x hx => ?_, world_notify host callback m l e w⟩
  rcases List.mem_cons.mp hx with rfl | hx
  · exact he
  · obtain ⟨d, hd, rfl⟩ := List.mem_map.mp hx
    have hcode := Host.code_of_mem_report? (Option.mem_toList.mp hd)
    simp [Event.isUnusedDoc, Diagnostic.isUnusedDoc, hcode]

theorem alike_notify {host : Host} {callback m : String} {l : Location} {e e' : Event}
    (he : e.isUnusedDoc = false) (he' : e'.isUnusedDoc = false) :
    Alike docs start anything (notify host callback m l e) (notify host callback m l e') := by
  intro w w' v v' a b hw hr hr'
  obtain ⟨es, hes, hv⟩ := log_of_notify host callback m l he w
  obtain ⟨es', hes', hv'⟩ := log_of_notify host callback m l he' w'
  rw [hr] at hv
  rw [hr'] at hv'
  obtain rfl : v = _ := hv
  obtain rfl : v' = _ := hv'
  exact ⟨trivial, hw.append (fun _ => hes) fun _ => hes'⟩

end Rules

/-! ## The module of a scope -/

section Entry

variable {docs : Bool} {start : World} {scope : ModuleScope}

theorem alike_updateEntry {f f' : ModuleState → ModuleState}
    (hf : ∀ s s', s.SameButDocs s' → (f s).SameButDocs (f' s')) :
    Alike docs start anything (updateEntry scope f) (updateEntry scope f') :=
  alike_modify fun _ _ hw => ⟨hw.registry.update scope.ticket hf, hw.origins, hw.silent⟩

/-- What documentation was gathered is not compared. -/
theorem alike_updateDocs (f f' : DocTables → DocTables) :
    Alike docs start anything (updateEntry scope fun s => { s with docs := f s.docs })
      (updateEntry scope fun s => { s with docs := f' s.docs }) :=
  alike_updateEntry fun _ _ hs => hs.docs _ _

variable (hscope : start.registry.entries.length ≤ scope.ticket)
include hscope

theorem alike_entry :
    Alike docs start ModuleEntry.SameButDocs (entry scope) (entry scope) := by
  intro w w' v v' e e' hw hr hr'
  obtain ⟨he, rfl⟩ := entry_eq_ok hr
  obtain ⟨he', rfl⟩ := entry_eq_ok hr'
  have hentry := hw.registry.entries scope.ticket hscope
  rw [he, he'] at hentry
  cases hentry with
  | some hsame => exact ⟨hsame, hw⟩

theorem alike_attributes :
    Alike docs start AttributeTable.SameButDocs (attributes scope) (attributes scope) := by
  refine alike_bind (alike_entry hscope) fun e e' he => ?_
  exact alike_ofCondition fun t t' ht ht' => he.state.live ht ht'

theorem alike_changeAttributes {f f' : AttributeTable → Except Condition AttributeTable}
    (hf : ∀ t t' u u', t.SameButDocs t' → f t = .ok u → f' t' = .ok u' → u.SameButDocs u') :
    Alike docs start anything (changeAttributes scope (·.modify f))
      (changeAttributes scope (·.modify f')) := by
  refine alike_bind (alike_entry hscope) fun e e' he => ?_
  let U (a a' : AttributeStore) : Prop := Option.Rel AttributeTable.SameButDocs a.table a'.table
  have hmodify : Alike docs start U (ofCondition (e.attributes.modify f))
      (ofCondition (e'.attributes.modify f')) := by
    refine alike_ofCondition fun a a' ha ha' => ?_
    obtain ⟨t, ht, ha⟩ := bind_eq_ok.mp ha
    obtain ⟨u, hu, ha⟩ := bind_eq_ok.mp ha
    obtain ⟨t', ht', ha'⟩ := bind_eq_ok.mp ha'
    obtain ⟨u', hu', ha'⟩ := bind_eq_ok.mp ha'
    cases ha
    cases ha'
    exact .some (hf t t' u u' (he.state.live ht ht') hu hu')
  refine alike_bind hmodify fun a a' ha => ?_
  exact alike_updateEntry fun s s' hs => ⟨hs.phase, hs.definitions, ha⟩

theorem alike_write {key : String} {v v' : Value} (hv : maskDocs key v' = maskDocs key v) :
    Alike docs start anything (changeAttributes scope (·.write key v))
      (changeAttributes scope (·.write key v')) :=
  alike_changeAttributes hscope fun _ _ _ _ ht hu hu' => ht.write hv hu hu'

theorem alike_delete (key : String) :
    Alike docs start anything (changeAttributes scope (·.delete key))
      (changeAttributes scope (·.delete key)) :=
  alike_changeAttributes hscope fun _ _ _ _ ht hu hu' => ht.delete hu hu'

theorem alike_declare {key : String} (p : AttributePolicy) (hkey : key ∉ docKeys) :
    Alike docs start anything (changeAttributes scope (·.declare key p))
      (changeAttributes scope (·.declare key p)) :=
  alike_changeAttributes hscope fun _ _ _ _ ht hu hu' => ht.declare hkey hu hu'

end Entry
end Run

namespace Engine

/-- The hooks of other modules are alike, whatever they are given besides the context. -/
def FiresAlike (g : Engine) (start : World) : Prop :=
  ∀ phase target subject subject' env (scope : ModuleScope),
    start.registry.entries.length ≤ scope.ticket →
    Alike g.host.options.docs start Eq (g.fire phase target subject env scope)
      (g.fire phase target subject' env scope)

section Scope

variable {g : Engine} {start : World} {scope : ModuleScope}
  (hscope : start.registry.entries.length ≤ scope.ticket)
include hscope

/-! ## Hooks -/

theorem alike_takeDefinitionDoc {docs : Bool} (d d' : Definition) :
    Alike docs start anything (takeDefinitionDoc scope d) (takeDefinitionDoc scope d') := by
  refine alike_bind (alike_attributes hscope) fun t t' ht => ?_
  rw [ht.has_eq]
  split
  · exact alike_bind (alike_updateDocs (·.addDefinition _) (·.addDefinition _)) fun _ _ _ =>
      alike_delete hscope "doc"
  · exact alike_pure trivial

theorem alike_runBuiltin {docs : Bool} (name : String) (subject subject' : HookSubject) :
    Alike docs start anything (runBuiltin scope name subject)
      (runBuiltin scope name subject') := by
  unfold runBuiltin
  split
  · cases subject with
    | none | artifact a => exact alike_fail_left _ _
    | definition d =>
      cases subject' with
      | none | artifact a => exact alike_fail_right _ _
      | definition d' => exact alike_takeDefinitionDoc hscope d d'
  · split
    · exact alike_delete hscope "doc"
    · exact alike_fail_left _ _

section Calls

variable (hfire : g.FiresAlike start)
include hfire

theorem alike_callHook (phase : HookPhase) (hook : Value) (subject subject' : HookSubject)
    (env : CompileEnv) :
    Alike g.host.options.docs start Eq (g.callHook phase hook subject env scope)
      (g.callHook phase hook subject' env scope) := by
  unfold callHook
  cases HookTarget.ofValue? phase hook with
  | none => exact alike_fail_left _ _
  | some target =>
    by_cases hbuiltin : target.module = compilerHookModule
    · simp only [hbuiltin, if_true]
      exact alike_bind (alike_runBuiltin hscope _ _ _) fun _ _ _ => alike_pure rfl
    · simp only [hbuiltin, if_false]
      exact hfire _ _ _ _ _ _ hscope

theorem alike_runHook (phase : HookPhase) (subject subject' : HookSubject) (env : CompileEnv)
    (hook : Value) :
    Alike g.host.options.docs start Eq (g.runHook phase subject scope env hook)
      (g.runHook phase subject' scope env hook) := by
  refine alike_bind (alike_record rfl rfl) fun _ _ _ => ?_
  refine alike_bind_attempt (alike_callHook hscope hfire phase hook subject subject' env) ?_ ?_ ?_
  · exact fun _ _ _ _ h => nomatch h
  · exact fun _ _ _ _ h => nomatch h
  · exact fun env env' henv => alike_pure henv

theorem alike_runEach (phase : HookPhase) (subject : HookSubject) (env : CompileEnv)
    (hooks : List Value) :
    Alike g.host.options.docs start anything (g.runEach phase subject scope env hooks)
      (g.runEach phase subject scope env hooks) := by
  induction hooks with
  | nil => exact alike_pure trivial
  | cons hook rest ih =>
    exact alike_bind (alike_runHook hscope hfire phase subject subject env hook) fun _ _ _ => ih

theorem alike_runThrough (phase : HookPhase) (subject subject' : HookSubject) (env : CompileEnv)
    (hooks : List Value) :
    Alike g.host.options.docs start Eq (g.runThrough phase subject scope env hooks)
      (g.runThrough phase subject' scope env hooks) := by
  induction hooks generalizing env with
  | nil => exact alike_pure rfl
  | cons hook rest ih =>
    refine alike_bind (alike_runHook hscope hfire phase subject subject' env hook) ?_
    rintro env _ rfl
    exact ih env

theorem alike_runOnDefinition (env : CompileEnv) (d : Definition) :
    Alike g.host.options.docs start anything (g.runOnDefinition scope env d)
      (g.runOnDefinition scope env d) := by
  refine alike_bind (alike_attributes hscope) fun t t' ht => ?_
  rw [ht.readAll_eq (by decide)]
  exact alike_runEach hscope hfire _ _ _ _

theorem alike_runBeforeCompile (env : CompileEnv) :
    Alike g.host.options.docs start Eq (g.runBeforeCompile scope env)
      (g.runBeforeCompile scope env) := by
  refine alike_bind (alike_attributes hscope) fun t t' ht => ?_
  rw [ht.readAll_eq (by decide)]
  exact alike_runThrough hscope hfire _ _ _ _ _

theorem alike_runAfterCompile (env : CompileEnv) (a a' : Artifact) :
    Alike g.host.options.docs start anything (g.runAfterCompile scope env a)
      (g.runAfterCompile scope env a') := by
  refine alike_bind (alike_attributes hscope) fun t t' ht => ?_
  rw [ht.readAll_eq (by decide)]
  exact alike_bind (alike_runThrough hscope hfire _ _ _ _ _) fun _ _ _ => alike_pure trivial

/-! ## Definitions and attributes -/

theorem alike_define (n : NewDefinition) :
    Alike g.host.options.docs start anything (g.define scope n) (g.define scope n) := by
  refine alike_bind (alike_entry hscope) fun e e' he => ?_
  rw [he.state.phase, he.state.definitions]
  split
  · refine alike_bind (alike_ofProblem_self _) ?_
    rintro ⟨d, isNew, ds⟩ _ rfl
    refine alike_bind (alike_updateEntry fun s s' hs => ?_) fun _ _ _ => ?_
    · exact ⟨hs.phase, rfl, hs.attributes⟩
    · cases isNew with
      | false => exact alike_pure trivial
      | true =>
        exact alike_bind (alike_runOnDefinition hscope hfire _ _) fun _ _ _ => alike_pure trivial
  · exact alike_fail_left _ _

end Calls

theorem alike_takePendingDoc (key : String) (form : Value) :
    Alike g.host.options.docs start (Option.Rel anything) (g.takePendingDoc scope key form)
      (g.takePendingDoc scope key form) := by
  refine alike_bind (alike_attributes hscope) fun t t' ht => ?_
  rw [ht.has_eq]
  split
  · refine alike_bind (alike_delete hscope key) fun _ _ _ => alike_pure ?_
    split
    · cases declaredForm? form scope.env.line with
      | none => exact .none
      | some f => exact .some trivial
    · exact .none
  · exact alike_pure .none

/-- What is written may differ as documentation does. -/
theorem alike_putAttribute {key : String} {v v' : Value}
    (hv : maskDocs key v' = maskDocs key v) :
    Alike g.host.options.docs start anything (g.putAttribute scope key v)
      (g.putAttribute scope key v') := by
  refine alike_bind (alike_write hscope hv) fun _ _ _ => ?_
  by_cases hdoc : key ∈ docKeys
  · -- nothing takes documentation up when documentation is written
    have hkey : TypeKind.ofKey? key = none ∧ CallbackKind.ofKey? key = none := by
      have hall : ∀ k ∈ docKeys, TypeKind.ofKey? k = none ∧ CallbackKind.ofKey? k = none := by
        decide
      exact hall key hdoc
    rw [hkey.1, hkey.2]
    exact alike_pure trivial
  · rw [maskDocs_of_not_mem hdoc, maskDocs_of_not_mem hdoc] at hv
    subst hv
    have hpending (waiting : String) : Alike g.host.options.docs start (Option.Rel anything)
        (g.takePendingDoc scope waiting v') (g.takePendingDoc scope waiting v') :=
      alike_takePendingDoc hscope waiting v'
    cases TypeKind.ofKey? key with
    | some kind =>
      refine alike_bind (hpending "typedoc") fun doc doc' hdocs => ?_
      cases hdocs with
      | none => exact alike_pure trivial
      | some => exact alike_updateDocs (·.addType _) (·.addType _)
    | none =>
      cases CallbackKind.ofKey? key with
      | some kind =>
        refine alike_bind (hpending "doc") fun doc doc' hdocs => ?_
        cases hdocs with
        | none => exact alike_pure trivial
        | some => exact alike_updateDocs (·.addCallback _) (·.addCallback _)
      | none => exact alike_pure trivial

theorem alike_readAttribute {docs : Bool} (key : String) :
    Alike docs start anything (readAttribute scope key) (readAttribute scope key) :=
  alike_bind (alike_attributes hscope) fun _ _ _ => alike_pure trivial

theorem alike_recordLocal {docs : Bool} (p : NameArity) :
    Alike docs start anything (recordLocal scope p) (recordLocal scope p) := by
  refine alike_bind (alike_entry hscope) fun e e' he => ?_
  rw [he.state.definitions]
  refine alike_bind (alike_ofCondition_self _) ?_
  rintro ds _ rfl
  exact alike_updateEntry fun s s' hs => ⟨hs.phase, rfl, hs.attributes⟩

end Scope
end Engine
end ModuleBuild
