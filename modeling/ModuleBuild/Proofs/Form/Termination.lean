import ModuleBuild.Proofs.Compile.Settling
import ModuleBuild.Proofs.Definition.History
import ModuleBuild.Proofs.Form.Conduct

/-! # Compilations terminate

A hook can expand into forms that define, register hooks and nest modules, and these call
hooks again.  That ends, because a call within a call stands for something that was new: a
pair in an open module, or a module that was not open.  What can still be new under a ticket
is counted by `Registry.callDepth`.  Code never makes it grow (`Registry.Narrows`), a
definition that calls hooks makes it smaller, and so does opening a module.

So a compilation settles if calls may go as deep as there are names and pairs for, and it
ends in the same way if they may go deeper.
-/
namespace ModuleBuild

open Run

/-- A definition of the pair would be new. -/
def DefinitionStore.isFree (s : DefinitionStore) (p : NameArity) : Bool :=
  match s.table with
  | some t => (t.get? p).isNone
  | none => false

namespace DefinitionStore

variable {s s' : DefinitionStore}

theorem isFree_of_define {d e : Definition} {isNew : Bool} {p : NameArity}
    (h : s.define d = .ok (e, isNew, s')) (hp : s'.isFree p = true) : s.isFree p = true := by
  obtain ⟨t, ht, rfl, -, -⟩ := define_eq_ok h
  simp only [isFree, DefinitionTable.get?_put, ht] at hp ⊢
  split at hp
  · cases hp
  · exact hp

/-- A new definition takes a free pair. -/
theorem isFree_of_define_new {d e : Definition} (h : s.define d = .ok (e, true, s')) :
    s.isFree d.pair = true ∧ s'.isFree d.pair = false := by
  obtain ⟨t, ht, rfl, hnew, hpair⟩ := define_eq_ok h
  refine ⟨?_, ?_⟩
  · rw [isFree, ht]
    exact hnew.symm
  · simp only [isFree, DefinitionTable.get?_put, hpair, if_true]
    rfl

theorem isFree_of_recordLocal {p q : NameArity} (h : s.recordLocal q = .ok s')
    (hp : s'.isFree p = true) : s.isFree p = true := by
  obtain ⟨t, ht, rfl⟩ := recordLocal_eq_ok h
  simpa only [isFree, DefinitionTable.get?_recordLocal, ht] using hp

end DefinitionStore

/-- Whatever code does, pairs that are not free do not become free. -/
theorem ModuleState.Change.isFree {s s' : ModuleState} {p : NameArity} (h : s.Change s')
    (hp : s'.definitions.isFree p = true) : s.definitions.isFree p = true := by
  cases h with
  | attributes a => exact hp
  | docs d => exact hp
  | define _ h => exact DefinitionStore.isFree_of_define h hp
  | recordLocal h => exact DefinitionStore.isFree_of_recordLocal h hp

/-- Taking away one thing that is counted makes the count smaller. -/
theorem countP_lt_countP {α : Type} {p q : α → Bool} {l : List α} {a : α} (ha : a ∈ l)
    (hqp : ∀ x, q x = true → p x = true) (hp : p a = true) (hq : q a = false) :
    l.countP q < l.countP p := by
  obtain ⟨front, back, rfl⟩ := List.append_of_mem ha
  have hfront : front.countP q ≤ front.countP p := List.countP_mono_left fun x _ => hqp x
  have hback : back.countP q ≤ back.countP p := List.countP_mono_left fun x _ => hqp x
  simp only [List.countP_append, List.countP_cons, hp, hq, if_true]
  simp only [Bool.false_eq_true, if_false]
  omega

namespace Registry

/-- A definition of the pair under the ticket would be new, now or when a module is opened. -/
def isFree (r : Registry) (t : Ticket) (p : NameArity) : Bool :=
  (r.find? t).all fun e => e.definitions.isFree p

/-- How many of the names are not open. -/
def unopened (r : Registry) (names : List String) : Nat :=
  names.countP fun m => (r.opened.get? m).isNone

/-- How deep calls of hooks under a ticket can go: one call for each pair that is free, and
one for the hooks and one for each pair of every module that can still be opened. -/
def callDepth (r : Registry) (names : List String) (pairs : List NameArity) (t : Ticket) : Nat :=
  pairs.countP (r.isFree t) + (1 + pairs.length) * r.unopened names

/-- Less can be new in the second registry: the pairs that are free were free, and the names
that were open, but for that under `own`, are open. -/
structure Narrows (own : Option Ticket) (r r' : Registry) : Prop where
  opened : ∀ m t, r.opened.get? m = some t → own ≠ some t → r'.opened.get? m = some t
  free : ∀ t p, r'.isFree t p = true → r.isFree t p = true

namespace Narrows

variable {own : Option Ticket} {r r' r'' : Registry}

theorem refl (own : Option Ticket) (r : Registry) : Narrows own r r where
  opened _ _ h _ := h
  free _ _ h := h

theorem trans (h : Narrows own r r') (h' : Narrows own r' r'') : Narrows own r r'' where
  opened m t hm hown := h'.opened m t (h.opened m t hm hown) hown
  free t p hp := h.free t p (h'.free t p hp)

theorem of_none (h : Narrows none r r') (own : Option Ticket) : Narrows own r r' where
  opened m t hm _ := h.opened m t hm nofun
  free := h.free

theorem update {t : Ticket} {e : ModuleEntry} (he : r.find? t = some e)
    {f : ModuleState → ModuleState}
    (hf : ∀ p, (f e.toModuleState).definitions.isFree p = true →
      e.definitions.isFree p = true) : Narrows own r (r.update t f) where
  opened _ _ h _ := h
  free u p hp := by
    by_cases hu : t = u
    · subst hu
      simp only [isFree, find?_update, he, if_true] at hp ⊢
      exact hf p hp
    · simpa only [isFree, find?_update, if_neg hu] using hp

theorem add {e : ModuleEntry} (hname : r.opened.get? e.module = none) :
    Narrows own r (r.add e) where
  opened m t hm _ := by
    rw [opened_add, OrderedMap.get?_insert]
    split
    · next h =>
      rw [← h, hname] at hm
      cases hm
    · exact hm
  free t p hp := by
    by_cases ht : t = r.entries.length
    · rw [isFree, find?, List.getElem?_eq_none (Nat.le_of_eq ht.symm)]
      rfl
    · simpa only [isFree, find?_add, if_neg ht] using hp

theorem close (r : Registry) (t : Ticket) : Narrows (some t) r (r.close t) where
  opened m u hm hown :=
    (get?_opened_close r t u m).mpr ⟨hm, fun h => hown (congrArg some h.symm)⟩
  free u p hp := by
    by_cases hu : t = u
    · subst hu
      cases he : r.find? t with
      | none =>
        rw [isFree, he]
        rfl
      | some e =>
        -- nothing is free under a ticket that has been closed
        simp only [isFree, find?_close, he, if_true] at hp
        cases hp
    · simpa only [isFree, find?_close, if_neg hu] using hp

/-- What closes the module that was opened makes nothing new. -/
theorem of_opened_closed {e : ModuleEntry} (hname : r.opened.get? e.module = none)
    (h : Narrows (some r.entries.length) (r.add e) r') : Narrows none r r' where
  opened m t hm _ := by
    have hadd : Narrows none r (r.add e) := .add hname
    refine h.opened m t (hadd.opened m t hm nofun) fun ht => ?_
    exact Nat.ne_of_gt (lt_length_of_opened hm) (Option.some.inj ht)
  free t p hp := (add hname : Narrows none r (r.add e)).free t p (h.free t p hp)

theorem unopened_le (h : Narrows none r r') (names : List String) :
    r'.unopened names ≤ r.unopened names := by
  refine List.countP_mono_left fun m _ hm => ?_
  cases hr : r.opened.get? m with
  | none => rfl
  | some t =>
    rw [h.opened m t hr nofun] at hm
    exact hm

theorem callDepth_le (h : Narrows none r r') (names : List String) (pairs : List NameArity)
    (t : Ticket) : r'.callDepth names pairs t ≤ r.callDepth names pairs t :=
  Nat.add_le_add (List.countP_mono_left fun p _ => h.free t p)
    (Nat.mul_le_mul_left _ (h.unopened_le names))

end Narrows

/-- **A new definition lowers the depth.** -/
theorem callDepth_lt_of_new {r : Registry} {names : List String} {pairs : List NameArity}
    {t : Ticket} {e : ModuleEntry} {d d' : Definition} {ds : DefinitionStore}
    (he : r.find? t = some e) (hds : e.definitions.define d = .ok (d', true, ds))
    (hd : d.pair ∈ pairs) :
    (r.update t fun s => { s with definitions := ds }).callDepth names pairs t
      < r.callDepth names pairs t := by
  obtain ⟨hfree, htaken⟩ := DefinitionStore.isFree_of_define_new hds
  have hnarrows : Narrows none r (r.update t fun s => { s with definitions := ds }) :=
    .update he fun p hp => DefinitionStore.isFree_of_define hds hp
  refine Nat.add_lt_add_of_lt_of_le ?_ (Nat.mul_le_mul_left _ (hnarrows.unopened_le names))
  refine countP_lt_countP hd (hnarrows.free t) ?_ ?_
  · rw [isFree, he]
    exact hfree
  · rw [isFree, find?_update, if_pos rfl, he]
    exact htaken

/-- **So does opening a module.** -/
theorem callDepth_add_lt {r : Registry} {names : List String} {pairs : List NameArity}
    {e : ModuleEntry} (hname : r.opened.get? e.module = none) (he : e.module ∈ names) :
    (r.add e).callDepth names pairs r.entries.length < (1 + pairs.length) * r.unopened names := by
  have hopened : (r.add e).unopened names < r.unopened names := by
    refine countP_lt_countP he (fun m hm => ?_) (by rw [hname]; rfl) ?_
    · rw [opened_add, OrderedMap.get?_insert] at hm
      split at hm
      · cases hm
      · exact hm
    · rw [opened_add, OrderedMap.get?_insert, if_pos rfl]
      rfl
  calc (r.add e).callDepth names pairs r.entries.length
      ≤ pairs.length + (1 + pairs.length) * (r.add e).unopened names :=
        Nat.add_le_add_right List.countP_le_length _
    _ < (1 + pairs.length) * ((r.add e).unopened names + 1) := by
        rw [Nat.mul_add, Nat.mul_one]
        omega
    _ ≤ (1 + pairs.length) * r.unopened names := Nat.mul_le_mul_left _ hopened

end Registry

/-- Nothing that an engine does makes anything new. -/
theorem scopeConduct_narrows (own : Option Ticket) (t : Ticket) :
    ScopeConduct t fun w w' => Registry.Narrows own w.registry w'.registry where
  refl w := .refl own w.registry
  trans h h' := h.trans h'
  note w _ _ := .refl own w.registry
  change _ _ _ he hchange := .update he fun _ => hchange.isFree
  log w _ _ := .refl own w.registry
  move _ _ _ he _ := .update he fun _ hp => hp
  produce w _ _ := .refl own w.registry
  register w _ := .refl own w.registry

/-! ## Ready worlds -/

/-- In every world in which calls of hooks under a ticket go no deeper than the bound, the
first run settles and makes nothing new, and the second one ends in the same way. -/
def Run.shallow (names : List String) (pairs : List NameArity) (bound : Nat) (t : Ticket) :
    RunRelation :=
  settling (fun w => w.registry.callDepth names pairs t ≤ bound) fun w w' =>
    Registry.Narrows none w.registry w'.registry

/-- The same where calls do not reach the bound. -/
def Run.shallower (names : List String) (pairs : List NameArity) (bound : Nat) (t : Ticket) :
    RunRelation :=
  settling (fun w => w.registry.callDepth names pairs t < bound) fun w w' =>
    Registry.Narrows none w.registry w'.registry

namespace Engine

variable {names : List String} {pairs : List NameArity} {bound : Nat} {g g' : Engine}

theorem scopeLaw_shallow (scope : ModuleScope) :
    ScopeLaw scope (shallow names pairs bound scope.ticket) :=
  scopeLaw_settling (scopeConduct_narrows none _).toCodeConduct fun _ _ hw hnarrows =>
    Nat.le_trans (hnarrows.callDepth_le names pairs _) hw

theorem openingLaw_shallower (g : Engine) (o : Opening) :
    OpeningLaw g o (shallower names pairs bound o.scope.ticket) :=
  openingLaw_settling (scopeConduct_narrows none _) fun _ _ hw hnarrows =>
    Nat.lt_of_le_of_lt (hnarrows.callDepth_le names pairs _) hw

theorem scopeLaw_shallower (scope : ModuleScope) :
    ScopeLaw scope (shallower names pairs bound scope.ticket) :=
  scopeLaw_settling (scopeConduct_narrows none _).toCodeConduct fun _ _ hw hnarrows =>
    Nat.lt_of_le_of_lt (hnarrows.callDepth_le names pairs _) hw

theorem shallower_of_shallow {t : Ticket} {α : Type} {r r' : Run α}
    (h : shallow names pairs bound t r r') : shallower names pairs bound t r r' :=
  settling_mono h (fun _ hw => Nat.le_of_lt hw) fun _ _ hwithin => hwithin

/-- **A definition settles** if its hooks do where calls go less deep. -/
theorem shallow_define {scope : ModuleScope} {n : NewDefinition} (hn : n.pair ∈ pairs)
    (hhooks : ∀ env d, shallower names pairs bound scope.ticket
      (g.runOnDefinition scope env d) (g'.runOnDefinition scope env d)) :
    shallow names pairs bound scope.ticket (g.define scope n) (g'.define scope n) := by
  intro w hw
  rw [define_eq, define_eq]
  cases haccept : n.accept scope w with
  | error f => exact ⟨nofun, .refl _ _, rfl⟩
  | ok answer =>
    obtain ⟨d, isNew, w₁⟩ := answer
    obtain ⟨e, ds, he, hphase, hds, rfl⟩ := NewDefinition.accept_eq_ok haccept
    have hnarrows : Registry.Narrows none w.registry
        (w.registry.update scope.ticket fun s => { s with definitions := ds }) :=
      .update he fun p hp => DefinitionStore.isFree_of_define hds hp
    cases isNew with
    | false => exact ⟨nofun, hnarrows, rfl⟩
    | true =>
      -- the pair is taken now, so calls go less deep
      have hP : ScopeLaw scope (shallower names pairs bound scope.ticket) :=
        scopeLaw_shallower scope
      let taken : World := { w with
        registry := w.registry.update scope.ticket fun s => { s with definitions := ds } }
      have hready : taken.registry.callDepth names pairs scope.ticket < bound :=
        Nat.lt_of_lt_of_le (Registry.callDepth_lt_of_new he hds hn) hw
      have hannounce : shallower names pairs bound scope.ticket
          (g.announce scope n d true) (g'.announce scope n d true) :=
        hP.bind (hhooks _ d) fun _ => hP.pure (d, true)
      obtain ⟨hsettles, hwithin, heq⟩ := hannounce _ hready
      exact ⟨hsettles, hnarrows.trans hwithin, heq⟩

/-- Closing a module settles, and frees only its own name. -/
theorem settling_closeModule (o : Opening) (fulfilled : Bool) :
    settling (fun _ => True)
      (fun w w' => Registry.Narrows (some o.scope.ticket) w.registry w'.registry)
      (g.closeModule o fulfilled) (g.closeModule o fulfilled) :=
  settling_of_within
    ((scopeConduct_narrows _ _).within_closeModule (fun w => .close w.registry _)
      fun w => .refl _ w.registry)
    (g.settles_closeModule o fulfilled)

section Compile

variable (hhost : g'.host = g.host)
  (hfire : ∀ scope : ModuleScope,
    g.FiresRelated g' scope (shallower names pairs bound scope.ticket))
  {evaluate evaluate' : EvaluateBody}
  (hevaluate : ∀ env (scope : ModuleScope),
    shallow names pairs bound scope.ticket (evaluate env scope) (evaluate' env scope))
include hhost hfire hevaluate

/-- **An opened module is finished** if calls of its hooks do not reach the bound. -/
theorem settling_finish (o : Opening) :
    settling (fun w => w.registry.callDepth names pairs o.scope.ticket < bound)
      (fun w w' => Registry.Narrows (some o.scope.ticket) w.registry w'.registry)
      (g.finish o evaluate) (g'.finish o evaluate') := by
  have hlive : shallower names pairs bound o.scope.ticket
      (g.live o evaluate) (g'.live o evaluate') :=
    related_live (openingLaw_shallower g o) hhost (hfire o.scope) fun env =>
      shallower_of_shallow (hevaluate env o.scope)
  have hR := scopeConduct_narrows (some o.scope.ticket) o.scope.ticket
  have hclosing (outcome : Except Failure CompiledModule) :=
    related_conclude (openingLaw_settling hR fun _ _ _ _ => trivial)
      (settling_closeModule (g := g) o) outcome
  rw [finish_eq, finish_eq, conclude_congr hhost o]
  refine settling_bind hR.toConduct ?_ hclosing fun _ _ _ _ => trivial
  exact settling_mono (settling_attempt hlive) (fun _ hw => hw) fun _ _ hnarrows =>
    hnarrows.of_none _

/-- **A module is compiled** if as many calls are left as the modules that are not open can
make. -/
theorem settling_compile {name : String} (hname : name ∈ names) (env : CompileEnv) :
    settling (fun w => (1 + pairs.length) * w.registry.unopened names ≤ bound)
      (fun w w' => Registry.Narrows none w.registry w'.registry)
      (g.compile name env evaluate) (g'.compile name env evaluate') := by
  intro w hw
  unfold compile
  rw [bind_apply, bind_apply, openModule_congr hhost]
  rcases openModule_cases g name env w with ⟨f, ds, hopen, -⟩ | ⟨hunopened, hopen⟩
  · rw [hopen]
    exact ⟨nofun, .refl _ _, rfl⟩
  · rw [hopen]
    let opened : World := { w with
      registry := w.registry.add (g.newEntry name env w)
      log := w.log ++ (g.opening name env w).warnings.map (.warned name) }
    have hready : opened.registry.callDepth names pairs w.registry.entries.length < bound :=
      Nat.lt_of_lt_of_le (Registry.callDepth_add_lt hunopened hname) hw
    obtain ⟨hsettles, hwithin, heq⟩ := settling_finish hhost hfire hevaluate
      (g.opening name env w) opened hready
    exact ⟨hsettles, .of_opened_closed hunopened hwithin, heq⟩

end Compile

end Engine

/-! ## Hooks that call each other -/

namespace FormLibrary

/-- The names of the modules that a compilation can open. -/
def compiledNames (lib : FormLibrary) (name : String) (body : List Form) : List String :=
  name :: Form.bodyModuleNames (body ++ lib.forms)

/-- The pairs that a compilation can define. -/
def compiledPairs (lib : FormLibrary) (body : List Form) : List NameArity :=
  Form.bodyDefinedPairs (body ++ lib.forms)

/-- The names and pairs of a compilation. -/
def vocabulary (lib : FormLibrary) (name : String) (body : List Form) : Vocabulary :=
  ⟨(· ∈ lib.compiledNames name body), (· ∈ lib.compiledPairs body)⟩

variable (lib : FormLibrary) (host : Host) (name : String) (body : List Form)

theorem vocabulary_admits {f : Form} (hf : f ∈ body ++ lib.forms) :
    (lib.vocabulary name body).Admits f := by
  refine ⟨fun m hm => List.mem_cons_of_mem _ ?_, fun p hp => ?_⟩
  · rw [Form.bodyModuleNames_eq]
    exact List.mem_flatMap.mpr ⟨f, hf, hm⟩
  · change p ∈ Form.bodyDefinedPairs _
    rw [Form.bodyDefinedPairs_eq]
    exact List.mem_flatMap.mpr ⟨f, hf, hp⟩

/-- Code settles where calls go no deeper than the engine allows, and the hooks that it calls
where they do not reach that depth. -/
theorem depthLaw_shallow (more : Nat) :
    DepthLaw lib host (lib.vocabulary name body) more
      (shallow (lib.compiledNames name body) (lib.compiledPairs body))
      (shallower (lib.compiledNames name body) (lib.compiledPairs body)) where
  forms f hf := vocabulary_admits lib name body (List.mem_append_right body hf)
  library depth :=
    { host := by rw [host_engine, host_engine]
      code := fun scope => Engine.scopeLaw_shallow scope
      hooks := fun scope => Engine.scopeLaw_shallower scope
      define := fun _ _ hn hhooks => Engine.shallow_define hn hhooks
      compile := fun m env inner hm hfire hevaluate t => by
        have hhost : (lib.engine host (more + depth)).host = (lib.engine host depth).host := by
          rw [host_engine, host_engine]
        refine settling_mono (Engine.settling_compile hhost hfire hevaluate hm env) (fun w hw => ?_)
          fun _ _ hnarrows => hnarrows
        exact Nat.le_trans (Nat.le_add_left _ _) hw }
  exhausted _ _ _ w hw := (Nat.not_lt_zero _ hw).elim
  descend _ _ _ _ _ h :=
    settling_mono h (fun _ hw => Nat.le_of_lt_succ hw) fun _ _ hwithin => hwithin

/-- An engine that allows calls as deep as names and pairs are there for settles, and deeper
engines end in the same way. -/
theorem settling_engine {depth : Nat} (hdepth : lib.depth body ≤ depth) (env : CompileEnv)
    (w : World) :
    (lib.compile host name env body w).1 ≠ .error .exhausted ∧
      (lib.engine host depth).compile name env (lib.evaluation (lib.engine host depth) body) w
        = lib.compile host name env body w := by
  obtain ⟨more, rfl⟩ := Nat.exists_eq_add_of_le' hdepth
  have hL := depthLaw_shallow lib host name body more
  have hhost : (lib.engine host (more + lib.depth body)).host
      = (lib.engineFor host body).host := by
    rw [engineFor, host_engine, host_engine]
  have hready : (1 + (lib.compiledPairs body).length) *
      w.registry.unopened (lib.compiledNames name body) ≤ lib.depth body := by
    have hnames : w.registry.unopened (lib.compiledNames name body)
        ≤ 1 + (Form.bodyModuleNames (body ++ lib.forms)).length := by
      rw [Nat.add_comm]
      exact List.countP_le_length
    calc (1 + (lib.compiledPairs body).length) * w.registry.unopened (lib.compiledNames name body)
        ≤ (1 + (lib.compiledPairs body).length) *
            (1 + (Form.bodyModuleNames (body ++ lib.forms)).length) :=
          Nat.mul_le_mul_left _ hnames
      _ = lib.depth body := Nat.mul_comm _ _
  obtain ⟨hsettles, -, heq⟩ := Engine.settling_compile hhost (hL.fires (lib.depth body))
    (fun env scope => hL.evalBody (lib.depth body) scope (.value .null) env fun f hf =>
      vocabulary_admits lib name body (List.mem_append_left _ hf))
    List.mem_cons_self env w hready
  exact ⟨hsettles, heq⟩

/-- A compilation settles. -/
theorem compile_ne_exhausted (env : CompileEnv) (w : World) :
    (lib.compile host name env body w).1 ≠ .error .exhausted :=
  (settling_engine lib host name body (Nat.le_refl _) env w).1

end FormLibrary

/-! ## The law -/

/-- What keeps the calls of hooks from going round in circles. -/
structure Engine.BoundsReentry (g : Engine) : Prop where
  /-- A definition of a pair that the module's table holds calls no hook. -/
  known_pair : ∀ (scope : ModuleScope) (n : NewDefinition) (w : World) (e : ModuleEntry)
    (t : DefinitionTable), w.registry.find? scope.ticket = some e → e.definitions.table = some t →
    (t.get? n.pair).isSome = true → (g.define scope n w).2.log = w.log
  /-- The hooks of a round are those that are registered when it begins. -/
  snapshot : ∀ (scope : ModuleScope) (env : CompileEnv) (w : World) (e : ModuleEntry)
    (t : AttributeTable), w.registry.find? scope.ticket = some e → e.attributes.table = some t →
    (∀ d, g.runOnDefinition scope env d w = g.runEach .onDefinition (.definition d) scope env
      (t.readAll "on_definition") w) ∧
    g.runBeforeCompile scope env w = g.runThrough .beforeCompile .none scope env
      (t.readAll "before_compile").reverse w ∧
    ∀ a, g.runAfterCompile scope env a w = ((fun _ => ()) <$> g.runThrough .afterCompile
      (.artifact a) scope env (t.readAll "after_compile").reverse) w
  /-- A module that is open is not opened again, and nothing of its body is evaluated. -/
  open_module : ∀ (name : String) (env : CompileEnv) (evaluate : EvaluateBody) (w : World),
    w.registry.isOpen name = true → ∃ (f : Failure) (ds : List Diagnostic),
      g.compile name env evaluate w
        = (.error (.failed f), { w with log := w.log ++ ds.map (.warned name) })

namespace Engine

theorem log_define_of_known {g : Engine} {scope : ModuleScope} {n : NewDefinition} {w : World}
    {e : ModuleEntry} {t : DefinitionTable} (he : w.registry.find? scope.ticket = some e)
    (ht : e.definitions.table = some t) (hn : (t.get? n.pair).isSome = true) :
    (g.define scope n w).2.log = w.log := by
  rw [define_eq]
  cases haccept : n.accept scope w with
  | error f => rfl
  | ok answer =>
    obtain ⟨d, isNew, w₁⟩ := answer
    obtain ⟨e', ds, he', -, hds, rfl⟩ := NewDefinition.accept_eq_ok haccept
    obtain rfl : e = e' := Option.some.inj (he.symm.trans he')
    obtain ⟨t', ht', -, hnew, -⟩ := DefinitionStore.define_eq_ok hds
    obtain rfl : t = t' := Option.some.inj (ht.symm.trans ht')
    have hknown : isNew = false := by
      rw [hnew, ← Option.not_isSome]
      exact congrArg _ hn
    subst hknown
    rfl

theorem boundsReentry (g : Engine) : g.BoundsReentry where
  known_pair _ _ _ _ _ := log_define_of_known
  snapshot scope env w e t he ht := by
    have hattributes : Run.attributes scope w = (.ok t, w) := attributes_apply he ht
    refine ⟨fun d => ?_, ?_, fun a => ?_⟩
    · unfold runOnDefinition
      rw [bind_apply, hattributes]
      rfl
    · unfold runBeforeCompile
      rw [bind_apply, hattributes]
      rfl
    · unfold runAfterCompile
      rw [bind_apply, hattributes, map_eq_pure_bind]
      rfl
  open_module name env evaluate w hopen := by
    unfold compile
    rw [bind_apply]
    rcases openModule_cases g name env w with ⟨f, ds, hrefused, -⟩ | ⟨hname, -⟩
    · exact ⟨f, ds, by rw [hrefused]⟩
    · rw [Registry.isOpen, OrderedMap.contains, hname] at hopen
      cases hopen

end Engine

/-- **Compilations terminate.**  Whatever the body, the hooks, and the host's part in the
run, a compilation ends with a result or a failure, and it ends so with every engine that
allows hooks to call each other as deep as `FormLibrary.depth` says, or deeper. -/
theorem FormLibrary.compile_terminates (lib : FormLibrary) (host : Host) (name : String)
    (env : CompileEnv) (body : List Form) :
    (∀ depth, (lib.engine host depth).BoundsReentry) ∧
      ∀ w, ∃ (outcome : Except Failure CompiledModule) (w' : World),
        (lib.compile host name env body).SettlesAs w outcome w' ∧
          ∀ depth, lib.depth body ≤ depth →
            ((lib.engine host depth).compile name env
              (lib.evaluation (lib.engine host depth) body)).SettlesAs w outcome w' := by
  refine ⟨fun depth => (lib.engine host depth).boundsReentry, fun w => ?_⟩
  obtain ⟨outcome, w', hsettles⟩ := exists_settlesAs (compile_ne_exhausted lib host name body env w)
  refine ⟨outcome, w', hsettles, fun depth hdepth => ?_⟩
  have heq := (settling_engine lib host name body hdepth env w).2
  exact heq.trans hsettles

end ModuleBuild
