import ModuleBuild.Proofs.Compile.Closing
import ModuleBuild.Proofs.Compile.Listing
import ModuleBuild.Proofs.Registry.UnderWay

/-! # The modules being compiled

A context names the modules being compiled, the outermost first.  The list is handed on by value,
to the observer of an opening, to the evaluator of a body and to hooks, while the registry that
knows which modules are open is shared.  Each time it is handed over (`Handing`) it names the
modules that are under way (`Handing.Faithful`), and code and the compilations in it leave the same
modules under way, so that this is so again the next time (`World.Hands`).

The handings of a run are listed along it, and the events of the log that tell of handings are
those of the list (`World.Tells`).
-/
namespace ModuleBuild

open Run

/-! ## Handings -/

/-- Who the context of a module is handed to. -/
inductive Receiver where
  | observer
  | evaluator
  | hook (phase : HookPhase)

/-- The list of the modules being compiled, as it is handed over on behalf of a module, and the
world in which it is. -/
structure Handing where
  receiver : Receiver
  module : String
  compiling : List String
  world : World

/-- What an event tells of a handing. -/
def Event.handed? : Event → Option (Receiver × String × List String)
  | .opened m _ compiling => some (.observer, m, compiling)
  | .fired phase m _ env => some (.hook phase, m, env.compiling)
  | _ => none

/-- What the log tells of a handing; of those to evaluators it tells nothing. -/
def Handing.told? (h : Handing) : Option (Receiver × String × List String) :=
  match h.receiver with
  | .evaluator => none
  | receiver => some (receiver, h.module, h.compiling)

/-- The modules of a stack are those under way, in the order of their opening; a name that is open
besides is that of a module whose closing the host broke off. -/
structure World.Stands (host : Host) (stack : List (String × Ticket)) (w : World) : Prop where
  underWay : w.registry.underWay = stack
  inOrder : w.registry.InOrder
  brokenOff : ∀ m t, w.registry.opened.get? m = some t → w.registry.isUnderWay t = false →
    ∃ log, log <+: w.log ∧ host.BreaksClosing m log

/-- What is handed over is the list of the modules under way, of which the module is the last. -/
def Handing.Faithful (host : Host) (h : Handing) : Prop :=
  ∃ stack, h.world.Stands host stack ∧ h.compiling = stack.map Prod.fst ∧
    h.compiling.getLast? = some h.module

/-- What is logged from one world to the other tells of handings what the list has of them. -/
def World.Tells (hs : List Handing) (w w' : World) : Prop :=
  ∃ es, w'.log = w.log ++ es ∧ es.filterMap Event.handed? = hs.filterMap Handing.told?

/-- Starting with a stack of modules under way, the handings are faithful, the log tells of them,
and the same modules are under way afterwards. -/
def World.Hands (host : Host) (stack : List (String × Ticket)) (hs : List Handing)
    (w w' : World) : Prop :=
  w.Stands host stack →
    (∀ h ∈ hs, h.Faithful host) ∧ World.Stands host stack w' ∧ World.Tells hs w w'

/-- What opens, closes and hands over nothing. -/
structure World.Calm (w w' : World) : Prop where
  opened : w'.registry.opened = w.registry.opened
  underWay : ∀ t, w'.registry.isUnderWay t = w.registry.isUnderWay t
  tells : World.Tells [] w w'

namespace World

variable {host : Host} {stack : List (String × Ticket)} {hs hs' : List Handing} {w w' w'' : World}

theorem Tells.refl (w : World) : Tells [] w w := ⟨[], (List.append_nil _).symm, rfl⟩

theorem Tells.append (h : Tells hs w w') (h' : Tells hs' w' w'') : Tells (hs ++ hs') w w'' := by
  obtain ⟨es, hlog, hes⟩ := h
  obtain ⟨es', hlog', hes'⟩ := h'
  refine ⟨es ++ es', by rw [hlog', hlog, List.append_assoc], ?_⟩
  rw [List.filterMap_append, List.filterMap_append, hes, hes']

/-- Telling an observer tells of what the event tells of. -/
theorem Tells.notified {e : Event} (he : [e].filterMap Event.handed? = hs.filterMap Handing.told?)
    (m : String) (d : Option Diagnostic) {r : Registry} {w' : World} :
    Tells hs w { w' with registry := r, log := w.log ++ e :: d.toList.map (.warned m) } := by
  refine ⟨e :: d.toList.map (.warned m), rfl, ?_⟩
  rw [← List.singleton_append, List.filterMap_append, he]
  cases d <;> simp [Event.handed?]

theorem Tells.nothing {e : Event} (he : e.handed? = none) (m : String) (d : Option Diagnostic)
    {r : Registry} {w' : World} :
    Tells [] w { w' with registry := r, log := w.log ++ e :: d.toList.map (.warned m) } :=
  .notified (by simp [he]) m d

theorem calm_of_log {e : Event} (he : e.handed? = none) : Calm w { w with log := w.log ++ [e] } :=
  ⟨rfl, fun _ => rfl, [e], rfl, by simp [he]⟩

theorem conduct_calm : Conduct Calm where
  refl w := ⟨rfl, fun _ => rfl, .refl w⟩
  trans h h' := ⟨h'.opened.trans h.opened, fun t => (h'.underWay t).trans (h.underWay t),
    h.tells.append h'.tells⟩

theorem Calm.stands (h : Calm w w') (hw : w.Stands host stack) : w'.Stands host stack where
  underWay := by
    unfold Registry.underWay
    simp only [h.opened, h.underWay]
    exact hw.underWay
  inOrder := by
    unfold Registry.InOrder
    rw [h.opened]
    exact hw.inOrder
  brokenOff m t hm ht := by
    rw [h.opened] at hm
    rw [h.underWay] at ht
    obtain ⟨log, hlog, hbreaks⟩ := hw.brokenOff m t hm ht
    obtain ⟨es, heq, -⟩ := h.tells
    exact ⟨log, heq ▸ hlog.trans (List.prefix_append _ _), hbreaks⟩

theorem Calm.hands (h : Calm w w') : Hands host stack [] w w' := fun hw =>
  ⟨fun _ h => (List.not_mem_nil h).elim, h.stands hw, h.tells⟩

/-- Nothing is under way where nothing is open. -/
theorem stands_of_keys_eq_nil (host : Host) (h : w.registry.opened.keys = []) :
    w.Stands host [] := by
  have hentries : w.registry.opened.entries = [] := List.map_eq_nil_iff.mp h
  refine ⟨?_, ?_, fun m t hm _ => ?_⟩
  · rw [Registry.underWay, hentries]
    rfl
  · rw [Registry.InOrder, OrderedMap.values, hentries]
    exact List.Pairwise.nil
  · have hmem := OrderedMap.mem_of_get? hm
    rw [hentries] at hmem
    exact (List.not_mem_nil hmem).elim

/-- Logging changes nothing of what is open. -/
theorem Stands.log (hw : w.Stands host stack) {log : List Event} (hlog : w.log <+: log) :
    World.Stands host stack { w with log } where
  underWay := hw.underWay
  inOrder := hw.inOrder
  brokenOff m t hm ht := by
    obtain ⟨before, hbefore, hbreaks⟩ := hw.brokenOff m t hm ht
    exact ⟨before, hbefore.trans hlog, hbreaks⟩

/-- A faithful handing that the log tells of. -/
theorem hands_told {h : Handing} {log : List Event}
    (hfaithful : w.Stands host stack → h.Faithful host) (htells : Tells [h] w { w with log }) :
    Hands host stack [h] w { w with log } := by
  intro hw
  have hlog : w.log <+: log := by
    obtain ⟨es, heq, -⟩ := htells
    exact ⟨es, heq.symm⟩
  exact ⟨List.forall_mem_singleton.mpr (hfaithful hw), hw.log hlog, htells⟩

theorem graded_hands (host : Host) (stack : List (String × Ticket)) :
    Graded (Hands host stack) where
  refl w := (conduct_calm.refl w).hands
  append h h' hw := by
    obtain ⟨hfaithful, hw', htells⟩ := h hw
    obtain ⟨hfaithful', hw'', htells'⟩ := h' hw'
    refine ⟨fun x hx => ?_, hw'', htells.append htells'⟩
    exact (List.mem_append.mp hx).elim (hfaithful x) (hfaithful' x)

end World

/-- A scope at the top of a stack of modules under way: its module is the last, and its context
names them all. -/
structure ModuleScope.Tops (scope : ModuleScope) (stack : List (String × Ticket)) : Prop where
  last : stack.getLast? = some (scope.module, scope.ticket)
  compiling : scope.env.compiling = stack.map Prod.fst

/-- A handing on behalf of the module at the top is faithful. -/
theorem ModuleScope.Tops.faithful {scope : ModuleScope} {stack : List (String × Ticket)}
    {host : Host} {w : World} (htops : scope.Tops stack) (hw : w.Stands host stack)
    (receiver : Receiver) {compiling : List String} (h : compiling = stack.map Prod.fst) :
    Handing.Faithful host ⟨receiver, scope.module, compiling, w⟩ := by
  refine ⟨stack, hw, h, ?_⟩
  change compiling.getLast? = _
  rw [h, List.getLast?_map, htops.last]
  rfl

/-! ## Calm runs -/

namespace Run

variable {α : Type} {scope : ModuleScope} {host : Host} {stack : List (String × Ticket)}

theorem within_hands_of_calm {r : Run α} (h : Within World.Calm r) :
    Within (World.Hands host stack []) r := h.mono fun _ _ h => h.hands

/-- A calm run keeps to every stack, and hands nothing over. -/
theorem along_of_calm {r : Run α} (h : Within World.Calm r) :
    Along (World.Hands host stack) (fun _ => True) r fun _ => [] :=
  along_of_within (within_hands_of_calm h)

theorem congruence_calm : (within World.Calm).Congruence := congruence_within World.conduct_calm

theorem within_calm_emit {e : Event} (he : e.handed? = none) (answer : List Event → α) :
    Within World.Calm (emit e answer) := fun _ _ => World.calm_of_log he

theorem within_calm_notify (host : Host) (callback m : String) (l : Location) {e : Event}
    (he : e.handed? = none) : Within World.Calm (notify host callback m l e) := by
  intro w _
  rw [world_notify]
  exact ⟨rfl, fun _ => rfl, .nothing he m _⟩

theorem within_calm_warn (host : Host) (m : String) (d : Diagnostic) :
    Within World.Calm (warn host m d) := by
  intro w _
  rw [warn_apply]
  exact World.calm_of_log rfl

theorem within_calm_updateEntry {f : ModuleState → ModuleState} (hf : ∀ s, (f s).phase = s.phase) :
    Within World.Calm (updateEntry scope f) := fun w _ =>
  ⟨rfl, Registry.isUnderWay_update_of_phase hf, .refl w⟩

theorem entryLaw_calm (scope : ModuleScope) : EntryLaw scope (within World.Calm) where
  toCongruence := congruence_calm
  changeAttributes _ := congruence_calm.bind (congruence_calm.entry scope) fun _ =>
    congruence_calm.bind (congruence_calm.ofCondition _) fun _ =>
      within_calm_updateEntry fun _ => rfl
  changeDocs _ := within_calm_updateEntry fun _ => rfl
  recordLocal _ := congruence_calm.bind (congruence_calm.entry scope) fun _ =>
    congruence_calm.bind (congruence_calm.ofCondition _) fun _ =>
      within_calm_updateEntry fun _ => rfl

end Run

namespace Engine

variable {g : Engine} {o : Opening} {w : World}

theorem world_move (g : Engine) (o : Opening) (m : Phase.Move) (w : World) :
    ∃ d : Option Diagnostic, (g.move o m w).2 = { w with
      registry := w.registry.update o.scope.ticket fun s => { s with phase := m.2 }
      log := w.log ++ .moved o.scope.module m :: d.toList.map (.warned o.scope.module) } := by
  unfold move
  rw [bind_apply, updateEntry, modify_apply]
  simp only [world_notify]
  exact ⟨_, rfl⟩

/-- A module that goes on to a phase that is not the last stays under way. -/
theorem within_calm_advance {target : Phase} (htarget : target ≠ .closed) :
    Within World.Calm (g.advance o target) := by
  intro w _
  unfold advance
  rw [bind_apply, entry_apply]
  cases he : w.registry.find? o.scope.ticket with
  | none => exact World.conduct_calm.refl w
  | some e =>
    simp only [bind_apply]
    cases hmove : e.phase.advance o.scope.module target with
    | error c => exact World.conduct_calm.refl w
    | ok m =>
      have hnext := Phase.next?_of_advance hmove
      obtain rfl := Phase.target_of_advance hmove
      have hphase : e.phase ≠ .closed := fun h => by
        rw [h] at hnext
        cases hnext
      obtain ⟨d, hw⟩ := world_move g o m w
      change World.Calm w (g.move o m w).2
      rw [hw]
      exact ⟨rfl, Registry.isUnderWay_move he hphase htarget, .nothing rfl _ d⟩

theorem handoverLaw_calm (g : Engine) (o : Opening) : HandoverLaw g o (within World.Calm) where
  toCongruence := congruence_calm
  recordArtifact _ := fun w _ => ⟨rfl, fun _ => rfl, .refl w⟩
  register _ := fun w _ => ⟨rfl, fun _ => rfl, .refl w⟩
  listen _ _ listener := within_calm_emit rfl listener
  load _ loader := within_calm_emit rfl loader
  announce _ _ := within_calm_notify _ _ _ _ rfl

/-! ## Opening and closing -/

variable {stack : List (String × Ticket)} {name : String} {env : CompileEnv}

/-- **A module that is opened is the last of those under way.** -/
theorem stands_opening {host : Host} (hw : w.Stands host stack)
    (hname : w.registry.opened.get? name = none) (log : List Event) (hlog : w.log <+: log) :
    World.Stands host (stack ++ [(name, (g.opening name env w).scope.ticket)])
      { w with registry := w.registry.add (g.newEntry name env w), log } where
  underWay := by
    rw [← hw.underWay]
    exact Registry.underWay_add hname nofun
  inOrder := hw.inOrder.add hname
  brokenOff m t hm ht := by
    simp only [Registry.opened_add, OrderedMap.get?_insert, newEntry, ModuleEntry.new_module] at hm
    split at hm
    · -- the new module is under way
      cases hm
      simp [Registry.isUnderWay, Registry.find?_add, newEntry, ModuleEntry.new] at ht
    · have hlt := Nat.ne_of_lt (Registry.lt_length_of_opened hm)
      simp only [Registry.isUnderWay, Registry.find?_add, if_neg hlt] at ht
      obtain ⟨before, hbefore, hbreaks⟩ := hw.brokenOff m t hm ht
      exact ⟨before, hbefore.trans hlog, hbreaks⟩

theorem tops_opening (henv : env.compiling = stack.map Prod.fst) :
    (g.opening name env w).scope.Tops (stack ++ [(name, (g.opening name env w).scope.ticket)]) where
  last := List.getLast?_concat
  compiling := by
    rw [List.map_append, ← henv]
    rfl

/-- **Closing the last of the modules under way takes it off the stack**, also if the host breaks
the closing off. -/
theorem stands_closeModule
    (hw : w.Stands g.host (stack ++ [(o.scope.module, o.scope.ticket)])) (fulfilled : Bool) :
    World.Stands g.host stack (g.closeModule o fulfilled w).2 ∧
      World.Tells [] w (g.closeModule o fulfilled w).2 := by
  have hmem : (o.scope.module, o.scope.ticket) ∈ w.registry.underWay := by simp [hw.underWay]
  obtain ⟨hname, hunderWay⟩ := Registry.mem_underWay_iff.mp hmem
  obtain ⟨e, he, hphase⟩ := Registry.isUnderWay_iff.mp hunderWay
  let r := w.registry.update o.scope.ticket fun s => { s with phase := .closed }
  have hstack : r.underWay = stack := by
    rw [Registry.underWay_move_closed, hw.inOrder.filter_ne hw.underWay]
  -- of the other modules nothing is changed
  have hothers {m : String} {t : Ticket} (hm : w.registry.opened.get? m = some t)
      (hne : t ≠ o.scope.ticket) (ht : r.isUnderWay t = false) (es : List Event) :
      ∃ log, log <+: w.log ++ es ∧ g.host.BreaksClosing m log := by
    rw [Registry.isUnderWay_update, if_neg hne.symm] at ht
    obtain ⟨log, hlog, hbreaks⟩ := hw.brokenOff m t hm ht
    exact ⟨log, hlog.trans (List.prefix_append _ _), hbreaks⟩
  obtain ⟨d, hmoved⟩ := world_move g o (e.phase, .closed) w
  have htold : World.Tells [] w (g.move o (e.phase, .closed) w).2 := by
    rw [hmoved]
    exact .nothing rfl _ d
  unfold closeModule
  rw [bind_apply, entry_apply, he]
  simp only [Phase.close?, if_neg hphase, bind_apply]
  rcases lastMove_cases g o e.phase w with ⟨log, hmove⟩ | ⟨f, log, hmove, hbreaks⟩
  · obtain rfl : log = _ := congrArg World.log ((congrArg Prod.snd hmove).symm.trans hmoved)
    rw [hmove] at htold ⊢
    simp only [modify_apply, world_notify]
    refine ⟨⟨?_, (hw.inOrder.update _).close _, fun m t hm ht => ?_⟩, ?_⟩
    · change (r.close o.scope.ticket).underWay = stack
      rw [Registry.underWay_close, Registry.underWay_move_closed, List.filter_filter]
      simp only [Bool.and_self]
      exact hw.inOrder.filter_ne hw.underWay
    · obtain ⟨hm, hne⟩ := (Registry.get?_opened_close ..).mp hm
      rw [Registry.isUnderWay_close] at ht
      rw [List.append_assoc]
      exact hothers hm hne ht _
    · exact htold.append (.nothing rfl _ _)
  · obtain rfl : log = _ := congrArg World.log ((congrArg Prod.snd hmove).symm.trans hmoved)
    rw [hmove] at htold ⊢
    refine ⟨⟨hstack, hw.inOrder.update _, fun m t hm ht => ?_⟩, htold⟩
    by_cases hne : t = o.scope.ticket
    · subst hne
      obtain rfl : m = o.scope.module := Registry.name_of_opened hm hname
      exact ⟨_, List.prefix_rfl, hbreaks⟩
    · exact hothers hm hne ht _

end Engine
end ModuleBuild
