import Mathlib.Logic.Relation
import ModuleBuild.Proofs.Compile.Teardown
import ModuleBuild.Proofs.Definition.History

/-! # Runs as sequences of steps

Whatever a run does to the world it does in steps of a few kinds (`World.Step`).  No step
takes an entry away, takes a module back to an earlier phase, or defines anything in a module
that is past the phases for it (`World.Step.leadsTo`), so no sequence of steps does.
-/
namespace ModuleBuild

open Run

/-- What a run can do to the world at once. -/
inductive World.Step (w : World) : World → Prop where
  | log (e : Event) : Step w { w with log := w.log ++ [e] }
  | change {t : Ticket} {e : ModuleEntry} {s : ModuleState} (he : w.registry.find? t = some e)
      (h : e.toModuleState.Change s) : Step w { w with registry := w.registry.update t fun _ => s }
  | move {t : Ticket} {e : ModuleEntry} {p : Phase} (he : w.registry.find? t = some e)
      (hp : e.phase.next? = some p ∨ p = .closed) :
      Step w { w with registry := w.registry.update t fun s => { s with phase := p } }
  | enrol {m : String} (s : String) (l : Location) (d : Bool)
      (hm : w.registry.opened.get? m = none) :
      Step w { w with registry := w.registry.add (.new m s l d) }
  | close (t : Ticket) : Step w { w with registry := w.registry.close t }
  | produce (m : String) (a : Artifact) : Step w { w with session := w.session.produce m a }
  | register (m : LoadedModule) : Step w { w with code := w.code.register m }

/-- The second world comes about from the first one step by step. -/
def World.Path : World → World → Prop := Relation.ReflTransGen World.Step

/-! ## What becomes of an entry -/

/-- What an entry can become: its phase does not go back, and once definitions are closed it
has the definitions it had, or none. -/
structure ModuleEntry.LeadsTo (e e' : ModuleEntry) : Prop where
  phase : e.phase.place ≤ e'.phase.place
  definitions : e.phase.canDefine = false → ∀ t', e'.definitions.table = some t' →
    ∃ t, e.definitions.table = some t ∧ t'.definitions = t.definitions

namespace ModuleEntry.LeadsTo

theorem refl (e : ModuleEntry) : e.LeadsTo e := ⟨Nat.le_refl _, fun _ t' ht' => ⟨t', ht', rfl⟩⟩

theorem trans {e e' e'' : ModuleEntry} (h : e.LeadsTo e') (h' : e'.LeadsTo e'') :
    e.LeadsTo e'' := by
  refine ⟨Nat.le_trans h.phase h'.phase, fun hclosed t'' ht'' => ?_⟩
  obtain ⟨t', ht', heq'⟩ :=
    h'.definitions (Phase.canDefine_of_place_le hclosed h.phase) t'' ht''
  obtain ⟨t, ht, heq⟩ := h.definitions hclosed t' ht'
  exact ⟨t, ht, heq'.trans heq⟩

theorem change {e : ModuleEntry} {s : ModuleState} (h : e.toModuleState.Change s) :
    e.LeadsTo (e.change fun _ => s) := by
  cases h with
  | attributes a => exact ⟨Nat.le_refl _, fun _ t' ht' => ⟨t', ht', rfl⟩⟩
  | docs d => exact ⟨Nat.le_refl _, fun _ t' ht' => ⟨t', ht', rfl⟩⟩
  | define hphase h =>
    refine ⟨Nat.le_refl _, fun hclosed => ?_⟩
    rw [hphase] at hclosed
    cases hclosed
  | recordLocal h =>
    obtain ⟨t, ht, rfl⟩ := DefinitionStore.recordLocal_eq_ok h
    refine ⟨Nat.le_refl _, fun _ t' ht' => ⟨t, ht, ?_⟩⟩
    obtain rfl : t.recordLocal _ = t' := Option.some.inj ht'
    exact DefinitionTable.definitions_recordLocal t _

theorem move {e : ModuleEntry} {p : Phase} (hp : e.phase.next? = some p ∨ p = .closed) :
    e.LeadsTo (e.change fun s => { s with phase := p }) := by
  refine ⟨?_, fun _ t' ht' => ⟨t', ht', rfl⟩⟩
  rcases hp with hp | rfl
  · exact Nat.le_of_lt (Nat.lt_of_lt_of_eq (Nat.lt_succ_self _) (Phase.place_of_next? hp).symm)
  · exact Phase.place_le_closed _

theorem destroy (e : ModuleEntry) : e.LeadsTo e.destroy := ⟨Nat.le_refl _, fun _ _ => nofun⟩

end ModuleEntry.LeadsTo

namespace World

variable {w w' : World} {t : Ticket} {e : ModuleEntry}

/-- What an update leads the entry under its ticket to, it leads all entries to. -/
theorem leadsTo_update {u : Ticket} {f : ModuleState → ModuleState} {e' : ModuleEntry}
    (hu : w.registry.find? u = some e') (hf : e'.LeadsTo (e'.change f))
    (he : w.registry.find? t = some e) :
    ∃ e₁, (w.registry.update u f).find? t = some e₁ ∧ e.LeadsTo e₁ := by
  rw [Registry.find?_update]
  by_cases h : u = t
  · subst h
    obtain rfl : e = e' := Option.some.inj (he.symm.trans hu)
    exact ⟨e.change f, by rw [if_pos rfl, he]; rfl, hf⟩
  · exact ⟨e, by rw [if_neg h, he], .refl e⟩

/-- **What a step leads an entry to.** -/
theorem Step.leadsTo (h : Step w w') (he : w.registry.find? t = some e) :
    ∃ e', w'.registry.find? t = some e' ∧ e.LeadsTo e' := by
  cases h with
  | log | produce | register => exact ⟨e, he, .refl e⟩
  | change hu hchange => exact leadsTo_update hu (.change hchange) he
  | move hu hp => exact leadsTo_update hu (.move hp) he
  | enrol s l d hm =>
    refine ⟨e, ?_, .refl e⟩
    rw [Registry.find?_add, if_neg]
    · exact he
    · exact Nat.ne_of_lt (List.getElem?_eq_some_iff.mp he).1
  | close u =>
    rw [Registry.find?_close]
    by_cases hu : u = t
    · exact ⟨e.destroy, by rw [if_pos hu, he]; rfl, .destroy e⟩
    · exact ⟨e, by rw [if_neg hu, he], .refl e⟩

/-- **What any number of steps lead an entry to.** -/
theorem Path.leadsTo (h : Path w w') (he : w.registry.find? t = some e) :
    ∃ e', w'.registry.find? t = some e' ∧ e.LeadsTo e' := by
  induction h with
  | refl => exact ⟨e, he, .refl e⟩
  | tail _ hstep ih =>
    obtain ⟨e₁, he₁, h₁⟩ := ih
    obtain ⟨e₂, he₂, h₂⟩ := hstep.leadsTo he₁
    exact ⟨e₂, he₂, h₁.trans h₂⟩

/-- The log only grows. -/
theorem Path.log_grows (h : Path w w') : w.log <+: w'.log := by
  induction h with
  | refl => exact List.prefix_rfl
  | tail _ hstep ih =>
    refine ih.trans ?_
    cases hstep with
    | log e => exact List.prefix_append _ _
    | change | move | enrol | close | produce | register => exact List.prefix_rfl

theorem path_log (w : World) (es : List Event) : Path w { w with log := w.log ++ es } := by
  induction es generalizing w with
  | nil =>
    rw [List.append_nil]
    exact .refl
  | cons e rest ih =>
    have hrest := ih { w with log := w.log ++ [e] }
    rw [List.append_assoc] at hrest
    exact .head (.log e) hrest

end World

/-! ## Runs are sequences of steps -/

theorem scopeConduct_path (t : Ticket) : ScopeConduct t World.Path where
  refl _ := .refl
  trans := .trans
  note _ e _ := .single (.log e)
  change _ _ _ he h := .single (.change he h)
  log _ e _ := .single (.log e)
  move _ _ _ he hp := .single (.move he hp)
  produce _ m a := .single (.produce m a)
  register _ m := .single (.register m)

/-- **A compilation is a sequence of steps** if its body and its hooks are. -/
theorem Engine.path_compile {g : Engine} {evaluate : EvaluateBody}
    (hfire : ∀ scope, g.FiresWithin scope World.Path)
    (hevaluate : ∀ env scope, Within World.Path (evaluate env scope)) (name : String)
    (env : CompileEnv) : Within World.Path (g.compile name env evaluate) := by
  intro w hsettles
  unfold compile at hsettles ⊢
  rw [bind_apply] at hsettles ⊢
  rcases openModule_cases g name env w with ⟨f, ds, hopen, -⟩ | ⟨hname, hopen⟩
  · rw [hopen]
    exact World.path_log w _
  · simp only [hopen] at hsettles ⊢
    have hfinish := (scopeConduct_path (g.opening name env w).scope.ticket).within_finish
      (hfire _) (fun env => hevaluate env _) (fun _ => .single (.close _))
      (fun _ _ => .single (.log _)) _ hsettles
    have hopened := (World.path_log w ((g.opening name env w).warnings.map (.warned name))).tail
      (.enrol (m := name) w.session.id (g.opening name env w).location g.host.options.docs hname)
    exact hopened.trans hfinish

/-! ## Entries stay live until they are closed -/

/-- Entries with a definition table keep one, but for the entry under `own`. -/
def World.Spares (own : Option Ticket) (w w' : World) : Prop :=
  ∀ t e, w.registry.find? t = some e → own ≠ some t → e.definitions.table.isSome = true →
    ∃ e', w'.registry.find? t = some e' ∧ e'.definitions.table.isSome = true

namespace World.Spares

variable {own : Option Ticket} {w w' w'' : World}

theorem refl (own : Option Ticket) (w : World) : Spares own w w :=
  fun _ e he _ hlive => ⟨e, he, hlive⟩

theorem trans (h : Spares own w w') (h' : Spares own w' w'') : Spares own w w'' := by
  intro t e he hown hlive
  obtain ⟨e₁, he₁, hlive₁⟩ := h t e he hown hlive
  exact h' t e₁ he₁ hown hlive₁

theorem of_none (h : Spares none w w') (own : Option Ticket) : Spares own w w' :=
  fun t e he _ => h t e he nofun

/-- What leaves a live entry with a table spares all entries. -/
theorem update {t : Ticket} {e : ModuleEntry} {f : ModuleState → ModuleState}
    (he : w.registry.find? t = some e)
    (hf : e.definitions.table.isSome = true →
      (f e.toModuleState).definitions.table.isSome = true) :
    Spares own w { w with registry := w.registry.update t f } := by
  intro u e' he' _ hlive
  simp only [Registry.find?_update]
  by_cases hu : t = u
  · subst hu
    obtain rfl : e = e' := Option.some.inj (he.symm.trans he')
    exact ⟨e.change f, by rw [if_pos rfl, he]; rfl, hf hlive⟩
  · exact ⟨e', by rw [if_neg hu, he'], hlive⟩

theorem close (t : Ticket) :
    Spares (some t) w { w with registry := w.registry.close t } := by
  intro u e he hown hlive
  refine ⟨e, ?_, hlive⟩
  simp only [Registry.find?_close]
  rw [if_neg fun h => hown (congrArg some h), he]

end World.Spares

theorem ModuleState.Change.isSome_table {s s' : ModuleState} (h : s.Change s')
    (hlive : s.definitions.table.isSome = true) : s'.definitions.table.isSome = true := by
  cases h with
  | attributes a => exact hlive
  | docs d => exact hlive
  | define _ h =>
    obtain ⟨_, -, rfl, -, -⟩ := DefinitionStore.define_eq_ok h
    rfl
  | recordLocal h =>
    obtain ⟨_, -, rfl⟩ := DefinitionStore.recordLocal_eq_ok h
    rfl

theorem scopeConduct_spares (own : Option Ticket) (t : Ticket) :
    ScopeConduct t (World.Spares own) where
  refl := .refl own
  trans := .trans
  note w _ _ := .refl own w
  change _ _ _ he h := .update he h.isSome_table
  log w _ _ := .refl own w
  move _ _ _ he _ := .update he fun hlive => hlive
  produce w _ _ := .refl own w
  register w _ := .refl own w

/-- **A compilation spares the entries of its callers.** -/
theorem Engine.spares_compile {g : Engine} {evaluate : EvaluateBody}
    (hfire : ∀ scope, g.FiresWithin scope (World.Spares none))
    (hevaluate : ∀ env scope, Within (World.Spares none) (evaluate env scope)) (name : String)
    (env : CompileEnv) : Within (World.Spares none) (g.compile name env evaluate) := by
  intro w hsettles
  unfold compile at hsettles ⊢
  rw [bind_apply] at hsettles ⊢
  rcases openModule_cases g name env w with ⟨f, ds, hopen, -⟩ | ⟨hname, hopen⟩
  · rw [hopen]
    exact .refl none w
  · simp only [hopen] at hsettles ⊢
    let o := g.opening name env w
    have hfinish : Within (World.Spares (some o.scope.ticket)) (g.finish o evaluate) :=
      (scopeConduct_spares _ o.scope.ticket).within_finish
        (fun phase target subject env =>
          (hfire o.scope phase target subject env).mono fun _ _ h => h.of_none _)
        (fun env => (hevaluate env o.scope).mono fun _ _ h => h.of_none _)
        (fun _ => .close _) fun w _ => .refl _ w
    intro t e he _ hlive
    -- the entry that is closed is none of those that were there before
    have ht : t < w.registry.entries.length := (List.getElem?_eq_some_iff.mp he).1
    refine hfinish _ hsettles t e ?_ (fun h => Nat.ne_of_gt ht (Option.some.inj h)) hlive
    simp only [Registry.find?_add, if_neg (Nat.ne_of_lt ht), he]

end ModuleBuild
