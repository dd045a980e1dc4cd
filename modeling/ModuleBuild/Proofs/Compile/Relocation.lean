import ModuleBuild.Form.Eval
import ModuleBuild.Proofs.Artifact.Relocation
import ModuleBuild.Proofs.Failure.Wording
import ModuleBuild.Proofs.Registry.Operations

/-! # Compilations of a file under two names

The module that is compiled stands at a path below a directory, which is the same under both names
of its file, but its context keeps the name as it was given.  From there the name gets into
definitions, into the places of hook calls, and with them into failures and notes; nothing else
that a compilation handles differs (`Failure.Relocated`, `Event.Relocated`, `World.Relocated`).
-/
namespace ModuleBuild

variable {r : Relocation}

/-! ## Contexts -/

/-- Contexts in the file under its two names. -/
inductive CompileEnv.Relocated (r : Relocation) : CompileEnv → CompileEnv → Prop where
  | mk (line : Int) (module : Option String) (function : Option NameArity)
      (compiling : List String) :
      Relocated r ⟨r.origin, line, module, function, compiling⟩
        ⟨r.target, line, module, function, compiling⟩

theorem CompileEnv.Relocated.line_eq {env env' : CompileEnv} (h : Relocated r env env') :
    env'.line = env.line := by
  cases h
  rfl

theorem CompileEnv.Relocated.compiling_eq {env env' : CompileEnv} (h : Relocated r env env') :
    env'.compiling = env.compiling := by
  cases h
  rfl

/-- Scopes of one module in such contexts. -/
inductive ModuleScope.Relocated (r : Relocation) : ModuleScope → ModuleScope → Prop where
  | mk (module : String) (ticket : Ticket) {env env' : CompileEnv}
      (h : CompileEnv.Relocated r env env') :
      Relocated r ⟨module, ticket, env⟩ ⟨module, ticket, env'⟩

namespace ModuleScope.Relocated

variable {scope scope' : ModuleScope} (h : Relocated r scope scope')
include h

theorem module : scope'.module = scope.module := by
  cases h
  rfl

theorem ticket : scope'.ticket = scope.ticket := by
  cases h
  rfl

theorem env : CompileEnv.Relocated r scope.env scope'.env := by
  cases h
  assumption

end ModuleScope.Relocated

/-! ## Failures -/

/-- The failure of a hook that is called at a place. -/
def Failure.ofHookAt (phase : HookPhase) (hook : Value) (place : Location) (f : Failure) :
    Failure :=
  let site := HookTarget.callSite phase hook place
  ofHook phase.key site (Frame.prune f.frames site) f site.location

/-- Failures that are the same but for the name of the file: problems of definitions, hooks that
were called somewhere in the file, and what such failures are turned into. -/
inductive Failure.Relocated (r : Relocation) : Failure → Failure → Prop where
  | same (f : Failure) : Relocated r f f
  | problem {p p' : Problem} (h : Problem.Relocated r p p') :
      Relocated r (.ofProblem p) (.ofProblem p')
  | hook (phase : HookPhase) (hook : Value) (line : Int) {f f' : Failure} (h : Relocated r f f')
      (hwords : f.HasWords) (hwords' : f'.HasWords) :
      Relocated r (.ofHookAt phase hook ⟨r.origin, line⟩ f)
        (.ofHookAt phase hook ⟨r.target, line⟩ f')
  | notAvailable (module : String) (call : UndefinedCall) (location : Option Location)
      (origin : Frame) {f f' : Failure} (h : Relocated r f f') :
      Relocated r
        (.condition (.functionNotAvailable module call.pair) location
          (f.frames?.getD call.frames) (some origin) (.failure f))
        (.condition (.functionNotAvailable module call.pair) location
          (f'.frames?.getD call.frames) (some origin) (.failure f'))

namespace Failure

theorem undefinedCall?_asCause (f : Failure) : f.asCause.undefinedCall? = f.undefinedCall? := by
  cases f with
  | thrown v => cases v <;> rfl
  | _ => rfl

namespace Relocated

variable {f f' : Failure} (h : Relocated r f f')
include h

/-- They come down to the same call. -/
theorem undefinedCall?_eq : f'.undefinedCall? = f.undefinedCall? := by
  induction h with
  | same | problem => rfl
  | hook phase hook line _ hwords hwords' ih =>
    obtain ⟨reason, hreason⟩ := hwords
    obtain ⟨reason', hreason'⟩ := hwords'
    rw [ofHookAt, ofHookAt, ofHook_of_describe hreason, ofHook_of_describe hreason']
    exact (undefinedCall?_asCause _).trans (ih.trans (undefinedCall?_asCause _).symm)
  | notAvailable module call location origin _ ih => exact ih

/-- They are one failure, or both can be described. -/
theorem eq_or_hasWords : f' = f ∨ f.HasWords ∧ f'.HasWords := by
  cases h with
  | same => exact Or.inl rfl
  | problem | notAvailable => exact Or.inr ⟨⟨_, rfl⟩, ⟨_, rfl⟩⟩
  | hook => exact Or.inr ⟨hasWords_ofHook, hasWords_ofHook⟩

/-- A hook that fails with them fails with such failures. -/
theorem ofHookAt (phase : HookPhase) (hook : Value) (line : Int) :
    Relocated r (.ofHookAt phase hook ⟨r.origin, line⟩ f)
      (.ofHookAt phase hook ⟨r.target, line⟩ f') := by
  by_cases hwords : f.HasWords
  · rcases h.eq_or_hasWords with rfl | ⟨-, hwords'⟩
    · exact .hook phase hook line h hwords hwords
    · exact .hook phase hook line h hwords hwords'
  · obtain ⟨e, he⟩ := not_hasWords_iff.mp hwords
    obtain rfl : f' = f := h.eq_or_hasWords.resolve_right fun hboth => hwords hboth.1
    rw [Failure.ofHookAt, Failure.ofHookAt, ofHook_of_describe_eq_error he,
      ofHook_of_describe_eq_error he]
    exact .same e

/-- They leave the compilation of a module as such failures. -/
theorem normalize (m : String) (l : Option Location) :
    Relocated r (f.normalize m l) (f'.normalize m l) := by
  unfold Failure.normalize Failure.notAvailable?
  rw [h.undefinedCall?_eq]
  cases f.undefinedCall? with
  | none => exact h
  | some call =>
    cases horigin : call.frames.head? with
    | none => simpa [horigin] using h
    | some origin =>
      by_cases hm : origin.module = m
      · simpa [horigin, hm] using notAvailable m call (origin.location <|> l) origin h
      · simpa [horigin, hm] using h

end Relocated
end Failure

/-! ## Events -/

/-- Results that are the same, or that tell of one definition under the two names. -/
inductive FormResult.Relocated (r : Relocation) : FormResult → FormResult → Prop where
  | same (v : FormResult) : Relocated r v v
  | definition {d d' : Definition} (h : Definition.Relocated r d d') (isNew : Bool) :
      Relocated r (.value (d.outcome isNew)) (.value (d'.outcome isNew))

/-- What hooks are given under the two names. -/
inductive HookSubject.Relocated (r : Relocation) : HookSubject → HookSubject → Prop where
  | none : Relocated r .none .none
  | definition {d d' : Definition} (h : Definition.Relocated r d d') :
      Relocated r (.definition d) (.definition d')
  | artifact {a a' : Artifact} (h : Artifact.Relocated r a a') :
      Relocated r (.artifact a) (.artifact a')

/-- What hooks note down under the two names. -/
inductive Note.Relocated (r : Relocation) : Note → Note → Prop where
  | same (n : Note) : Relocated r n n
  | evaluated {v v' : FormResult} (h : FormResult.Relocated r v v') :
      Relocated r (.evaluated v) (.evaluated v')
  | tried {x x' : Except Failure FormResult}
      (h : EndAlike (Failure.Relocated r) (FormResult.Relocated r) x x') :
      Relocated r (.tried x) (.tried x')
  | contexts {env env' inner inner' : CompileEnv} (h : CompileEnv.Relocated r env env')
      (hinner : CompileEnv.Relocated r inner inner') :
      Relocated r (.contexts env inner) (.contexts env' inner')
  | arguments (count : Nat) {s s' : HookSubject} (h : HookSubject.Relocated r s s') :
      Relocated r (.arguments count s) (.arguments count s')
  | chunks {s s' : HookSubject} (h : HookSubject.Relocated r s s') :
      Relocated r (.chunks s) (.chunks s')

/-- What happens under the two names. -/
inductive Event.Relocated (r : Relocation) : Event → Event → Prop where
  | same (e : Event) : Relocated r e e
  | available (module sessionId : String) {a a' : Artifact} (h : Artifact.Relocated r a a') :
      Relocated r (.available module sessionId a.size) (.available module sessionId a'.size)
  | failed (module : String) {f f' : Failure} (h : Failure.Relocated r f f') :
      Relocated r (.failed module f) (.failed module f')
  | listened (module sessionId file : String) {a a' : Artifact} (h : Artifact.Relocated r a a') :
      Relocated r (.listened module sessionId file a) (.listened module sessionId file a')
  | fired (phase : HookPhase) (module : String) (hook : Value) {env env' : CompileEnv}
      (h : CompileEnv.Relocated r env env') :
      Relocated r (.fired phase module hook env) (.fired phase module hook env')
  | noted {n n' : Note} (h : Note.Relocated r n n') : Relocated r (.noted n) (.noted n')

/-- Logs of the same events under the two names. -/
def LogRelocated (r : Relocation) (log log' : List Event) : Prop :=
  List.Forall₂ (Event.Relocated r) log log'

/-! ## Worlds -/

/-- States of a module under the two names of its file. -/
structure ModuleState.Relocated (r : Relocation) (s s' : ModuleState) : Prop where
  phase : s'.phase = s.phase
  attributes : s'.attributes = s.attributes
  definitions : DefinitionStore.Relocated r s.definitions s'.definitions
  docs : s'.docs = s.docs

/-- Entries of a module under the two names of its file. -/
structure ModuleEntry.Relocated (r : Relocation) (e e' : ModuleEntry) : Prop where
  module : e'.module = e.module
  location : e'.location = e.location
  state : ModuleState.Relocated r e.toModuleState e'.toModuleState

/-- Registries with the same open modules. -/
structure Registry.Relocated (r : Relocation) (g g' : Registry) : Prop where
  opened : g'.opened = g.opened
  length : g'.entries.length = g.entries.length
  entries : ∀ t, Option.Rel (ModuleEntry.Relocated r) (g.find? t) (g'.find? t)

/-- One module that was loaded. -/
inductive LoadedModule.Relocated (r : Relocation) : LoadedModule → LoadedModule → Prop where
  | mk (module : String) (origin : LoadOrigin) {a a' : Artifact}
      (h : Artifact.Relocated r a a') : Relocated r ⟨module, a, origin⟩ ⟨module, a', origin⟩

/-- Worlds that compilations under the two names go through. -/
structure World.Relocated (r : Relocation) (w w' : World) : Prop where
  registry : Registry.Relocated r w.registry w'.registry
  loaded : w.code.loaded.Related (LoadedModule.Relocated r) w'.code.loaded
  sessionId : w'.session.id = w.session.id
  binaries : List.Forall₂ (Entry.Related (Artifact.Relocated r)) w.session.binaries
    w'.session.binaries
  log : LogRelocated r w.log w'.log

theorem ModuleState.Relocated.refl (s : ModuleState) : Relocated r s s :=
  ⟨rfl, rfl, .refl _, rfl⟩

theorem ModuleState.Relocated.destroy {s s' : ModuleState} (h : Relocated r s s') :
    Relocated r s.destroy s'.destroy where
  phase := h.phase
  attributes := congrArg AttributeStore.destroy h.attributes
  definitions := h.definitions.destroy
  docs := by simp only [ModuleState.destroy, h.attributes, h.docs]

theorem ModuleEntry.Relocated.refl (e : ModuleEntry) : Relocated r e e := ⟨rfl, rfl, .refl _⟩

namespace Registry.Relocated

variable {g g' : Registry}

theorem refl (g : Registry) : Relocated r g g where
  opened := rfl
  length := rfl
  entries t := by
    cases g.find? t with
    | none => exact .none
    | some e => exact .some (.refl e)

variable (h : Relocated r g g')
include h

/-- Entries that are changed in the same way, if there are any. -/
theorem rel_change {f f' : ModuleState → ModuleState}
    (hf : ∀ s s', ModuleState.Relocated r s s' → ModuleState.Relocated r (f s) (f' s'))
    (t : Ticket) :
    Option.Rel (ModuleEntry.Relocated r) ((g.find? t).map (ModuleEntry.change f))
      ((g'.find? t).map (ModuleEntry.change f')) := by
  have hentry := h.entries t
  generalize g.find? t = e at hentry ⊢
  generalize g'.find? t = e' at hentry ⊢
  cases hentry with
  | none => exact .none
  | some he => exact .some ⟨he.module, he.location, hf _ _ he.state⟩

theorem update (t : Ticket) {f f' : ModuleState → ModuleState}
    (hf : ∀ s s', ModuleState.Relocated r s s' → ModuleState.Relocated r (f s) (f' s')) :
    Relocated r (g.update t f) (g'.update t f') where
  opened := h.opened
  length := by
    rw [length_entries_update, length_entries_update]
    exact h.length
  entries u := by
    rw [find?_update, find?_update]
    by_cases ht : t = u
    · rw [if_pos ht, if_pos ht]
      exact h.rel_change hf u
    · rw [if_neg ht, if_neg ht]
      exact h.entries u

theorem add {e e' : ModuleEntry} (he : ModuleEntry.Relocated r e e') :
    Relocated r (g.add e) (g'.add e') where
  opened := by rw [opened_add, opened_add, h.opened, he.module, h.length]
  length := by simp [Registry.add, h.length]
  entries t := by
    rw [find?_add, find?_add, h.length]
    by_cases hnew : t = g.entries.length
    · rw [if_pos hnew, if_pos hnew]
      exact .some he
    · rw [if_neg hnew, if_neg hnew]
      exact h.entries t

theorem close (t : Ticket) : Relocated r (g.close t) (g'.close t) where
  opened := by
    have hentry := h.entries t
    unfold Registry.close
    generalize g.find? t = e at hentry ⊢
    generalize g'.find? t = e' at hentry ⊢
    cases hentry with
    | none => exact h.opened
    | some he =>
      simp only [opened_update, h.opened, he.module]
      split
      · show g'.opened.erase _ = g.opened.erase _
        rw [h.opened]
      · exact h.opened
  length := by
    rw [length_entries_close, length_entries_close]
    exact h.length
  entries u := by
    rw [find?_close, find?_close]
    by_cases htu : t = u
    · rw [if_pos htu, if_pos htu]
      exact h.rel_change (fun _ _ hs => hs.destroy) u
    · rw [if_neg htu, if_neg htu]
      exact h.entries u

theorem lookup (m : String) :
    Option.Rel (ModuleEntry.Relocated r) (g.lookup m) (g'.lookup m) := by
  unfold Registry.lookup
  rw [h.opened]
  cases g.opened.get? m with
  | none => exact .none
  | some t => exact h.entries t

theorem isOpen_eq (m : String) : g'.isOpen m = g.isOpen m := by
  unfold Registry.isOpen
  rw [h.opened]

theorem readAttribute_eq (m key : String) : g'.readAttribute m key = g.readAttribute m key := by
  have hentry := h.lookup m
  unfold Registry.readAttribute
  generalize g.lookup m = e at hentry ⊢
  generalize g'.lookup m = e' at hentry ⊢
  cases hentry with
  | none => rfl
  | some he =>
    dsimp only
    rw [he.state.attributes]

/-- **The same can be opened.** -/
theorem enrol (module sessionId : String) (location : Location) (withDocs : Bool) :
    EndAlike Eq (fun x x' => x'.1 = x.1 ∧ Relocated r x.2 x'.2)
      (g.enrol module sessionId location withDocs)
      (g'.enrol module sessionId location withDocs) := by
  have hentry := h.lookup module
  unfold Registry.enrol
  generalize g.lookup module = e at hentry ⊢
  generalize g'.lookup module = e' at hentry ⊢
  cases hentry with
  | none => exact .ok ⟨h.length, h.add (.refl _)⟩
  | some he =>
    dsimp only
    rw [he.location]
    exact .error rfl

end Registry.Relocated

namespace World.Relocated

variable {w w' : World}

theorem refl (w : World) : Relocated r w w where
  registry := .refl _
  loaded := .refl (fun ⟨module, _, origin⟩ => .mk module origin (.refl _)) _
  sessionId := rfl
  binaries := List.forall₂_same.mpr fun e _ => ⟨rfl, .refl e.2⟩
  log := List.forall₂_same.mpr fun e _ => .same e

variable (h : Relocated r w w')
include h

theorem append {e e' : Event} (he : Event.Relocated r e e') :
    Relocated r { w with log := w.log ++ [e] } { w' with log := w'.log ++ [e'] } :=
  { h with log := List.rel_append h.log (.cons he .nil) }

/-- Modules come from the same origin. -/
theorem origin_eq (name : String) :
    (w'.code.get? name).map LoadedModule.origin = (w.code.get? name).map LoadedModule.origin := by
  have hloaded : Option.Rel (LoadedModule.Relocated r) (w.code.get? name) (w'.code.get? name) :=
    h.loaded.get? name
  generalize w.code.get? name = l at hloaded ⊢
  generalize w'.code.get? name = l' at hloaded ⊢
  cases hloaded with
  | none => rfl
  | some hl => cases hl; rfl

end World.Relocated
end ModuleBuild
