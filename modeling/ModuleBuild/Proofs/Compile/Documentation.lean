import ModuleBuild.Proofs.Compile.Alike

/-! # Documentation stays apart

What is compiled of a module does not depend on what its documentation says, except for the chunk
that keeps it (`alike_compile`): opening a module, assembling and building it, handing its
artifact over and closing it are alike if its body is alike.
-/
namespace ModuleBuild

open Run

/-- What compilations answer that differ in documentation at most.  Unless it is collected, they
answer with the same artifact and without warnings of documentation. -/
structure CompiledModule.SameButDocs (docs : Bool) (c c' : CompiledModule) : Prop where
  module : c'.module = c.module
  location : c'.location = c.location
  exports : c'.exports = c.exports
  warnings : c'.warnings = c.warnings
  chunks : c'.artifact.undocumented = c.artifact.undocumented
  artifact : docs = false → c'.artifact = c.artifact
  silent : docs = false → ∀ d ∈ c.warnings, d.isUnusedDoc = false

/-- A module that is loaded already is reported with where it came from. -/
theorem Registry.redefinition?_of_origin {loaded loaded' : Option LoadedModule}
    (h : loaded'.map LoadedModule.origin = loaded.map LoadedModule.origin) (name : String)
    (location : Location) :
    redefinition? loaded' name location = redefinition? loaded name location := by
  have horigin (l : Option LoadedModule) : redefinition? l name location
      = (l.map LoadedModule.origin).map fun origin =>
        { code := .moduleRedefined, location
          context := [("module", name), ("origin", origin.text)] } := by
    cases l <;> rfl
  rw [horigin, horigin, h]

namespace Engine

variable {g : Engine} {start : World}

/-! ## Opening and closing -/

/-- The next ticket and the warnings are the same in both worlds. -/
theorem opening_eq_of_sameButDocs {docs : Bool} {w w' : World}
    (hw : World.SameButDocs docs start w w') (name : String) (env : CompileEnv) :
    g.opening name env w' = g.opening name env w := by
  have hredefinition (location : Location) :
      Registry.redefinition?
          (if g.host.options.ignoreModuleConflict then none else w'.code.get? name) name location
        = Registry.redefinition?
          (if g.host.options.ignoreModuleConflict then none else w.code.get? name)
            name location := by
    cases g.host.options.ignoreModuleConflict with
    | true => rfl
    | false => exact Registry.redefinition?_of_origin (hw.origins name) name location
  unfold opening
  simp only [hredefinition, hw.registry.length]

theorem isUnusedDoc_of_opening {name : String} {env : CompileEnv} {w : World} :
    ∀ d ∈ (g.opening name env w).warnings, d.isUnusedDoc = false := by
  intro d hd
  obtain ⟨m, -, rfl⟩ := Option.map_eq_some_iff.mp (Option.mem_toList.mp hd)
  rfl

theorem alike_openModule (name : String) (env : CompileEnv) :
    Alike g.host.options.docs start
      (fun o o' => o' = o ∧ start.registry.entries.length ≤ o.scope.ticket ∧
        ∀ d ∈ o.warnings, d.isUnusedDoc = false)
      (g.openModule name env) (g.openModule name env) := by
  intro w w' v v' o o' hw hr hr'
  rcases openModule_cases g name env w with ⟨f, ds, hopen, -⟩ | ⟨-, hopen⟩
  · rw [hopen] at hr
    cases hr
  · rcases openModule_cases g name env w' with ⟨f, ds, hopen', -⟩ | ⟨-, hopen'⟩
    · rw [hopen'] at hr'
      cases hr'
    · rw [hopen] at hr
      rw [hopen'] at hr'
      cases hr
      cases hr'
      have hsame := opening_eq_of_sameButDocs (g := g) hw name env
      have hwarned : ∀ e ∈ (g.opening name env w).warnings.map (Event.warned name),
          e.isUnusedDoc = false := by
        intro e he
        obtain ⟨d, hd, rfl⟩ := List.mem_map.mp he
        exact isUnusedDoc_of_opening d hd
      have hentry : (g.newEntry name env w).SameButDocs (g.newEntry name env w') :=
        ⟨rfl, rfl, rfl, .some (ModuleEntry.sameButDocs_initialAttributes _)⟩
      refine ⟨⟨hsame, hw.registry.bound, isUnusedDoc_of_opening⟩, ?_⟩
      rw [hsame]
      have happended := hw.append (fun _ => hwarned) fun _ => hwarned
      exact ⟨happended.registry.add hentry, happended.origins, happended.silent⟩

section Opened

variable {o : Opening} (ho : start.registry.entries.length ≤ o.scope.ticket)

theorem alike_move {docs : Bool} (m : Phase.Move) :
    Alike docs start anything (g.move o m) (g.move o m) := by
  refine alike_bind (alike_updateEntry fun s s' hs => ?_) fun _ _ _ => alike_notify rfl rfl
  exact ⟨rfl, hs.definitions, hs.attributes⟩

include ho

theorem alike_closeModule {docs : Bool} (fulfilled : Bool) :
    Alike docs start anything (g.closeModule o fulfilled) (g.closeModule o fulfilled) := by
  have hlast : Alike docs start anything
      (do
        modify fun w : World => { w with registry := w.registry.close o.scope.ticket }
        Run.notify g.host "onModuleClose" o.scope.module o.location
          (.closed o.scope.module fulfilled) : Run Unit)
      (do
        modify fun w : World => { w with registry := w.registry.close o.scope.ticket }
        Run.notify g.host "onModuleClose" o.scope.module o.location
          (.closed o.scope.module fulfilled) : Run Unit) := by
    refine alike_bind (alike_modify fun w w' hw => ?_) fun _ _ _ => alike_notify rfl rfl
    exact ⟨hw.registry.close ho, hw.origins, hw.silent⟩
  refine alike_bind (alike_entry ho) fun e e' he => ?_
  rw [he.state.phase]
  cases e.phase.close? with
  | none => exact hlast
  | some m => exact alike_bind (alike_move m) fun _ _ _ => hlast

/-! ## Making the artifact -/

theorem alike_advance {docs : Bool} (target : Phase) :
    Alike docs start anything (g.advance o target) (g.advance o target) := by
  refine alike_bind (alike_entry ho) fun e e' he => ?_
  rw [he.state.phase]
  refine alike_bind (alike_ofCondition_self _) ?_
  rintro m _ rfl
  exact alike_move m

theorem alike_recordOnLoad {docs : Bool} (vs : List Value) :
    Alike docs start anything (recordOnLoad o vs) (recordOnLoad o vs) := by
  induction vs with
  | nil => exact alike_pure trivial
  | cons v rest ih =>
    unfold recordOnLoad
    cases onLoadPair? v with
    | none => exact alike_fail_bind_left _ _ _
    | some p =>
      cases p with
      | none => exact alike_bind (U := anything) (alike_pure trivial) fun _ _ _ => ih
      | some p => exact alike_bind (alike_recordLocal ho p) fun _ _ _ => ih

/-- The same is assembled.  Unless documentation is collected, nothing is warned of. -/
theorem alike_assemble :
    Alike g.host.options.docs start
      (fun m m' => m' = m ∧ (g.host.options.docs = false → m.warnings = []))
      (g.assemble o) (g.assemble o) := by
  refine alike_bind (alike_attributes ho) fun t t' ht => ?_
  rw [ht.readAll_eq (by decide)]
  refine alike_bind (alike_recordOnLoad ho _) fun _ _ _ => ?_
  refine alike_bind (alike_entry ho) fun e e' he => ?_
  have hlive : Alike g.host.options.docs start AttributeTable.SameButDocs
      (ofCondition e.attributes.live) (ofCondition e'.attributes.live) :=
    alike_ofCondition fun t t' ht ht' => he.state.live ht ht'
  refine alike_bind hlive fun attributes attributes' hattributes => ?_
  rw [he.state.definitions]
  refine alike_bind (alike_ofCondition_self _) ?_
  rintro definitions _ rfl
  rw [Assembly.ofTables_eq_of_sameButDocs hattributes]
  refine alike_ofFailure fun m m' hm hm' => ⟨Except.ok.inj (hm'.symm.trans hm), fun hdocs => ?_⟩
  exact Assembly.warnings_of_ofTables hdocs hm

omit ho in
/-- What is built differs in documentation at most. -/
theorem alike_build (m : Assembly) :
    Alike g.host.options.docs start
      (fun a a' => a'.undocumented = a.undocumented ∧ (g.host.options.docs = false → a' = a))
      (g.build o m) (g.build o m) := by
  intro w w' v v' a a' hw hr hr'
  obtain ⟨rfl, -⟩ := build_eq_ok hr
  obtain ⟨rfl, -⟩ := build_eq_ok hr'
  obtain ⟨base, hbase, hchunks, -, hplain⟩ := chunks_of_build hr
  obtain ⟨base', hbase', hchunks', -, hplain'⟩ := chunks_of_build hr'
  obtain rfl : base = base' := Except.ok.inj (hbase.symm.trans hbase')
  refine ⟨⟨hchunks'.trans hchunks.symm, fun hdocs => ?_⟩, hw⟩
  rw [hplain hdocs, hplain' hdocs]

/-! ## Handing it over -/

omit ho in
theorem alike_produce {docs : Bool} (a a' : Artifact) :
    Alike docs start anything (g.produce o a) (g.produce o a') := by
  refine alike_bind (alike_modify fun w w' hw => ?_) fun _ _ _ => ?_
  · exact ⟨hw.registry, hw.origins, hw.silent⟩
  · refine alike_bind alike_get fun w w' _ => ?_
    cases g.host.listener with
    | none => exact alike_notify rfl rfl
    | some listener =>
      refine alike_bind (alike_emit (fun _ => rfl) (fun _ => rfl) _ _) fun answer answer' _ => ?_
      cases answer with
      | some f => exact alike_fail_bind_left f _ _
      | none =>
        cases answer' with
        | some f => exact alike_fail_bind_right _ f _
        | none => exact alike_notify rfl rfl

omit ho in
/-- What is loaded into the code session comes from memory in both. -/
theorem alike_load {docs : Bool} (a a' : Artifact) :
    Alike docs start anything (g.load o a) (g.load o a') := by
  unfold load
  cases g.host.loader with
  | none =>
    refine alike_bind (alike_modify fun w w' hw => ⟨hw.registry, fun name => ?_, hw.silent⟩)
      fun _ _ _ => alike_pure trivial
    show ((w'.code.loaded.insert _ _).get? name).map LoadedModule.origin
      = ((w.code.loaded.insert _ _).get? name).map LoadedModule.origin
    rw [OrderedMap.get?_insert, OrderedMap.get?_insert]
    split
    · rfl
    · exact hw.origins name
  | some loader =>
    refine alike_bind alike_get fun w w' _ => ?_
    refine alike_bind (alike_emit (fun _ => rfl) (fun _ => rfl) _ _) fun answer answer' _ => ?_
    rcases answer with f | reason | origin
    · exact alike_fail_left _ _
    · exact alike_fail_left _ _
    · rcases answer' with f | reason | origin'
      · exact alike_fail_right _ _
      · exact alike_fail_right _ _
      · exact alike_pure trivial

end Opened

/-! ## From opening to closing -/

section Compile

variable (hfire : g.FiresAlike start) {evaluate evaluate' : EvaluateBody}
  (hevaluate : ∀ env (scope : ModuleScope), start.registry.entries.length ≤ scope.ticket →
    Alike g.host.options.docs start (fun p p' => p'.2 = p.2) (evaluate env scope)
      (evaluate' env scope))
include hfire hevaluate

theorem alike_compileOpened {o : Opening} (ho : start.registry.entries.length ≤ o.scope.ticket)
    (hwarnings : ∀ d ∈ o.warnings, d.isUnusedDoc = false) :
    Alike g.host.options.docs start (CompiledModule.SameButDocs g.host.options.docs)
      (g.compileOpened o evaluate) (g.compileOpened o evaluate') := by
  refine alike_bind (hevaluate _ _ ho) fun (value, env) (value', env') henv => ?_
  obtain rfl : env' = env := henv
  refine alike_bind (alike_advance ho _) fun _ _ _ => ?_
  refine alike_bind (alike_runBeforeCompile ho hfire env') ?_
  rintro env _ rfl
  refine alike_bind (alike_advance ho _) fun _ _ _ => ?_
  refine alike_bind (alike_assemble ho) ?_
  rintro m m' ⟨hsame, hm⟩
  obtain rfl : m' = m := hsame
  refine alike_bind (alike_forM fun d hd => alike_warn fun hdocs => ?_) fun _ _ _ => ?_
  · rw [hm hdocs] at hd
    cases hd
  refine alike_bind (alike_advance ho _) fun _ _ _ => ?_
  refine alike_bind (alike_build m') fun a a' ha => ?_
  refine alike_bind (alike_advance ho _) fun _ _ _ => ?_
  refine alike_bind (alike_runAfterCompile ho hfire env a a') fun _ _ _ => ?_
  refine alike_bind (alike_produce a a') fun _ _ _ => ?_
  refine alike_bind (alike_load a a') fun _ _ _ => ?_
  refine alike_pure ⟨rfl, rfl, rfl, rfl, ha.1, ha.2, fun hdocs d hd => ?_⟩
  rw [hm hdocs, List.append_nil] at hd
  exact hwarnings d hd

/-- **What is compiled does not depend on what documentation says.** -/
theorem alike_compile (name : String) (env : CompileEnv) :
    Alike g.host.options.docs start (CompiledModule.SameButDocs g.host.options.docs)
      (g.compile name env evaluate) (g.compile name env evaluate') := by
  intro w w' v v' c c' hw h h'
  obtain ⟨o, w₁, w₂, hopen, hlive, hclose⟩ := compile_eq_ok h
  obtain ⟨o', w₁', w₂', hopen', hlive', hclose'⟩ := compile_eq_ok h'
  obtain ⟨⟨rfl, ho, hwarnings⟩, hw₁⟩ := alike_openModule name env hw hopen hopen'
  have halive : Alike g.host.options.docs start (CompiledModule.SameButDocs g.host.options.docs)
      (g.live o' evaluate) (g.live o' evaluate') :=
    alike_bind (alike_notify rfl rfl) fun _ _ _ =>
      alike_compileOpened hfire hevaluate ho hwarnings
  obtain ⟨hc, hw₂⟩ := halive hw₁ hlive hlive'
  obtain ⟨-, hv⟩ := alike_closeModule ho true hw₂ hclose hclose'
  exact ⟨hc, hv⟩

end Compile
end Engine
end ModuleBuild
