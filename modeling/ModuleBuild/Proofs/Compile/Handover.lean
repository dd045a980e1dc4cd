import ModuleBuild.Proofs.Compile.Fulfilled

/-! # Where an artifact goes

A compilation that answers with a module has built one artifact, and that one is what the hooks
after compilation are called with, what the session records, what the listener is told of, what
is loaded and what is answered (`handsOver_of_compile`).  Nothing that happens after it was built
changes it.
-/
namespace ModuleBuild

open Run

namespace Run

theorem attributes_eq_ok {s : ModuleScope} {w w' : World} {t : AttributeTable}
    (h : attributes s w = (.ok t, w')) : w = w' ∧ attributes s w = (.ok t, w) := by
  rcases attributes_cases s w with ⟨e, t', -, -, heq⟩ | ⟨m, heq⟩
  · rw [heq] at h
    cases h
    exact ⟨rfl, heq⟩
  · rw [heq] at h
    cases h

end Run

namespace Engine

variable {g : Engine} {o : Opening} {evaluate : EvaluateBody} {w w' : World}

/-- What is built has documentation exactly if that is collected, and apart from it the chunks
are those of the assembled module. -/
theorem chunks_of_build {m : Assembly} {a : Artifact} (h : g.build o m w = (.ok a, w')) :
    ∃ base, m.build = .ok base ∧ a.undocumented = base.chunks ∧
      (a.read? Chunk.docsId).isSome = g.host.options.docs ∧
      (g.host.options.docs = false → a = base) := by
  obtain ⟨base, _, hbuild, h⟩ := bind_apply_eq_ok.mp h
  obtain ⟨hbase, rfl⟩ := ofFailure_eq_ok hbuild
  have hdocs : Chunk.docsId ∉ base.ids := Assembly.docs_not_mem_ids_of_build hbase
  have hfind : base.chunks.find? (fun c => c.id = Chunk.docsId) = none := by
    refine List.find?_eq_none.mpr fun c hc hid => hdocs ?_
    rw [← of_decide_eq_true hid]
    exact List.mem_map_of_mem hc
  split at h
  · next hcollected =>
    obtain ⟨e, _, hentry, h⟩ := bind_apply_eq_ok.mp h
    obtain ⟨attributes, _, hattributes, h⟩ := bind_apply_eq_ok.mp h
    obtain ⟨hinject, rfl⟩ := ofFailure_eq_ok h
    obtain ⟨data, -, hchunks⟩ := Artifact.chunks_of_inject hinject
    have hdata : ([⟨"Docs", data⟩] : List Chunk).filter (fun c => c.id ≠ Chunk.docsId) = [] := rfl
    refine ⟨base, hbase, ?_, ?_, fun hoff => ?_⟩
    · rw [Artifact.undocumented, hchunks, List.filter_append, hdata, List.append_nil]
      exact Artifact.undocumented_eq_chunks hdocs
    · rw [Artifact.read?, hchunks, List.find?_append, hfind, hcollected]
      rfl
    · rw [hcollected] at hoff
      cases hoff
  · next hcollected =>
    cases h
    refine ⟨_, hbase, Artifact.undocumented_eq_chunks hdocs, ?_, fun _ => rfl⟩
    rw [Artifact.read?, hfind, Bool.eq_false_iff.mpr hcollected]
    rfl

/-- What is made of an opened module was built of what was assembled. -/
theorem make_eq_ok {value : FormResult} {env : CompileEnv} {m : Assembly} {a : Artifact}
    (h : g.make o evaluate w = (.ok (value, env, m, a), w')) : g.build o m w' = (.ok a, w') := by
  obtain ⟨_, _, -, h⟩ := bind_apply_eq_ok.mp h
  obtain ⟨_, _, -, h⟩ := bind_apply_eq_ok.mp h
  obtain ⟨_, _, -, h⟩ := bind_apply_eq_ok.mp h
  obtain ⟨_, _, -, h⟩ := bind_apply_eq_ok.mp h
  obtain ⟨_, _, -, h⟩ := bind_apply_eq_ok.mp h
  obtain ⟨_, _, -, h⟩ := bind_apply_eq_ok.mp h
  obtain ⟨_, _, -, h⟩ := bind_apply_eq_ok.mp h
  obtain ⟨_, _, hbuild, h⟩ := bind_apply_eq_ok.mp h
  cases h
  obtain ⟨rfl, -⟩ := build_eq_ok hbuild
  exact hbuild

/-- Open a module and make its artifact, up to the hooks after compilation. -/
def openAndMake (g : Engine) (name : String) (env : CompileEnv) (evaluate : EvaluateBody) :
    Run (Opening × FormResult × CompileEnv × Assembly × Artifact) := do
  let o ← g.openModule name env
  Run.notify g.host "onModuleOpen" o.scope.module o.location
    (.opened o.scope.module o.location o.scope.env.compiling)
  let made ← g.make o evaluate
  pure (o, made)

/-- The way of one artifact through a compilation that starts in `w` and leaves `w'`. -/
structure HandsOver (g : Engine) (name : String) (env : CompileEnv) (evaluate : EvaluateBody)
    (w : World) (c : CompiledModule) (w' : World) : Prop where
  /-- The artifact that is built is the one that the hooks after compilation are called with,
  and then the one that is produced, loaded and answered. -/
  stages : ∃ o env' m t w₁ w₂ w₃ w₄ w₅ env'',
    g.openAndMake name env evaluate w = (.ok (o, c.value, env', m, c.artifact), w₁) ∧
    g.build o m w₁ = (.ok c.artifact, w₁) ∧
    g.advance o .afterHooks w₁ = (.ok (), w₂) ∧
    Run.attributes o.scope w₂ = (.ok t, w₂) ∧
    g.runThrough .afterCompile (.artifact c.artifact) o.scope env'
      (t.readAll HookPhase.afterCompile.key).reverse w₂ = (.ok env'', w₃) ∧
    g.produce o c.artifact w₃ = (.ok (), w₄) ∧
    g.load o c.artifact w₄ = (.ok c.loaded, w₅) ∧
    g.closeModule o true w₅ = (.ok (), w') ∧
    c.module = name ∧ c.location = o.location ∧ c.exports = m.exports ∧
    c.warnings = o.warnings ++ m.warnings
  /-- It is the last one that the session records, under the module's name. -/
  session : ∃ earlier, w'.session.binaries = earlier ++ [(name, c.artifact)]
  /-- The listener is told of it. -/
  listened : g.host.listener.isSome = true →
    ∃ sessionId file, .listened name sessionId file c.artifact ∈ w'.log
  loaded : c.loaded.module = name ∧ c.loaded.artifact = c.artifact
  /-- Without a loader of the host's it is what the name stands for among the loaded modules. -/
  registered : g.host.loader = none →
    c.loaded.origin = .memory ∧ w'.code.get? name = some c.loaded
  docs : (c.artifact.read? Chunk.docsId).isSome = g.host.options.docs

/-! ## The way of an artifact -/

theorem move_frame (m : Phase.Move) (w : World) :
    (g.move o m w).2.session = w.session ∧ (g.move o m w).2.code = w.code ∧
      w.log <+: (g.move o m w).2.log := by
  let moved : World := { w with
    registry := w.registry.update o.scope.ticket fun s => { s with phase := m.2 } }
  have hmove : (g.move o m w).2 = _ := world_notify g.host "onPhase" o.scope.module o.location
    (.moved o.scope.module m) moved
  rw [hmove]
  exact ⟨rfl, rfl, List.prefix_append ..⟩

/-- Closing a module leaves what was produced and loaded, and the log grows. -/
theorem closeModule_frame {fulfilled : Bool} (h : g.closeModule o fulfilled w = (.ok (), w')) :
    w'.session = w.session ∧ w'.code = w.code ∧ w.log <+: w'.log := by
  have hlast {v v' : World} (h : (do
      modify fun w : World => { w with registry := w.registry.close o.scope.ticket }
      Run.notify g.host "onModuleClose" o.scope.module o.location
        (.closed o.scope.module fulfilled) : Run Unit) v = (.ok (), v')) :
      v'.session = v.session ∧ v'.code = v.code ∧ v.log <+: v'.log := by
    have hnotify := world_notify g.host "onModuleClose" o.scope.module o.location
      (.closed o.scope.module fulfilled) { v with registry := v.registry.close o.scope.ticket }
    obtain ⟨_, v₁, hmodify, h⟩ := bind_apply_eq_ok.mp h
    cases hmodify
    rw [h] at hnotify
    obtain rfl : v' = _ := hnotify
    exact ⟨rfl, rfl, List.prefix_append ..⟩
  obtain ⟨e, _, hentry, h⟩ := bind_apply_eq_ok.mp h
  obtain ⟨-, rfl⟩ := entry_eq_ok hentry
  cases hphase : e.phase.close? with
  | none =>
    simp only [hphase] at h
    exact hlast h
  | some m =>
    simp only [hphase] at h
    obtain ⟨_, w₁, hmove, h⟩ := bind_apply_eq_ok.mp h
    obtain ⟨hsession, hcode, hlog⟩ := move_frame (g := g) (o := o) m w
    rw [hmove] at hsession hcode hlog
    obtain ⟨hsession', hcode', hlog'⟩ := hlast h
    exact ⟨hsession'.trans hsession, hcode'.trans hcode, hlog.trans hlog'⟩

/-- Producing an artifact records it and tells the listener of it. -/
theorem produce_eq_ok {a : Artifact} (h : g.produce o a w = (.ok (), w')) :
    w'.session = w.session.produce o.scope.module a ∧
      (g.host.listener.isSome = true →
        .listened o.scope.module w.session.id o.location.file a ∈ w'.log) := by
  have hlast {v v' : World} (h : Run.notify g.host "onModuleAvailable" o.scope.module o.location
      (.available o.scope.module w.session.id a.size) v = (.ok (), v')) :
      v'.session = v.session ∧ v.log <+: v'.log := by
    have hnotify := world_notify g.host "onModuleAvailable" o.scope.module o.location
      (.available o.scope.module w.session.id a.size) v
    rw [h] at hnotify
    obtain rfl : v' = _ := hnotify
    exact ⟨rfl, List.prefix_append ..⟩
  obtain ⟨_, w₁, hmodify, h⟩ := bind_apply_eq_ok.mp h
  cases hmodify
  obtain ⟨_, _, hget, h⟩ := bind_apply_eq_ok.mp h
  cases hget
  cases hlistener : g.host.listener with
  | none =>
    simp only [hlistener] at h
    exact ⟨(hlast h).1, nofun⟩
  | some listener =>
    simp only [hlistener] at h
    obtain ⟨answer, w₂, hemit, h⟩ := bind_apply_eq_ok.mp h
    rw [emit_apply] at hemit
    obtain ⟨-, rfl⟩ := Prod.mk.inj hemit
    cases answer with
    | some f =>
      obtain ⟨_, _, hfail, -⟩ := bind_apply_eq_ok.mp h
      cases hfail
    | none =>
      obtain ⟨hsession, hlog⟩ := hlast h
      exact ⟨hsession, fun _ => hlog.subset (List.mem_append_right _ List.mem_cons_self)⟩

/-- What is loaded is the artifact; without a loader of the host's it comes to stand for the name
among the loaded modules. -/
theorem load_eq_ok {a : Artifact} {loaded : LoadedModule}
    (h : g.load o a w = (.ok loaded, w')) :
    loaded.module = o.scope.module ∧ loaded.artifact = a ∧ w'.session = w.session ∧
      w.log <+: w'.log ∧
      (g.host.loader = none → loaded.origin = .memory ∧ w'.code = w.code.register loaded) := by
  unfold load at h
  cases hloader : g.host.loader with
  | none =>
    simp only [hloader] at h
    obtain ⟨_, _, hmodify, h⟩ := bind_apply_eq_ok.mp h
    cases hmodify
    cases h
    exact ⟨rfl, rfl, rfl, List.prefix_rfl, fun _ => ⟨rfl, rfl⟩⟩
  | some loader =>
    simp only [hloader] at h
    obtain ⟨_, _, hget, h⟩ := bind_apply_eq_ok.mp h
    cases hget
    obtain ⟨answer, w₂, hemit, h⟩ := bind_apply_eq_ok.mp h
    rw [emit_apply] at hemit
    obtain ⟨-, rfl⟩ := Prod.mk.inj hemit
    rcases answer with f | reason | origin
    · cases h
    · cases h
    · cases h
      exact ⟨rfl, rfl, rfl, List.prefix_append .., nofun⟩

/-- **One artifact goes all the ways** that a compilation has for it. -/
theorem handsOver_of_compile {name : String} {env : CompileEnv} {c : CompiledModule}
    (h : g.compile name env evaluate w = (.ok c, w')) :
    g.HandsOver name env evaluate w c w' := by
  obtain ⟨o, v, v', hopen, hlive, hclose⟩ := compile_eq_ok h
  have hname : o.scope.module = name := by
    rcases openModule_cases g name env w with ⟨f, ds, hopen', -⟩ | ⟨-, hopen'⟩
    · rw [hopen'] at hopen
      cases hopen
    · rw [hopen'] at hopen
      cases hopen
      rfl
  -- the life of the module, stage by stage
  obtain ⟨_, v₁, hnotify, h⟩ := bind_apply_eq_ok.mp hlive
  rw [compileOpened_eq, prepare_eq] at h
  obtain ⟨⟨value, m, a⟩, w₃, hprepare, h⟩ := bind_apply_eq_ok.mp h
  obtain ⟨⟨value', env', m', a'⟩, w₁, hmake, hprepare⟩ := bind_apply_eq_ok.mp hprepare
  obtain ⟨_, w₂, hadvance, hprepare⟩ := bind_apply_eq_ok.mp hprepare
  obtain ⟨_, w₃', hafter, hprepare⟩ := bind_apply_eq_ok.mp hprepare
  cases hprepare
  obtain ⟨t, _, hattributes, hafter⟩ := bind_apply_eq_ok.mp hafter
  obtain ⟨env'', _, hthrough, hafter⟩ := bind_apply_eq_ok.mp hafter
  cases hafter
  obtain ⟨_, w₄, hproduce, h⟩ := bind_apply_eq_ok.mp h
  obtain ⟨loaded, w₅, hload, h⟩ := bind_apply_eq_ok.mp h
  cases h
  have hbuild := make_eq_ok hmake
  have hopenAndMake : g.openAndMake name env evaluate w = (.ok (o, value, env', m, a), w₁) := by
    refine bind_apply_eq_ok.mpr ⟨o, v, hopen, bind_apply_eq_ok.mpr ⟨_, v₁, hnotify, ?_⟩⟩
    exact bind_apply_eq_ok.mpr ⟨_, w₁, hmake, rfl⟩
  obtain ⟨rfl, hattributes⟩ := attributes_eq_ok hattributes
  obtain ⟨hsession, hlistened⟩ := produce_eq_ok hproduce
  obtain ⟨hmodule, hartifact, hsession', hlog', hregistered⟩ := load_eq_ok hload
  obtain ⟨hsession'', hcode'', hlog''⟩ := closeModule_frame hclose
  refine ⟨⟨o, env', m, t, w₁, w₂, w₃, w₄, v', env'', hopenAndMake, hbuild, hadvance, hattributes,
    hthrough, hproduce, hload, hclose, hname, rfl, rfl, rfl⟩, ?_, ?_, ?_, ?_, ?_⟩
  · refine ⟨w₃.session.binaries, ?_⟩
    rw [hsession'', hsession', hsession, hname]
    rfl
  · intro hlistener
    refine ⟨w₃.session.id, o.location.file, ?_⟩
    have htold := hlistened hlistener
    rw [hname] at htold
    exact (hlog'.trans hlog'').subset htold
  · exact ⟨hmodule.trans hname, hartifact⟩
  · intro hloader
    obtain ⟨horigin, hcode⟩ := hregistered hloader
    refine ⟨horigin, ?_⟩
    rw [hcode'', hcode, ← hname, ← hmodule]
    exact (OrderedMap.get?_insert ..).trans (if_pos rfl)
  · obtain ⟨base, -, -, hdocs, -⟩ := chunks_of_build hbuild
    exact hdocs

end Engine
end ModuleBuild
