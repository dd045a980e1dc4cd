import ModuleBuild.Proofs.Artifact.Consistency
import ModuleBuild.Proofs.Artifact.Documentation
import ModuleBuild.Proofs.Compile.Step

/-! # Compilations that are fulfilled

A compilation that answers with a module has opened it, has gone through all phases, and has
closed it (`compile_eq_ok`).  The artifact was made of the tables that the module had when
definitions were closed, so the code chunk has the definitions that are in its table up to
the end (`holdsDefinitions_of_live`).
-/
namespace ModuleBuild

open Run

namespace Run

/-- Telling an observer changes no entry. -/
theorem registry_notify (host : Host) (callback m : String) (l : Location) (e : Event)
    (w : World) : (notify host callback m l e w).2.registry = w.registry := by
  rw [world_notify]

theorem entry_eq_ok {s : ModuleScope} {w w' : World} {e : ModuleEntry}
    (h : entry s w = (.ok e, w')) : w.registry.find? s.ticket = some e ∧ w = w' := by
  rw [entry_apply] at h
  cases he : w.registry.find? s.ticket with
  | none =>
    rw [he] at h
    cases h
  | some e' =>
    rw [he] at h
    cases h
    exact ⟨rfl, rfl⟩

theorem ofCondition_eq_ok {α : Type} {x : Except Condition α} {w w' : World} {a : α}
    (h : ofCondition x w = (.ok a, w')) : x = .ok a ∧ w = w' := by
  cases x with
  | error c => cases h
  | ok b =>
    cases h
    exact ⟨rfl, rfl⟩

theorem ofProblem_eq_ok {α : Type} {x : Except Problem α} {w w' : World} {a : α}
    (h : ofProblem x w = (.ok a, w')) : x = .ok a ∧ w = w' := by
  cases x with
  | error c => cases h
  | ok b =>
    cases h
    exact ⟨rfl, rfl⟩

theorem ofFailure_eq_ok {α : Type} {x : Except Failure α} {w w' : World} {a : α}
    (h : ofFailure x w = (.ok a, w')) : x = .ok a ∧ w = w' := by
  cases x with
  | error c => cases h
  | ok b =>
    cases h
    exact ⟨rfl, rfl⟩

end Run

theorem AttributeStore.live_eq_ok {s : AttributeStore} {t : AttributeTable}
    (h : s.live = .ok t) : s.table = some t := by
  unfold live at h
  split at h
  · next t' ht =>
    cases h
    exact ht
  · cases h

theorem DefinitionStore.live_eq_ok {s : DefinitionStore} {t : DefinitionTable}
    (h : s.live = .ok t) : s.table = some t := by
  unfold live at h
  split at h
  · next t' ht =>
    cases h
    exact ht
  · cases h

/-- Adding a chunk changes no chunk with another identifier. -/
theorem Artifact.content?_inject {a a' : Artifact} {id other : String}
    {payload : Except Failure Bytes} {owner : ChunkOwner}
    (h : a.inject id payload owner = .ok a') (hid : other ≠ id) :
    a'.content? other = a.content? other := by
  obtain ⟨data, -, hchunks⟩ := chunks_of_inject h
  simp [content?, read?, hchunks, List.find?_append, hid.symm]

namespace Engine

variable {g : Engine} {o : Opening} {evaluate : EvaluateBody} {w w' : World}

/-! ## Making an artifact -/

/-- Going on to a phase that succeeds ends in that phase. -/
theorem advance_eq_ok {target : Phase} (h : g.advance o target w = (.ok (), w')) :
    ∃ e, w'.registry.find? o.scope.ticket = some e ∧ e.phase = target := by
  obtain ⟨e, _, hentry, h⟩ := bind_apply_eq_ok.mp h
  obtain ⟨he, rfl⟩ := entry_eq_ok hentry
  obtain ⟨m, _, hmove, h⟩ := bind_apply_eq_ok.mp h
  obtain ⟨hm, rfl⟩ := ofCondition_eq_ok hmove
  obtain ⟨_, w₁, hupdate, h⟩ := bind_apply_eq_ok.mp h
  cases hupdate
  have hregistry := registry_notify g.host "onPhase" o.scope.module o.location
    (.moved o.scope.module m) { w with
      registry := w.registry.update o.scope.ticket fun s => { s with phase := m.2 } }
  rw [h] at hregistry
  have htarget : m.2 = target := Phase.target_of_advance hm
  refine ⟨e.change fun s => { s with phase := m.2 }, ?_, htarget⟩
  change w'.registry = w.registry.update _ _ at hregistry
  rw [hregistry, Registry.find?_update, if_pos rfl, he]
  rfl

/-- What is assembled comes of the tables that the module has. -/
theorem assemble_eq_ok {m : Assembly} (h : g.assemble o w = (.ok m, w')) :
    w.Path w' ∧ ∃ e attributes definitions, w'.registry.find? o.scope.ticket = some e ∧
      e.attributes.table = some attributes ∧ e.definitions.table = some definitions ∧
      Assembly.ofTables o.scope.module o.location attributes definitions g.host.options.docs
        g.host.options.isInternal = .ok m := by
  have hP := (scopeConduct_path o.scope.ticket).toCodeConduct.scopeLaw
  obtain ⟨t, w₁, hattributes, h⟩ := bind_apply_eq_ok.mp h
  have h₁ : w.Path w₁ := Within.of_ok (hP.attributes o.scope :) hattributes
  obtain ⟨_, w₂, hrecord, h⟩ := bind_apply_eq_ok.mp h
  have h₂ : w₁.Path w₂ :=
    Within.of_ok (related_recordOnLoad hP.toCongruence hP.recordLocal _ :) hrecord
  obtain ⟨e, _, hentry, h⟩ := bind_apply_eq_ok.mp h
  obtain ⟨he, rfl⟩ := entry_eq_ok hentry
  obtain ⟨attributes, _, hattributes, h⟩ := bind_apply_eq_ok.mp h
  obtain ⟨ha, rfl⟩ := ofCondition_eq_ok hattributes
  obtain ⟨definitions, _, hdefinitions, h⟩ := bind_apply_eq_ok.mp h
  obtain ⟨hd, rfl⟩ := ofCondition_eq_ok hdefinitions
  obtain ⟨hm, rfl⟩ := ofFailure_eq_ok h
  exact ⟨h₁.trans h₂, e, attributes, definitions, he, AttributeStore.live_eq_ok ha,
    DefinitionStore.live_eq_ok hd, hm⟩

/-- Building changes nothing, and documentation does not touch the code. -/
theorem build_eq_ok {m : Assembly} {a : Artifact} (h : g.build o m w = (.ok a, w')) :
    w = w' ∧ ∃ a', m.build = .ok a' ∧ a.content? "Code" = a'.content? "Code" := by
  obtain ⟨a', _, hbuild, h⟩ := bind_apply_eq_ok.mp h
  obtain ⟨ha', rfl⟩ := ofFailure_eq_ok hbuild
  split at h
  · obtain ⟨e, _, hentry, h⟩ := bind_apply_eq_ok.mp h
    obtain ⟨-, rfl⟩ := entry_eq_ok hentry
    obtain ⟨attributes, _, hattributes, h⟩ := bind_apply_eq_ok.mp h
    obtain ⟨-, rfl⟩ := ofCondition_eq_ok hattributes
    obtain ⟨hinject, rfl⟩ := ofFailure_eq_ok h
    exact ⟨rfl, a', ha', Artifact.content?_inject hinject (by decide)⟩
  · cases h
    exact ⟨rfl, a, ha', rfl⟩

/-- The code chunk holds the definitions that are assembled. -/
theorem code_of_build {m : Assembly} {a : Artifact} (h : m.build = .ok a) :
    a.content? "Code" = some (.list (m.definitions.map fun d => Term.reading d.codeValue)) := by
  obtain ⟨code, hcontents⟩ := Assembly.contents_of_build h
  rw [hcontents.code, Assembly.codeValue, Term.reading_list, List.map_map, Function.comp_def]

/-- What making an artifact has gone through from the time definitions were closed. -/
theorem prepare_eq_ok {value : FormResult} {m : Assembly} {a : Artifact}
    (h : g.prepare o evaluate w = (.ok (value, m, a), w')) :
    ∃ env w₁ w₂ w₃ w₄ w₅ w₆, g.advance o .assembling w₁ = (.ok (), w₂) ∧
      g.assemble o w₂ = (.ok m, w₃) ∧
      m.warnings.forM (Run.warn g.host o.scope.module) w₃ = (.ok ⟨⟩, w₄) ∧
      g.advance o .building w₄ = (.ok (), w₅) ∧ g.build o m w₅ = (.ok a, w₅) ∧
      g.advance o .afterHooks w₅ = (.ok (), w₆) ∧
      g.runAfterCompile o.scope env a w₆ = (.ok (), w') := by
  obtain ⟨⟨_, env⟩, _, -, h⟩ := bind_apply_eq_ok.mp h
  obtain ⟨_, _, -, h⟩ := bind_apply_eq_ok.mp h
  obtain ⟨env', w₁, -, h⟩ := bind_apply_eq_ok.mp h
  obtain ⟨_, w₂, hassembling, h⟩ := bind_apply_eq_ok.mp h
  obtain ⟨_, w₃, hassemble, h⟩ := bind_apply_eq_ok.mp h
  obtain ⟨_, w₄, hwarnings, h⟩ := bind_apply_eq_ok.mp h
  obtain ⟨_, w₅, hbuilding, h⟩ := bind_apply_eq_ok.mp h
  obtain ⟨_, w₆, hbuild, h⟩ := bind_apply_eq_ok.mp h
  obtain ⟨_, w₇, hafter, h⟩ := bind_apply_eq_ok.mp h
  obtain ⟨_, w₈, hhooks, h⟩ := bind_apply_eq_ok.mp h
  cases h
  obtain ⟨rfl, -⟩ := build_eq_ok hbuild
  exact ⟨env', w₁, w₂, w₃, w₄, w₅, w₇, hassembling, hassemble, hwarnings, hbuilding, hbuild, hafter,
    hhooks⟩

/-- **An artifact is made of the definitions** that the module has once they are closed. -/
theorem definitions_of_prepare {value : FormResult} {m : Assembly} {a : Artifact}
    (hfire : g.FiresWithin o.scope World.Path)
    (h : g.prepare o evaluate w = (.ok (value, m, a), w')) :
    ∃ (w₁ : World) (e : ModuleEntry) (definitions : DefinitionTable), w₁.Path w' ∧
      w₁.registry.find? o.scope.ticket = some e ∧ e.phase.canDefine = false ∧
      e.definitions.table = some definitions ∧
      a.content? "Code"
        = some (.list (definitions.summary.all.map fun d => Term.reading d.codeValue)) := by
  have hR := scopeConduct_path o.scope.ticket
  have hP := hR.openingLaw g
  obtain ⟨env, w₁, w₂, w₃, w₄, w₅, w₆, hassembling, hassemble, hwarnings, hbuilding, hbuild, hafter,
    hhooks⟩ := prepare_eq_ok h
  -- definitions are closed from here on
  obtain ⟨e, he, hphase⟩ := advance_eq_ok hassembling
  obtain ⟨hpath, e', attributes, definitions, he', -, hdefinitions, hm⟩ := assemble_eq_ok hassemble
  obtain ⟨e'', he'', hleads⟩ := hpath.leadsTo he
  obtain rfl : e' = e'' := Option.some.inj (he'.symm.trans he'')
  have hclosed : e'.phase.canDefine = false :=
    Phase.canDefine_of_place_le (by rw [hphase]; rfl) hleads.phase
  obtain ⟨-, a₀, ha₀, hcode⟩ := build_eq_ok hbuild
  refine ⟨w₃, e', definitions, ?_, he', hclosed, hdefinitions, ?_⟩
  · have h₄ : w₃.Path w₄ :=
      Within.of_ok (hP.list_forM (hP.warn _ _) m.warnings :) hwarnings
    have h₅ : w₄.Path w₅ := (hR.within_advance g _).of_ok hbuilding
    have h₆ : w₅.Path w₆ := (hR.within_advance g _).of_ok hafter
    have hrun : within World.Path (g.runAfterCompile o.scope env a)
        (g.runAfterCompile o.scope env a) :=
      related_runAfterCompile hP.toScopeLaw hfire env a
    exact ((h₄.trans h₅).trans h₆).trans (Within.of_ok hrun hhooks)
  · rw [hcode, code_of_build ha₀, (Assembly.isOf_ofTables hm).definitions]

/-- What is made into an artifact was assembled of some tables. -/
theorem assembled_of_prepare {value : FormResult} {m : Assembly} {a : Artifact}
    (h : g.prepare o evaluate w = (.ok (value, m, a), w')) :
    ∃ attributes definitions, Assembly.ofTables o.scope.module o.location attributes definitions
      g.host.options.docs g.host.options.isInternal = .ok m := by
  obtain ⟨_, _, _, _, _, _, _, -, hassemble, -⟩ := prepare_eq_ok h
  obtain ⟨-, _, attributes, definitions, -, -, -, hm⟩ := assemble_eq_ok hassemble
  exact ⟨attributes, definitions, hm⟩

end Engine

/-- The code chunk of the artifact has the definitions of the table, in order of their pairs. -/
def Artifact.HoldsDefinitions (a : Artifact) (t : DefinitionTable) : Prop :=
  ∃ ds : List Definition,
    a.content? "Code" = some (.list (ds.map fun d => Term.reading d.codeValue)) ∧
      NameArity.Ascending (ds.map Definition.pair) ∧ ∀ d, d ∈ ds ↔ t.get? d.pair = some d

theorem Artifact.holdsDefinitions_of_all {a : Artifact} {t : DefinitionTable}
    (h : a.content? "Code"
      = some (.list (t.summary.all.map fun d => Term.reading d.codeValue))) :
    a.HoldsDefinitions t :=
  ⟨t.summary.all, h, DefinitionTable.ascending_all t, fun _ => DefinitionTable.mem_all_iff⟩

namespace Engine

variable {g : Engine} {o : Opening} {evaluate : EvaluateBody} {w w' : World}

/-! ## From opening to closing -/

theorem live_eq_ok {c : CompiledModule} (h : g.live o evaluate w = (.ok c, w')) :
    ∃ value m w₁ w₂, g.prepare o evaluate w₁ = (.ok (value, m, c.artifact), w₂) ∧
      g.handOver o value m c.artifact w₂ = (.ok c, w') ∧
      c.warnings = o.warnings ++ m.warnings := by
  obtain ⟨_, w₁, -, h⟩ := bind_apply_eq_ok.mp h
  rw [compileOpened_eq] at h
  obtain ⟨⟨value, m, a⟩, w₂, hprepare, h⟩ := bind_apply_eq_ok.mp h
  have hhandOver := h
  obtain ⟨_, _, -, h⟩ := bind_apply_eq_ok.mp h
  obtain ⟨loaded, _, -, h⟩ := bind_apply_eq_ok.mp h
  cases h
  exact ⟨value, m, w₁, w₂, hprepare, hhandOver, rfl⟩

/-- **At the end of a module's life its artifact has the definitions of its table.** -/
theorem holdsDefinitions_of_live {c : CompiledModule} {e : ModuleEntry}
    (hpath : g.FiresWithin o.scope World.Path)
    (hspares : g.FiresWithin o.scope (World.Spares none))
    (hevaluate : ∀ env, Within (World.Spares none) (evaluate env o.scope))
    (he : w.registry.find? o.scope.ticket = some e) (hlive : e.definitions.table.isSome = true)
    (h : g.live o evaluate w = (.ok c, w')) :
    ∃ e' t, w'.registry.find? o.scope.ticket = some e' ∧ e'.definitions.table = some t ∧
      c.artifact.HoldsDefinitions t := by
  have hR := scopeConduct_path o.scope.ticket
  have hspared : w.Spares none w' :=
    ((scopeConduct_spares none o.scope.ticket).within_live hspares hevaluate).of_ok h
  obtain ⟨e', he', hlive'⟩ := hspared _ e he nofun hlive
  obtain ⟨t, ht⟩ := Option.isSome_iff_exists.mp hlive'
  obtain ⟨value, m, w₁, w₂, hprepare, hhandOver, -⟩ := live_eq_ok h
  obtain ⟨w₃, e₃, definitions, hpath₃, he₃, hclosed, hdefinitions, hcode⟩ :=
    definitions_of_prepare hpath hprepare
  have hpath₂ : w₂.Path w' :=
    Within.of_ok (related_handOver (hR.openingLaw g).handoverLaw value m c.artifact :) hhandOver
  -- nothing has been defined since the artifact was made
  obtain ⟨e₄, he₄, hleads⟩ := World.Path.leadsTo (hpath₃.trans hpath₂) he₃
  obtain rfl : e' = e₄ := Option.some.inj (he'.symm.trans he₄)
  obtain ⟨definitions', hdefinitions', heq⟩ := hleads.definitions hclosed t ht
  obtain rfl : definitions = definitions' := Option.some.inj (hdefinitions.symm.trans hdefinitions')
  have hall : t.summary.all = definitions.summary.all := by
    change NameArity.sortBy _ t.definitions.values = _
    rw [heq]
    rfl
  exact ⟨e', t, he', ht, Artifact.holdsDefinitions_of_all (hall ▸ hcode)⟩

theorem finish_eq_ok {c : CompiledModule} (h : g.finish o evaluate w = (.ok c, w')) :
    ∃ w₁, g.live o evaluate w = (.ok c, w₁) ∧ g.closeModule o true w₁ = (.ok (), w') := by
  rw [finish_eq] at h
  obtain ⟨outcome, w₁, hlive, h⟩ := bind_apply_eq_ok.mp h
  cases outcome with
  | ok c' =>
    obtain ⟨_, w₂, hclose, h⟩ := bind_apply_eq_ok.mp h
    cases h
    refine ⟨w₁, ?_, hclose⟩
    exact attempt_eq_ok hlive
  | error f =>
    -- what was rejected is not answered
    obtain ⟨rejected, w₂, hreject, h⟩ := bind_apply_eq_ok.mp h
    obtain ⟨_, w₃, -, h⟩ := bind_apply_eq_ok.mp h
    obtain ⟨rfl, -⟩ := ofFailure_eq_ok h
    obtain ⟨_, _, -, hfail⟩ := bind_apply_eq_ok.mp (attempt_eq_ok hreject)
    cases hfail

/-- A module that was opened has a new entry. -/
theorem newEntry_of_openModule {name : String} {env : CompileEnv}
    (h : g.openModule name env w = (.ok o, w')) :
    w'.registry.find? o.scope.ticket = some (g.newEntry name env w) := by
  rcases openModule_cases g name env w with ⟨f, ds, hopen, -⟩ | ⟨-, hopen⟩
  · rw [hopen] at h
    cases h
  · rw [hopen] at h
    cases h
    exact g.find?_opening name env w

/-- A module that has been opened has a live entry. -/
theorem find?_of_openModule {name : String} {env : CompileEnv}
    (h : g.openModule name env w = (.ok o, w')) :
    ∃ e, w'.registry.find? o.scope.ticket = some e ∧ e.definitions.table.isSome = true :=
  ⟨_, newEntry_of_openModule h, rfl⟩

/-- **A compilation that answers with a module** opened it, and closed it after its life. -/
theorem compile_eq_ok {name : String} {env : CompileEnv} {c : CompiledModule}
    (h : g.compile name env evaluate w = (.ok c, w')) :
    ∃ o w₁ w₂, g.openModule name env w = (.ok o, w₁) ∧ g.live o evaluate w₁ = (.ok c, w₂) ∧
      g.closeModule o true w₂ = (.ok (), w') := by
  obtain ⟨o, w₁, hopen, h⟩ := bind_apply_eq_ok.mp h
  obtain ⟨w₂, hlive, hclose⟩ := finish_eq_ok h
  exact ⟨o, w₁, w₂, hopen, hlive, hclose⟩

end Engine
end ModuleBuild
