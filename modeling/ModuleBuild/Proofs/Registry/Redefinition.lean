import ModuleBuild.Proofs.Compile.Teardown
import ModuleBuild.Proofs.Outcome

/-! # Who is told of a redefinition

Opening a module first tells that a version of it is loaded, and only then finds out whether
the module is open already.  So a refusal of the name itself is silent, but one because the
module is open is not: the receiver has heard of a redefinition that does not take place
(`ModuleTables.report_eq_some_iff`).  An opening that fails leaves the tables as they are.

Over a history of openings, closings and loads, every report belongs to an opening that
succeeded exactly if no module was opened, with somebody to tell, that was both loaded and open
at the time, and no receiver failed.  The compiler opens its modules in this way
(`Engine.openModule_apply`).
-/
namespace ModuleBuild

/-- How a module is opened. -/
structure OpenOptions where
  sessionId : String
  withDocs : Bool
  /-- Whether the code session is asked for a loaded version. -/
  asksCode : Bool
  ignoresConflict : Bool
  /-- Who is told of a redefinition, if anybody; the receiver may fail. -/
  receiver : Option (Diagnostic → Option Failure)

/-- The modules that are open, and those that are loaded. -/
structure ModuleTables where
  registry : Registry
  code : CodeSession

/-- A call that changes the tables. -/
inductive TableCall where
  | openModule (module : String) (location : Location) (options : OpenOptions)
  | close (ticket : Ticket)
  | load (loaded : LoadedModule)
  | unload (module : String)

/-- A report that a module is redefined, and whether the module was opened then. -/
structure RedefinitionReport where
  module : String
  diagnostic : Diagnostic
  opened : Bool

namespace OpenOptions

/-- The loaded version of a module that somebody is to be told of. -/
def conflict? (o : OpenOptions) (code : CodeSession) (m : String) : Option LoadedModule :=
  if o.asksCode = true ∧ o.ignoresConflict = false ∧ o.receiver.isSome = true then code.get? m
  else none

/-- How the receiver of a report fails, if it does. -/
def receive (o : OpenOptions) (d : Diagnostic) : Option Failure := o.receiver.bind fun f => f d

end OpenOptions

namespace ModuleTables

/-- What an opening comes to: the ticket and the tables, or why there is none.  The receiver of
the report is heard before the registry. -/
def conclude (t : ModuleTables) (o : OpenOptions) (report : Option Diagnostic)
    (opened : Except Problem (Ticket × Registry)) : Except Failure (Ticket × ModuleTables) :=
  match report.bind o.receive, opened with
  | some f, _ => .error f
  | none, .error p => .error (.ofProblem p)
  | none, .ok (ticket, registry) => .ok (ticket, { t with registry })

/-- Open a module: what is reported, and what the opening comes to. -/
def openModule (t : ModuleTables) (m : String) (l : Location) (o : OpenOptions) :
    Option Diagnostic × Except Failure (Ticket × ModuleTables) :=
  let opened := t.registry.openModule (o.conflict? t.code m) m o.sessionId l o.withDocs
  (opened.1, t.conclude o opened.1 opened.2)

/-- The tables after a call, and the report that it made; an opening that fails leaves them as
they are. -/
def serve (t : ModuleTables) : TableCall → ModuleTables × Option RedefinitionReport
  | .openModule m l o =>
    let (report, answer) := t.openModule m l o
    let after := match answer with
      | .ok (_, t') => t'
      | .error _ => t
    (after, report.map (⟨m, ·, answer.isOk⟩))
  | .close ticket => ({ t with registry := t.registry.close ticket }, none)
  | .load loaded => ({ t with code := t.code.register loaded }, none)
  | .unload m => ({ t with code := t.code.purge m }, none)

/-- The tables after a history. -/
def runAll (t : ModuleTables) (calls : List TableCall) : ModuleTables :=
  calls.foldl (fun t c => (t.serve c).1) t

/-- The reports of a history, in order. -/
def reports (t : ModuleTables) : List TableCall → List RedefinitionReport
  | [] => []
  | c :: rest => (t.serve c).2.toList ++ (t.serve c).1.reports rest

/-- A version of the module is loaded, and somebody is to be told when the module is opened
under its name, which can be opened. -/
structure Announces (t : ModuleTables) (m : String) (o : OpenOptions) (loaded : LoadedModule) :
    Prop where
  name : Registry.refusal? m = none
  asks : o.asksCode = true
  heeds : o.ignoresConflict = false
  told : o.receiver.isSome = true
  found : t.code.get? m = some loaded

/-- Nothing stands in the way of opening a module: its name can be opened, it is not open, and
the receiver of the report, if there is one, takes it. -/
structure Admits (t : ModuleTables) (m : String) (l : Location) (o : OpenOptions) : Prop where
  name : Registry.refusal? m = none
  free : t.registry.isOpen m = false
  taken : ∀ loaded, t.Announces m o loaded →
    (Registry.redefinition? (some loaded) m l).bind o.receive = none

variable {t : ModuleTables} {m : String} {l : Location} {o : OpenOptions}

/-! ## One opening -/

theorem announces_iff {loaded : LoadedModule} : t.Announces m o loaded ↔
    Registry.refusal? m = none ∧ o.conflict? t.code m = some loaded := by
  have hconflict : o.conflict? t.code m = some loaded ↔
      (o.asksCode = true ∧ o.ignoresConflict = false ∧ o.receiver.isSome = true) ∧
        t.code.get? m = some loaded := by
    simp [OpenOptions.conflict?]
  rw [hconflict]
  constructor
  · rintro ⟨hname, hasks, hheeds, htold, hfound⟩
    exact ⟨hname, ⟨hasks, hheeds, htold⟩, hfound⟩
  · rintro ⟨hname, ⟨hasks, hheeds, htold⟩, hfound⟩
    exact ⟨hname, hasks, hheeds, htold, hfound⟩

/-- An opening succeeds if the receiver of the report does, and the registry. -/
theorem exists_conclude_iff {report : Option Diagnostic}
    {opened : Except Problem (Ticket × Registry)} :
    (∃ a, t.conclude o report opened = .ok a) ↔
      report.bind o.receive = none ∧ ∃ a, opened = .ok a := by
  unfold conclude
  cases report.bind o.receive with
  | some f => exact iff_of_false nofun fun h => nomatch h.1
  | none =>
    cases opened with
    | error p => exact iff_of_false nofun fun h => nomatch h.2
    | ok a => exact iff_of_true ⟨_, rfl⟩ ⟨rfl, _, rfl⟩

/-- **What is reported**: that a version is loaded, be the module open or not. -/
theorem report_eq_some_iff {d : Diagnostic} : (t.openModule m l o).1 = some d ↔
    ∃ loaded, t.Announces m o loaded ∧ Registry.redefinition? (some loaded) m l = some d := by
  simp only [openModule, Registry.openModule, announces_iff]
  cases Registry.refusal? m with
  | some c => simp
  | none =>
    cases o.conflict? t.code m with
    | none => simp [Registry.redefinition?]
    | some loaded => simp

theorem bind_report_eq_none_iff : (t.openModule m l o).1.bind o.receive = none ↔
    ∀ loaded, t.Announces m o loaded →
      (Registry.redefinition? (some loaded) m l).bind o.receive = none := by
  simp only [Option.bind_eq_none_iff, report_eq_some_iff]
  constructor
  · intro h loaded hloaded d hd
    exact h d ⟨loaded, hloaded, hd⟩
  · rintro h d ⟨loaded, hloaded, hd⟩
    exact h loaded hloaded d hd

/-- **When a module is opened.**  That a loaded version is reported does not keep it from being
opened, unless the receiver fails. -/
theorem exists_openModule_iff :
    (∃ a, (t.openModule m l o).2 = .ok a) ↔ t.Admits m l o := by
  have hconclude : (∃ a, (t.openModule m l o).2 = .ok a) ↔
      (t.openModule m l o).1.bind o.receive = none ∧
        ∃ a, (t.registry.openModule (o.conflict? t.code m) m o.sessionId l o.withDocs).2 = .ok a :=
    exists_conclude_iff
  rw [hconclude, bind_report_eq_none_iff, Registry.exists_openModule_ok_iff]
  constructor
  · rintro ⟨htaken, hname, hfree⟩
    exact ⟨hname, hfree, htaken⟩
  · rintro ⟨hname, hfree, htaken⟩
    exact ⟨htaken, hname, hfree⟩

/-! ## One call -/

/-- The report of an opening says whether the module was opened. -/
theorem serve_openModule (t : ModuleTables) (m : String) (l : Location) (o : OpenOptions) :
    (t.serve (.openModule m l o)).2
      = (t.openModule m l o).1.map (⟨m, ·, (t.openModule m l o).2.isOk⟩) := rfl

/-- **A report is made by an opening.** -/
theorem serve_eq_some_iff {c : TableCall} {report : RedefinitionReport} :
    (t.serve c).2 = some report ↔ ∃ m l o d, c = .openModule m l o ∧
      (t.openModule m l o).1 = some d ∧ report = ⟨m, d, (t.openModule m l o).2.isOk⟩ := by
  constructor
  · intro h
    cases c with
    | openModule m l o =>
      rw [serve_openModule] at h
      obtain ⟨d, hd, rfl⟩ := Option.map_eq_some_iff.mp h
      exact ⟨m, l, o, d, rfl, hd, rfl⟩
    | close | load | unload => cases h
  · rintro ⟨m, l, o, d, rfl, hd, rfl⟩
    rw [serve_openModule, hd]
    rfl

theorem serve_of_error {f : Failure} (h : (t.openModule m l o).2 = .error f) :
    (t.serve (.openModule m l o)).1 = t := by
  simp only [serve, h]

/-! ## Whole histories -/

/-- **Every report of a history was made by one of its calls.** -/
theorem mem_reports_iff {calls : List TableCall} {report : RedefinitionReport} :
    report ∈ t.reports calls ↔ ∃ earlier c later, calls = earlier ++ c :: later ∧
      ((t.runAll earlier).serve c).2 = some report := by
  induction calls generalizing t with
  | nil =>
    refine iff_of_false List.not_mem_nil ?_
    rintro ⟨earlier, c, later, h, -⟩
    simp at h
  | cons c rest ih =>
    rw [reports, List.mem_append, Option.mem_toList, ih]
    constructor
    · rintro (hfirst | ⟨earlier, c', later, rfl, hlater⟩)
      · exact ⟨[], c, rest, rfl, hfirst⟩
      · exact ⟨c :: earlier, c', later, rfl, hlater⟩
    · rintro ⟨earlier, c', later, hsplit, hreport⟩
      cases earlier with
      | nil =>
        cases hsplit
        exact .inl hreport
      | cons first earlier =>
        cases hsplit
        exact .inr ⟨earlier, c', later, rfl, hreport⟩

/-- **Reports of redefinitions.**  An opening that fails leaves the tables as they are.  It
reports all the same, as one that succeeds does, if a version of the module is loaded that
somebody is to be told of: whether the module is open plays no part, although it cannot be
opened then.  Over a history, only redefinitions are reported, and every report belongs to an
opening that succeeded exactly if each opening that had something to report was of a module
that was not open, and its receiver took the report. -/
theorem redefinition_reports (t : ModuleTables) :
    (∀ m l o,
      (∀ f, (t.openModule m l o).2 = .error f → (t.serve (.openModule m l o)).1 = t) ∧
      (∀ d, (t.openModule m l o).1 = some d ↔ ∃ loaded,
        t.Announces m o loaded ∧ Registry.redefinition? (some loaded) m l = some d) ∧
      ((∃ a, (t.openModule m l o).2 = .ok a) ↔ t.Admits m l o)) ∧
    ∀ calls,
      (∀ report ∈ t.reports calls, report.diagnostic.code = .moduleRedefined) ∧
      ((∀ report ∈ t.reports calls, report.opened = true) ↔
        ∀ earlier m l o later, calls = earlier ++ .openModule m l o :: later →
          ∀ loaded, (t.runAll earlier).Announces m o loaded →
            (t.runAll earlier).Admits m l o) := by
  refine ⟨fun m l o => ⟨fun f => serve_of_error, fun d => report_eq_some_iff,
    exists_openModule_iff⟩, fun calls => ⟨?_, ?_, ?_⟩⟩
  · intro report hreport
    obtain ⟨earlier, c, later, -, hserve⟩ := mem_reports_iff.mp hreport
    obtain ⟨m, l, o, d, -, hd, rfl⟩ := serve_eq_some_iff.mp hserve
    exact Registry.code_of_mem_openModule _ hd
  · intro hopened earlier m l o later hsplit loaded hloaded
    -- what is announced is reported, and the report says whether the module was opened
    obtain ⟨d, hd⟩ : ∃ d, Registry.redefinition? (some loaded) m l = some d := ⟨_, rfl⟩
    have hreport : ((t.runAll earlier).openModule m l o).1 = some d :=
      report_eq_some_iff.mpr ⟨loaded, hloaded, hd⟩
    have hmem : ⟨m, d, ((t.runAll earlier).openModule m l o).2.isOk⟩ ∈ t.reports calls :=
      mem_reports_iff.mpr ⟨earlier, _, later, hsplit,
        serve_eq_some_iff.mpr ⟨m, l, o, d, rfl, hreport, rfl⟩⟩
    exact exists_openModule_iff.mp (isOk_eq_true_iff.mp (hopened _ hmem))
  · intro hadmits report hreport
    obtain ⟨earlier, c, later, hsplit, hserve⟩ := mem_reports_iff.mp hreport
    obtain ⟨m, l, o, d, rfl, hd, rfl⟩ := serve_eq_some_iff.mp hserve
    obtain ⟨loaded, hloaded, -⟩ := report_eq_some_iff.mp hd
    have hopened := hadmits earlier m l o later hsplit loaded hloaded
    exact isOk_eq_true_iff.mpr (exists_openModule_iff.mpr hopened)

/-- A module that is loaded while it is open, and then opened again: the second opening fails,
and what it reported is that the module is redefined. -/
theorem redefinition_reports_reopening :
    let options : OpenOptions := ⟨"s", true, true, false, some fun _ => none⟩
    let calls : List TableCall :=
      [.openModule "Sample" ⟨"lib/a.mod", 1⟩ options, .load ⟨"Sample", ⟨[], []⟩, .memory⟩,
        .openModule "Sample" ⟨"lib/b.mod", 4⟩ options]
    ¬∀ report ∈ reports ⟨.empty, .empty⟩ calls, report.opened = true := by
  intro options calls hopened
  have hadmits := ((redefinition_reports ⟨.empty, .empty⟩).2 calls).2.mp hopened
    (calls.take 2) "Sample" ⟨"lib/b.mod", 4⟩ options [] rfl ⟨"Sample", ⟨[], []⟩, .memory⟩
    ⟨by decide, rfl, rfl, rfl, rfl⟩
  exact absurd hadmits.free (by decide)

end ModuleTables

namespace Engine

open Run

/-- How the compiler opens a module: its receiver is the host's, after what was logged. -/
def openOptions (g : Engine) (name : String) (w : World) : OpenOptions where
  sessionId := w.session.id
  withDocs := g.host.options.docs
  asksCode := true
  ignoresConflict := g.host.options.ignoreModuleConflict
  receiver := some fun d => g.host.warn (w.log ++ [.warned name d])

/-- **The compiler opens its modules as the tables do**, and logs what is reported. -/
theorem openModule_tables (g : Engine) (name : String) (env : CompileEnv) (w : World) :
    let opened := (ModuleTables.mk w.registry w.code).openModule name (g.opening name env w).location
      (g.openOptions name w)
    let log := w.log ++ opened.1.toList.map (.warned name)
    g.openModule name env w = match opened.2 with
      | .error f => (.error (.failed f), { w with log })
      | .ok (ticket, tables) =>
        (.ok { g.opening name env w with
          scope := { (g.opening name env w).scope with ticket := ticket }
          warnings := opened.1.toList }, { w with registry := tables.registry, log }) := by
  intro opened log
  have hconflict : (g.openOptions name w).conflict? w.code name
      = if g.host.options.ignoreModuleConflict then none else w.code.get? name := by
    cases hignores : g.host.options.ignoreModuleConflict <;>
      simp [OpenOptions.conflict?, openOptions, hignores]
  have hopened : opened = ((g.registryAnswer name env w).1, ModuleTables.conclude
      ⟨w.registry, w.code⟩ (g.openOptions name w) (g.registryAnswer name env w).1
        (g.registryAnswer name env w).2) := by
    simp only [opened, ModuleTables.openModule, hconflict]
    rfl
  rw [openModule_apply]
  simp only [log, hopened]
  generalize g.registryAnswer name env w = answer
  obtain ⟨report, answer⟩ := answer
  cases report with
  | none =>
    have hquiet : (none : Option Diagnostic).forM (warn g.host name) w = (.ok (), w) := rfl
    rw [hquiet]
    rcases answer with p | ⟨ticket, registry⟩ <;> simp [ModuleTables.conclude]
  | some d =>
    have hwarned : (some d).forM (warn g.host name) w = warn g.host name d w := rfl
    have hreceive : (g.openOptions name w).receive d = g.host.warn (w.log ++ [.warned name d]) :=
      rfl
    rw [hwarned, warn_apply]
    simp only [ModuleTables.conclude, Option.bind_some, hreceive]
    cases g.host.warn (w.log ++ [.warned name d]) with
    | some f => rfl
    | none => rcases answer with p | ⟨ticket, registry⟩ <;> rfl

end Engine
end ModuleBuild
