import Mathlib.Data.List.Forall2
import ModuleBuild.Proofs.Definition.Summary
import ModuleBuild.Proofs.Outcome
import ModuleBuild.Typespec.Declaration

/-! # What specs describe

A spec is written for a name and a number of parameters, and what it describes depends on what
is defined under that pair (`WrittenSpec.target`): the function itself, the function that a
macro is called as, or nothing.  Aiming the declaration of a spec finds just that
(`retarget_declaration`).
-/
namespace ModuleBuild

/-- A spec as it was written. -/
structure WrittenSpec where
  name : String
  params : List Value
  result : Value
  line : Int

namespace WrittenSpec

/-- The name and the number of parameters of a spec. -/
def pair (w : WrittenSpec) : NameArity := ⟨w.name, w.params.length⟩

/-- A form is written for the spec; its line is the one of the module if it gives none. -/
structure IsReadFrom (w : WrittenSpec) (location : Location) (form : Value) : Prop where
  name : form.get "name" = .text w.name
  params : form.get "params" = .list w.params
  result : form.get "result" = w.result
  line : form.get "line" = .undefined ∧ w.line = location.line ∨
    (form.get "line").asInt? = some w.line

/-- The parameters and the result are written as types. -/
structure IsTyped (w : WrittenSpec) : Prop where
  params : w.params.all TypeExpr.isWritten = true
  result : TypeExpr.isWritten w.result = true

/-- What a spec describes: the function of its pair if that is public or recorded as used,
and for a macro the function that it is called as. -/
def target (definitions : DefinitionTable) (w : WrittenSpec) : Option NameArity :=
  match (definitions.get? w.pair).map Definition.kind with
  | some .function => some w.pair
  | some .privateFunction => if w.pair ∈ definitions.locals then some w.pair else none
  | some .macroFunction => some w.pair.dispatch
  | _ => none

/-- The clause of a spec; that of a macro has the caller's context as first parameter. -/
def clause (definitions : DefinitionTable) (w : WrittenSpec) : SpecClause :=
  if (definitions.get? w.pair).map Definition.kind = some .macroFunction then
    { params := TypeExpr.anyTerm :: w.params, result := w.result }
  else { params := w.params, result := w.result }

/-- The declaration that a spec makes before it is aimed. -/
def declaration (w : WrittenSpec) : SpecDeclaration where
  isCallback := false
  pair := w.pair
  line := w.line
  clauses := [{ params := w.params, result := w.result }]

/-- The declaration that a spec makes of the pair it is aimed at. -/
def aimed (definitions : DefinitionTable) (p : NameArity) (w : WrittenSpec) : SpecDeclaration where
  isCallback := false
  pair := p
  line := w.line
  clauses := [w.clause definitions]

variable {definitions : DefinitionTable} {w : WrittenSpec} {p : NameArity}

/-- A form is written for one spec. -/
theorem IsReadFrom.unique {w w' : WrittenSpec} {location : Location} {form : Value}
    (h : w.IsReadFrom location form) (h' : w'.IsReadFrom location form) : w = w' := by
  obtain ⟨hname, hparams, hresult, hline⟩ := h
  obtain ⟨hname', hparams', hresult', hline'⟩ := h'
  have hlines : w.line = w'.line := by
    rcases hline with ⟨hundefined, hline⟩ | hline
    · rcases hline' with ⟨-, hline'⟩ | hline'
      · rw [hline, hline']
      · rw [hundefined] at hline'
        cases hline'
    · rcases hline' with ⟨hundefined, -⟩ | hline'
      · rw [hundefined] at hline
        cases hline
      · exact Option.some.inj (hline.symm.trans hline')
  obtain ⟨name, params, result, line⟩ := w
  obtain ⟨name', params', result', line'⟩ := w'
  obtain rfl : name = name' := Value.text.inj (hname.symm.trans hname')
  obtain rfl : params = params' := Value.list.inj (hparams.symm.trans hparams')
  obtain rfl : result = result' := hresult.symm.trans hresult'
  obtain rfl : line = line' := hlines
  rfl

/-- Forms are written for one list of specs. -/
theorem eq_of_isReadFrom {location : Location} {forms : List Value} {ws ws' : List WrittenSpec}
    (h : List.Forall₂ (fun form w => IsReadFrom w location form) forms ws)
    (h' : List.Forall₂ (fun form w => IsReadFrom w location form) forms ws') : ws = ws' := by
  induction h generalizing ws' with
  | nil =>
    cases h'
    rfl
  | cons hw _ ih =>
    obtain _ | ⟨hw', hrest'⟩ := h'
    rw [hw.unique hw', ih hrest']

theorem length_params_clause (definitions : DefinitionTable) (w : WrittenSpec) :
    ((w.clause definitions).params.length : Int)
      = if (definitions.get? w.pair).map Definition.kind = some .macroFunction
        then w.pair.arity + 1 else w.pair.arity := by
  unfold clause
  split <;> simp [pair]

/-- What a spec describes is a public function, the function that a public macro is called as
or a private function recorded as used; its clause has as many parameters. -/
theorem target_eq_some (h : w.target definitions = some p) :
    ∃ d, definitions.get? w.pair = some d ∧
      ((w.clause definitions).params.length : Int) = p.arity ∧
      (d.kind = .function ∧ p = w.pair ∨ d.kind = .macroFunction ∧ p = w.pair.dispatch ∨
        d.kind = .privateFunction ∧ p = w.pair ∧ p ∈ definitions.locals) := by
  unfold target at h
  cases hget : definitions.get? w.pair with
  | none =>
    rw [hget] at h
    cases h
  | some d =>
    refine ⟨d, rfl, ?_⟩
    rw [hget, Option.map_some] at h
    rw [length_params_clause, hget, Option.map_some]
    cases hd : d.kind with
    | function =>
      rw [hd] at h
      cases h
      exact ⟨if_neg (by decide), Or.inl ⟨rfl, rfl⟩⟩
    | macroFunction =>
      rw [hd] at h
      cases h
      exact ⟨if_pos rfl, Or.inr (Or.inl ⟨rfl, rfl⟩)⟩
    | privateMacro =>
      rw [hd] at h
      cases h
    | privateFunction =>
      rw [hd] at h
      simp only [Option.ite_none_right_eq_some, Option.some.injEq] at h
      obtain ⟨hlocal, rfl⟩ := h
      exact ⟨if_neg (by decide), Or.inr (Or.inr ⟨rfl, rfl, hlocal⟩)⟩

end WrittenSpec

namespace Typespec

variable {definitions : DefinitionTable} {w : WrittenSpec} {p : NameArity} {location : Location}
  {form : Value}

/-- The line of a form is the one that it gives, or that of its place. -/
theorem formLine_eq_ok {key name : String} {line : Int}
    (h : formLine key name form location = .ok line) :
    form.get "line" = .undefined ∧ line = location.line ∨
      (form.get "line").asInt? = some line := by
  unfold formLine at h
  split at h
  · next hundefined =>
    cases h
    exact Or.inl ⟨hundefined, rfl⟩
  · split at h
    · next l hl =>
      cases h
      exact Or.inr hl
    · cases h

theorem nameless_ne_ok {α : Type} {key reason : String} {a : α} :
    nameless key form reason location ≠ .ok a := by
  unfold nameless
  cases nameOf form <;> exact nofun

theorem formName_eq_ok {key name : String} (h : formName key form location = .ok name) :
    form.get "name" = .text name := by
  unfold formName at h
  split at h
  · next n hn =>
    cases h
    exact hn
  · exact absurd h nameless_ne_ok

theorem get_of_asList? {v : Value} {items : List Value} (h : v.asList? = some items) :
    v = .list items := by
  cases v <;> cases h
  rfl

/-- What is read from a form is what it is written for. -/
theorem isReadFrom_of_readSpec {kind : SpecKind} {w : WrittenSpec}
    (h : readSpec kind form location = .ok (w.name, w.params, w.result, w.line)) :
    w.IsReadFrom location form := by
  obtain ⟨name, hname, h⟩ := bind_eq_ok.mp h
  split at h
  · next params hparams =>
    split at h
    · change (if TypeExpr.isWritten (form.get "result") = true then _ else _) = _ at h
      split at h
      · obtain ⟨line, hline, h⟩ := bind_eq_ok.mp h
        obtain ⟨name', params', result', line'⟩ := w
        cases h
        exact ⟨formName_eq_ok hname, get_of_asList? hparams, rfl, formLine_eq_ok hline⟩
      · cases h
    · cases h
  · cases h

/-- The declaration of a spec form is that of the spec that it is written for. -/
theorem translateSpec_eq_ok {d : SpecDeclaration}
    (h : translateSpec .spec form location = .ok d) :
    ∃ w : WrittenSpec, w.IsReadFrom location form ∧ d = w.declaration := by
  obtain ⟨⟨name, params, result, line⟩, hread, h⟩ := bind_eq_ok.mp h
  cases h
  exact ⟨⟨name, params, result, line⟩, isReadFrom_of_readSpec hread, rfl⟩

theorem formLine_of_isReadFrom {key name : String} (h : w.IsReadFrom location form) :
    formLine key name form location = .ok w.line := by
  rcases h.line with ⟨hundefined, hline⟩ | hline
  · rw [formLine, hundefined, hline]
  · unfold formLine
    split
    · next hundefined =>
      rw [hundefined] at hline
      cases hline
    · rw [hline]

/-- A form that is written for a spec with types is read as that spec. -/
theorem translateSpec_of_isReadFrom (h : w.IsReadFrom location form) (htyped : w.IsTyped) :
    translateSpec .spec form location = .ok w.declaration := by
  have hname {key : String} : formName key form location = .ok w.name := by
    rw [formName, h.name]
  have hread : readSpec .spec form location = .ok (w.name, w.params, w.result, w.line) := by
    rw [readSpec, hname, h.params, h.result]
    change (if w.params.all TypeExpr.isWritten = true then _ else _) = _
    rw [if_pos htyped.params]
    change (if TypeExpr.isWritten w.result = true then _ else _) = _
    rw [if_pos htyped.result, formLine_of_isReadFrom h]
    rfl
  rw [translateSpec, hread]
  rfl

/-- The declarations of spec forms are those of the specs they are written for. -/
theorem mapM_translateSpec_eq_ok {forms : List Value} {ds : List SpecDeclaration}
    (h : (forms.mapM fun form => translateSpec .spec form location) = .ok ds) :
    ∃ ws : List WrittenSpec, List.Forall₂ (fun form w => w.IsReadFrom location form) forms ws ∧
      ds = ws.map WrittenSpec.declaration := by
  induction forms generalizing ds with
  | nil =>
    cases h
    exact ⟨[], .nil, rfl⟩
  | cons form rest ih =>
    rw [List.mapM_cons] at h
    obtain ⟨d, hd, h⟩ := bind_eq_ok.mp h
    obtain ⟨ds', hds', h⟩ := bind_eq_ok.mp h
    cases h
    obtain ⟨w, hw, rfl⟩ := translateSpec_eq_ok hd
    obtain ⟨ws, hws, rfl⟩ := ih hds'
    exact ⟨w :: ws, .cons hw hws, rfl⟩

/-- Forms that are written for specs with types are read as those specs. -/
theorem mapM_translateSpec_of_isReadFrom {forms : List Value} {ws : List WrittenSpec}
    (h : List.Forall₂ (fun form w => w.IsReadFrom location form) forms ws)
    (htyped : ∀ w ∈ ws, w.IsTyped) :
    (forms.mapM fun form => translateSpec .spec form location)
      = .ok (ws.map WrittenSpec.declaration) := by
  induction h with
  | nil => rfl
  | cons hw _ ih =>
    obtain ⟨hfirst, hrest⟩ := List.forall_mem_cons.mp htyped
    rw [List.mapM_cons, translateSpec_of_isReadFrom hw hfirst, ih hrest]
    rfl

/-- Aiming the declaration of a spec finds what the spec describes. -/
theorem retarget_declaration (definitions : DefinitionTable) (w : WrittenSpec) :
    retarget w.declaration definitions.summary
      = (w.target definitions).map fun p => w.aimed definitions p := by
  have hkind (k : DefinitionKind) : (definitions.summary.ofKind k).contains w.pair
      = decide ((definitions.get? w.pair).map Definition.kind = some k) := by
    rw [List.contains_eq_mem, decide_eq_decide, DefinitionTable.mem_ofKind_summary,
      Option.map_eq_some_iff]
  have hunreachable {d : Definition} (hget : definitions.get? w.pair = some d)
      (hpublic : d.kind.isPublic = false) : definitions.summary.unreachable.contains w.pair
        = decide (w.pair ∉ definitions.locals) := by
    rw [List.contains_eq_mem, decide_eq_decide, DefinitionTable.mem_unreachable_summary]
    exact ⟨fun ⟨_, _, _, h⟩ => h, fun h => ⟨d, hget, hpublic, h⟩⟩
  change (if (definitions.summary.ofKind .function).contains w.pair = true then _
    else if (definitions.summary.ofKind .macroFunction).contains w.pair = true then _
    else if ((definitions.summary.ofKind .privateFunction).contains w.pair
      && !definitions.summary.unreachable.contains w.pair) = true then _ else _) = _
  unfold WrittenSpec.target WrittenSpec.aimed WrittenSpec.clause
  rw [hkind, hkind, hkind]
  cases hget : definitions.get? w.pair with
  | none => simp
  | some d =>
    cases hd : d.kind with
    | function => simp [hd, WrittenSpec.declaration]
    | macroFunction => simp [hd, WrittenSpec.declaration, SpecClause.dispatch]
    | privateMacro => simp [hd]
    | privateFunction =>
      rw [hunreachable hget (by rw [hd]; rfl)]
      by_cases hlocal : w.pair ∈ definitions.locals <;>
        simp [hd, hlocal, WrittenSpec.declaration]

end Typespec
end ModuleBuild
