import ModuleBuild.Proofs.Definition.Exports
import ModuleBuild.Proofs.Typespec.Conservation
import ModuleBuild.Proofs.Typespec.Translation
import ModuleBuild.Typespec.Section

/-! # Optional callbacks

A module lists pairs as optional, and declares callbacks and macro callbacks, in any order.  A macro
callback is declared under the pair that it is called as, so a listed pair is kept as that pair if a
macro callback of it is declared, and as it is if none is (`mem_optionalCallbacks_iff`).  The two
renamings agree: if every listed pair is one of a callback or a macro callback, every pair that is
kept has a declaration among the callbacks (`optional_laws`).
-/
namespace ModuleBuild

namespace AttributeTable

variable (t : AttributeTable)

/-- A form under the key of a kind of callbacks declares the pair: it has the name, and as many
parameters as the arity. -/
def DeclaresCallback (kind : CallbackKind) (p : NameArity) : Prop :=
  ∃ form ∈ t.readAll kind.key, ∃ params, form.get "name" = .text p.name ∧
    form.get "params" = .list params ∧ (params.length : Int) = p.arity

/-- An entry of the optional callbacks is for the pair: the entries are the items of a list, or a
value that is no list. -/
def ListsOptional (p : NameArity) : Prop :=
  ∃ v ∈ t.readAll "optional_callbacks", ∃ entry ∈ v.asList?.getD [v],
    entry.get "name" = .text p.name ∧ (entry.get "arity").asInt? = some p.arity

end AttributeTable

namespace Typespec

open AttributeTable (DeclaresCallback ListsOptional)

section Accepting

variable {t : AttributeTable} {definitions : DefinitionSummary} {location : Location}
  {s : TypespecSections} {p : NameArity}

/-! ## What is listed -/

theorem optionalPair_eq_ok_iff {entry : Value} : optionalPair location entry = .ok p ↔
    entry.get "name" = .text p.name ∧ (entry.get "arity").asInt? = some p.arity := by
  obtain ⟨n, k⟩ := p
  unfold optionalPair
  constructor
  · intro h
    split at h
    · next name arity hname harity =>
      cases h
      exact ⟨hname, harity⟩
    · exact absurd h nameless_ne_ok
  · rintro ⟨hname, harity⟩
    rw [hname, harity]

/-- The pairs that are read are those that are listed. -/
theorem mem_flatten_optional {optional : List (List NameArity)}
    (h : (t.readAll "optional_callbacks").mapM (optionalPairs location) = .ok optional) :
    p ∈ optional.flatten ↔ ListsOptional t p := by
  obtain ⟨hvalues, hpairs⟩ := mem_of_mapM_eq_ok h
  rw [List.mem_flatten]
  constructor
  · rintro ⟨ps, hps, hp⟩
    obtain ⟨v, hv, hread⟩ := hpairs ps hps
    obtain ⟨entry, hentry, heq⟩ := (mem_of_mapM_eq_ok hread).2 p hp
    exact ⟨v, hv, entry, hentry, optionalPair_eq_ok_iff.mp heq⟩
  · rintro ⟨v, hv, entry, hentry, hlists⟩
    obtain ⟨ps, hps, hread⟩ := hvalues v hv
    obtain ⟨q, hq, heq⟩ := (mem_of_mapM_eq_ok hread).1 entry hentry
    have hpq : p = q := Except.ok.inj ((optionalPair_eq_ok_iff.mpr hlists).symm.trans heq)
    exact ⟨ps, hps, hpq ▸ hq⟩

/-! ## What is declared -/

/-- The pair that a callback of a kind is declared under. -/
def declaredAs : CallbackKind → NameArity → NameArity
  | .function, p => p
  | .macroFunction, p => p.dispatch

theorem pair_declares (w : WrittenSpec) (kind : CallbackKind) :
    (w.declares (.callback kind)).pair = declaredAs kind w.pair := by
  cases kind <;> rfl

/-- The declarations of callbacks of a kind are of the pairs that forms declare. -/
theorem exists_mem_declarations {kind : CallbackKind} {ds : List SpecDeclaration}
    (h : declarations t location (.callback kind) = .ok ds) (p : NameArity) :
    (∃ d ∈ ds, d.pair = declaredAs kind p) ↔ DeclaresCallback t kind p := by
  obtain ⟨hforms, hdeclared⟩ := mem_of_mapM_eq_ok h
  constructor
  · rintro ⟨d, hd, hpair⟩
    obtain ⟨form, hform, heq⟩ := hdeclared d hd
    obtain ⟨w, hread, -, -, rfl⟩ := translateSpec_eq_ok_iff.mp heq
    have hp : w.pair = p := by
      rw [pair_declares] at hpair
      cases kind with
      | function => exact hpair
      | macroFunction => exact NameArity.dispatch_injective hpair
    subst hp
    exact ⟨form, hform, w.params, hread.name, hread.params, rfl⟩
  · rintro ⟨form, hform, params, hname, hparams, harity⟩
    obtain ⟨d, hd, heq⟩ := hforms form hform
    obtain ⟨w, hread, -, -, rfl⟩ := translateSpec_eq_ok_iff.mp heq
    refine ⟨_, hd, (pair_declares w kind).trans (congrArg (declaredAs kind) ?_)⟩
    obtain ⟨n, k⟩ := p
    obtain rfl : n = w.name := Value.text.inj (hname.symm.trans hread.name)
    obtain rfl : params = w.params := Value.list.inj (hparams.symm.trans hread.params)
    exact congrArg (NameArity.mk w.name) harity

/-- A declaration of a callback has one clause, with as many parameters as it declares. -/
theorem clauses_of_mem_declarations {kind : CallbackKind} {ds : List SpecDeclaration}
    (h : declarations t location (.callback kind) = .ok ds) {d : SpecDeclaration} (hd : d ∈ ds) :
    ∃ c : SpecClause, d.clauses = [c] ∧ (c.params.length : Int) = d.pair.arity := by
  obtain ⟨form, -, heq⟩ := (mem_of_mapM_eq_ok h).2 d hd
  obtain ⟨w, -, -, -, rfl⟩ := translateSpec_eq_ok_iff.mp heq
  cases kind with
  | function => exact ⟨_, rfl, rfl⟩
  | macroFunction => exact ⟨_, rfl, by simp [WrittenSpec.declares]⟩

/-! ## What is kept -/

/-- A listed pair is kept as the pair that a macro callback of it is declared under, if there is
one. -/
theorem optionalTarget_eq_iff {ds : List SpecDeclaration}
    (h : declarations t location (.callback .macroFunction) = .ok ds) {q : NameArity} :
    optionalTarget (ds.map SpecDeclaration.pair) p = q ↔
      DeclaresCallback t .macroFunction p ∧ q = p.dispatch ∨
        ¬DeclaresCallback t .macroFunction p ∧ q = p := by
  have hdeclares : (ds.map SpecDeclaration.pair).contains p.dispatch = true ↔
      DeclaresCallback t .macroFunction p := by
    rw [List.contains_iff_mem, List.mem_map]
    exact exists_mem_declarations h p
  unfold optionalTarget
  split
  · next hdispatch => simp [hdeclares.mp hdispatch, eq_comm]
  · next hdispatch =>
    have hnone : ¬DeclaresCallback t .macroFunction p := fun hd => hdispatch (hdeclares.mpr hd)
    simp [hnone, eq_comm]

/-- What the sections of accepted attributes are made of. -/
theorem sections_eq_ok (h : sections t definitions location = .ok s) :
    ∃ callbacks macroCallbacks optional,
      declarations t location (.callback .function) = .ok callbacks ∧
      declarations t location (.callback .macroFunction) = .ok macroCallbacks ∧
      (t.readAll "optional_callbacks").mapM (optionalPairs location) = .ok optional ∧
      s.callbacks = mergeSpecs (callbacks ++ macroCallbacks) ∧
      s.optionalCallbacks = NameArity.sorted
        (optional.flatten.map (optionalTarget (macroCallbacks.map SpecDeclaration.pair))) := by
  obtain ⟨types, -, h⟩ := bind_eq_ok.mp h
  obtain ⟨specs, -, h⟩ := bind_eq_ok.mp h
  obtain ⟨callbacks, hcallbacks, h⟩ := bind_eq_ok.mp h
  obtain ⟨macroCallbacks, hmacroCallbacks, h⟩ := bind_eq_ok.mp h
  obtain ⟨optional, hoptional, h⟩ := bind_eq_ok.mp h
  cases h
  exact ⟨callbacks, macroCallbacks, optional, hcallbacks, hmacroCallbacks, hoptional, rfl, rfl⟩

/-- **Which pairs are kept**: one for each that is listed, and no other. -/
theorem mem_optionalCallbacks_iff (h : sections t definitions location = .ok s) {q : NameArity} :
    q ∈ s.optionalCallbacks ↔ ∃ p, ListsOptional t p ∧
      (DeclaresCallback t .macroFunction p ∧ q = p.dispatch ∨
        ¬DeclaresCallback t .macroFunction p ∧ q = p) := by
  obtain ⟨callbacks, macroCallbacks, optional, -, hmacroCallbacks, hoptional, -, hkept⟩ :=
    sections_eq_ok h
  rw [hkept, NameArity.mem_sorted, List.mem_map]
  refine exists_congr fun p => and_congr (mem_flatten_optional hoptional) ?_
  exact optionalTarget_eq_iff hmacroCallbacks

/-- A callback that a form declares has a declaration. -/
theorem exists_mem_callbacks (h : sections t definitions location = .ok s) {kind : CallbackKind}
    (hp : DeclaresCallback t kind p) : ∃ d ∈ s.callbacks, d.pair = declaredAs kind p := by
  obtain ⟨callbacks, macroCallbacks, -, hcallbacks, hmacroCallbacks, -, hmerged, -⟩ :=
    sections_eq_ok h
  obtain ⟨e, he, hpair⟩ : ∃ e ∈ callbacks ++ macroCallbacks, e.pair = declaredAs kind p := by
    cases kind with
    | function =>
      obtain ⟨e, he, hpair⟩ := (exists_mem_declarations hcallbacks p).mpr hp
      exact ⟨e, List.mem_append_left _ he, hpair⟩
    | macroFunction =>
      obtain ⟨e, he, hpair⟩ := (exists_mem_declarations hmacroCallbacks p).mpr hp
      exact ⟨e, List.mem_append_right _ he, hpair⟩
  obtain ⟨d, hd, hkey⟩ := exists_mem_mergeSpecs_of_mem he
  rw [hmerged]
  exact ⟨d, hd, (congrArg Prod.snd hkey).trans hpair⟩

/-- The declaration of a callback has clauses, all with as many parameters as it declares. -/
theorem clauses_of_mem_callbacks (h : sections t definitions location = .ok s)
    {d : SpecDeclaration} (hd : d ∈ s.callbacks) :
    d.clauses ≠ [] ∧ ∀ c ∈ d.clauses, (c.params.length : Int) = d.pair.arity := by
  obtain ⟨callbacks, macroCallbacks, -, hcallbacks, hmacroCallbacks, -, hmerged, -⟩ :=
    sections_eq_ok h
  have hclauses : ∀ e ∈ callbacks ++ macroCallbacks,
      ∃ c : SpecClause, e.clauses = [c] ∧ (c.params.length : Int) = e.pair.arity := by
    intro e he
    rcases List.mem_append.mp he with he | he
    · exact clauses_of_mem_declarations hcallbacks he
    · exact clauses_of_mem_declarations hmacroCallbacks he
  rw [hmerged] at hd
  have hjoined := isJoined_of_joined ((mem_mergeSpecs _).mp hd)
  constructor
  · obtain ⟨e, he, -⟩ := hjoined.key
    obtain ⟨c, hc, -⟩ := hclauses e (List.mem_of_mem_filter he)
    rw [hjoined.clauses]
    exact List.ne_nil_of_mem (List.mem_flatMap.mpr ⟨e, he, hc ▸ List.mem_singleton_self c⟩)
  · intro c hc
    rw [hjoined.clauses] at hc
    obtain ⟨e, he, hc⟩ := List.mem_flatMap.mp hc
    obtain ⟨hmem, hkey⟩ := List.mem_filter.mp he
    obtain ⟨c', hc', hparams⟩ := hclauses e hmem
    rw [hc', List.mem_singleton] at hc
    have hpair : e.pair = d.pair := congrArg Prod.snd (of_decide_eq_true hkey)
    rw [hc, hparams, hpair]

/-- **Optional callbacks agree with the callbacks that are declared.**  A listed pair is kept as the
pair that a macro callback of it is called as if such a macro callback is declared, wherever in the
module, and as it is if none is; nothing else is kept, and the pairs are in ascending order.  If
every listed pair is that of a callback or a macro callback, every pair that is kept has a
declaration among the callbacks.  Every declaration there has clauses, all with as many parameters
as it declares. -/
theorem optional_laws (h : sections t definitions location = .ok s) :
    (∀ q, q ∈ s.optionalCallbacks ↔ ∃ p, t.ListsOptional p ∧
      (t.DeclaresCallback .macroFunction p ∧ q = p.dispatch ∨
        ¬t.DeclaresCallback .macroFunction p ∧ q = p)) ∧
    NameArity.Ascending s.optionalCallbacks ∧
    ((∀ p, t.ListsOptional p → ∃ kind, t.DeclaresCallback kind p) →
      ∀ q ∈ s.optionalCallbacks, ∃ d ∈ s.callbacks, d.pair = q) ∧
    ∀ d ∈ s.callbacks,
      d.clauses ≠ [] ∧ ∀ c ∈ d.clauses, (c.params.length : Int) = d.pair.arity := by
  refine ⟨fun q => mem_optionalCallbacks_iff h, ?_, fun hlisted q hq => ?_,
    fun d hd => clauses_of_mem_callbacks h hd⟩
  · obtain ⟨_, _, _, -, -, -, -, hkept⟩ := sections_eq_ok h
    rw [hkept]
    exact NameArity.ascending_sorted _
  · obtain ⟨p, hp, ⟨hdispatch, rfl⟩ | ⟨hnone, rfl⟩⟩ := (mem_optionalCallbacks_iff h).mp hq
    · exact exists_mem_callbacks h hdispatch
    · obtain ⟨kind, hkind⟩ := hlisted q hp
      cases kind with
      | function => exact exists_mem_callbacks h hkind
      | macroFunction => exact absurd hkind hnone

end Accepting

/-! ## A callback named as a macro callback is called -/

namespace Shared

open Assembly.Shelf (named isWritten_named)

/-- Where the module stands. -/
def location : Location := ⟨"lib/shared.src", 1⟩

/-- A callback with two parameters. -/
def plain : WrittenSpec := ⟨"MACRO-unless", [named "env", named "bool"], named "term", 1⟩

/-- A macro callback, which is called under the name of the callback. -/
def quoted : WrittenSpec := ⟨"unless", [named "bool"], named "block", 1⟩

/-- The form of a callback that gives no line. -/
def form (w : WrittenSpec) : Value :=
  .record [("name", .text w.name), ("params", .list w.params), ("result", w.result)]

/-- The attributes of the module: the macro callback is listed as optional. -/
def attributes : AttributeTable :=
  (((AttributeTable.ofPolicies .initial).setCell "optional_callbacks"
      (some (.accumulated [.list [.record [("name", .text "unless"), ("arity", .int 1)]]]))
      (by decide)).setCell "callback" (some (.accumulated [form plain])) (by decide)).setCell
    "macrocallback" (some (.accumulated [form quoted])) (by decide)

theorem declarations_attributes {kind : CallbackKind} {w : WrittenSpec}
    (hforms : attributes.readAll kind.key = [form w]) (hread : w.IsReadFrom location (form w))
    (hparams : ∀ p ∈ w.params, ∃ name, p = named name) (hresult : ∃ name, w.result = named name) :
    declarations attributes location (.callback kind) = .ok [w.declares (.callback kind)] := by
  have hnamed {p : Value} (h : ∃ name, p = named name) : TypeExpr.IsType p := by
    obtain ⟨name, rfl⟩ := h
    exact TypeExpr.isWritten_iff.mp (isWritten_named name)
  have hform : translateSpec (.callback kind) (form w) location
      = .ok (w.declares (.callback kind)) :=
    translateSpec_eq_ok_iff.mpr
      ⟨w, hread, fun p hp => hnamed (hparams p hp), hnamed hresult, rfl⟩
  change (attributes.readAll kind.key).mapM _ = _
  rw [hforms, List.mapM_cons, hform]
  rfl

/-- The attributes are accepted. -/
theorem exists_sections :
    ∃ s, sections attributes DefinitionTable.empty.summary location = .ok s := by
  have hplain : declarations attributes location (.callback .function) = .ok _ :=
    declarations_attributes rfl ⟨rfl, rfl, rfl, Or.inl ⟨rfl, rfl⟩⟩
      (by simp [plain]) ⟨_, rfl⟩
  have hquoted : declarations attributes location (.callback .macroFunction) = .ok _ :=
    declarations_attributes rfl ⟨rfl, rfl, rfl, Or.inl ⟨rfl, rfl⟩⟩
      (by simp [quoted]) ⟨_, rfl⟩
  have hsome : (sections attributes DefinitionTable.empty.summary location).toOption.isSome
      = true := by
    simp only [sections, hplain, hquoted]
    decide +kernel
  obtain ⟨s, hs⟩ := Option.isSome_iff_exists.mp hsome
  exact ⟨s, toOption_eq_some.mp hs⟩

end Shared

/-- The macro callback is optional under the pair that it shares with the callback. -/
theorem optional_laws_shared :
    ∃ s, sections Shared.attributes DefinitionTable.empty.summary Shared.location = .ok s ∧
      ⟨"MACRO-unless", 2⟩ ∈ s.optionalCallbacks ∧
      ∃ d ∈ s.callbacks, d.pair = ⟨"MACRO-unless", 2⟩ := by
  obtain ⟨s, hs⟩ := Shared.exists_sections
  obtain ⟨hkept, -, hdeclared, -⟩ := optional_laws hs
  have hdispatch : Shared.attributes.DeclaresCallback .macroFunction ⟨"unless", 1⟩ :=
    ⟨Shared.form Shared.quoted, List.mem_singleton_self _, _, rfl, rfl, rfl⟩
  have hlisted : Shared.attributes.ListsOptional ⟨"unless", 1⟩ :=
    ⟨_, List.mem_singleton_self _, _, List.mem_singleton_self _, rfl, rfl⟩
  have hmem : (⟨"MACRO-unless", 2⟩ : NameArity) ∈ s.optionalCallbacks :=
    (hkept _).mpr ⟨⟨"unless", 1⟩, hlisted, Or.inl ⟨hdispatch, rfl⟩⟩
  refine ⟨s, hs, hmem, hdeclared ?_ _ hmem⟩
  rintro p ⟨v, hv, entry, hentry, hname, harity⟩
  obtain rfl := List.mem_singleton.mp hv
  obtain rfl := List.mem_singleton.mp hentry
  obtain ⟨n, k⟩ := p
  obtain rfl : "unless" = n := Value.text.inj hname
  obtain rfl : (1 : Int) = k := Option.some.inj harity
  exact ⟨.macroFunction, hdispatch⟩

end Typespec
end ModuleBuild
