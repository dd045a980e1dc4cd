import ModuleBuild.Proofs.Term.Reading
import ModuleBuild.Proofs.Typespec.Grammar
import ModuleBuild.Proofs.Typespec.Target

/-! # Which forms are declarations

A form of a type is a declaration if it has a name, names of parameters, a definition that is
a type, and no other variables than its parameters; a form of a spec if its parameters and its
result are types.  The declaration says what the form says.  Any other form is refused with a
message about the place, and for a variable that is not bound the message names the leftmost.  The
message names the form by its text if it has no name; a form that has neither is refused without
such a message (`Typespec.Wordless`).
-/
namespace ModuleBuild

/-- A type as it was written. -/
structure WrittenType where
  name : String
  params : List String
  definition : Value
  line : Int

namespace WrittenType

/-- A form is written for the type; its line is the one of its place if it gives none. -/
structure IsReadFrom (w : WrittenType) (location : Location) (form : Value) : Prop where
  name : form.get "name" = .text w.name
  params : form.get "params" = .list (w.params.map .text)
  definition : form.get "definition" = w.definition
  line : form.get "line" = .undefined ∧ w.line = location.line ∨
    (form.get "line").asInt? = some w.line

/-- A name that stands for nothing: neither a parameter nor the one that needs no binding. -/
def Unbound (w : WrittenType) (n : String) : Prop := n ≠ "_" ∧ n ∉ w.params

instance (w : WrittenType) : DecidablePred w.Unbound := fun n =>
  inferInstanceAs (Decidable (n ≠ "_" ∧ n ∉ w.params))

/-- The definition is a type, whose variables are all bound. -/
structure IsTyped (w : WrittenType) : Prop where
  definition : TypeExpr.IsType w.definition
  bound : ∀ n, TypeExpr.Occurs n w.definition → ¬w.Unbound n

/-- The declaration that a type makes. -/
def declaration (kind : TypeKind) (w : WrittenType) : TypeDeclaration where
  kind := kind
  name := w.name
  params := w.params
  line := w.line
  definition := w.definition

end WrittenType

namespace WrittenSpec

/-- The declaration that a spec makes: that of a macro callback is of the function that the
macro is called as, which takes the caller's context first. -/
def declares (w : WrittenSpec) : SpecKind → SpecDeclaration
  | .spec => ⟨false, ⟨w.name, w.params.length⟩, w.line, [⟨w.params, w.result⟩]⟩
  | .callback .function => ⟨true, ⟨w.name, w.params.length⟩, w.line, [⟨w.params, w.result⟩]⟩
  | .callback .macroFunction =>
    ⟨true, ⟨NameArity.dispatchName w.name, w.params.length + 1⟩, w.line,
      [⟨TypeExpr.anyTerm :: w.params, w.result⟩]⟩

end WrittenSpec

namespace Typespec

variable {location : Location} {form : Value}

/-! ## What is accepted -/

theorem formName_eq_ok_iff {key name : String} :
    formName key form location = .ok name ↔ form.get "name" = .text name := by
  constructor
  · exact formName_eq_ok
  · intro h
    rw [formName, h]

theorem formLine_eq_ok_iff {key name : String} {line : Int} :
    formLine key name form location = .ok line ↔
      form.get "line" = .undefined ∧ line = location.line ∨
        (form.get "line").asInt? = some line := by
  constructor
  · exact formLine_eq_ok
  · rintro (⟨hundefined, rfl⟩ | hline)
    · rw [formLine, hundefined]
    · unfold formLine
      split
      · next hundefined =>
        rw [hundefined] at hline
        cases hline
      · rw [hline]

theorem texts?_eq_some_iff {vs : List Value} {ss : List String} :
    texts? vs = some ss ↔ vs = ss.map .text := by
  induction vs generalizing ss with
  | nil => cases ss <;> simp [texts?]
  | cons v rest ih =>
    constructor
    · intro h
      cases v with
      | text s =>
        obtain ⟨ss', hss', rfl⟩ := Option.map_eq_some_iff.mp h
        rw [List.map_cons, ih.mp hss']
      | _ => cases h
    · intro h
      cases ss with
      | nil => cases h
      | cons s ss' =>
        obtain ⟨rfl, hrest⟩ := List.cons.inj h
        rw [texts?, ih.mpr hrest]
        rfl

theorem unbound?_eq {w : WrittenType} {used : List String} :
    unbound? w.params used = used.find? fun n => decide (w.Unbound n) := by
  unfold unbound?
  refine congrArg (fun p => used.find? p) (funext fun n => ?_)
  rw [Bool.eq_iff_iff, decide_eq_true_eq]
  simp [WrittenType.Unbound]

theorem unbound?_eq_none_iff {w : WrittenType} (h : TypeExpr.IsType w.definition) :
    unbound? w.params (TypeExpr.names w.definition) = none ↔
      ∀ n, TypeExpr.Occurs n w.definition → ¬w.Unbound n := by
  rw [unbound?_eq, List.find?_eq_none]
  simp only [h.mem_names_iff, decide_eq_true_eq]

theorem unbound?_eq_some_iff {w : WrittenType} {n : String} (h : TypeExpr.IsType w.definition) :
    unbound? w.params (TypeExpr.names w.definition) = some n ↔
      TypeExpr.Leftmost w.Unbound n w.definition := by
  rw [unbound?_eq]
  exact h.find?_names_iff

/-! ## Reading in steps -/

/-- What was read, or a message that it is not what a form must have. -/
def orMalformed {α : Type} (key name reason : String) (location : Location) :
    Option α → Except Failure α
  | some a => .ok a
  | none => malformed key name reason location

theorem orMalformed_eq_ok_iff {α : Type} {key name reason : String} {x : Option α} {a : α} :
    orMalformed key name reason location x = .ok a ↔ x = some a := by
  cases x with
  | none => exact iff_of_false nofun nofun
  | some b => simp [orMalformed]

theorem translateType_eq (kind : TypeKind) (form : Value) (location : Location) :
    translateType kind form location = (do
      let name ← formName kind.key form location
      let params ← orMalformed kind.key name "parameters must be variable names" location
        ((form.get "params").asList?.bind texts?)
      let type ← orMalformed kind.key name "definition must be a type expression" location
        (TypeExpr.ofValue? (form.get "definition"))
      let line ← formLine kind.key name form location
      match unbound? params type.varNames with
      | some n => malformed kind.key name ("type variable " ++ n ++ " is unbound") location
      | none => .ok ⟨kind, name, params, line, form.get "definition"⟩) := by
  unfold translateType
  dsimp only
  cases (form.get "params").asList?.bind texts? <;>
    cases TypeExpr.ofValue? (form.get "definition") <;> rfl

theorem readSpec_eq (kind : SpecKind) (form : Value) (location : Location) :
    readSpec kind form location = (do
      let name ← formName kind.key form location
      let params ← orMalformed kind.key name "parameters must be type expressions" location
        ((form.get "params").asList?.filter fun ps => ps.all TypeExpr.isWritten)
      let result ← orMalformed kind.key name "result must be a type expression" location
        ((some (form.get "result")).filter TypeExpr.isWritten)
      let line ← formLine kind.key name form location
      .ok (name, params, result, line)) := by
  unfold readSpec
  dsimp only
  rw [Option.filter_some]
  cases (form.get "params").asList? with
  | none => rfl
  | some ps =>
    simp only [Option.filter_some]
    cases ps.all TypeExpr.isWritten <;> cases TypeExpr.isWritten (form.get "result") <;> rfl

/-- What follows the reading of a type form: that its variables are bound. -/
theorem translateType_of_isReadFrom (kind : TypeKind) {w : WrittenType}
    (h : w.IsReadFrom location form) (htype : TypeExpr.IsType w.definition) :
    translateType kind form location =
      match unbound? w.params (TypeExpr.names w.definition) with
      | some n => malformed kind.key w.name ("type variable " ++ n ++ " is unbound") location
      | none => .ok (w.declaration kind) := by
  obtain ⟨t, ht⟩ := Option.isSome_iff_exists.mp (TypeExpr.isWritten_iff.mpr htype)
  have hnames : TypeExpr.names w.definition = t.varNames := by
    rw [TypeExpr.names, ht]
    rfl
  have hparams : (Value.list (w.params.map .text)).asList?.bind texts? = some w.params :=
    texts?_eq_some_iff.mpr rfl
  rw [translateType_eq, formName_eq_ok_iff.mpr h.name, h.params, hparams, h.definition, ht,
    hnames]
  change (formLine kind.key w.name form location >>= fun _ => _) = _
  rw [formLine_eq_ok_iff.mpr h.line]
  rfl

/-- **A type form is a declaration** if it is written for a type whose variables are bound. -/
theorem translateType_eq_ok_iff {kind : TypeKind} {d : TypeDeclaration} :
    translateType kind form location = .ok d ↔
      ∃ w : WrittenType, w.IsReadFrom location form ∧ w.IsTyped ∧ d = w.declaration kind := by
  constructor
  · intro h
    have hok := h
    rw [translateType_eq] at h
    obtain ⟨name, hname, h⟩ := bind_eq_ok.mp h
    obtain ⟨params, hparams, h⟩ := bind_eq_ok.mp h
    obtain ⟨type, htype, h⟩ := bind_eq_ok.mp h
    obtain ⟨line, hline, -⟩ := bind_eq_ok.mp h
    obtain ⟨vs, hvs, htexts⟩ := Option.bind_eq_some_iff.mp (orMalformed_eq_ok_iff.mp hparams)
    let w : WrittenType := ⟨name, params, form.get "definition", line⟩
    have hread : w.IsReadFrom location form :=
      { name := formName_eq_ok_iff.mp hname
        params := by rw [Value.asList?_eq_some_iff.mp hvs, texts?_eq_some_iff.mp htexts]
        definition := rfl
        line := formLine_eq_ok_iff.mp hline }
    have hdefinition : TypeExpr.IsType w.definition :=
      TypeExpr.isWritten_iff.mp (Option.isSome_iff_exists.mpr
        ⟨type, orMalformed_eq_ok_iff.mp htype⟩)
    rw [translateType_of_isReadFrom kind hread hdefinition] at hok
    split at hok
    · cases hok
    · next hnone =>
      cases hok
      exact ⟨w, hread, ⟨hdefinition, (unbound?_eq_none_iff hdefinition).mp hnone⟩, rfl⟩
  · rintro ⟨w, hread, ⟨hdefinition, hbound⟩, rfl⟩
    rw [translateType_of_isReadFrom kind hread hdefinition,
      (unbound?_eq_none_iff hdefinition).mpr hbound]

/-- **A spec form is a declaration** if it is written for a spec of types. -/
theorem translateSpec_eq_ok_iff {kind : SpecKind} {d : SpecDeclaration} :
    translateSpec kind form location = .ok d ↔
      ∃ w : WrittenSpec, w.IsReadFrom location form ∧
        (∀ p ∈ w.params, TypeExpr.IsType p) ∧ TypeExpr.IsType w.result ∧ d = w.declares kind := by
  have hdeclares (w : WrittenSpec)
      (h : readSpec kind form location = .ok (w.name, w.params, w.result, w.line)) :
      translateSpec kind form location = .ok (w.declares kind) := by
    rw [translateSpec, h]
    rcases kind with _ | _ | _ <;> rfl
  constructor
  · intro h
    obtain ⟨⟨name, params, result, line⟩, hread, -⟩ := bind_eq_ok.mp h
    let w : WrittenSpec := ⟨name, params, result, line⟩
    have hok := hdeclares w hread
    cases h.symm.trans hok
    refine ⟨w, isReadFrom_of_readSpec hread, ?_⟩
    rw [readSpec_eq] at hread
    obtain ⟨name', -, hread⟩ := bind_eq_ok.mp hread
    obtain ⟨params', hparams, hread⟩ := bind_eq_ok.mp hread
    obtain ⟨result', hresult, hread⟩ := bind_eq_ok.mp hread
    obtain ⟨line', -, hread⟩ := bind_eq_ok.mp hread
    cases hread
    have hall := (Option.filter_eq_some_iff.mp (orMalformed_eq_ok_iff.mp hparams)).2
    have hone := (Option.filter_eq_some_iff.mp (orMalformed_eq_ok_iff.mp hresult)).2
    exact ⟨fun p hp => TypeExpr.isWritten_iff.mp (List.all_eq_true.mp hall p hp),
      TypeExpr.isWritten_iff.mp hone, rfl⟩
  · rintro ⟨w, hread, hparams, hresult, rfl⟩
    refine hdeclares w ?_
    have hall : w.params.all TypeExpr.isWritten = true :=
      List.all_eq_true.mpr fun p hp => TypeExpr.isWritten_iff.mpr (hparams p hp)
    rw [readSpec_eq]
    refine bind_eq_ok.mpr ⟨w.name, formName_eq_ok_iff.mpr hread.name, ?_⟩
    refine bind_eq_ok.mpr ⟨w.params, orMalformed_eq_ok_iff.mpr ?_, ?_⟩
    · rw [hread.params]
      exact Option.filter_eq_some_iff.mpr ⟨rfl, hall⟩
    refine bind_eq_ok.mpr ⟨w.result, orMalformed_eq_ok_iff.mpr ?_, ?_⟩
    · rw [hread.result]
      exact Option.filter_eq_some_iff.mpr ⟨rfl, TypeExpr.isWritten_iff.mpr hresult⟩
    exact bind_eq_ok.mpr ⟨w.line, formLine_eq_ok_iff.mpr hread.line, rfl⟩

/-! ## What is refused -/

/-- A form that no message can name: it has no name, and no text that could stand for it. -/
def Wordless (form : Value) (fault : TextFault) : Prop :=
  (∀ n, form.get "name" ≠ .text n) ∧ form.toText = .error fault

/-- A form that no message can name is refused for that. -/
theorem formName_of_wordless {key : String} {fault : TextFault} (h : Wordless form fault) :
    formName key form location = .error (.ofFault fault) := by
  obtain ⟨hname, htext⟩ := h
  have hnameOf : nameOf form = .error (.ofFault fault) := by
    unfold nameOf
    split
    · next n _ hn => exact absurd hn (hname n)
    · rw [htext]
      rfl
  unfold formName
  split
  · next n hn => exact absurd hn (hname n)
  · rw [nameless, hnameOf]
    rfl

/-- A message about a place. -/
def Blames (key : String) (location : Location) (f : Failure) : Prop :=
  ∃ name reason, f = .ofProblem ⟨.typespecInvalid key name reason, some location⟩

theorem blames_malformed {α : Type} {key name reason : String} :
    FailsAs (Blames key location) (malformed key name reason location : Except Failure α) :=
  failsAs_error ⟨name, reason, rfl⟩

theorem blames_formName (key : String) (h : ∀ fault, ¬Wordless form fault) :
    FailsAs (Blames key location) (formName key form location) := by
  unfold formName
  split
  · exact failsAs_ok _
  · next hname =>
    unfold nameless
    cases htext : form.toText with
    | error fault => exact absurd ⟨hname, htext⟩ (h fault)
    | ok text =>
      have hnameOf : nameOf form = .ok text := by
        unfold nameOf
        split
        · next n _ hn => exact absurd hn (hname n)
        · rw [htext]
          rfl
      rw [hnameOf]
      exact blames_malformed

theorem blames_formLine (key name : String) :
    FailsAs (Blames key location) (formLine key name form location) := by
  unfold formLine
  split
  · exact failsAs_ok _
  · split
    · exact failsAs_ok _
    · exact blames_malformed

theorem blames_orMalformed {α : Type} {key name reason : String} (x : Option α) :
    FailsAs (Blames key location) (orMalformed key name reason location x) := by
  cases x with
  | none => exact blames_malformed
  | some a => exact failsAs_ok a

theorem blames_translateType (kind : TypeKind) (h : ∀ fault, ¬Wordless form fault) :
    FailsAs (Blames kind.key location) (translateType kind form location) := by
  rw [translateType_eq]
  refine failsAs_bind (blames_formName _ h) fun name => ?_
  refine failsAs_bind (blames_orMalformed _) fun params => ?_
  refine failsAs_bind (blames_orMalformed _) fun type => ?_
  refine failsAs_bind (blames_formLine _ _) fun line => ?_
  split
  · exact blames_malformed
  · exact failsAs_ok _

theorem blames_translateSpec (kind : SpecKind) (h : ∀ fault, ¬Wordless form fault) :
    FailsAs (Blames kind.key location) (translateSpec kind form location) := by
  rw [translateSpec, readSpec_eq]
  refine failsAs_bind ?_ fun _ => failsAs_ok _
  refine failsAs_bind (blames_formName _ h) fun name => ?_
  refine failsAs_bind (blames_orMalformed _) fun params => ?_
  refine failsAs_bind (blames_orMalformed _) fun result => ?_
  exact failsAs_bind (blames_formLine _ _) fun line => failsAs_ok _

/-- **Which forms are declarations, and of what.**  A type form is a declaration exactly if it
is written for a type of the grammar whose variables are bound by its parameters, a spec form
exactly if its parameters and its result are types of the grammar; the types are passed through,
and a macro callback takes one parameter more.  Any other form is refused: with a message about
its place, which names the leftmost if variables that are not bound are all that is wrong with
it, unless the form has neither a name nor a text, for then no message is made. -/
theorem translation_laws (typeKind : TypeKind) (specKind : SpecKind) (form : Value)
    (location : Location) :
    (∀ d, translateType typeKind form location = .ok d ↔
      ∃ w : WrittenType, w.IsReadFrom location form ∧ w.IsTyped ∧ d = w.declaration typeKind ∧
        d.pair = ⟨w.name, w.params.length⟩) ∧
    ((∀ fault, ¬Wordless form fault) → ∀ e, translateType typeKind form location = .error e →
      ∃ p, e = .ofProblem p ∧ p.condition.code.id = "MODF-D006" ∧ p.location = some location) ∧
    (∀ w : WrittenType, w.IsReadFrom location form → TypeExpr.IsType w.definition →
      (∃ n, TypeExpr.Occurs n w.definition ∧ w.Unbound n) →
      ∃ n, (∀ m, TypeExpr.Leftmost w.Unbound m w.definition ↔ m = n) ∧
        translateType typeKind form location = .error (.ofProblem
          ⟨.typespecInvalid typeKind.key w.name ("type variable " ++ n ++ " is unbound"),
            some location⟩)) ∧
    (∀ d, translateSpec specKind form location = .ok d ↔
      ∃ w : WrittenSpec, w.IsReadFrom location form ∧ (∀ p ∈ w.params, TypeExpr.IsType p) ∧
        TypeExpr.IsType w.result ∧ d = w.declares specKind) ∧
    ((∀ fault, ¬Wordless form fault) → ∀ e, translateSpec specKind form location = .error e →
      ∃ p, e = .ofProblem p ∧ p.condition.code.id = "MODF-D006" ∧ p.location = some location) ∧
    (∀ fault, Wordless form fault →
      translateType typeKind form location = .error (.ofFault fault) ∧
        translateSpec specKind form location = .error (.ofFault fault)) := by
  refine ⟨fun d => ?_, fun hworded e h => ?_, ?_, fun d => translateSpec_eq_ok_iff,
    fun hworded e h => ?_, fun fault hfault => ⟨?_, ?_⟩⟩
  · rw [translateType_eq_ok_iff]
    refine exists_congr fun w => and_congr_right fun _ => and_congr_right fun _ => ?_
    exact ⟨fun h => ⟨h, h ▸ rfl⟩, And.left⟩
  · obtain ⟨name, reason, rfl⟩ := (blames_translateType typeKind hworded).kind_of_eq_error e h
    exact ⟨_, rfl, rfl, rfl⟩
  · rintro w hread htype ⟨n, hoccurs, hunbound⟩
    obtain ⟨l, hl⟩ := htype.exists_leftmost hoccurs hunbound
    refine ⟨l, hl, ?_⟩
    rw [translateType_of_isReadFrom typeKind hread htype,
      (unbound?_eq_some_iff htype).mpr ((hl l).mpr rfl)]
    rfl
  · obtain ⟨name, reason, rfl⟩ := (blames_translateSpec specKind hworded).kind_of_eq_error e h
    exact ⟨_, rfl, rfl, rfl⟩
  · rw [translateType_eq, formName_of_wordless hfault]
    rfl
  · rw [translateSpec, readSpec_eq, formName_of_wordless hfault]
    rfl

/-- A variable as it is written. -/
def variableNamed (n : String) : Value := .record [("kind", .text "var"), ("name", .text n)]

/-- The type of functions of two parameters, as it is written with three variables. -/
def threeVariables : Value :=
  .record [("kind", .text "fun"), ("params", .list [variableNamed "c", variableNamed "b"]),
    ("result", variableNamed "a")]

/-- A form of a type with one parameter whose definition has two more variables. -/
def looseForm : Value :=
  .record [("name", .text "loose"), ("params", .list [.text "c"]),
    ("definition", threeVariables)]

theorem isVariable_variableNamed (n : String) : TypeExpr.IsVariable n (variableNamed n) := by
  constructor <;> simp [variableNamed, Value.get_record, Value.findField]

theorem shape_threeVariables : TypeExpr.Shape threeVariables
    ([variableNamed "c", variableNamed "b"] ++ [variableNamed "a"]) := by
  have hresult : threeVariables.get "result" = variableNamed "a" := by
    simp [threeVariables, Value.get_record, Value.findField]
  rw [← hresult]
  refine .function ?_ ?_ <;> simp [threeVariables, Value.get_record, Value.findField]

theorem isType_variableNamed (n : String) : TypeExpr.IsType (variableNamed n) :=
  .shape (.typeVar (isVariable_variableNamed n).kind (isVariable_variableNamed n).name)
    (List.forall_mem_nil _)

theorem isType_threeVariables : TypeExpr.IsType threeVariables := by
  refine .shape shape_threeVariables fun p hp => ?_
  simp only [List.cons_append, List.nil_append, List.mem_cons, List.not_mem_nil, or_false] at hp
  rcases hp with rfl | rfl | rfl <;> exact isType_variableNamed _

/-- The second variable is the leftmost with a property that the first does not have. -/
theorem leftmost_threeVariables {P : String → Prop} (hb : P "b") (hc : ¬P "c") :
    TypeExpr.Leftmost P "b" threeVariables := by
  have hbefore : ∀ q ∈ [variableNamed "c"], ∀ m, TypeExpr.Occurs m q → ¬P m := by
    intro q hq m hoccurs
    cases List.mem_singleton.mp hq
    have hnames := (isType_variableNamed "c").mem_names_iff.mpr hoccurs
    rw [TypeExpr.names_of_isVariable (isVariable_variableNamed "c")] at hnames
    cases List.mem_singleton.mp hnames
    exact hc
  have hshape : TypeExpr.Shape threeVariables
      ([variableNamed "c"] ++ variableNamed "b" :: [variableNamed "a"]) := shape_threeVariables
  exact .part hshape hbefore (.here (isVariable_variableNamed "b") hb)

/-- Of the two variables that are not bound the message names the one on the left; and a record
that hides how records give their text is refused without a message. -/
theorem translation_laws_loose :
    translateType .publicType looseForm ⟨"lib/a.mod", 1⟩ = .error (.ofProblem
        ⟨.typespecInvalid "type" "loose" "type variable b is unbound", some ⟨"lib/a.mod", 1⟩⟩) ∧
      translateType .publicType (.fields [("toString", .int 1)]) ⟨"lib/a.mod", 1⟩
        = .error (.typeError "Cannot convert object to primitive value") := by
  let w : WrittenType := ⟨"loose", ["c"], threeVariables, 1⟩
  have hread : w.IsReadFrom ⟨"lib/a.mod", 1⟩ looseForm := by
    refine ⟨?_, ?_, ?_, Or.inl ⟨?_, rfl⟩⟩ <;>
      simp [w, looseForm, Value.get_record, Value.findField]
  have hoccurs : TypeExpr.Occurs "b" w.definition :=
    .part shape_threeVariables (by simp) (.here (isVariable_variableNamed "b"))
  obtain ⟨n, hn, herror⟩ := (translation_laws .publicType .spec looseForm ⟨"lib/a.mod", 1⟩).2.2.1
    w hread isType_threeVariables ⟨"b", hoccurs, by decide⟩
  cases (hn "b").mp (leftmost_threeVariables (by decide) (by decide))
  have hwordless : Wordless (.fields [("toString", .int 1)]) .object :=
    ⟨fun _ h => (by cases h), rfl⟩
  obtain ⟨-, -, -, -, -, hrefused⟩ := translation_laws .publicType .spec
    (.fields [("toString", .int 1)]) ⟨"lib/a.mod", 1⟩
  exact ⟨herror, (hrefused _ hwordless).1⟩

end Typespec
end ModuleBuild
