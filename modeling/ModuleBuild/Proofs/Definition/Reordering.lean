import ModuleBuild.Proofs.Artifact.Answers
import ModuleBuild.Proofs.Assembly
import ModuleBuild.Proofs.Definition.History

/-! # Histories in another order

A table keeps its definitions in the order they came, but nothing that is made of it shows that
order.  What is accepted of a pair depends on the definitions that are asked for of that pair
alone (`accepted_eq`), so calls that are reordered without reordering the definitions of any one
pair leave the same summary (`summary_eq_of_perm`), and with it the same exports, code and
targets of specs.
-/
namespace ModuleBuild

/-- The definitions of a pair that calls ask for, in order. -/
def DefinitionCall.definitionsOf (p : NameArity) (calls : List DefinitionCall) :
    List Definition :=
  calls.filterMap fun
    | .define d => if d.pair = p then some d else none
    | .recordLocal _ => none

/-- The definitions of the kind of the first one. -/
def Definition.ofFirstKind : List Definition → List Definition
  | [] => []
  | first :: rest => first :: rest.filter fun d => d.kind = first.kind

theorem Definition.ofFirstKind_append_singleton (ds : List Definition) (d : Definition) :
    ofFirstKind (ds ++ [d]) = ofFirstKind ds ++
      if ∀ first ∈ (ofFirstKind ds).head?, first.kind = d.kind then [d] else [] := by
  cases ds with
  | nil => simp [ofFirstKind]
  | cons first rest =>
    by_cases hkind : d.kind = first.kind
    · simp [ofFirstKind, hkind]
    · simp [ofFirstKind, hkind, Ne.symm hkind]

/-! ## What is accepted -/

namespace DefinitionStore

open DefinitionCall

variable {module : String} {calls calls' : List DefinitionCall}

/-- A definition adds to what is accepted of its pair if it has the kind of the first one. -/
theorem acceptedBy_runAll (module : String) (calls : List DefinitionCall) (d : Definition)
    (p : NameArity) :
    (runAll module calls).acceptedBy p (.define d) =
      if d.pair = p ∧ ∀ first ∈ (accepted module calls p).head?, first.kind = d.kind
      then [d] else [] := by
  by_cases hp : d.pair = p
  case neg => rw [acceptedBy, if_neg fun h => hp h.1, if_neg fun h => hp h.1]
  subst hp
  by_cases hkind : ∀ first ∈ (accepted module calls d.pair).head?, first.kind = d.kind
  · obtain ⟨e, isNew, hdefine, -⟩ := define_runAll_of_same_kind hkind
    rw [acceptedBy, hdefine, if_pos ⟨rfl, rfl⟩, if_pos ⟨rfl, hkind⟩]
  · obtain ⟨first, hfirst, hother⟩ :
        ∃ first ∈ (accepted module calls d.pair).head?, first.kind ≠ d.kind := by
      push Not at hkind
      exact hkind
    obtain ⟨hdefine, -⟩ := define_runAll_of_other_kind hfirst hother
    have hrefused : ¬ (d.pair = d.pair ∧ ((runAll module calls).define d).isOk = true) := by
      rw [hdefine]
      rintro ⟨-, hok⟩
      cases hok
    rw [acceptedBy, if_neg hrefused, if_neg fun h => hkind h.2]

/-- **What is accepted of a pair** are, of the definitions of the pair that are asked for, those
of the kind of the first one. -/
theorem accepted_eq (module : String) (calls : List DefinitionCall) (p : NameArity) :
    accepted module calls p = Definition.ofFirstKind (definitionsOf p calls) := by
  induction calls using List.reverseRecOn with
  | nil => rfl
  | append_singleton calls call ih =>
    rw [accepted_append_singleton, definitionsOf, List.filterMap_append]
    cases call with
    | recordLocal q =>
      rw [ih]
      exact (List.append_nil _).trans (congrArg _ (List.append_nil _).symm)
    | define d =>
      rw [acceptedBy_runAll, ih]
      by_cases hp : d.pair = p
      · simp only [hp, true_and, List.filterMap_cons, List.filterMap_nil, if_true]
        exact (Definition.ofFirstKind_append_singleton _ d).symm
      · simp only [hp, false_and, List.filterMap_cons, List.filterMap_nil, if_false,
          List.append_nil]
        rfl

end DefinitionStore

/-! ## The summary forgets the order -/

namespace DefinitionTable

open NameArity

variable {t t' : DefinitionTable}

/-- Definitions in ascending order of their pairs are determined by their members. -/
theorem eq_of_ascending {ds ds' : List Definition} (h : Ascending (ds.map Definition.pair))
    (h' : Ascending (ds'.map Definition.pair)) (hmem : ∀ d, d ∈ ds ↔ d ∈ ds') : ds = ds' := by
  have hperm : ds.Perm ds' :=
    (List.perm_ext_iff_of_nodup h.nodup.of_map h'.nodup.of_map).mpr hmem
  refine hperm.eq_of_pairwise ?_ (List.pairwise_map.mp h) (List.pairwise_map.mp h')
  intro d e _ _ hde hed
  rw [← compare_swap, hed] at hde
  cases hde

theorem all_congr (hget : ∀ p, t.get? p = t'.get? p) : t.summary.all = t'.summary.all := by
  apply eq_of_ascending (ascending_all t) (ascending_all t')
  intro d
  rw [mem_all_iff, mem_all_iff, hget]

theorem pairsOf_congr (hget : ∀ p, t.get? p = t'.get? p) (k : DefinitionKind) (p : NameArity) :
    p ∈ t.pairsOf k ↔ p ∈ t'.pairsOf k := by
  rw [mem_pairsOf, mem_pairsOf, all_congr hget]

/-- **The summary depends on what is found under the pairs** and on which pairs were recorded,
not on the order in which either came. -/
theorem summary_congr (hget : ∀ p, t.get? p = t'.get? p)
    (hlocals : ∀ p, p ∈ t.locals ↔ p ∈ t'.locals) : t.summary = t'.summary := by
  have hsorted {l l' : List NameArity} (h : ∀ p, p ∈ l ↔ p ∈ l') : sorted l = sorted l' := by
    apply (ascending_sorted l).ext (ascending_sorted l')
    simpa only [mem_sorted] using h
  have hkind (k : DefinitionKind) : sorted (t.pairsOf k) = sorted (t'.pairsOf k) :=
    hsorted (pairsOf_congr hget k)
  have hexports : t.summary.exports = t'.summary.exports := by
    apply hsorted
    intro p
    simp only [List.mem_append, List.mem_map, pairsOf_congr hget]
  have hunreachable : t.summary.unreachable = t'.summary.unreachable := by
    apply (ascending_sorted _).ext (ascending_sorted _)
    intro p
    show p ∈ t.summary.unreachable ↔ p ∈ t'.summary.unreachable
    rw [mem_unreachable_summary, mem_unreachable_summary, hget, hlocals]
  have hall : t.summary.all = t'.summary.all := all_congr hget
  rw [show t.summary = ⟨_, _, _, _, t.summary.exports, t.summary.all, t.summary.unreachable⟩ from rfl,
    hkind, hkind, hkind, hkind, hexports, hall, hunreachable]
  rfl

/-- The spec of a private function that was recorded as used keeps its target. -/
theorem retarget_of_mem_locals {spec : SpecDeclaration} {d : Definition}
    (hget : t.get? spec.pair = some d) (hkind : d.kind = .privateFunction)
    (hlocal : spec.pair ∈ t.locals) : Typespec.retarget spec t.summary = some spec := by
  have hunique {k : DefinitionKind} (hk : spec.pair ∈ t.summary.ofKind k) :
      k = .privateFunction := by
    obtain ⟨e, he, rfl⟩ := mem_ofKind_summary.mp hk
    cases he.symm.trans hget
    exact hkind
  have hfunction : spec.pair ∉ t.summary.functions :=
    fun h => nomatch hunique (k := .function) h
  have hmacro : spec.pair ∉ t.summary.macros :=
    fun h => nomatch hunique (k := .macroFunction) h
  have hprivate : spec.pair ∈ t.summary.ofKind .privateFunction :=
    mem_ofKind_summary.mpr ⟨d, hget, hkind⟩
  have hreachable : spec.pair ∉ t.summary.unreachable := by
    rw [mem_unreachable_summary]
    rintro ⟨e, -, -, hnot⟩
    exact hnot hlocal
  simp [Typespec.retarget, hfunction, hmacro, hreachable,
    show spec.pair ∈ t.summary.privateFunctions from hprivate]

end DefinitionTable

namespace DefinitionStore

open DefinitionCall

/-- Calls in another order, with the definitions of each pair in the same order, leave tables
in which the same is found and the same is recorded. -/
theorem runAll_of_perm (module : String) {calls calls' : List DefinitionCall}
    (hperm : calls.Perm calls') (horder : ∀ p, definitionsOf p calls = definitionsOf p calls') :
    ∃ t t', (runAll module calls).live = .ok t ∧ (runAll module calls').live = .ok t' ∧
      (∀ p, t.get? p = t'.get? p) ∧ ∀ p, p ∈ t.locals ↔ p ∈ t'.locals := by
  obtain ⟨t, hrun, hentry, hlocals⟩ := runAll_eq module calls
  obtain ⟨t', hrun', hentry', hlocals'⟩ := runAll_eq module calls'
  refine ⟨t, t', by rw [hrun]; rfl, by rw [hrun']; rfl, fun p => ?_, fun p => ?_⟩
  · rw [hentry, hentry', accepted_eq, accepted_eq, horder]
  · rw [hlocals, hlocals', hperm.mem_iff]

end DefinitionStore

/-! ## Artifacts of the same definitions -/

/-- The artifacts export the same and hold the same code, payload by payload, and answer the
same exports, functions, macros and digest. -/
structure Artifact.SameCode (a a' : Artifact) : Prop where
  exports : a.read? "ExpT" = a'.read? "ExpT"
  code : a.read? "Code" = a'.read? "Code"
  answers : ∃ i i', InfoAnswers.ofArtifact a = .ok i ∧ InfoAnswers.ofArtifact a' = .ok i' ∧
    i.exports = i'.exports ∧ i.functions = i'.functions ∧ i.macros = i'.macros ∧
    i.checksum = i'.checksum

namespace Assembly

variable {module : String} {location location' : Location} {attributes attributes' : AttributeTable}
  {t t' : DefinitionTable} {withDocs withDocs' isInternal isInternal' : Bool} {m m' : Assembly}
  {a a' : Artifact}

/-- The definitions enter an assembled module by their summary. -/
theorem ofTables_congr (hget : ∀ p, t.get? p = t'.get? p) (hsummary : t.summary = t'.summary) :
    ofTables module location attributes t withDocs isInternal
      = ofTables module location attributes t' withDocs isInternal := by
  rw [ofTables, ofTables, hget, hsummary]

/-- The export and code chunks hold the payloads of the exports and the code, and the answers
are those of the module. -/
theorem payloads_of_build (ha : m.build = .ok a) :
    ∃ exports code, Term.encode (pairsValue m.exports) = .ok exports ∧
      Term.encode m.codeValue = .ok code ∧ a.read? "ExpT" = some exports ∧
      a.read? "Code" = some code ∧
      InfoAnswers.ofArtifact a = .ok (m.answers (Md5.hex code)) := by
  obtain ⟨code, hcode, hall⟩ := holds_of_build ha
  have hfindExports : Value.findField "ExpT" (m.values code) = some (pairsValue m.exports) := rfl
  have hfindCode : Value.findField "Code" (m.values code) = some m.codeValue := rfl
  have hfindInfo : Value.findField "Info" (m.values code)
      = some (m.infoValue m.options.flags (Md5.hex code)) := rfl
  obtain ⟨c, hc, hexports⟩ := Chunk.find?_of_holds hall hfindExports
  obtain ⟨c', hc', hcode'⟩ := Chunk.find?_of_holds hall hfindCode
  obtain rfl : code = c'.data := Except.ok.inj (hcode.symm.trans hcode')
  refine ⟨c.data, c'.data, hexports, hcode, ?_, ?_, ?_⟩
  · rw [Artifact.read?, hc]
    rfl
  · rw [Artifact.read?, hc']
    rfl
  · rw [InfoAnswers.ofArtifact_of_content (Artifact.content?_of_holds hall hfindInfo)]
    exact InfoAnswers.ofValue_of_get (Term.isRecord_reading_record _) (get_reading_infoValue m _)

/-- Modules of the same definitions have the same code, whatever their attributes are. -/
theorem sameCode_of_summary (hsummary : t.summary = t'.summary)
    (hm : ofTables module location attributes t withDocs isInternal = .ok m)
    (hm' : ofTables module location' attributes' t' withDocs' isInternal' = .ok m')
    (ha : m.build = .ok a) (ha' : m'.build = .ok a') : a.SameCode a' := by
  have hof := isOf_ofTables hm
  have hof' := isOf_ofTables hm'
  have hexports : m.exports = m'.exports := by rw [hof.exports, hof'.exports, hsummary]
  have hcode : m.codeValue = m'.codeValue := by
    rw [codeValue, codeValue, hof.definitions, hof'.definitions, hsummary]
  obtain ⟨es, code, hes, hencode, hexpT, hread, hanswers⟩ := payloads_of_build ha
  obtain ⟨es', code', hes', hencode', hexpT', hread', hanswers'⟩ := payloads_of_build ha'
  rw [hexports, hes'] at hes
  rw [hcode, hencode'] at hencode
  cases hes
  cases hencode
  refine ⟨hexpT.trans hexpT'.symm, hread.trans hread'.symm, _, _, hanswers, hanswers', ?_⟩
  simp only [answers, hexports, hof.functions, hof'.functions, hof.macros, hof'.macros, hsummary,
    and_self]

end Assembly

namespace DefinitionStore

open DefinitionCall

/-- **The order of calls does not matter**, as long as the definitions of each pair keep theirs.
The two tables have the same summary and aim every spec at the same target, a module made of
either is the same module or the same refusal, and artifacts made of them export the same and
hold the same code with the same digest. -/
theorem summary_eq_of_perm (module : String) {calls calls' : List DefinitionCall}
    (hperm : calls.Perm calls') (horder : ∀ p, definitionsOf p calls = definitionsOf p calls') :
    ∃ t t', (runAll module calls).live = .ok t ∧ (runAll module calls').live = .ok t' ∧
      t.summary = t'.summary ∧
      (∀ spec, Typespec.retarget spec t.summary = Typespec.retarget spec t'.summary) ∧
      (∀ location attributes withDocs isInternal,
        Assembly.ofTables module location attributes t withDocs isInternal
          = Assembly.ofTables module location attributes t' withDocs isInternal) ∧
      ∀ location location' attributes attributes' withDocs withDocs' isInternal isInternal' m m'
        a a', Assembly.ofTables module location attributes t withDocs isInternal = .ok m →
        Assembly.ofTables module location' attributes' t' withDocs' isInternal' = .ok m' →
        m.build = .ok a → m'.build = .ok a' → a.SameCode a' := by
  obtain ⟨t, t', hlive, hlive', hget, hlocals⟩ := runAll_of_perm module hperm horder
  have hsummary : t.summary = t'.summary := DefinitionTable.summary_congr hget hlocals
  refine ⟨t, t', hlive, hlive', hsummary, fun spec => ?_, fun _ _ _ _ => ?_, ?_⟩
  · rw [hsummary]
  · exact Assembly.ofTables_congr hget hsummary
  · intro _ _ _ _ _ _ _ _ m m' a a' hm hm' ha ha'
    exact Assembly.sameCode_of_summary hsummary hm hm' ha ha'

/-- A private function that is recorded before or after its definition, and a function of two
clauses: the tables list them in different orders, but the private function is in use and its
spec is kept either way. -/
theorem summary_eq_of_perm_interleaved :
    let helper : Definition := ⟨.privateFunction, ⟨"helper", 1⟩, [.text "h"], ⟨"f", 1⟩⟩
    let first : Definition := ⟨.function, ⟨"area", 2⟩, [.text "x"], ⟨"f", 2⟩⟩
    let second : Definition := ⟨.function, ⟨"area", 2⟩, [.text "y"], ⟨"f", 3⟩⟩
    let front : List DefinitionCall := [.recordLocal ⟨"helper", 1⟩, .define helper]
    let back : List DefinitionCall := [.define first, .define second]
    ∃ t t', (runAll "M" (front ++ back)).live = .ok t ∧ (runAll "M" (back ++ front)).live = .ok t' ∧
      t.definitions.keys = [⟨"helper", 1⟩, ⟨"area", 2⟩] ∧
      t'.definitions.keys = [⟨"area", 2⟩, ⟨"helper", 1⟩] ∧ t.summary = t'.summary ∧
      ∀ spec : SpecDeclaration, spec.pair = ⟨"helper", 1⟩ →
        Typespec.retarget spec t'.summary = some spec := by
  intro helper first second front back
  have horder : ∀ p, definitionsOf p (front ++ back) = definitionsOf p (back ++ front) := by
    intro p
    by_cases hp : p = ⟨"helper", 1⟩
    · subst hp
      rfl
    · have hfront : definitionsOf p front = [] := by
        have hpair : helper.pair ≠ p := fun h => hp h.symm
        simp [front, definitionsOf, hpair]
      unfold definitionsOf at hfront ⊢
      rw [List.filterMap_append, List.filterMap_append, hfront, List.append_nil, List.nil_append]
  obtain ⟨t, t', hlive, hlive', hsummary, -⟩ :=
    summary_eq_of_perm "M" (List.perm_append_comm : (front ++ back).Perm _) horder
  refine ⟨t, t', hlive, hlive', ?_, ?_, hsummary, fun spec hspec => ?_⟩
  · cases hlive
    rfl
  · cases hlive'
    rfl
  · cases hlive'
    apply DefinitionTable.retarget_of_mem_locals (d := helper)
    · rw [hspec]
      rfl
    · rfl
    · rw [hspec]
      exact List.mem_singleton_self _

end DefinitionStore
end ModuleBuild
