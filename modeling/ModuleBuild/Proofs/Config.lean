import ModuleBuild.Config
import ModuleBuild.Proofs.Value.Fields
import ModuleBuild.Proofs.Value.Kinds

/-! # Which configuration files are accepted

A file is refused for its first field that is unknown or has a value of another kind than it must
have, and for being no mapping at all (`Config.Refuses`); but an object of a class passes for a
mapping without fields.  What is not refused is laid between the defaults and the options that are
asked for: each option is the first of what is asked for, what the file says and the default
(`Config.load_laws`).  All of this holds whatever parser reads the text of the file.
-/
namespace ModuleBuild
namespace Config

/-- A field that a file may have, with a value of its kind. -/
inductive Permitted : String → Value → Prop where
  | flag {name : String} (h : name ∈ ["docs", "ignoreModuleConflict", "internal"]) (b : Bool) :
      Permitted name (.bool b)
  | directory (s : String) : Permitted "relativeTo" (.text s)

/-- What is said of a field that a file may not have, or not with that value. -/
inductive Blames : String → Value → String → Prop where
  | unknown {name : String} {v : Value}
      (h : name ∉ ["docs", "ignoreModuleConflict", "internal", "relativeTo"]) :
      Blames name v ("unknown field " ++ name)
  | flag {name : String} {v : Value} (h : name ∈ ["docs", "ignoreModuleConflict", "internal"])
      (hv : ∀ b, v ≠ .bool b) : Blames name v (name ++ " must be true or false")
  | directory {v : Value} (hv : ∀ s, v ≠ .text s) :
      Blames "relativeTo" v "relativeTo must be a string"

/-- Why the value of a file is refused: it is neither empty nor a record, or it is a mapping and
this is said of its first field that is not permitted. -/
inductive Refuses : Value → String → Prop where
  | bare {v : Value} (hgiven : v.ifGiven.isSome = true) (hrecord : v.isRecord = false) :
      Refuses v "must be a mapping"
  | field {before after : List (String × Value)} {name : String} {v : Value} {reason : String}
      (hbefore : ∀ f ∈ before, Permitted f.1 f.2) (h : Blames name v reason) :
      Refuses (.fields (before ++ (name, v) :: after)) reason

/-- The first that is given of a value that is asked for and one of the file, and else the
default. -/
def chosen (asked written default : Value) : Value :=
  (asked.ifGiven <|> written.ifGiven).getD default

/-- A path of the file, read in its directory. -/
def placed (directory : String) : Value → Value
  | .text s => .text (Path.resolve directory s)
  | v => v

/-- Each option is what is asked for, or else what the file says, or else the default; only a path
of the file is read in its directory. -/
structure IsChosen (directory workingDirectory : String) (written asked : Value)
    (o : Options Value Value) : Prop where
  docs : o.docs = chosen (asked.get "docs") (written.get "docs") (.bool true)
  ignoreModuleConflict : o.ignoreModuleConflict
    = chosen (asked.get "ignoreModuleConflict") (written.get "ignoreModuleConflict") (.bool false)
  isInternal : o.isInternal = chosen (asked.get "internal") (written.get "internal") (.bool false)
  relativeTo : o.relativeTo = chosen (asked.get "relativeTo")
    (placed directory (written.get "relativeTo")) (.text workingDirectory)

/-- The options of a compiler in a directory, with those that a value asks for. -/
def loaded (parse : String → Except String Value) (directory workingDirectory : String)
    (file : FileContent) (asked : Value) : Except Condition (Options Value Value) :=
  load parse .bool .text ((CompilerOptions.default workingDirectory).map .bool .text) directory file
    (OptionLayer.ofValue asked)

/-! ## Fields -/

section Fields

variable {name reason : String} {v : Value}

/-- **Every field is permitted or blamed.** -/
theorem permitted_or_blames (name : String) (v : Value) :
    Permitted name v ∨ ∃ reason, Blames name v reason := by
  by_cases hflag : name ∈ ["docs", "ignoreModuleConflict", "internal"]
  · by_cases hv : ∃ b, v = .bool b
    · obtain ⟨b, rfl⟩ := hv
      exact Or.inl (.flag hflag b)
    · exact Or.inr ⟨_, .flag hflag (not_exists.mp hv)⟩
  · by_cases hname : name = "relativeTo"
    · subst hname
      by_cases hv : ∃ s, v = .text s
      · obtain ⟨s, rfl⟩ := hv
        exact Or.inl (.directory s)
      · exact Or.inr ⟨_, .directory (not_exists.mp hv)⟩
    · exact Or.inr ⟨_, .unknown (by simpa [hname] using hflag)⟩

theorem ne_relativeTo_of_mem (h : name ∈ ["docs", "ignoreModuleConflict", "internal"]) :
    name ≠ "relativeTo" := by
  rintro rfl
  exact absurd h (by decide)

theorem fieldFault?_of_permitted (h : Permitted name v) : fieldFault? name v = none := by
  unfold fieldFault?
  cases h with
  | flag hname b =>
    rw [if_neg (ne_relativeTo_of_mem hname), if_pos (List.contains_iff_mem.mpr hname)]
    rfl
  | directory s => rfl

theorem fieldFault?_of_blames (h : Blames name v reason) : fieldFault? name v = some reason := by
  unfold fieldFault?
  cases h with
  | unknown hname =>
    simp only [List.mem_cons, List.not_mem_nil, or_false, not_or] at hname
    simp [hname]
  | flag hname hv =>
    have hbool : v.asBool? = none :=
      Option.eq_none_iff_forall_ne_some.mpr fun b hb => hv b (Value.asBool?_eq_some_iff.mp hb)
    rw [if_neg (ne_relativeTo_of_mem hname), if_pos (List.contains_iff_mem.mpr hname), hbool]
    rfl
  | directory hv =>
    have htext : v.asText? = none :=
      Option.eq_none_iff_forall_ne_some.mpr fun s hs => hv s (Value.asText?_eq_some_iff.mp hs)
    rw [if_pos rfl, htext]
    rfl

theorem fieldFault?_eq_none_iff : fieldFault? name v = none ↔ Permitted name v := by
  refine ⟨fun h => ?_, fieldFault?_of_permitted⟩
  rcases permitted_or_blames name v with hpermitted | ⟨reason, hblames⟩
  · exact hpermitted
  · rw [fieldFault?_of_blames hblames] at h
    cases h

theorem fieldFault?_eq_some_iff : fieldFault? name v = some reason ↔ Blames name v reason := by
  refine ⟨fun h => ?_, fieldFault?_of_blames⟩
  rcases permitted_or_blames name v with hpermitted | ⟨reason', hblames⟩
  · rw [fieldFault?_of_permitted hpermitted] at h
    cases h
  · obtain rfl : reason' = reason :=
      Option.some.inj ((fieldFault?_of_blames hblames).symm.trans h)
    exact hblames

end Fields

/-! ## Files -/

section Values

variable {directory reason : String} {v : Value}

theorem fault?_eq_some_iff {fs : List (String × Value)} :
    fault? fs = some reason ↔ Refuses (.fields fs) reason := by
  rw [fault?, List.findSome?_eq_some_iff]
  constructor
  · rintro ⟨before, ⟨name, w⟩, after, rfl, hfault, hbefore⟩
    exact .field (fun f hf => fieldFault?_eq_none_iff.mp (hbefore f hf))
      (fieldFault?_eq_some_iff.mp hfault)
  · intro h
    cases h with
    | bare _ hrecord => cases hrecord
    | field hbefore h =>
      exact ⟨_, _, _, rfl, fieldFault?_eq_some_iff.mpr h,
        fun f hf => fieldFault?_eq_none_iff.mpr (hbefore f hf)⟩

/-- **Which files are refused, and why.** -/
theorem ofValue_eq_error_iff : ofValue directory v = .error reason ↔ Refuses v reason := by
  have hbare (hgiven : v.ifGiven.isSome = true) (hrecord : v.isRecord = false)
      (h : ofValue directory v = .error "must be a mapping") :
      ofValue directory v = .error reason ↔ Refuses v reason := by
    rw [h, Except.error.injEq]
    constructor
    · rintro rfl
      exact .bare hgiven hrecord
    · rintro (_ | _)
      · rfl
      · cases hrecord
  cases v with
  | bool | number | bigint | text | list => exact hbare rfl rfl rfl
  | undefined | null =>
    refine iff_of_false nofun fun h => ?_
    cases h with
    | bare hgiven => cases hgiven
  | foreign kind =>
    cases kind with
    | function | symbol => exact hbare rfl rfl rfl
    | object =>
      refine iff_of_false nofun fun h => ?_
      cases h with
      | bare _ hrecord => cases hrecord
  | fields fs =>
    rw [← fault?_eq_some_iff, ofValue]
    cases fault? fs with
    | none => exact iff_of_false nofun nofun
    | some r => rw [Except.error.injEq, Option.some.injEq]

theorem eq_layer_of_ofValue {l : OptionLayer Bool String} (h : ofValue directory v = .ok l) :
    l = layer directory v := by
  cases v with
  | bool | number | bigint | text | list => cases h
  | undefined | null =>
    cases h
    rfl
  | foreign kind =>
    cases kind with
    | function | symbol => cases h
    | object =>
      cases h
      rfl
  | fields fs =>
    rw [ofValue] at h
    split at h
    · cases h
    · cases h
      rfl

/-- What is not refused sets the options that its fields give. -/
theorem ofValue_of_accepted (h : ∀ reason, ¬Refuses v reason) :
    ofValue directory v = .ok (layer directory v) := by
  cases hv : ofValue directory v with
  | error reason => exact absurd (ofValue_eq_error_iff.mp hv) (h reason)
  | ok l => rw [eq_layer_of_ofValue hv]

/-- What is not refused has under each name nothing, or a value of the kind that the name asks
for. -/
theorem permitted_get (h : ∀ reason, ¬Refuses v reason) (name : String) :
    v.get name = .undefined ∨ Permitted name (v.get name) := by
  cases v with
  | fields fs =>
    have hnone : fault? fs = none := by
      rw [Option.eq_none_iff_forall_ne_some]
      exact fun reason hreason => h reason (fault?_eq_some_iff.mp hreason)
    rw [Value.get]
    cases hfind : Value.findField name fs with
    | none => exact Or.inl rfl
    | some w =>
      refine Or.inr (fieldFault?_eq_none_iff.mp ?_)
      exact List.findSome?_eq_none_iff.mp hnone _ (Value.mem_of_findField hfind)
  | _ => exact Or.inl rfl

theorem ifGiven_get_flag (h : ∀ reason, ¬Refuses v reason) {name : String}
    (hname : name ∈ ["docs", "ignoreModuleConflict", "internal"]) :
    (v.get name).asBool?.map .bool = (v.get name).ifGiven := by
  rcases permitted_get h name with hget | hget
  · rw [hget]
    rfl
  · generalize v.get name = w at hget ⊢
    cases hget with
    | flag _ b => rfl
    | directory s => exact absurd hname (by decide)

theorem ifGiven_placed (h : ∀ reason, ¬Refuses v reason) :
    ((v.get "relativeTo").asText?.map (Path.resolve directory)).map .text
      = (placed directory (v.get "relativeTo")).ifGiven := by
  rcases permitted_get h "relativeTo" with hget | hget
  · rw [hget]
    rfl
  · generalize v.get "relativeTo" = w at hget ⊢
    cases hget with
    | flag hname b => exact absurd hname (by decide)
    | directory s => rfl

end Values

/-! ## Options -/

section Options

variable {parse : String → Except String Value} {directory workingDirectory content : String}
  {asked v : Value}

/-- What is not refused is laid between what is asked for and the defaults. -/
theorem isChosen_resolve (h : ∀ reason, ¬Refuses v reason) :
    IsChosen directory workingDirectory v asked
      (((CompilerOptions.default workingDirectory).map Value.bool Value.text).resolve
        [(layer directory v).map (·.map .bool) (·.map .text), OptionLayer.ofValue asked]) := by
  have hchosen (a w d : Value) : chosen a w d = a.ifGiven.getD (w.ifGiven.getD d) := by
    unfold chosen
    cases a.ifGiven <;> rfl
  constructor
  · rw [hchosen, ← ifGiven_get_flag h (by decide)]
    rfl
  · rw [hchosen, ← ifGiven_get_flag h (by decide)]
    rfl
  · rw [hchosen, ← ifGiven_get_flag h (by decide)]
    rfl
  · rw [hchosen, ← ifGiven_placed h]
    rfl

/-- Loading fails if reading the file does, and says why. -/
theorem loaded_eq (file : FileContent) : loaded parse directory workingDirectory file asked =
    match ofFile parse directory file with
    | .error reason => .error (.configurationInvalid (path directory) reason)
    | .ok l => .ok (((CompilerOptions.default workingDirectory).map Value.bool Value.text).resolve
        [l.map (·.map .bool) (·.map .text), OptionLayer.ofValue asked]) := rfl

theorem ofFile_text (hv : parse content = .ok v) :
    ofFile parse directory (.text content) = ofValue directory v := by
  rw [ofFile, hv]

/-- **Which options a compiler has.**  Without a file they are those that are asked for and the
defaults.  With a file whose text the parser turns into a value, loading fails exactly if the value
is refused, with the reason; otherwise each option is what is asked for, or else what the value
says, or else the default. -/
theorem load_laws (parse : String → Except String Value) (directory workingDirectory : String)
    (asked : Value) :
    (∃ o, loaded parse directory workingDirectory .absent asked = .ok o ∧
      IsChosen directory workingDirectory .undefined asked o) ∧
    ∀ content v, parse content = .ok v →
      (∀ c, loaded parse directory workingDirectory (.text content) asked = .error c ↔
        ∃ reason, Refuses v reason ∧ c = .configurationInvalid (path directory) reason ∧
          c.code.id = "MODF-C001") ∧
      ((∀ reason, ¬Refuses v reason) →
        ∃ o, loaded parse directory workingDirectory (.text content) asked = .ok o ∧
          IsChosen directory workingDirectory v asked o) := by
  refine ⟨⟨_, rfl, isChosen_resolve fun reason h => ?_⟩, fun content v hv => ⟨fun c => ?_, ?_⟩⟩
  · cases h with
    | bare hgiven => cases hgiven
  · rw [loaded_eq, ofFile_text hv]
    constructor
    · intro h
      split at h
      · next reason hreason =>
        cases h
        exact ⟨reason, ofValue_eq_error_iff.mp hreason, rfl, rfl⟩
      · cases h
    · rintro ⟨reason, hreason, rfl, -⟩
      rw [ofValue_eq_error_iff.mpr hreason]
  · intro h
    rw [loaded_eq, ofFile_text hv, ofValue_of_accepted h]
    exact ⟨_, rfl, isChosen_resolve h⟩

end Options

/-- What `!!timestamp 2001-12-15` stands for. -/
def midDecember : Value :=
  .foreign (.object "Date" (some "Sat Dec 15 2001 00:00:00 GMT+0000 (Coordinated Universal Time)")
    "2001-12-15T00:00:00.000Z")

/-- A parser of three texts. -/
def parseSample (content : String) : Except String Value :=
  if content = "docs: yes" then .ok (.fields [("docs", .text "yes")])
  else if content = "!!timestamp 2001-12-15" then .ok midDecember
  else .error "no such text"

/-- A text that is no truth value is refused, but a file that holds nothing except a point in time
is accepted. -/
theorem load_laws_timestamp :
    let asked : Value := .fields [("docs", .null), ("internal", .bool true)]
    loaded parseSample "/cfg/proj" "/work" (.text "docs: yes") asked
        = .error (.configurationInvalid (path "/cfg/proj") "docs must be true or false") ∧
      parseSample "!!timestamp 2001-12-15" = .ok midDecember ∧
      ∃ o, loaded parseSample "/cfg/proj" "/work" (.text "!!timestamp 2001-12-15") asked = .ok o ∧
        o.docs = .bool true ∧ o.isInternal = .bool true ∧ o.relativeTo = .text "/work" := by
  intro asked
  have htimestamp : parseSample "!!timestamp 2001-12-15" = .ok midDecember := rfl
  obtain ⟨-, hfile⟩ := load_laws parseSample "/cfg/proj" "/work" asked
  obtain ⟨hrefused, -⟩ := hfile "docs: yes" (.fields [("docs", .text "yes")]) rfl
  obtain ⟨-, haccepted⟩ := hfile _ _ htimestamp
  have hreason : Refuses (.fields [("docs", .text "yes")]) "docs must be true or false" :=
    fault?_eq_some_iff.mp (by decide +kernel)
  refine ⟨(hrefused _).mpr ⟨_, hreason, rfl, rfl⟩, htimestamp, ?_⟩
  obtain ⟨o, ho, hchosen⟩ := haccepted fun reason h => by
    cases h with
    | bare _ hrecord => cases hrecord
  exact ⟨o, ho, hchosen.docs, hchosen.isInternal, hchosen.relativeTo⟩

end Config
end ModuleBuild
