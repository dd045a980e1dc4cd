import Mathlib.Data.List.Forall2
import ModuleBuild.Proofs.Artifact.Answers

/-! # Which answers are read

The payload of an information chunk may be anything.  It is read if it is JSON text and no
tagged integer in it is none (`decode_eq_none_iff`), and answers are given exactly if what it
reads as has the declared shape up to undefined items (`InfoAnswers.ofValue_eq_ok_iff`).
Nothing is asked of an undefined item: its place stays empty in the answer.
-/
namespace ModuleBuild
namespace Term

/-! ## What decodes -/

/-- Somewhere in the document there is a tagged integer whose text is no integer. -/
inductive HoldsBadInteger : Json → Prop
  | here {ms : List (String × Json)} {fs : List (String × Value)} {s : String} :
      untagMembers ms = some fs → Value.findField tagName fs = some (.text "bigint") →
      (Value.fields fs).get "value" = .text s → Numeral.integer? s = none →
      HoldsBadInteger (.object ms)
  | item {js : List Json} {j : Json} : j ∈ js → HoldsBadInteger j → HoldsBadInteger (.list js)
  | member {ms : List (String × Json)} {m : String × Json} :
      m ∈ ms → HoldsBadInteger m.2 → HoldsBadInteger (.object ms)

/-- Only a tagged integer can be read as no value. -/
theorem untagFields_eq_none_iff {fs : List (String × Value)} :
    untagFields fs = none ↔ ∃ s, Value.findField tagName fs = some (.text "bigint") ∧
      (Value.fields fs).get "value" = .text s ∧ Numeral.integer? s = none := by
  simp only [untagFields]
  split
  · next s htag hvalue => simp [htag, hvalue]
  · next htag => simp [htag]
  · next htag _ => simp [htag]
  · next htag =>
    simp only [htag]
    split <;> simp
  · next hbigint _ =>
    refine iff_of_false (Option.some_ne_none _) (not_exists.mpr fun s hs => ?_)
    exact hbigint s hs.1 hs.2.1

mutual

theorem untag_eq_none_iff : ∀ j : Json, untag j = none ↔ HoldsBadInteger j
  | .null | .bool _ | .number _ | .text _ => iff_of_false nofun nofun
  | .list js => by
    rw [untag, Option.map_eq_none_iff, untagItems_eq_none_iff js]
    constructor
    · rintro ⟨j, hj, hbad⟩
      exact .item hj hbad
    · rintro ⟨⟩
      exact ⟨_, ‹_›, ‹_›⟩
  | .object ms => by
    rw [untag, Option.bind_eq_bind, Option.bind_eq_none_iff]
    constructor
    · intro h
      cases hms : untagMembers ms with
      | none =>
        obtain ⟨m, hm, hbad⟩ := (untagMembers_eq_none_iff ms).mp hms
        exact .member hm hbad
      | some fs =>
        obtain ⟨s, htag, hvalue, hinteger⟩ := untagFields_eq_none_iff.mp (h fs hms)
        exact .here hms htag hvalue hinteger
    · intro hbad fs hfs
      cases hbad with
      | here hms htag hvalue hinteger =>
        cases hfs.symm.trans hms
        exact untagFields_eq_none_iff.mpr ⟨_, htag, hvalue, hinteger⟩
      | member hm hbad =>
        have hnone := (untagMembers_eq_none_iff ms).mpr ⟨_, hm, hbad⟩
        cases hfs.symm.trans hnone

theorem untagItems_eq_none_iff : ∀ js : List Json,
    untagItems js = none ↔ ∃ j ∈ js, HoldsBadInteger j
  | [] => iff_of_false nofun nofun
  | j :: rest => by
    rw [List.exists_mem_cons_iff, ← untag_eq_none_iff j, ← untagItems_eq_none_iff rest, untagItems]
    cases untag j with
    | none => simp
    | some v => cases untagItems rest <;> simp

theorem untagMembers_eq_none_iff : ∀ ms : List (String × Json),
    untagMembers ms = none ↔ ∃ m ∈ ms, HoldsBadInteger m.2
  | [] => iff_of_false nofun nofun
  | (n, j) :: rest => by
    rw [List.exists_mem_cons_iff, ← untag_eq_none_iff j, ← untagMembers_eq_none_iff rest,
      untagMembers]
    cases untag j with
    | none => simp
    | some v => cases untagMembers rest <;> simp

end

/-- **What is no term**: bytes that are no JSON text, and JSON text with a tagged integer that
is none. -/
theorem decode_eq_none_iff {payload : List UInt8} : decode payload = none ↔
    ∀ j, Json.parse (Utf8.decode payload) = some j → HoldsBadInteger j := by
  rw [decode, Option.bind_eq_none_iff]
  simp only [untag_eq_none_iff]

end Term

namespace InfoAnswers

/-! ## What is accepted -/

/-- The places of a list: empty where the item is undefined, else with what the item is. -/
inductive Place {α : Type} (R : Value → α → Prop) : Value → Option α → Prop
  | empty : Place R .undefined none
  | item {v : Value} {a : α} : R v a → Place R v (some a)

/-- A list whose items are these. -/
def HasItems {α : Type} (R : Value → α → Prop) (v : Value) (items : List (Option α)) : Prop :=
  ∃ vs, v = .list vs ∧ List.Forall₂ (Place R) vs items

/-- A record with a name and an arity. -/
def IsPair (v : Value) (p : String × Number) : Prop :=
  v.get "name" = .text p.1 ∧ v.get "arity" = .number p.2

/-- A list of a key and a value. -/
def IsAttribute (v : Value) (e : String × Value) : Prop := v = .list [.text e.1, e.2]

/-- The value has the declared shape, undefined items apart, and gives these answers. -/
structure Gives (v : Value) (i : InfoAnswers) : Prop where
  isRecord : v.isRecord = true
  attributes : HasItems IsAttribute (v.get "attributes") i.attributes
  compileOptions : v.get "compile-opts" = .list i.compileOptions
  exports : HasItems IsPair (v.get "exports") i.exports
  functions : HasItems IsPair (v.get "functions") i.functions
  macros : HasItems IsPair (v.get "macros") i.macros
  checksum : v.get "checksum" = .text i.checksum
  module : v.get "module" = .text i.module
  nativeAddresses : v.get "native-addresses" = .list i.nativeAddresses

/-- The answers have the declared shape: no place is empty. -/
structure IsDeclared (i : InfoAnswers) : Prop where
  attributes : none ∉ i.attributes
  exports : none ∉ i.exports
  functions : none ∉ i.functions
  macros : none ∉ i.macros

theorem listOf_eq_ok_iff {kind : InfoKind} {v : Value} {items : List Value} :
    listOf kind v = .ok items ↔ v = .list items := by
  cases v <;> simp [listOf, malformed]

theorem textOf_eq_ok_iff {kind : InfoKind} {v : Value} {s : String} :
    textOf kind v = .ok s ↔ v = .text s := by
  cases v <;> simp [textOf, malformed]

theorem pairOf_eq_ok_iff {kind : InfoKind} {v : Value} {p : String × Number} :
    pairOf kind v = .ok p ↔ IsPair v p := by
  unfold pairOf IsPair
  split
  · next hname harity => simp [hname, harity, Prod.ext_iff]
  · next hnot =>
    refine iff_of_false nofun ?_
    rintro ⟨hname, harity⟩
    exact hnot _ _ hname harity

theorem attributeOf_eq_ok_iff {v : Value} {e : String × Value} :
    attributeOf v = .ok e ↔ IsAttribute v e := by
  unfold attributeOf IsAttribute
  split
  · simp [Prod.ext_iff]
  · next hnot =>
    refine iff_of_false nofun ?_
    rintro rfl
    exact hnot _ _ rfl

/-- The items are read place by place. -/
theorem readItems_eq_ok_iff {α : Type} {f : Value → Except ContentError α}
    {R : Value → α → Prop} (hf : ∀ v a, f v = .ok a ↔ R v a)
    (hundefined : ∀ a, ¬R .undefined a) {vs : List Value} {items : List (Option α)} :
    readItems f vs = .ok items ↔ List.Forall₂ (Place R) vs items := by
  induction vs generalizing items with
  | nil =>
    rw [List.forall₂_nil_left_iff]
    exact ⟨fun h => (Except.ok.inj h).symm, fun h => h ▸ rfl⟩
  | cons v rest ih =>
    rw [List.forall₂_cons_left_iff]
    by_cases hv : v = .undefined
    · subst hv
      rw [readItems, map_eq_ok]
      constructor
      · rintro ⟨more, hmore, rfl⟩
        exact ⟨none, more, .empty, ih.mp hmore, rfl⟩
      · rintro ⟨_, more, hplace, hmore, rfl⟩
        cases hplace with
        | empty => exact ⟨more, ih.mpr hmore, rfl⟩
        | item h => exact absurd h (hundefined _)
    · rw [readItems.eq_3 f v rest hv]
      constructor
      · intro h
        obtain ⟨a, ha, h⟩ := bind_eq_ok.mp h
        obtain ⟨more, hmore, h⟩ := bind_eq_ok.mp h
        cases h
        exact ⟨some a, more, .item ((hf v a).mp ha), ih.mp hmore, rfl⟩
      · rintro ⟨_, more, hplace, hmore, rfl⟩
        cases hplace with
        | empty => exact absurd rfl hv
        | item h =>
          exact bind_eq_ok.mpr ⟨_, (hf v _).mpr h, bind_eq_ok.mpr ⟨more, ih.mpr hmore, rfl⟩⟩

theorem not_isAttribute_undefined (e : String × Value) : ¬IsAttribute .undefined e := by
  intro h
  cases h

theorem not_isPair_undefined (p : String × Number) : ¬IsPair .undefined p := by
  rintro ⟨h, -⟩
  cases h

theorem listOf_readItems_eq_ok_iff {α : Type} {f : Value → Except ContentError α}
    {R : Value → α → Prop} (hf : ∀ v a, f v = .ok a ↔ R v a)
    (hundefined : ∀ a, ¬R .undefined a) {kind : InfoKind} {v : Value} {items : List (Option α)} :
    (listOf kind v >>= readItems f) = .ok items ↔ HasItems R v items := by
  rw [bind_eq_ok]
  exact exists_congr fun vs =>
    and_congr listOf_eq_ok_iff (readItems_eq_ok_iff hf hundefined)

theorem attributes_eq_ok_iff {v : Value} {items : List (Option (String × Value))} :
    (listOf .attributes v >>= readItems attributeOf) = .ok items
      ↔ HasItems IsAttribute v items :=
  listOf_readItems_eq_ok_iff (f := attributeOf) (fun _ _ => attributeOf_eq_ok_iff)
    not_isAttribute_undefined

theorem pairsOf_eq_ok_iff {kind : InfoKind} {v : Value}
    {items : List (Option (String × Number))} :
    pairsOf kind v = .ok items ↔ HasItems IsPair v items :=
  listOf_readItems_eq_ok_iff (f := pairOf kind) (fun _ _ => pairOf_eq_ok_iff)
    not_isPair_undefined

/-- **What is accepted** is what has the declared shape, undefined items apart. -/
theorem ofValue_eq_ok_iff {v : Value} {i : InfoAnswers} : ofValue v = .ok i ↔ Gives v i := by
  unfold ofValue
  by_cases hrecord : v.isRecord = true
  · rw [if_pos hrecord]
    constructor
    · intro h
      obtain ⟨vs, hvs, h⟩ := bind_eq_ok.mp h
      obtain ⟨attributes, hattributes, h⟩ := bind_eq_ok.mp h
      obtain ⟨compileOptions, hcompileOptions, h⟩ := bind_eq_ok.mp h
      obtain ⟨exports, hexports, h⟩ := bind_eq_ok.mp h
      obtain ⟨functions, hfunctions, h⟩ := bind_eq_ok.mp h
      obtain ⟨macros, hmacros, h⟩ := bind_eq_ok.mp h
      obtain ⟨checksum, hchecksum, h⟩ := bind_eq_ok.mp h
      obtain ⟨module, hmodule, h⟩ := bind_eq_ok.mp h
      obtain ⟨nativeAddresses, hnativeAddresses, h⟩ := bind_eq_ok.mp h
      cases h
      exact
        { isRecord := hrecord
          attributes := attributes_eq_ok_iff.mp (bind_eq_ok.mpr ⟨vs, hvs, hattributes⟩)
          compileOptions := listOf_eq_ok_iff.mp hcompileOptions
          exports := pairsOf_eq_ok_iff.mp hexports
          functions := pairsOf_eq_ok_iff.mp hfunctions
          macros := pairsOf_eq_ok_iff.mp hmacros
          checksum := textOf_eq_ok_iff.mp hchecksum
          module := textOf_eq_ok_iff.mp hmodule
          nativeAddresses := listOf_eq_ok_iff.mp hnativeAddresses }
    · intro h
      obtain ⟨vs, hvs, hattributes⟩ := bind_eq_ok.mp (attributes_eq_ok_iff.mpr h.attributes)
      exact bind_eq_ok.mpr ⟨vs, hvs, bind_eq_ok.mpr ⟨_, hattributes,
        bind_eq_ok.mpr ⟨_, listOf_eq_ok_iff.mpr h.compileOptions,
        bind_eq_ok.mpr ⟨_, pairsOf_eq_ok_iff.mpr h.exports,
        bind_eq_ok.mpr ⟨_, pairsOf_eq_ok_iff.mpr h.functions,
        bind_eq_ok.mpr ⟨_, pairsOf_eq_ok_iff.mpr h.macros,
        bind_eq_ok.mpr ⟨_, textOf_eq_ok_iff.mpr h.checksum,
        bind_eq_ok.mpr ⟨_, textOf_eq_ok_iff.mpr h.module,
        bind_eq_ok.mpr ⟨_, listOf_eq_ok_iff.mpr h.nativeAddresses, rfl⟩⟩⟩⟩⟩⟩⟩⟩⟩
  · rw [if_neg hrecord]
    exact iff_of_false nofun fun h => hrecord h.isRecord

/-! ## What is refused -/

/-- A reading that fails for the shape of what it reads, if it fails. -/
def Complains {α : Type} (x : Except ContentError α) : Prop :=
  ∀ e, x = .error e → ∃ reason, e = .malformed (.chunkInvalid reason)

theorem complains_ok {α : Type} (a : α) : Complains (.ok a) := nofun

theorem complains_malformed {α : Type} (reason : String) :
    Complains (malformed reason : Except ContentError α) := by
  intro e h
  cases h
  exact ⟨reason, rfl⟩

theorem Complains.bind {α β : Type} {x : Except ContentError α}
    {f : α → Except ContentError β} (hx : Complains x) (hf : ∀ a, Complains (f a)) :
    Complains (x >>= f) := by
  intro e h
  cases x with
  | error e' =>
    cases h
    exact hx e rfl
  | ok a => exact hf a e h

theorem complains_listOf (kind : InfoKind) (v : Value) : Complains (listOf kind v) := by
  unfold listOf
  split
  · exact complains_ok _
  · exact complains_malformed _

theorem complains_textOf (kind : InfoKind) (v : Value) : Complains (textOf kind v) := by
  unfold textOf
  split
  · exact complains_ok _
  · exact complains_malformed _

theorem complains_pairOf (kind : InfoKind) (v : Value) : Complains (pairOf kind v) := by
  unfold pairOf
  split
  · exact complains_ok _
  · exact complains_malformed _

theorem complains_attributeOf (v : Value) : Complains (attributeOf v) := by
  unfold attributeOf
  split
  · exact complains_ok _
  · exact complains_malformed _

theorem complains_readItems {α : Type} {f : Value → Except ContentError α}
    (hf : ∀ v, Complains (f v)) (vs : List Value) : Complains (readItems f vs) := by
  induction vs with
  | nil => exact complains_ok _
  | cons v rest ih =>
    by_cases hv : v = .undefined
    · subst hv
      exact ih.bind fun more => complains_ok (none :: more)
    · rw [readItems.eq_3 f v rest hv]
      exact (hf v).bind fun _ => ih.bind fun _ => complains_ok _

theorem complains_pairsOf (kind : InfoKind) (v : Value) : Complains (pairsOf kind v) :=
  (complains_listOf kind v).bind fun _ => complains_readItems (complains_pairOf kind) _

/-- What has not the declared shape is refused as malformed, and never for another reason. -/
theorem complains_ofValue (v : Value) : Complains (ofValue v) := by
  unfold ofValue
  dsimp only
  split
  · exact (complains_listOf _ _).bind fun _ =>
      (complains_readItems complains_attributeOf _).bind fun _ =>
      (complains_listOf _ _).bind fun _ => (complains_pairsOf _ _).bind fun _ =>
      (complains_pairsOf _ _).bind fun _ => (complains_pairsOf _ _).bind fun _ =>
      (complains_textOf _ _).bind fun _ => (complains_textOf _ _).bind fun _ =>
      (complains_listOf _ _).bind fun _ => complains_ok _
  · exact complains_malformed _

/-! ## What is let through -/

/-- A place is empty exactly if an item is undefined. -/
theorem none_mem_iff {α : Type} {R : Value → α → Prop} (hundefined : ∀ a, ¬R .undefined a)
    {vs : List Value} {items : List (Option α)} (h : List.Forall₂ (Place R) vs items) :
    none ∈ items ↔ .undefined ∈ vs := by
  induction h with
  | nil => exact iff_of_false List.not_mem_nil List.not_mem_nil
  | @cons v item _ _ hplace _ ih =>
    rw [List.mem_cons, List.mem_cons, ih]
    cases hplace with
    | empty => exact iff_of_true (Or.inl rfl) (Or.inl rfl)
    | @item _ a hv =>
      have hne : Value.undefined ≠ v := by
        rintro rfl
        exact hundefined a hv
      exact or_congr (iff_of_false nofun hne) Iff.rfl

/-- The questions that are answered with lists whose items have a declared shape. -/
def itemized : List InfoKind := [.attributes, .exports, .functions, .macros]

theorem HasItems.none_mem_iff {α : Type} {R : Value → α → Prop}
    (hundefined : ∀ a, ¬R .undefined a) {v : Value} {items : List (Option α)}
    (h : HasItems R v items) : none ∈ items ↔ ∃ vs, v = .list vs ∧ .undefined ∈ vs := by
  obtain ⟨vs, rfl, hplaces⟩ := h
  rw [InfoAnswers.none_mem_iff hundefined hplaces]
  simp

/-- **Only undefined items are let through.** -/
theorem Gives.isDeclared_iff {v : Value} {i : InfoAnswers} (h : Gives v i) :
    i.IsDeclared ↔
      ∀ kind ∈ itemized, ∀ vs, v.get (InfoKind.name kind) = .list vs → .undefined ∉ vs := by
  have hattributes := h.attributes.none_mem_iff not_isAttribute_undefined
  have hexports := h.exports.none_mem_iff not_isPair_undefined
  have hfunctions := h.functions.none_mem_iff not_isPair_undefined
  have hmacros := h.macros.none_mem_iff not_isPair_undefined
  constructor
  · rintro ⟨ha, he, hf, hm⟩ kind hkind vs hvs hundefined
    simp only [itemized, List.mem_cons, List.not_mem_nil, or_false] at hkind
    rcases hkind with rfl | rfl | rfl | rfl
    · exact ha (hattributes.mpr ⟨vs, hvs, hundefined⟩)
    · exact he (hexports.mpr ⟨vs, hvs, hundefined⟩)
    · exact hf (hfunctions.mpr ⟨vs, hvs, hundefined⟩)
    · exact hm (hmacros.mpr ⟨vs, hvs, hundefined⟩)
  · intro hall
    have hno {kind : InfoKind} (hkind : kind ∈ itemized) :
        ¬∃ vs, v.get kind.name = .list vs ∧ .undefined ∈ vs :=
      fun ⟨vs, hvs, hundefined⟩ => hall kind hkind vs hvs hundefined
    exact
      { attributes := mt hattributes.mp (hno (show InfoKind.attributes ∈ itemized by decide))
        exports := mt hexports.mp (hno (show InfoKind.exports ∈ itemized by decide))
        functions := mt hfunctions.mp (hno (show InfoKind.functions ∈ itemized by decide))
        macros := mt hmacros.mp (hno (show InfoKind.macros ∈ itemized by decide)) }

/-- The chunk is missing, or it is no term, or it holds a value. -/
theorem ofArtifact_cases (a : Artifact) :
    (a.read? "Info" = none ∧ ofArtifact a = malformed "artifact has no Info chunk") ∨
      (∃ payload, a.read? "Info" = some payload ∧ Term.decode payload = none ∧
        ofArtifact a = .error .unreadable) ∨
      ∃ v, a.content? "Info" = some v ∧ ofArtifact a = ofValue v := by
  cases hread : a.read? "Info" with
  | none => exact Or.inl ⟨rfl, by rw [ofArtifact, hread]⟩
  | some payload =>
    cases hdecode : Term.decode payload with
    | none =>
      exact Or.inr (Or.inl ⟨payload, rfl, hdecode, by simp only [ofArtifact, hread, hdecode]⟩)
    | some v =>
      have hcontent : a.content? "Info" = some v := by
        rw [Artifact.content?, hread]
        exact hdecode
      exact Or.inr (Or.inr ⟨v, hcontent, ofArtifact_of_content hcontent⟩)

theorem read?_of_content {a : Artifact} {id : String} {v : Value} (h : a.content? id = some v) :
    ∃ payload, a.read? id = some payload ∧ Term.decode payload = some v :=
  Option.bind_eq_some_iff.mp h

/-- Answers are given exactly of a value that gives them. -/
theorem ofArtifact_eq_ok_iff {a : Artifact} {i : InfoAnswers} :
    ofArtifact a = .ok i ↔ ∃ v, a.content? "Info" = some v ∧ Gives v i := by
  constructor
  · intro hok
    rcases ofArtifact_cases a with ⟨-, herror⟩ | ⟨payload, -, -, herror⟩ | ⟨v, hcontent, heq⟩
    · exact absurd (hok.symm.trans herror) nofun
    · exact absurd (hok.symm.trans herror) nofun
    · exact ⟨v, hcontent, ofValue_eq_ok_iff.mp (heq.symm.trans hok)⟩
  · rintro ⟨v, hcontent, hgives⟩
    rw [ofArtifact_of_content hcontent]
    exact ofValue_eq_ok_iff.mpr hgives

/-- The shape is complained about exactly of a chunk that is missing or has not the shape. -/
theorem exists_malformed_iff {a : Artifact} :
    (∃ reason, ofArtifact a = .error (.malformed (.chunkInvalid reason))) ↔
      a.read? "Info" = none ∨ ∃ v, a.content? "Info" = some v ∧ ∀ i, ¬Gives v i := by
  rcases ofArtifact_cases a with
    ⟨hread, herror⟩ | ⟨payload, hread, hdecode, herror⟩ | ⟨v, hcontent, heq⟩
  · exact iff_of_true ⟨_, herror⟩ (Or.inl hread)
  · refine iff_of_false ?_ ?_
    · rintro ⟨reason, h⟩
      exact absurd (herror.symm.trans h) nofun
    · rintro (hnone | ⟨v, hcontent, -⟩)
      · exact absurd (hread.symm.trans hnone) nofun
      · obtain ⟨payload', hread', hdecode'⟩ := read?_of_content hcontent
        cases hread.symm.trans hread'
        exact absurd (hdecode.symm.trans hdecode') nofun
  · obtain ⟨payload, hread, -⟩ := read?_of_content hcontent
    rw [heq, hread, hcontent]
    constructor
    · rintro ⟨reason, herror⟩
      refine Or.inr ⟨v, rfl, fun i hgives => ?_⟩
      exact absurd (herror.symm.trans (ofValue_eq_ok_iff.mpr hgives)) nofun
    · rintro (hnone | ⟨v', hv', hnot⟩)
      · cases hnone
      · cases hv'
        cases hvalue : ofValue v with
        | ok i => exact absurd (ofValue_eq_ok_iff.mp hvalue) (hnot i)
        | error e =>
          obtain ⟨reason, rfl⟩ := complains_ofValue v e hvalue
          exact ⟨reason, rfl⟩

/-- Nothing else is malformed. -/
theorem eq_chunkInvalid_of_malformed {a : Artifact} {c : Condition}
    (h : ofArtifact a = .error (.malformed c)) : ∃ reason, c = .chunkInvalid reason := by
  rcases ofArtifact_cases a with ⟨-, herror⟩ | ⟨payload, -, -, herror⟩ | ⟨v, -, heq⟩
  · cases h.symm.trans herror
    exact ⟨_, rfl⟩
  · exact absurd (h.symm.trans herror) nofun
  · obtain ⟨reason, hreason⟩ := complains_ofValue v _ (heq.symm.trans h)
    cases hreason
    exact ⟨reason, rfl⟩

/-- The shape is not asked about exactly of a payload that is no term. -/
theorem ofArtifact_eq_unreadable_iff {a : Artifact} :
    ofArtifact a = .error .unreadable ↔
      ∃ payload, a.read? "Info" = some payload ∧ Term.decode payload = none := by
  constructor
  · intro h
    rcases ofArtifact_cases a with ⟨-, herror⟩ | ⟨payload, hread, hdecode, -⟩ | ⟨v, -, heq⟩
    · exact absurd (h.symm.trans herror) nofun
    · exact ⟨payload, hread, hdecode⟩
    · obtain ⟨reason, hreason⟩ := complains_ofValue v _ (heq.symm.trans h)
      cases hreason
  · rintro ⟨payload, hread, hdecode⟩
    simp only [ofArtifact, hread, hdecode]

/-- **What is read of the information chunk of an artifact, whatever it holds.**  Answers are
given exactly if the chunk decodes to a value of the declared shape, undefined items apart, and
they are what it says; they have the declared shape themselves exactly if no item is undefined.
A chunk that is missing, or that decodes to anything else, is refused as invalid.  A chunk that
is no term at all fails otherwise: one that is no JSON text, or that holds a tagged integer
that is none. -/
theorem ofArtifact_laws (a : Artifact) :
    (∀ i, ofArtifact a = .ok i ↔ ∃ v, a.content? "Info" = some v ∧ Gives v i) ∧
    (∀ i v, ofArtifact a = .ok i → a.content? "Info" = some v → (i.IsDeclared ↔
      ∀ kind ∈ itemized, ∀ vs, v.get (InfoKind.name kind) = .list vs → .undefined ∉ vs)) ∧
    (∀ c, ofArtifact a = .error (.malformed c) → c.code.id = "MODF-B002") ∧
    ((∃ reason, ofArtifact a = .error (.malformed (.chunkInvalid reason))) ↔
      a.read? "Info" = none ∨ ∃ v, a.content? "Info" = some v ∧ ∀ i, ¬Gives v i) ∧
    (ofArtifact a = .error .unreadable ↔ ∃ payload, a.read? "Info" = some payload ∧
      ∀ j, Json.parse (Utf8.decode payload) = some j → Term.HoldsBadInteger j) := by
  refine ⟨fun i => ofArtifact_eq_ok_iff, ?_, ?_, exists_malformed_iff, ?_⟩
  · intro i v hok hcontent
    obtain ⟨v', hcontent', hgives⟩ := ofArtifact_eq_ok_iff.mp hok
    cases hcontent.symm.trans hcontent'
    exact hgives.isDeclared_iff
  · intro c h
    obtain ⟨reason, rfl⟩ := eq_chunkInvalid_of_malformed h
    rfl
  · simp only [ofArtifact_eq_unreadable_iff, Term.decode_eq_none_iff]

/-- Information whose one export is undefined. -/
def holedInfo : Json :=
  .object [("attributes", .list []), ("compile-opts", .list []),
    ("exports", .list [Term.tagged "undefined" []]), ("functions", .list []), ("macros", .list []),
    ("checksum", .text ""), ("module", .text "M"), ("native-addresses", .list [])]

/-- A chunk that is no JSON text fails without a condition of its own, and one whose one export
is undefined is let through with an empty place. -/
theorem ofArtifact_laws_unread :
    ofArtifact ⟨[], [⟨"Info", Utf8.encode "not json"⟩]⟩ = .error .unreadable ∧
      ∃ i, ofArtifact ⟨[], [⟨"Info", Utf8.encode holedInfo.render⟩]⟩ = .ok i ∧
        i.exports = [none] ∧ ¬i.IsDeclared := by
  constructor
  · refine (ofArtifact_laws _).2.2.2.2.mpr ⟨_, rfl, fun j hj => ?_⟩
    have hnone : Json.parse "not json" = none := by decide +kernel
    rw [Utf8.decode_encode, hnone] at hj
    cases hj
  · have hcontent (payload : Bytes) :
        Artifact.content? ⟨[], [⟨"Info", payload⟩]⟩ "Info" = Term.decode payload := by
      simp [Artifact.content?, Artifact.read?]
    have hdecode : Term.decode (Utf8.encode holedInfo.render) = Term.untag holedInfo.canonical := by
      rw [Term.decode, Utf8.decode_encode, Json.parse_render]
      rfl
    obtain ⟨v, i, hv, hexports, hi, hplace⟩ : ∃ v i, Term.untag holedInfo.canonical = some v ∧
        v.get "exports" = .list [.undefined] ∧ ofValue v = .ok i ∧ i.exports = [none] :=
      ⟨_, _, rfl, rfl, rfl, rfl⟩
    have hholds := (hcontent _).trans (hdecode.trans hv)
    have hok := (ofArtifact_of_content hholds).trans hi
    refine ⟨i, hok, hplace, ?_⟩
    rw [(ofArtifact_laws _).2.1 i v hok hholds]
    intro hall
    exact hall .exports (by decide) _ hexports (List.mem_singleton_self _)

end InfoAnswers
end ModuleBuild
