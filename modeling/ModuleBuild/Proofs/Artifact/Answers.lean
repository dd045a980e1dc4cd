import ModuleBuild.Artifact.Info
import ModuleBuild.Proofs.Artifact.Content
import ModuleBuild.Proofs.Term.Reading

/-! # Reading answers back

A record that holds the answers to all questions is read as those answers
(`ofValue_of_get`), and what is written for an assembled module is such a record
(`get_reading_infoValue`).
-/
namespace ModuleBuild
namespace InfoAnswers

/-- Items that are there are read, and empty places stay empty. -/
theorem readItems_ofOption {α : Type} {f : Value → Except ContentError α} {g : α → Value}
    (hdefined : ∀ a, g a ≠ .undefined) (hread : ∀ a, f (g a) = .ok a) (items : List (Option α)) :
    readItems f (items.map (Value.ofOption g)) = .ok items := by
  induction items with
  | nil => rfl
  | cons x rest ih =>
    cases x with
    | none =>
      change (readItems f (rest.map (Value.ofOption g))).map (none :: ·) = _
      rw [ih]
      rfl
    | some a =>
      change readItems f (g a :: rest.map (Value.ofOption g)) = _
      rw [readItems, hread, ih]
      · rfl
      · exact hdefined a

theorem pairOf_pairValue (kind : InfoKind) (p : String × Number) :
    pairOf kind (pairValue p) = .ok p := by
  have hname : (pairValue p).get "name" = .text p.1 := by
    simp [pairValue, Value.get_record, Value.findField]
  have harity : (pairValue p).get "arity" = .number p.2 := by
    simp [pairValue, Value.get_record, Value.findField]
  rw [pairOf, hname, harity]

theorem pairsOf_itemsValue (kind : InfoKind) (ps : List (Option (String × Number))) :
    pairsOf kind (itemsValue pairValue ps) = .ok ps :=
  readItems_ofOption (g := pairValue) (fun _ => nofun) (pairOf_pairValue kind) ps

theorem readItems_attributes (es : List (Option (String × Value))) :
    readItems attributeOf (es.map (Value.ofOption attributeValue)) = .ok es :=
  readItems_ofOption (g := attributeValue) (fun _ => nofun) (fun _ => rfl) es

/-- **Answers are read back** from a record that holds them. -/
theorem ofValue_of_get {v : Value} {i : InfoAnswers} (hrecord : v.isRecord = true)
    (h : ∀ k, v.get (InfoKind.name k) = i.answer k) : ofValue v = .ok i := by
  simp only [ofValue, hrecord, h, answer, if_true, pairsOf_itemsValue]
  change readItems attributeOf (i.attributes.map _) >>= _ = _
  rw [readItems_attributes]
  rfl

/-- The answers of an artifact are those of what its information chunk holds. -/
theorem ofArtifact_of_content {a : Artifact} {v : Value} (h : a.content? "Info" = some v) :
    ofArtifact a = ofValue v := by
  obtain ⟨payload, hread, hdecode⟩ := Option.bind_eq_some_iff.mp h
  rw [ofArtifact, hread]
  simp only [hdecode]

end InfoAnswers

/-- A pair as it is answered. -/
def NameArity.answered (p : NameArity) : Option (String × Number) := some (p.name, .ofInt p.arity)

namespace Assembly

open InfoAnswers Term

variable (m : Assembly) (checksum : String)

/-- The answers of an assembled module whose code has the digest. -/
def answers : InfoAnswers where
  attributes := m.attributes.map fun s => some (s.key, reading s.value)
  compileOptions := m.options.flags.map reading
  exports := m.exports.map NameArity.answered
  functions := m.functions.map NameArity.answered
  macros := m.macros.map NameArity.answered
  checksum
  module := m.module
  nativeAddresses := []

theorem reading_pairsValue (ps : List NameArity) :
    reading (pairsValue ps) = itemsValue pairValue (ps.map NameArity.answered) := by
  rw [pairsValue, reading_list, List.map_map, itemsValue, List.map_map]
  exact congrArg Value.list (List.map_congr_left fun p _ => reading_toValue p)

theorem reading_attributes :
    reading (.list (m.attributes.map fun s => .list [.text s.key, s.value]))
      = itemsValue attributeValue (m.attributes.map fun s => some (s.key, reading s.value)) := by
  rw [reading_list, List.map_map, itemsValue, List.map_map]
  exact congrArg Value.list (List.map_congr_left fun s _ => reading_list _)

/-- **The information chunk holds the answers.** -/
theorem get_reading_infoValue (k : InfoKind) :
    (reading (m.infoValue m.options.flags checksum)).get k.name
      = (m.answers checksum).answer k := by
  rw [infoValue, get_reading_record, Value.get_record]
  cases k with
  | attributes => exact reading_attributes m
  | compileOptions => exact reading_list _
  | exports => exact reading_pairsValue _
  | functions => exact reading_pairsValue _
  | macros => exact reading_pairsValue _
  | checksum => rfl
  | module => rfl
  | nativeAddresses => rfl

end Assembly
end ModuleBuild
