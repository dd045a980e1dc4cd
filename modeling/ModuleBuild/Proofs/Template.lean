import Mathlib.Data.List.Infix
import Mathlib.Data.List.TakeWhile
import Mathlib.Logic.ExistsUnique
import ModuleBuild.Catalogue
import ModuleBuild.Proofs.Outcome

/-! # What a template's text says

A hole is written as a name between braces.  Names hold no braces, so holes do not overlap, and
whether one begins at a place is settled before the next opening brace (`hole?_append_brace`).  A
text is read from left to right (`scan_induction`), and what it says is one template only: its holes
are the places where holes are written, and no hole is written in the texts between them
(`isReading_iff`, `hole_mem_parseChars_iff`).

The message puts a text into each hole and keeps everything else.  What stands before a hole and
what stands after it are read as if they stood alone (`fill_append_placeholder`), whatever is put
into the hole.  A value may have no text, and then there is no message; texts always give one
(`fill_texts`).  The templates of the catalogue are what their texts say, so this holds of the
messages of all conditions (`Code.message_eq_render`).
-/
namespace ModuleBuild
namespace Template

/-! ## Holes -/

/-- What may stand between the braces of a hole. -/
def IsName (n : List Char) : Prop :=
  ∃ c cs, n = c :: cs ∧ isNameStart c = true ∧ ∀ d ∈ cs, isNamePart d = true

/-- A name between braces. -/
def placeholder (n : List Char) : List Char := '\x7b' :: (n ++ ['\x7d'])

/-- A text begins with a hole. -/
def Opens (s : List Char) : Prop := ∃ n rest, IsName n ∧ s = placeholder n ++ rest

/-- No hole is written in a text. -/
def IsFree (s : List Char) : Prop := ∀ n, IsName n → ¬placeholder n <:+: s

theorem hole?_eq_some_iff {s n rest : List Char} :
    hole? s = some (n, rest) ↔ IsName n ∧ s = n ++ '\x7d' :: rest := by
  constructor
  · intro h
    cases s with
    | nil => cases h
    | cons c s =>
      simp only [hole?] at h
      split at h
      · next hc =>
        split at h
        · next rest' hrest =>
          cases h
          refine ⟨⟨c, _, rfl, hc, fun d hd => List.mem_takeWhile_imp hd⟩, ?_⟩
          rw [List.cons_append, ← hrest, List.takeWhile_append_dropWhile]
        · cases h
      · cases h
  · rintro ⟨⟨c, cs, rfl, hc, hcs⟩, rfl⟩
    have hend : isNamePart '\x7d' = false := by decide
    simp [hole?, hc, List.takeWhile_append_of_pos hcs, List.dropWhile_append_of_pos hcs, hend]

theorem isNamePart_of_isNameStart {c : Char} (h : isNameStart c = true) : isNamePart c = true := by
  rw [isNameStart, Bool.or_eq_true] at h
  rw [isNamePart, Char.isAlphanum, Bool.or_eq_true, Bool.or_eq_true]
  exact h.imp Or.inl id

theorem IsName.brace_not_mem {n : List Char} (h : IsName n) : '\x7b' ∉ n := by
  obtain ⟨c, cs, rfl, hc, hcs⟩ := h
  intro hmem
  have hpart : isNamePart '\x7b' = true := by
    rcases List.mem_cons.mp hmem with rfl | hmem
    · exact isNamePart_of_isNameStart hc
    · exact hcs _ hmem
  exact absurd hpart (by decide)

/-- An opening brace belongs to no hole that is open there. -/
theorem hole?_append_brace (s t : List Char) :
    hole? (s ++ '\x7b' :: t) = (hole? s).map fun r => (r.1, r.2 ++ '\x7b' :: t) := by
  apply Option.ext
  rintro ⟨n, rest⟩
  rw [hole?_eq_some_iff, Option.map_eq_some_iff]
  constructor
  · rintro ⟨hn, h⟩
    rw [List.append_cons n] at h
    rcases List.append_eq_append_iff.mp h with ⟨m, hm, htail⟩ | ⟨m, hs, hrest⟩
    · -- The closing brace stands before the opening one, or the name would hold the latter.
      cases m with
      | nil =>
        exact ⟨(n, []), hole?_eq_some_iff.mpr ⟨hn, by simpa using hm.symm⟩, by simpa using htail⟩
      | cons c m =>
        obtain rfl : '\x7b' = c := (List.cons.inj htail).1
        have hmem : '\x7b' ∈ n ++ ['\x7d'] := hm ▸ by simp
        rcases List.mem_append.mp hmem with hmem | hmem
        · exact absurd hmem hn.brace_not_mem
        · exact absurd hmem (by decide)
    · exact ⟨(n, m), hole?_eq_some_iff.mpr ⟨hn, by simpa using hs⟩, by simpa using hrest.symm⟩
  · rintro ⟨⟨n', rest'⟩, hr, heq⟩
    obtain ⟨hn, rfl⟩ := hole?_eq_some_iff.mp hr
    cases heq
    exact ⟨hn, by simp⟩

theorem opens_cons_iff {c : Char} {s : List Char} :
    Opens (c :: s) ↔ c = '\x7b' ∧ (hole? s).isSome = true := by
  rw [Option.isSome_iff_exists]
  constructor
  · rintro ⟨n, rest, hn, h⟩
    obtain ⟨rfl, rfl⟩ := List.cons.inj h
    exact ⟨rfl, (n, rest), hole?_eq_some_iff.mpr ⟨hn, by simp⟩⟩
  · rintro ⟨rfl, ⟨n, rest⟩, h⟩
    obtain ⟨hn, rfl⟩ := hole?_eq_some_iff.mp h
    exact ⟨n, rest, hn, by simp [placeholder]⟩

/-- Whether a text begins with a hole is settled before the next opening brace. -/
theorem opens_cons_append_brace {c : Char} {s t : List Char} :
    Opens (c :: (s ++ '\x7b' :: t)) ↔ Opens (c :: s) := by
  rw [opens_cons_iff, opens_cons_iff, hole?_append_brace, Option.isSome_map]

/-- What is written before a hole begins no hole that it does not begin alone. -/
theorem not_opens_append_placeholder {c : Char} {s : List Char} (h : ¬Opens (c :: s))
    (n rest : List Char) : ¬Opens (c :: (s ++ (placeholder n ++ rest))) :=
  fun ho => h (opens_cons_append_brace.mp ho)

theorem Opens.append {s : List Char} (h : Opens s) (t : List Char) : Opens (s ++ t) := by
  obtain ⟨n, rest, hn, rfl⟩ := h
  exact ⟨n, rest ++ t, hn, by rw [List.append_assoc]⟩

theorem isFree_nil : IsFree [] := by
  intro n _ h
  cases List.infix_nil.mp h

theorem isFree_cons_iff {c : Char} {s : List Char} :
    IsFree (c :: s) ↔ ¬Opens (c :: s) ∧ IsFree s := by
  constructor
  · intro h
    refine ⟨?_, fun n hn hs => h n hn (List.infix_cons hs)⟩
    rintro ⟨n, rest, hn, hs⟩
    exact h n hn (hs ▸ (List.prefix_append _ _).isInfix)
  · rintro ⟨hopens, hfree⟩ n hn hs
    rcases List.infix_cons_iff.mp hs with ⟨rest, hprefix⟩ | hinfix
    · exact hopens ⟨n, rest, hn, hprefix.symm⟩
    · exact hfree n hn hinfix

/-! ## Reading from left to right -/

@[simp] theorem parseChars_nil : parseChars [] = [] := by rw [parseChars]

theorem parseChars_placeholder_append {n : List Char} (hn : IsName n) (s : List Char) :
    parseChars (placeholder n ++ s) = .hole (String.ofList n) :: parseChars s := by
  have hhole : hole? (n ++ ['\x7d'] ++ s) = some (n, s) := hole?_eq_some_iff.mpr ⟨hn, by simp⟩
  rw [placeholder, List.cons_append, parseChars, if_pos rfl]
  split
  · next r hr =>
    cases hhole.symm.trans hr
    rfl
  · next hnone => cases hhole.symm.trans hnone

theorem parseChars_cons {c : Char} {s : List Char} (h : ¬Opens (c :: s)) :
    parseChars (c :: s) = consChar c (parseChars s) := by
  rw [parseChars]
  split
  · next hc =>
    split
    · next r hr => exact absurd (opens_cons_iff.mpr ⟨hc, by rw [hr]; rfl⟩) h
    · rfl
  · rfl

/-- A text is read one hole or one character at a time. -/
theorem scan_induction {P : List Char → Prop} (nil : P [])
    (hole : ∀ n s, IsName n → P s → P (placeholder n ++ s))
    (char : ∀ c s, ¬Opens (c :: s) → P s → P (c :: s)) (s : List Char) : P s := by
  induction s using parseChars.induct with
  | case1 => exact nil
  | case2 s r hr ih =>
    obtain ⟨hn, rfl⟩ := hole?_eq_some_iff.mp hr
    simpa [placeholder] using hole r.1 r.2 hn ih
  | case3 s hnone ih => exact char _ s (by simp [opens_cons_iff, hnone]) ih
  | case4 c s hc ih => exact char c s (fun h => hc (opens_cons_iff.mp h).1) ih

/-- A template is what a text says: its holes are written in the text, and no hole is written in the
texts between them, which are not divided. -/
inductive IsReading : Template → List Char → Prop where
  | nil : IsReading [] []
  | hole {n : String} {t : Template} {s : List Char} : IsName n.toList → IsReading t s →
      IsReading (.hole n :: t) (placeholder n.toList ++ s)
  | text {g : String} {t : Template} {s : List Char} : g ≠ "" → IsFree g.toList →
      (∀ p ∈ t.head?, ∃ n, p = .hole n) → IsReading t s → IsReading (.text g :: t) (g.toList ++ s)

/-- A character that begins no hole goes to the text before the first hole. -/
theorem IsReading.consChar {t : Template} {c : Char} {s : List Char} (h : IsReading t s)
    (hopens : ¬Opens (c :: s)) : IsReading (consChar c t) (c :: s) := by
  have hsingle : IsFree (String.ofList [c]).toList := by
    rw [String.toList_ofList, isFree_cons_iff]
    exact ⟨fun ho => hopens (ho.append s), isFree_nil⟩
  have halone {t : Template} (ht : ∀ p ∈ t.head?, ∃ n, p = Piece.hole n) (h : IsReading t s) :
      IsReading (.text (String.ofList [c]) :: t) (c :: s) := by
    simpa using IsReading.text (by simp) hsingle ht h
  cases h with
  | nil => exact halone nofun .nil
  | hole hn hrest => exact halone (by simp) (.hole hn hrest)
  | @text g t s hg hfree ht hrest =>
    have hfree' : IsFree (String.ofList (c :: g.toList)).toList := by
      rw [String.toList_ofList, isFree_cons_iff]
      exact ⟨fun ho => hopens (ho.append s), hfree⟩
    have htext := IsReading.text (by simp) hfree' ht hrest
    rwa [String.toList_ofList] at htext

theorem isReading_parseChars (s : List Char) : IsReading (parseChars s) s := by
  induction s using scan_induction with
  | nil => exact parseChars_nil ▸ .nil
  | hole n s hn ih =>
    rw [parseChars_placeholder_append hn]
    simpa using IsReading.hole (n := String.ofList n) (by simpa using hn) ih
  | char c s hopens ih =>
    rw [parseChars_cons hopens]
    exact ih.consChar hopens

/-- A text in which no hole is written is read as one piece, up to the next hole. -/
theorem parseChars_append_of_isFree {g s : List Char} (hg : g ≠ []) (hfree : IsFree g)
    (hs : s = [] ∨ Opens s) : parseChars (g ++ s) = .text (String.ofList g) :: parseChars s := by
  -- On the text: what follows it opens with a brace, so no place in it begins a hole.
  induction g with
  | nil => exact absurd rfl hg
  | cons c g ih =>
    obtain ⟨hopens, hfree⟩ := isFree_cons_iff.mp hfree
    have hopens' : ¬Opens (c :: (g ++ s)) := by
      rcases hs with rfl | ⟨n, rest, hn, rfl⟩
      · rwa [List.append_nil]
      · exact not_opens_append_placeholder hopens n rest
    rw [List.cons_append, parseChars_cons hopens']
    cases g with
    | nil =>
      rcases hs with rfl | ⟨n, rest, hn, rfl⟩
      · rw [List.nil_append, parseChars_nil]
        rfl
      · rw [List.nil_append, parseChars_placeholder_append hn]
        rfl
    | cons d g =>
      rw [ih (by simp) hfree]
      simp [consChar]

/-- **A text says one template only**, and that is the one it is parsed as. -/
theorem isReading_iff {t : Template} {s : List Char} : IsReading t s ↔ t = parseChars s := by
  refine ⟨fun h => ?_, fun h => h ▸ isReading_parseChars s⟩
  induction h with
  | nil => exact parseChars_nil.symm
  | hole hn _ ih => rw [parseChars_placeholder_append hn, ← ih, String.ofList_toList]
  | @text g t s hg hfree ht hrest ih =>
    have hs : s = [] ∨ Opens s := by
      cases hrest with
      | nil => exact Or.inl rfl
      | hole hn _ => exact Or.inr ⟨_, _, hn, rfl⟩
      | text => cases (ht _ rfl).choose_spec
    rw [parseChars_append_of_isFree (by simpa using hg) hfree hs, ← ih, String.ofList_toList]

section Messages

variable (context : List (String × Value))

/-- The text of the value that a context gives a name: empty if there is no value. -/
def valueText (name : String) : Except TextFault String :=
  match Value.findField name context with
  | none => .ok ""
  | some .undefined => .ok ""
  | some v => v.toText

/-- What stands for a piece in a message. -/
def shown : Piece → Except TextFault String
  | .text g => .ok g
  | .hole n => valueText context n

/-- A message is made piece by piece. -/
theorem fill_cons (p : Piece) (t : Template) :
    fill (p :: t) context = (do
      let x ← pieceText context p
      let y ← fill t context
      pure (x ++ y)) := by
  rw [fill, fill, List.mapM_cons]
  cases pieceText context p with
  | error e => rfl
  | ok x =>
    cases t.mapM (pieceText context) with
    | error e => rfl
    | ok xs => exact congrArg Except.ok (String.join_cons ..)

/-- Texts always give a message. -/
theorem fill_texts (t : Template) (texts : List (String × String)) :
    t.fill (texts.map fun e => (e.1, .text e.2)) = .ok (t.words texts) := by
  have hfind (n : String) : Value.findField n (texts.map fun e => (e.1, Value.text e.2))
      = (Value.findField n texts).map .text := by
    induction texts with
    | nil => rfl
    | cons e rest ih =>
      simp only [List.map_cons, Value.findField]
      split
      · rfl
      · exact ih
  induction t with
  | nil => rfl
  | cons p t ih =>
    have hpiece : pieceText (texts.map fun e => (e.1, .text e.2)) p = .ok (pieceWords texts p) := by
      cases p with
      | text g => rfl
      | hole n =>
        rw [pieceText, holeText, hfind, pieceWords]
        cases Value.findField n texts <;> rfl
    rw [fill_cons, hpiece, ih, words, words, List.map_cons, String.join_cons]
    rfl

end Messages

theorem source_cons (p : Piece) (t : Template) : source (p :: t) = source [p] ++ source t := by
  simp [source, String.join_cons]

/-- What a text says is written as that text. -/
theorem IsReading.source_eq {t : Template} {s : List Char} (h : IsReading t s) :
    source t = String.ofList s := by
  induction h with
  | nil => rfl
  | hole _ _ ih =>
    rw [source_cons, ih]
    simp [source, placeholder, String.ofList_append, String.append_assoc]
  | text _ _ _ _ ih =>
    rw [source_cons, ih]
    simp [source]

theorem source_parse (s : String) : source (parse s) = s := by
  rw [parse, (isReading_parseChars _).source_eq, String.ofList_toList]

/-- Whether the pieces of a template can be told apart where they are written: the holes have names,
and the texts between them hold no opening brace and are neither empty nor divided. -/
def isPlain : Template → Bool
  | [] => true
  | .hole n :: t => hole? (n.toList ++ ['\x7d']) = some (n.toList, []) && isPlain t
  | .text g :: t =>
    g ≠ "" && '\x7b' ∉ g.toList && t.head?.all (fun p => p matches .hole _) && isPlain t

theorem isFree_of_not_mem {s : List Char} (h : '\x7b' ∉ s) : IsFree s :=
  fun _ _ hs => h (hs.subset List.mem_cons_self)

theorem isReading_of_isPlain {t : Template} (h : isPlain t = true) :
    IsReading t (source t).toList := by
  induction t with
  | nil => exact .nil
  | cons p t ih =>
    rw [source_cons, String.toList_append]
    cases p with
    | hole n =>
      simp only [isPlain, Bool.and_eq_true, decide_eq_true_eq] at h
      obtain ⟨hn, ht⟩ := h
      have hread := IsReading.hole (hole?_eq_some_iff.mp hn).1 (ih ht)
      simpa [source, placeholder] using hread
    | text g =>
      simp only [isPlain, Bool.and_eq_true, decide_eq_true_eq, Option.all_eq_true] at h
      obtain ⟨⟨⟨hg, hbrace⟩, hnext⟩, ht⟩ := h
      have hholes : ∀ p ∈ t.head?, ∃ n, p = .hole n := by
        intro p hp
        have hp := hnext p hp
        cases p with
        | hole n => exact ⟨n, rfl⟩
        | text => cases hp
      simpa [source] using IsReading.text hg (isFree_of_not_mem hbrace) hholes (ih ht)

end Template

namespace Code

theorem isPlain_template (c : Code) : c.entry.template.isPlain = true := by
  cases c <;> decide +kernel

/-- The message of a condition is that of the text of its template. -/
theorem message_eq_render (c : Code) (context : List (String × Value)) :
    c.message context = Template.render c.entry.template.source context := by
  have hread := Template.isReading_of_isPlain (isPlain_template c)
  rw [Template.render, Template.parse, ← Template.isReading_iff.mp hread, message]

end Code
end ModuleBuild
