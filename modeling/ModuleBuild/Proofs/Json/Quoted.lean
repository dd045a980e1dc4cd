import ModuleBuild.Json.Printer
import ModuleBuild.Json.Reader

/-! # Reading back quoted text

Every character is read back from what is written for it between quotation marks
(`readQuoted_escape`), so a quoted text is read back as the text.
-/
namespace ModuleBuild
namespace Json

theorem digit?_digitChar : ∀ d < 16, Hex.digit? (Nat.digitChar d) = some d := by decide

/-- The four digits of a number below `0x10000` write the number. -/
theorem readHex4_four {n : Nat} (hn : n < 0x10000) (rest : List Char) :
    readHex4 (Hex.four n ++ rest) = some (n, rest) := by
  have hdigit (m : Nat) : Hex.digit? (Nat.digitChar (m % 16)) = some (m % 16) :=
    digit?_digitChar _ (Nat.mod_lt _ (by decide))
  simp only [Hex.four, List.map_cons, List.map_nil, List.cons_append, List.nil_append, readHex4,
    Hex.number?, List.foldlM_cons, List.foldlM_nil, hdigit, Option.map_some, Option.pure_def,
    Option.bind_eq_bind, Option.bind_some]
  congr 2
  omega

/-! ## One character -/

theorem readQuoted_letter {e c : Char} (he : e ≠ 'u') (hc : escaped? e = some c)
    (rest : List Char) :
    readQuoted ('\\' :: e :: rest) = (readQuoted rest).map fun r => (c :: r.1, r.2) := by
  rw [readQuoted]
  · rw [hc]
  · intro a b c d rest heq
    exact absurd heq he

/-- Four digits that write no half of a surrogate pair are one character. -/
theorem readQuoted_four {n : Nat} (hn : n < 0xD800) (rest : List Char) :
    readQuoted ('\\' :: 'u' :: (Hex.four n ++ rest))
      = (readQuoted rest).map fun r => (Char.ofNat n :: r.1, r.2) := by
  have hread := readHex4_four (show n < 0x10000 by omega) []
  simp only [Hex.four, List.map_cons, List.map_nil, List.append_nil] at hread
  simp only [Hex.four, List.map_cons, List.map_nil, List.cons_append, List.nil_append]
  rw [readQuoted, hread]
  simp only
  rw [if_neg (by omega), if_neg (by omega)]

theorem readQuoted_plain {c : Char} (hquote : c ≠ '"') (hslash : c ≠ '\\') (hc : 0x20 ≤ c.toNat)
    (rest : List Char) :
    readQuoted (c :: rest) = (readQuoted rest).map fun r => (c :: r.1, r.2) := by
  rw [readQuoted]
  · rw [if_neg]
    rintro (h | h)
    · omega
    · exact hslash h
  · exact hquote
  · intro a b c d rest heq
    exact absurd heq hslash
  · intro e rest heq
    exact absurd heq hslash

/-- **A character is read back from what is written for it.** -/
theorem readQuoted_escape (c : Char) (rest : List Char) :
    readQuoted (escape c ++ rest) = (readQuoted rest).map fun r => (c :: r.1, r.2) := by
  unfold escape
  split
  · next h =>
    subst h
    exact readQuoted_letter (by decide) rfl rest
  split
  · next h =>
    subst h
    exact readQuoted_letter (by decide) rfl rest
  split
  · next h =>
    subst h
    exact readQuoted_letter (by decide) rfl rest
  split
  · next h =>
    subst h
    exact readQuoted_letter (by decide) rfl rest
  split
  · next h =>
    subst h
    exact readQuoted_letter (by decide) rfl rest
  split
  · next h =>
    subst h
    exact readQuoted_letter (by decide) rfl rest
  split
  · next h =>
    subst h
    exact readQuoted_letter (by decide) rfl rest
  split
  · next h =>
    have hfour := readQuoted_four (show c.toNat < 0xD800 by omega) rest
    rw [Char.ofNat_toNat] at hfour
    exact hfour
  · next hquote hslash _ _ _ _ _ hlow =>
    exact readQuoted_plain hquote hslash (Nat.le_of_not_lt hlow) rest

/-- **A quoted text is read back.** -/
theorem readQuoted_quote (s : String) (rest : List Char) :
    readQuoted (s.toList.flatMap escape ++ '"' :: rest) = some (s.toList, rest) := by
  have hchars (cs : List Char) :
      readQuoted (cs.flatMap escape ++ '"' :: rest) = some (cs, rest) := by
    induction cs with
    | nil => simp [readQuoted]
    | cons c cs ih => rw [List.flatMap_cons, List.append_assoc, readQuoted_escape, ih]; rfl
  exact hchars s.toList

end Json
end ModuleBuild
