import ModuleBuild.Proofs.Json.Numeral
import ModuleBuild.Proofs.Json.Quoted

/-! # Reading back printed documents

The text of a document is read back as the document in canonical form
(`parse_render`): zero has no sign, a number that is not finite is null, and the
members of objects are in field order.  The induction is on the document, and the
bound on the steps of the reader is twice the length of the text.
-/
namespace ModuleBuild
namespace Json

mutual

/-- A document as it is read back. -/
def canonical : Json → Json
  | null => null
  | bool b => bool b
  | number x => if x.isFinite then number x.unsignedZero else null
  | text s => text s
  | list vs => list (canonicalItems vs)
  | object ms => ofMembers (canonicalMembers ms)

/-- Items as they are read back. -/
def canonicalItems : List Json → List Json
  | [] => []
  | v :: rest => canonical v :: canonicalItems rest

/-- Members as they are read back, before they are put in field order. -/
def canonicalMembers : List (String × Json) → List (String × Json)
  | [] => []
  | (n, v) :: rest => (n, canonical v) :: canonicalMembers rest

end

/-! ## The first character -/

/-- What a document's text begins with. -/
structure IsFirst (c : Char) : Prop where
  not_space : isSpace c = false
  ne_bracket : c ≠ ']'
  ne_brace : c ≠ '\x7d'

theorem isFirst_of_number {c : Char} (hc : c.isDigit = true ∨ c = '-') : IsFirst c where
  not_space := by
    rcases hc with hc | rfl
    · by_contra h
      simp only [isSpace, Bool.not_eq_false, Bool.or_eq_true, decide_eq_true_eq] at h
      rcases h with ((rfl | rfl) | rfl) | rfl <;> exact absurd hc (by decide)
    · rfl
  ne_bracket := by
    rintro rfl
    exact absurd hc (by decide)
  ne_brace := by
    rintro rfl
    exact absurd hc (by decide)

theorem print_eq_cons (v : Json) : ∃ c cs, print v = c :: cs ∧ IsFirst c := by
  cases v with
  | null => exact ⟨'n', _, rfl, by decide, by decide, by decide⟩
  | bool b => cases b <;> exact ⟨_, _, rfl, by decide, by decide, by decide⟩
  | number x =>
    by_cases hx : x.isFinite = true
    · obtain ⟨c, cs, h, hc⟩ := numeral_eq_cons hx
      exact ⟨c, cs, h, isFirst_of_number hc⟩
    · exact ⟨'n', ['u', 'l', 'l'], by simp [print, numeral, hx], by decide, by decide, by decide⟩
  | text s => exact ⟨'"', _, rfl, by decide, by decide, by decide⟩
  | list vs => cases vs <;> exact ⟨'[', _, rfl, by decide, by decide, by decide⟩
  | object ms =>
    rcases ms with _ | ⟨⟨n, v⟩, rest⟩ <;> exact ⟨'\x7b', _, rfl, by decide, by decide, by decide⟩

theorem skip_cons {c : Char} (hc : isSpace c = false) (cs : List Char) :
    skip (c :: cs) = c :: cs :=
  List.dropWhile_cons_of_neg (by simp [hc])

theorem skip_print_append (v : Json) (rest : List Char) :
    skip (print v ++ rest) = print v ++ rest := by
  obtain ⟨c, cs, h, hc⟩ := print_eq_cons v
  rw [h]
  exact skip_cons hc.not_space _

/-! ## Single steps of the reader -/

theorem word_append (w : String) (rest : List Char) : word w (w.toList ++ rest) = some rest := by
  rw [word, ← String.length_toList, List.take_left, List.drop_left, if_pos rfl]

theorem readValue_null (fuel : Nat) (rest : List Char) :
    readValue (fuel + 1) ("null".toList ++ rest) = some (null, rest) := by
  change readValue (fuel + 1) ('n' :: ("ull".toList ++ rest)) = _
  simp only [readValue, skip_cons (show isSpace 'n' = false by rfl), word_append, Option.map_some]

theorem readValue_bool (b : Bool) (fuel : Nat) (rest : List Char) :
    readValue (fuel + 1) (print (.bool b) ++ rest) = some (.bool b, rest) := by
  cases b with
  | true =>
    change readValue (fuel + 1) ('t' :: ("rue".toList ++ rest)) = _
    simp only [readValue, skip_cons (show isSpace 't' = false by rfl), word_append, Option.map_some]
  | false =>
    change readValue (fuel + 1) ('f' :: ("alse".toList ++ rest)) = _
    simp only [readValue, skip_cons (show isSpace 'f' = false by rfl), word_append, Option.map_some]

theorem readValue_number {x : Number} (hx : x.isFinite = true) {rest : List Char}
    (hrest : EndsNumber rest) (fuel : Nat) :
    readValue (fuel + 1) (numeral x ++ rest) = some (number x.unsignedZero, rest) := by
  obtain ⟨c, cs, h, hc⟩ := numeral_eq_cons hx
  have hread := readNumber_numeral hx hrest
  rw [h, List.cons_append] at hread ⊢
  have hskip : skip (c :: (cs ++ rest)) = c :: (cs ++ rest) :=
    skip_cons (isFirst_of_number hc).not_space _
  -- neither a digit nor a minus begins any other document
  have hne (d : Char) (hd : d.isDigit = false ∧ d ≠ '-') (t : List Char) :
      c :: (cs ++ rest) ≠ d :: t := by
    intro heq
    cases heq
    rcases hc with hc | hc
    · exact absurd hc (by simp [hd.1])
    · exact hd.2 hc
  rw [readValue, hskip]
  split
  · next heq => cases heq
  · next heq => exact absurd heq (hne '"' (by decide) _)
  · next heq => exact absurd heq (hne '[' (by decide) _)
  · next heq => exact absurd heq (hne '\x7b' (by decide) _)
  · next heq => exact absurd heq (hne 't' (by decide) _)
  · next heq => exact absurd heq (hne 'f' (by decide) _)
  · next heq => exact absurd heq (hne 'n' (by decide) _)
  · rw [hread]
    rfl

theorem endsNumber_printItems (vs : List Json) (rest : List Char) :
    EndsNumber (printItems vs ++ rest) := by
  cases vs <;> exact endsNumber_cons (by decide)

theorem endsNumber_printMembers (ms : List (String × Json)) (rest : List Char) :
    EndsNumber (printMembers ms ++ rest) := by
  rcases ms with _ | ⟨⟨n, v⟩, ms⟩ <;> exact endsNumber_cons (by decide)

theorem length_print_pos (v : Json) : 0 < (print v).length := by
  obtain ⟨c, cs, h, -⟩ := print_eq_cons v
  simp [h]

theorem length_printItems_pos (vs : List Json) : 0 < (printItems vs).length := by
  cases vs <;> exact Nat.succ_pos _

theorem length_printMembers_pos (ms : List (String × Json)) : 0 < (printMembers ms).length := by
  rcases ms with _ | ⟨⟨n, v⟩, ms⟩ <;> exact Nat.succ_pos _

/-- A list of items that are read up to the bracket. -/
theorem readValue_list {v : Json} {s rest : List Char} {vs : List Json} {fuel : Nat}
    (h : readItems fuel (print v ++ s) = some (vs, rest)) :
    readValue (fuel + 1) ('[' :: (print v ++ s)) = some (list vs, rest) := by
  obtain ⟨c, cs, hcons, hc⟩ := print_eq_cons v
  have hskip := skip_print_append v s
  have hbracket : ∀ t, print v ++ s = ']' :: t → False := by
    intro t heq
    rw [hcons] at heq
    exact hc.ne_bracket (List.cons.inj heq).1
  rw [readValue, skip_cons rfl]
  simp only [hskip, h, Option.map_some]

/-- The items after one that has been read. -/
theorem readItems_cons {fuel : Nat} {s rest : List Char} {v : Json} {vs : List Json}
    {w : List Json}
    (hv : readValue fuel s = some (v, printItems vs ++ rest))
    (hvs : ∀ t, printItems vs = ',' :: t → readItems fuel (t ++ rest) = some (w, rest))
    (hnil : vs = [] → w = []) :
    readItems (fuel + 1) s = some (v :: w, rest) := by
  rw [readItems, hv]
  cases vs with
  | nil =>
    rw [hnil rfl]
    simp [printItems, skip, isSpace]
  | cons u us =>
    have h := hvs (print u ++ printItems us) rfl
    rw [List.append_assoc] at h
    simp [printItems, skip, isSpace, h]

theorem quote_append (n : String) (s : List Char) :
    quote n ++ s = '"' :: (n.toList.flatMap escape ++ '"' :: s) := by
  simp [quote]

/-- An object of members that are read up to the brace. -/
theorem readValue_object {n : String} {s rest : List Char} {ms : List (String × Json)} {fuel : Nat}
    (h : readMembers fuel (quote n ++ s) = some (ms, rest)) :
    readValue (fuel + 1) ('\x7b' :: (quote n ++ s)) = some (ofMembers ms, rest) := by
  have hbrace : ∀ t, quote n ++ s = '\x7d' :: t → False := by
    intro t heq
    rw [quote_append] at heq
    exact absurd (List.cons.inj heq).1 (by decide)
  have hskip : skip (quote n ++ s) = quote n ++ s := by
    rw [quote_append]
    exact skip_cons rfl _
  rw [readValue, skip_cons rfl]
  simp only [hskip, h, Option.map_some]

/-- The members after one whose value has been read. -/
theorem readMembers_cons {fuel : Nat} {n : String} {s rest : List Char} {v : Json}
    {ms w : List (String × Json)}
    (hv : readValue fuel s = some (v, printMembers ms ++ rest))
    (hms : ∀ t, printMembers ms = ',' :: t → readMembers fuel (t ++ rest) = some (w, rest))
    (hnil : ms = [] → w = []) :
    readMembers (fuel + 1) (quote n ++ ':' :: s) = some ((n, v) :: w, rest) := by
  rw [readMembers, quote_append, skip_cons rfl]
  simp only [readQuoted_quote, Option.bind_eq_bind, Option.bind_some,
    skip_cons (show isSpace ':' = false by rfl), hv, String.ofList_toList]
  cases ms with
  | nil =>
    rw [hnil rfl]
    simp [printMembers, skip, isSpace]
  | cons e ms =>
    obtain ⟨m, u⟩ := e
    have h := hms (quote m ++ ':' :: print u ++ printMembers ms) rfl
    rw [List.append_assoc, List.append_assoc, List.cons_append] at h
    simp [printMembers, skip, isSpace, h]

/-! ## Documents -/

mutual

/-- A printed document is read back, whatever follows that ends a number. -/
theorem readValue_print : ∀ (v : Json) (fuel : Nat) (rest : List Char), EndsNumber rest →
    2 * (print v).length ≤ fuel → readValue fuel (print v ++ rest) = some (canonical v, rest)
  | .null, fuel + 1, rest, _, _ => readValue_null fuel rest
  | .bool b, fuel + 1, rest, _, _ => readValue_bool b fuel rest
  | .number x, fuel + 1, rest, hrest, _ => by
    rw [print, canonical]
    by_cases hx : x.isFinite = true
    · rw [if_pos hx]
      exact readValue_number hx hrest fuel
    · rw [if_neg hx, numeral, if_neg hx]
      exact readValue_null fuel rest
  | .text s, fuel + 1, rest, _, _ => by
    have hread := readQuoted_quote s rest
    simp [print, quote, readValue, skip, isSpace, hread, canonical]
  | .list [], fuel + 1, rest, _, _ => by
    simp [print, readValue, skip, isSpace, canonical, canonicalItems]
  | .list (v :: vs), fuel + 1, rest, _, hfuel => by
    -- the bracket is a character that the items do without, and pays for this step
    have hlength : (print (.list (v :: vs))).length = (print v ++ printItems vs).length + 1 := rfl
    have hitems := readItems_print (v :: vs) (print v ++ printItems vs) fuel rest rfl (by omega)
    rw [List.append_assoc] at hitems
    change readValue (fuel + 1) ('[' :: (print v ++ printItems vs ++ rest)) = _
    rw [List.append_assoc]
    exact readValue_list hitems
  | .object [], fuel + 1, rest, hrest, hfuel => by
    simp [print, readValue, skip, isSpace, canonical, canonicalMembers, ofMembers, Value.fieldsOf]
  | .object ((n, v) :: ms), fuel + 1, rest, hrest, hfuel => by
    have hlength : (print (.object ((n, v) :: ms))).length
      = (quote n ++ ':' :: print v ++ printMembers ms).length + 1 := rfl
    have hmembers := readMembers_print ((n, v) :: ms) (quote n ++ ':' :: print v ++ printMembers ms)
      fuel rest rfl (by omega)
    rw [List.append_assoc, List.append_assoc] at hmembers
    change readValue (fuel + 1)
      ('\x7b' :: (quote n ++ ':' :: print v ++ printMembers ms ++ rest)) = _
    rw [List.append_assoc, List.append_assoc]
    exact readValue_object hmembers
  | v, 0, rest, _, hfuel => by
    -- no text is empty
    obtain ⟨c, cs, h, -⟩ := print_eq_cons v
    simp [h] at hfuel

/-- Printed items are read back, up to the bracket. -/
theorem readItems_print : ∀ (vs : List Json) (s : List Char) (fuel : Nat) (rest : List Char),
    printItems vs = ',' :: s → 2 * s.length ≤ fuel →
    readItems fuel (s ++ rest) = some (canonicalItems vs, rest)
  | [], s, fuel, rest, h, _ => by cases h
  | v :: vs, s, fuel, rest, h, hfuel => by
    obtain rfl : s = print v ++ printItems vs := (List.cons.inj h).2.symm
    -- what follows the item is not empty, so both parts have steps left
    have hlength := length_printItems_pos vs
    rw [List.length_append] at hfuel
    obtain ⟨fuel, rfl⟩ : ∃ n, fuel = n + 1 := ⟨fuel - 1, by omega⟩
    have hv := readValue_print v fuel (printItems vs ++ rest) (endsNumber_printItems vs rest)
      (by omega)
    have hpos := length_print_pos v
    rw [List.append_assoc]
    refine readItems_cons hv (fun t ht => readItems_print vs t fuel rest ht ?_) ?_
    · rw [ht, List.length_cons] at hfuel
      omega
    · rintro rfl
      rfl

/-- Printed members are read back, up to the brace. -/
theorem readMembers_print : ∀ (ms : List (String × Json)) (s : List Char) (fuel : Nat)
    (rest : List Char), printMembers ms = ',' :: s → 2 * s.length ≤ fuel →
    readMembers fuel (s ++ rest) = some (canonicalMembers ms, rest)
  | [], s, fuel, rest, h, _ => by cases h
  | (n, v) :: ms, s, fuel, rest, h, hfuel => by
    obtain rfl : s = quote n ++ ':' :: print v ++ printMembers ms := (List.cons.inj h).2.symm
    have hlength := length_printMembers_pos ms
    rw [List.length_append, List.length_append, List.length_cons] at hfuel
    obtain ⟨fuel, rfl⟩ : ∃ n, fuel = n + 1 := ⟨fuel - 1, by omega⟩
    have hv := readValue_print v fuel (printMembers ms ++ rest) (endsNumber_printMembers ms rest)
      (by omega)
    rw [List.append_assoc, List.append_assoc]
    refine readMembers_cons hv (fun t ht => readMembers_print ms t fuel rest ht ?_) ?_
    · rw [ht, List.length_cons] at hfuel
      omega
    · rintro rfl
      rfl

end

/-- **The text of a document is read back as the document in canonical form.** -/
theorem parse_render (v : Json) : parse v.render = some v.canonical := by
  have hread := readValue_print v (2 * v.render.length + 2) [] endsNumber_nil (by
    rw [render, String.length_ofList]
    omega)
  rw [List.append_nil] at hread
  rw [parse]
  rw [render] at hread ⊢
  rw [String.toList_ofList, hread]
  rfl

end Json
end ModuleBuild
