import ModuleBuild.Path

/-! # Paths below a directory

The segments of a path are names (`isName_of_mem_segments`): what says nothing and what leads
upwards is gone.  So the way from a directory to what lies below it is made of the names that
follow the directory's (`between_append`), and `Path.relativeTo` answers it unless the first of
them begins with two dots, which it takes for a step upwards (`relativeTo_of_below`).  Whatever
does not lie below is left as it is (`relativeTo_of_not_below`).

A path that is read in a directory goes on from where the directory leads, so the way back to it
from there is the path itself, without empty segments (`Path.relativeTo_append`).  Where the
directory lies does not matter.  So a path that is made relative still denotes its file, read in
the directory (`Path.relativeTo_denotes`).
-/
namespace ModuleBuild
namespace Path

/-! ## Names -/

/-- A segment that leads downwards. -/
structure IsName (s : String) : Prop where
  nonempty : s ≠ ""
  ne_dot : s ≠ "."
  ne_dots : s ≠ ".."
  no_slash : '/' ∉ s.toList

theorem not_mem_of_mem_splitOn {c : Char} {cs l : List Char} (h : l ∈ cs.splitOn c) : c ∉ l := by
  induction cs generalizing l with
  | nil =>
    obtain rfl : l = [] := by simpa using h
    exact List.not_mem_nil
  | cons d cs ih =>
    rw [List.splitOn_cons_eq_if_modifyHead] at h
    split at h
    · rcases List.mem_cons.mp h with rfl | hl
      · exact List.not_mem_nil
      · exact ih hl
    · next hd =>
      obtain ⟨piece, pieces, hpieces⟩ := List.exists_cons_of_ne_nil (List.splitOn_ne_nil c cs)
      rw [hpieces] at h ih
      rcases List.mem_cons.mp h with rfl | hl
      · rw [List.mem_cons, not_or]
        exact ⟨fun hc => hd (by simp [hc]), ih List.mem_cons_self⟩
      · exact ih (List.mem_cons_of_mem _ hl)

theorem no_slash_of_mem_split {p s : String} (h : s ∈ split p) : '/' ∉ s.toList := by
  obtain ⟨l, hl, rfl⟩ := List.mem_map.mp h
  rw [String.toList_ofList]
  exact not_mem_of_mem_splitOn hl

/-- What has been walked are names, whatever segment is taken next. -/
theorem isName_of_mem_step {walked : List String} {segment : String}
    (hwalked : ∀ s ∈ walked, IsName s) (hsegment : '/' ∉ segment.toList) :
    ∀ s ∈ step walked segment, IsName s := by
  unfold step
  split
  · exact hwalked
  · next htext =>
    rw [not_or] at htext
    split
    · exact fun s hs => hwalked s (List.mem_of_mem_drop hs)
    · next hup => exact List.forall_mem_cons.mpr ⟨⟨htext.1, htext.2, hup, hsegment⟩, hwalked⟩

theorem isName_of_mem_foldl {pieces walked : List String}
    (hpieces : ∀ s ∈ pieces, '/' ∉ s.toList) (hwalked : ∀ s ∈ walked, IsName s) :
    ∀ s ∈ pieces.foldl step walked, IsName s := by
  induction pieces generalizing walked with
  | nil => exact hwalked
  | cons piece pieces ih =>
    obtain ⟨hpiece, hrest⟩ := List.forall_mem_cons.mp hpieces
    exact ih hrest (isName_of_mem_step hwalked hpiece)

/-- **The segments of a path are names.** -/
theorem isName_of_mem_segments {p s : String} (h : s ∈ segments p) : IsName s :=
  isName_of_mem_foldl (fun _ => no_slash_of_mem_split) (List.forall_mem_nil _) s
    (List.mem_reverse.mp h)

/-! ## The way down -/

theorem apart_append (origin rest : List String) : apart origin (origin ++ rest) = ([], rest) := by
  induction origin with
  | nil => cases rest <;> rfl
  | cons s origin ih => rw [List.cons_append, apart, if_pos rfl, ih]

/-- What no step upwards leads to begins where the way does. -/
theorem eq_append_of_apart {origin target rest : List String}
    (h : apart origin target = ([], rest)) : target = origin ++ rest := by
  induction origin generalizing target with
  | nil => cases target <;> exact (Prod.ext_iff.mp h).2
  | cons a origin ih =>
    cases target with
    | nil => cases h
    | cons b target =>
      rw [apart] at h
      split at h
      · next hab => rw [ih h, hab, List.cons_append]
      · cases h

theorem between_append (origin rest : List String) :
    between origin (origin ++ rest) = "/".intercalate rest := by
  rw [between, apart_append]
  rfl

/-- A path begins with the first of its names. -/
theorem prefix_intercalate (s : String) (rest : List String) :
    s.toList <+: ("/".intercalate (s :: rest)).toList := by
  cases rest with
  | nil => simp only [String.intercalate_singleton, List.prefix_rfl]
  | cons s' rest =>
    rw [String.intercalate_cons_cons, String.toList_append, String.toList_append,
      List.append_assoc]
    exact List.prefix_append _ _

theorem prefix_of_prefix_append_cons {c : Char} {cs l more : List Char} (hc : c ∉ cs)
    (h : cs <+: l ++ c :: more) : cs <+: l := by
  rcases List.prefix_or_prefix_of_prefix h (List.prefix_append l _) with hcs | ⟨t, rfl⟩
  · exact hcs
  · -- whatever follows `l` would begin with `c`
    rw [List.prefix_append_right_inj] at h
    cases t with
    | nil => exact (List.append_nil l).symm ▸ List.prefix_rfl
    | cons d t =>
      obtain ⟨rfl, -⟩ := List.cons_prefix_cons.mp h
      exact absurd (List.mem_append_right l List.mem_cons_self) hc

/-- What a path begins with, up to the first slash, is what its first name begins with. -/
theorem startsWith_intercalate (s : String) (rest : List String) :
    ("/".intercalate (s :: rest)).startsWith ".." = s.startsWith ".." := by
  rw [Bool.eq_iff_iff, String.startsWith_string_iff, String.startsWith_string_iff]
  refine ⟨fun h => ?_, fun h => h.trans (prefix_intercalate s rest)⟩
  cases rest with
  | nil => simpa only [String.intercalate_singleton] using h
  | cons s' rest =>
    have hslash : ("/".intercalate (s :: s' :: rest)).toList
        = s.toList ++ '/' :: ("/".intercalate (s' :: rest)).toList := by
      simp [String.intercalate_cons_cons]
    rw [hslash] at h
    exact prefix_of_prefix_append_cons (by decide) h

/-- **Below a directory** the way down is the path, unless it begins with two dots. -/
theorem relativeTo_of_below {directory file s : String} {rest : List String}
    (hdirectory : isAbsolute directory = true) (hfile : isAbsolute file = true)
    (h : segments file = segments directory ++ s :: rest) :
    relativeTo directory file
      = if s.startsWith ".." then file else "/".intercalate (s :: rest) := by
  have hname : IsName s := isName_of_mem_segments (p := file) (by simp [h])
  have hnonempty : "/".intercalate (s :: rest) ≠ "" := by
    intro hnil
    have hs := prefix_intercalate s rest
    rw [hnil, String.toList_empty, List.prefix_nil, String.toList_eq_nil_iff] at hs
    exact hname.nonempty hs
  unfold relativeTo
  simp [hdirectory, hfile, h, between_append, hnonempty, startsWith_intercalate]

/-- **What does not lie below a directory** is left as it is. -/
theorem relativeTo_of_not_below {directory file : String}
    (h : ∀ s rest, segments file ≠ segments directory ++ s :: rest) :
    relativeTo directory file = file := by
  unfold relativeTo
  split
  · rfl
  · refine if_pos ?_
    rw [between]
    rcases hway : apart (segments directory) (segments file) with ⟨up, down⟩
    cases up with
    | nil =>
      cases down with
      | nil => exact Or.inl rfl
      | cons s rest => exact absurd (eq_append_of_apart hway) (h s rest)
    | cons _ up =>
      have hup := startsWith_intercalate ".." (up.map (fun _ => "..") ++ down)
      exact Or.inr (hup.trans (String.startsWith_string_iff.mpr List.prefix_rfl))

/-- The way down is no absolute path. -/
theorem isAbsolute_intercalate {s : String} (hs : IsName s) (rest : List String) :
    isAbsolute ("/".intercalate (s :: rest)) = false := by
  obtain ⟨c, cs, hc⟩ : ∃ c cs, s.toList = c :: cs :=
    List.exists_cons_of_ne_nil fun hnil => hs.nonempty (String.toList_eq_nil_iff.mp hnil)
  have hslash : c ≠ '/' := by
    rintro rfl
    exact hs.no_slash (hc ▸ List.mem_cons_self)
  obtain ⟨more, hmore⟩ := prefix_intercalate s rest
  rw [hc] at hmore
  rw [isAbsolute, ← hmore]
  simpa using hslash

/-- **When a path is made relative.**  A path below a directory is answered by the segments that
follow the directory's exactly if the first of them does not begin with two dots; if it does, the
path is left as it is, and so is every path that does not lie below.  The segments of a path are
names: none is empty, holds a slash, or is one of the dotted steps. -/
theorem relativeTo_shortens_iff {directory file : String}
    (hdirectory : isAbsolute directory = true) (hfile : isAbsolute file = true) :
    (∀ s rest, segments file = segments directory ++ s :: rest →
      (relativeTo directory file = "/".intercalate (s :: rest) ↔ s.startsWith ".." = false) ∧
      (relativeTo directory file = file ↔ s.startsWith ".." = true)) ∧
    ((∀ s rest, segments file ≠ segments directory ++ s :: rest) →
      relativeTo directory file = file) ∧
    ∀ s ∈ segments file, IsName s := by
  refine ⟨fun s rest h => ?_, relativeTo_of_not_below, fun s => isName_of_mem_segments⟩
  have hname : IsName s := isName_of_mem_segments (p := file) (by simp [h])
  have hne : file ≠ "/".intercalate (s :: rest) := by
    intro heq
    rw [heq, isAbsolute_intercalate hname] at hfile
    cases hfile
  rw [relativeTo_of_below hdirectory hfile h]
  cases s.startsWith ".." with
  | true => simp [hne]
  | false => simp [hne.symm]

/-- A directory whose name begins with two dots lies below, but its files are left as they are. -/
theorem relativeTo_shortens_iff_dotted :
    isAbsolute "/a" = true ∧ isAbsolute "/a/..b/c" = true ∧
      segments "/a/..b/c" = segments "/a" ++ "..b" :: ["c"] ∧
      relativeTo "/a" "/a/..b/c" = "/a/..b/c" := by
  have hdirectory : isAbsolute "/a" = true := by decide
  have hfile : isAbsolute "/a/..b/c" = true := by decide
  have hsegments : segments "/a/..b/c" = segments "/a" ++ "..b" :: ["c"] := by decide
  have hdots : "..b".startsWith ".." = true := String.startsWith_string_iff.mpr ⟨['b'], rfl⟩
  obtain ⟨hbelow, -⟩ := relativeTo_shortens_iff hdirectory hfile
  exact ⟨hdirectory, hfile, hsegments, (hbelow _ _ hsegments).2.mpr hdots⟩

/-! ## Paths read in a directory -/

/-- A path that stays below the directory it is read in: it is relative, it names something, and
none of its segments starts with a dot. -/
structure IsBelow (f : String) : Prop where
  relative : isAbsolute f = false
  nonempty : f ≠ ""
  plain : ∀ s ∈ split f, s.toList.head? ≠ some '.'

/-- The segments of a path that say something. -/
def names (f : String) : List String := (split f).filter fun s => s ≠ ""

theorem split_append (directory f : String) :
    split (directory ++ "/" ++ f) = split directory ++ split f := by
  have hlist : (directory ++ "/" ++ f).toList = directory.toList ++ '/' :: f.toList := by
    simp
  rw [split, hlist, List.splitOn_append_cons_self, List.map_append]
  rfl

/-- Segments that are no steps are walked one after the other. -/
theorem foldl_step {ss : List String} (h : ∀ s ∈ ss, s ≠ "." ∧ s ≠ "..")
    (walked : List String) :
    ss.foldl step walked = (ss.filter fun s => s ≠ "").reverse ++ walked := by
  induction ss generalizing walked with
  | nil => rfl
  | cons s rest ih =>
    obtain ⟨⟨hdot, hdots⟩, hrest⟩ := List.forall_mem_cons.mp h
    rw [List.foldl_cons, ih hrest]
    by_cases hempty : s = ""
    · simp [step, hempty]
    · simp [step, hempty, hdot, hdots]

theorem segments_append (directory : String) {f : String}
    (h : ∀ s ∈ split f, s ≠ "." ∧ s ≠ "..") :
    segments (directory ++ "/" ++ f) = segments directory ++ names f := by
  rw [segments, split_append, List.foldl_append, foldl_step h, List.reverse_append,
    List.reverse_reverse]
  rfl

/-- A path that stays below takes no steps. -/
theorem IsBelow.ne_step {f s : String} (h : IsBelow f) (hs : s ∈ split f) :
    s ≠ "." ∧ s ≠ ".." := by
  have hplain := h.plain s hs
  constructor
  · rintro rfl
    exact hplain rfl
  · rintro rfl
    exact hplain rfl

/-- The first segment of a relative path is not empty. -/
theorem names_ne_nil {f : String} (h : IsBelow f) : names f ≠ [] := by
  obtain ⟨c, rest, hf⟩ : ∃ c rest, f.toList = c :: rest :=
    List.exists_cons_of_ne_nil fun hnil => h.nonempty (String.toList_eq_nil_iff.mp hnil)
  have hslash : c ≠ '/' := by
    rintro rfl
    have hrelative := h.relative
    rw [isAbsolute, hf] at hrelative
    cases hrelative
  obtain ⟨piece, pieces, hpieces⟩ := List.exists_cons_of_ne_nil (List.splitOn_ne_nil '/' rest)
  have hsplit : split f = String.ofList (c :: piece) :: pieces.map String.ofList := by
    rw [split, hf, List.splitOn_cons_eq_if_modifyHead, if_neg (by simp [hslash]), hpieces]
    rfl
  rw [names, hsplit, List.filter_cons, if_pos (by simp)]
  exact List.cons_ne_nil _ _

/-- **The way from a directory to a path below it is that path.** -/
theorem relativeTo_append {directory f : String} (hdirectory : isAbsolute directory = true)
    (h : IsBelow f) :
    relativeTo directory (directory ++ "/" ++ f) = "/".intercalate (names f) := by
  have habsolute : isAbsolute (directory ++ "/" ++ f) = true := by
    rw [isAbsolute, decide_eq_true_iff] at hdirectory ⊢
    rw [String.append_assoc, String.toList_append, List.head?_append, hdirectory]
    rfl
  have hsegments := segments_append directory fun s hs => h.ne_step hs
  -- the first name is not empty and does not start with a dot
  obtain ⟨s, rest, hnames⟩ := List.exists_cons_of_ne_nil (names_ne_nil h)
  have hs : s ∈ split f := by
    have hmem : s ∈ names f := by
      rw [hnames]
      exact List.mem_cons_self
    exact (List.mem_filter.mp hmem).1
  have hstart : s.startsWith ".." = false := by
    rw [Bool.eq_false_iff, Ne, String.startsWith_string_iff]
    rintro ⟨t, ht⟩
    exact h.plain s hs (by rw [← ht]; rfl)
  rw [hnames] at hsegments ⊢
  rw [relativeTo_of_below hdirectory habsolute hsegments, hstart]
  rfl

/-! ## The way back -/

/-- Names between slashes are the texts between the slashes. -/
theorem split_intercalate {ns : List String} (hns : ns ≠ []) (h : ∀ s ∈ ns, '/' ∉ s.toList) :
    split ("/".intercalate ns) = ns := by
  have hsplit : (['/'].intercalate (ns.map String.toList)).splitOn '/' = ns.map String.toList := by
    refine List.splitOn_intercalate '/' ?_ (by simpa using hns)
    rintro l hl
    obtain ⟨s, hs, rfl⟩ := List.mem_map.mp hl
    exact h s hs
  rw [split, String.toList_intercalate]
  change (List.splitOn '/' (['/'].intercalate _)).map String.ofList = ns
  rw [hsplit, List.map_map]
  exact List.map_id'' (fun s => String.ofList_toList) ns

/-- A path made of names leads, from a directory, to the names that follow the directory's. -/
theorem segmentsIn_intercalate (directory : String) {s : String} {rest : List String}
    (h : ∀ n ∈ s :: rest, IsName n) :
    segmentsIn directory ("/".intercalate (s :: rest)) = segments directory ++ s :: rest := by
  have hsplit : split ("/".intercalate (s :: rest)) = s :: rest :=
    split_intercalate (List.cons_ne_nil s rest) fun n hn => (h n hn).no_slash
  have hnames : names ("/".intercalate (s :: rest)) = s :: rest := by
    rw [names, hsplit, List.filter_eq_self]
    intro n hn
    simpa using (h n hn).nonempty
  rw [segmentsIn, isAbsolute_intercalate (h s List.mem_cons_self), if_neg Bool.false_ne_true,
    segments_append, hnames]
  rw [hsplit]
  exact fun n hn => ⟨(h n hn).ne_dot, (h n hn).ne_dots⟩

theorem relativeTo_of_relative {file : String} (directory : String)
    (h : isAbsolute file = false) : relativeTo directory file = file := by
  rw [relativeTo, h]
  rfl

/-- A path is left as it is or becomes the names that follow the directory's. -/
theorem relativeTo_eq_or {directory file : String} (hdirectory : isAbsolute directory = true)
    (hfile : isAbsolute file = true) : relativeTo directory file = file ∨
      ∃ s rest, segments file = segments directory ++ s :: rest ∧
        relativeTo directory file = "/".intercalate (s :: rest) := by
  by_cases hbelow : ∃ s rest, segments file = segments directory ++ s :: rest
  · obtain ⟨s, rest, h⟩ := hbelow
    rw [relativeTo_of_below hdirectory hfile h]
    cases s.startsWith ".." with
    | true => exact Or.inl rfl
    | false => exact Or.inr ⟨s, rest, h, rfl⟩
  · refine Or.inl (relativeTo_of_not_below fun s rest h => hbelow ⟨s, rest, h⟩)

/-- **What a path is made into denotes the same file** in the directory that it was made relative
to.  If it differs from the path it is relative and made of names alone, so it does not lead
upwards, and nothing changes when it is made relative again, to whatever directory. -/
theorem relativeTo_denotes {directory file : String} (hdirectory : isAbsolute directory = true)
    (hfile : isAbsolute file = true) :
    (∀ other, resolve directory (relativeTo directory file) = resolve other file) ∧
    (relativeTo directory file ≠ file →
      isAbsolute (relativeTo directory file) = false ∧
      (∀ s ∈ split (relativeTo directory file), IsName s) ∧
      (split (relativeTo directory file)).head? ≠ some ".." ∧
      ∀ other, relativeTo other (relativeTo directory file) = relativeTo directory file) := by
  have hresolve (other : String) : resolve other file = absolute (segments file) := by
    rw [resolve, segmentsIn, if_pos hfile]
  rcases relativeTo_eq_or hdirectory hfile with hsame | ⟨s, rest, hsegments, hrelative⟩
  · rw [hsame]
    exact ⟨fun other => (hresolve directory).trans (hresolve other).symm, fun h => absurd rfl h⟩
  · have hnames : ∀ n ∈ s :: rest, IsName n := fun n hn =>
      isName_of_mem_segments (p := file) (hsegments ▸ List.mem_append_right _ hn)
    have hsplit : split ("/".intercalate (s :: rest)) = s :: rest :=
      split_intercalate (List.cons_ne_nil s rest) fun n hn => (hnames n hn).no_slash
    have hs : IsName s := hnames s List.mem_cons_self
    rw [hrelative]
    refine ⟨fun other => ?_, fun _ => ⟨isAbsolute_intercalate hs rest, ?_, ?_, fun other => ?_⟩⟩
    · rw [hresolve, resolve, segmentsIn_intercalate directory hnames, hsegments]
    · rw [hsplit]
      exact hnames
    · rw [hsplit]
      exact fun h => hs.ne_dots (Option.some.inj h)
    · exact relativeTo_of_relative other (isAbsolute_intercalate hs rest)

/-- Empty segments and steps in the two paths make no difference. -/
theorem relativeTo_denotes_detour :
    isAbsolute "/srv/./app/" = true ∧ isAbsolute "//srv/app/../app/lib/" = true ∧
      relativeTo "/srv/./app/" "//srv/app/../app/lib/" = "lib" ∧
      resolve "/srv/./app/" "lib" = resolve "/tmp" "//srv/app/../app/lib/" ∧
      relativeTo "/tmp" "lib" = "lib" := by
  have hdirectory : isAbsolute "/srv/./app/" = true := by decide
  have hfile : isAbsolute "//srv/app/../app/lib/" = true := by decide
  have hsegments : segments "//srv/app/../app/lib/" = segments "/srv/./app/" ++ "lib" :: [] := by
    decide
  have hstart : "lib".startsWith ".." = false := by
    rw [Bool.eq_false_iff, Ne, String.startsWith_string_iff]
    decide
  have hrelative : relativeTo "/srv/./app/" "//srv/app/../app/lib/" = "lib" := by
    rw [relativeTo_of_below hdirectory hfile hsegments, hstart]
    rfl
  obtain ⟨hdenotes, hagain⟩ := relativeTo_denotes hdirectory hfile
  rw [hrelative] at hdenotes hagain
  obtain ⟨-, -, -, hother⟩ := hagain (by decide)
  exact ⟨hdirectory, hfile, hrelative, hdenotes "/tmp", hother "/tmp"⟩

end Path
end ModuleBuild
