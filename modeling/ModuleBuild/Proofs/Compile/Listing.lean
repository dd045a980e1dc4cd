import ModuleBuild.Proofs.Compile.Within

/-! # Lists along a run

What happens in a run can be listed along it, as a function of the world that the run starts in.
A relation of worlds that is labelled with a list says what the list has to do with the worlds
before and after; that it holds of a run and its list, and that the run answers with what a
condition allows, is said by `Run.Along`.  For a relation whose lists add up (`Graded`) there is a
rule for each combinator.
-/
namespace ModuleBuild

/-- A labelled relation of worlds in which nothing happens along no change, and lists add up. -/
structure Graded {β : Type} (R : List β → World → World → Prop) : Prop where
  refl : ∀ w, R [] w w
  append : ∀ {xs ys w₁ w₂ w₃}, R xs w₁ w₂ → R ys w₂ w₃ → R (xs ++ ys) w₁ w₃

/-- Changes along which nothing is listed. -/
theorem Graded.conduct {β : Type} {R : List β → World → World → Prop} (hR : Graded R) :
    Conduct (R []) where
  refl := hR.refl
  trans := hR.append

namespace Run

variable {α α' β : Type} {R : List β → World → World → Prop} {post : α → Prop} {post' : α' → Prop}

/-- What is listed of what goes on from the result of a run. -/
def after (r : Run α) (k : α → World → List β) (w : World) : List β :=
  match r w with
  | (.ok a, w') => k a w'
  | (.error _, _) => []

/-- The relation holds of the worlds before and after the run with the list for the run, however
the run ends, and results satisfy the condition. -/
def Along (R : List β → World → World → Prop) (post : α → Prop) (r : Run α)
    (xs : World → List β) : Prop :=
  ∀ w, (r w).1 ≠ .error .exhausted → R (xs w) w (r w).2 ∧ ∀ a, (r w).1 = .ok a → post a

theorem Along.mono {post₂ : α → Prop} {r : Run α} {xs : World → List β} (h : Along R post r xs)
    (hpost : ∀ a, post a → post₂ a) : Along R post₂ r xs := fun w hne =>
  ⟨(h w hne).1, fun a ha => hpost a ((h w hne).2 a ha)⟩

/-- A run that leaves nothing to be listed. -/
theorem along_of_within {r : Run α} (h : Within (R []) r) :
    Along R (fun _ => True) r fun _ => [] := fun w hne => ⟨h w hne, fun _ _ => trivial⟩

section Rules

variable (hR : Graded R)
include hR

theorem along_pure {a : α} (ha : post a) : Along R post (pure a) fun _ => [] := fun w _ =>
  ⟨hR.refl w, fun b hb => by cases hb; exact ha⟩

theorem along_fail (f : Failure) : Along R post (fail f : Run α) fun _ => [] := fun w _ =>
  ⟨hR.refl w, nofun⟩

theorem along_bind {x : Run α} {f : α → Run α'} {xs : World → List β}
    {ys : α → World → List β} (hx : Along R post x xs)
    (hf : ∀ a, post a → Along R post' (f a) (ys a)) :
    Along R post' (x >>= f) fun w => xs w ++ x.after ys w := by
  intro w hne
  have hxw := hx w
  rw [bind_apply] at hne ⊢
  rcases hrun : x w with ⟨e | a, w'⟩
  · simp only [hrun, after] at hne hxw ⊢
    rw [List.append_nil]
    exact ⟨(hxw fun h => hne (by cases h; rfl)).1, nofun⟩
  · simp only [hrun, after] at hne hxw ⊢
    obtain ⟨hworlds, hpost⟩ := hxw nofun
    obtain ⟨hworlds', hpost'⟩ := hf a (hpost a rfl) w' hne
    exact ⟨hR.append hworlds hworlds', hpost'⟩

/-- What follows a run that leaves nothing to be listed. -/
theorem along_bind_of_within {x : Run α} {f : α → Run α'} {ys : α → World → List β}
    (hx : Within (R []) x) (hf : ∀ a, Along R post' (f a) (ys a)) :
    Along R post' (x >>= f) (x.after ys) :=
  along_bind hR (along_of_within hx) fun a _ => hf a

/-- Nothing more is listed of what follows a run. -/
theorem Along.bind {x : Run α} {f : α → Run α'} {xs : World → List β} (hx : Along R post x xs)
    (hf : ∀ a, post a → Along R post' (f a) fun _ => []) : Along R post' (x >>= f) xs := by
  have hnil (w : World) : x.after (fun _ _ => ([] : List β)) w = [] := by
    unfold after
    split <;> rfl
  have hxf := along_bind hR hx hf
  simp only [hnil, List.append_nil] at hxf
  exact hxf

/-- What is listed where a run starts, if nothing has changed yet. -/
theorem Along.cons {r : Run α} {xs : World → List β} {x : World → β} (h : Along R post r xs)
    (hx : ∀ w, R [x w] w w) : Along R post r fun w => x w :: xs w := fun w hne =>
  ⟨hR.append (hx w) (h w hne).1, (h w hne).2⟩

end Rules

theorem along_attempt {r : Run α} {xs : World → List β} (hr : Along R post r xs) :
    Along R (fun outcome => ∀ a, outcome = .ok a → post a) (attempt r) xs := by
  intro w hne
  have hrw := hr w
  unfold attempt at hne ⊢
  rcases hrun : r w with ⟨(f | _) | a, w'⟩
  · rw [hrun] at hrw
    exact ⟨(hrw nofun).1, fun _ ho b hb => by cases ho; cases hb⟩
  · rw [hrun] at hne
    exact (hne rfl).elim
  · rw [hrun] at hrw
    obtain ⟨hworlds, hpost⟩ := hrw nofun
    exact ⟨hworlds, fun _ ho b hb => by cases ho; cases hb; exact hpost a rfl⟩

end Run
end ModuleBuild
