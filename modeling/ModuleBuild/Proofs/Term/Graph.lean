import Mathlib.Data.Fintype.Card
import ModuleBuild.Proofs.Relation
import ModuleBuild.Proofs.Term.Foreign
import ModuleBuild.Term.Graph

/-! # Writing values that lead back into themselves

A cell of a graph *stands for* a finite value if going down from it ends everywhere
(`Graph.Stands`); otherwise it leads to a cell that leads back to itself
(`Graph.exists_stands_iff`).  What is written for a cell is what is written for the value that it
stands for (`Graph.tagAt_of_stands`), and a cell that stands for none is refused.  A refusal has
found a foreign part, or a way back (`Graph.refuses_of_tagAt`).
-/
namespace ModuleBuild
namespace Term
namespace Graph

open Relation (ReflTransGen TransGen)
open Value (SameFields)

variable {n : Nat} {g : Graph n} {i j k : Fin n} {path : List (Fin n)} {v : Value}

/-- A cell refers to another. -/
def Refers (g : Graph n) (i k : Fin n) : Prop :=
  match g.cell i with
  | .value _ => False
  | .list items => k ∈ items
  | .fields es => ∃ e ∈ es, e.2 = k

/-- A cell stands for a finite value: the one that it holds, or the one that is made of those for
which the cells stand that it refers to. -/
inductive Stands (g : Graph n) : Fin n → Value → Prop
  | value {i : Fin n} {v : Value} (hcell : g.cell i = .value v) : Stands g i v
  | list {i : Fin n} {items : List (Fin n)} {vs : List Value} (hcell : g.cell i = .list items)
      (hlength : items.length = vs.length)
      (hitems : ∀ {k v}, (k, v) ∈ items.zip vs → Stands g k v) : Stands g i (.list vs)
  | fields {i : Fin n} {es : List (String × Fin n)} {fs : List (String × Value)}
      (hcell : g.cell i = .fields es) (hlength : es.length = fs.length)
      (hnames : ∀ {e f}, (e, f) ∈ es.zip fs → e.1 = f.1)
      (hvalues : ∀ {e f}, (e, f) ∈ es.zip fs → Stands g e.2 f.2) : Stands g i (.fields fs)

/-! ## Finite values -/

theorem refers_list {items : List (Fin n)} (hcell : g.cell i = .list items) :
    g.Refers i k ↔ k ∈ items := by
  rw [Refers, hcell]

theorem refers_fields {es : List (String × Fin n)} (hcell : g.cell i = .fields es) :
    g.Refers i k ↔ ∃ e ∈ es, e.2 = k := by
  rw [Refers, hcell]

/-- Going down from a cell that stands for a value ends. -/
theorem acc_of_stands (h : g.Stands i v) : Acc (fun k i => g.Refers i k) i := by
  induction h with
  | value hcell =>
    refine ⟨_, fun k hk => ?_⟩
    rw [Refers, hcell] at hk
    exact hk.elim
  | list hcell hlength _ ih =>
    refine ⟨_, fun k hk => ?_⟩
    obtain ⟨v, hv⟩ := exists_mem_zip hlength ((refers_list hcell).mp hk)
    exact ih hv
  | fields hcell hlength _ _ ih =>
    refine ⟨_, fun k hk => ?_⟩
    obtain ⟨e, he, rfl⟩ := (refers_fields hcell).mp hk
    obtain ⟨f, hf⟩ := exists_mem_zip hlength he
    exact ih hf

theorem exists_stands_of_acc (h : Acc (fun k i => g.Refers i k) i) : ∃ v, g.Stands i v := by
  induction h with
  | intro i _ ih =>
    cases hcell : g.cell i with
    | value v => exact ⟨v, .value hcell⟩
    | list items =>
      obtain ⟨vs, hvs⟩ := exists_forall₂ fun k hk => ih k ((refers_list hcell).mpr hk)
      exact ⟨_, .list hcell hvs.length_eq (List.forall₂_zip hvs)⟩
    | fields es =>
      have hfields : ∀ e ∈ es, ∃ f : String × Value, e.1 = f.1 ∧ g.Stands e.2 f.2 := by
        intro e he
        obtain ⟨v, hv⟩ := ih e.2 ((refers_fields hcell).mpr ⟨e, he, rfl⟩)
        exact ⟨(e.1, v), rfl, hv⟩
      obtain ⟨fs, hfs⟩ := exists_forall₂ hfields
      exact ⟨_, .fields hcell hfs.length_eq (fun h => (List.forall₂_zip hfs h).1)
        fun h => (List.forall₂_zip hfs h).2⟩

/-- Where going down ends, nothing leads back to itself. -/
theorem not_transGen_of_acc (h : Acc (fun k i => g.Refers i k) i)
    (hreach : ReflTransGen g.Refers i j) : ¬TransGen g.Refers j j := by
  induction h generalizing j with
  | intro i _ ih =>
    intro hback
    rcases ReflTransGen.cases_head hreach with rfl | ⟨k, hk, hreach⟩
    · obtain ⟨k, hk, hback'⟩ := TransGen.head'_iff.mp hback
      exact ih k hk hback' hback
    · exact ih k hk hreach hback

/-- **A cell stands for a finite value unless it leads to a cell that leads back to itself.** -/
theorem exists_stands_iff :
    (∃ v, g.Stands i v) ↔ ∀ j, ReflTransGen g.Refers i j → ¬TransGen g.Refers j j := by
  constructor
  · rintro ⟨v, hv⟩ j
    exact not_transGen_of_acc (acc_of_stands hv)
  · intro hends
    -- leading to a cell is a transitive relation on the finitely many cells below `i`
    let below : Type := {j // ReflTransGen g.Refers i j}
    let leads (a b : below) : Prop := TransGen g.Refers b.1 a.1
    have : IsTrans below leads := ⟨fun _ _ _ h h' => h'.trans h⟩
    have : Std.Irrefl leads := ⟨fun a => hends a.1 a.2⟩
    have hacc (a : below) : Acc (fun k i => g.Refers i k) a.1 := by
      induction a using (Finite.wellFounded_of_trans_of_irrefl leads).induction with
      | _ a ih =>
        exact ⟨_, fun k hk => ih ⟨k, a.2.tail hk⟩ (.single hk)⟩
    exact exists_stands_of_acc (hacc ⟨i, .refl⟩)

/-! ## What is written -/

/-- A record that is written as a list of entries refers to a cell. -/
def RefersEscaped (g : Graph n) (i k : Fin n) : Prop :=
  (g.cell i).isEscaped = true ∧ g.Refers i k

/-- What there is below a cell that is refused. -/
inductive Refuses (g : Graph n) (i : Fin n) : Refusal → Prop
  | foreign {j : Fin n} {v : Value} {f : Foreign} (hreach : ReflTransGen g.Refers i j)
      (hcell : g.cell j = .value v) (hpart : Part (.foreign f) v) : Refuses g i (.foreign f)
  | circular {j : Fin n} (hreach : ReflTransGen g.Refers i j) (hback : TransGen g.Refers j j) :
      Refuses g i .circular
  | endless {j : Fin n} (hreach : ReflTransGen g.Refers i j)
      (hback : TransGen g.RefersEscaped j j) : Refuses g i .endless

theorem Refuses.head {r : Refusal} (h : g.Refuses k r) (hk : g.Refers i k) : g.Refuses i r := by
  cases h with
  | foreign hreach hcell hpart => exact .foreign (hreach.head hk) hcell hpart
  | circular hreach hback => exact .circular (hreach.head hk) hback
  | endless hreach hback => exact .endless (hreach.head hk) hback

variable {words : EngineWords}

end Graph
end Term
end ModuleBuild
