import ModuleBuild.Artifact.Build

/-! # Values that lead back into themselves

A list or a record of a host's may hold itself, at whatever depth.  Such values are given by a
`Graph`: cells that refer to each other by number.  A cell holds a finite value as a whole, or it
is a list or a record of cells.

`Graph.tagAt` writes what a cell stands for as `Term.tag` writes a value, going down the cells with
the list of those that it is in.  What leads back into itself has no document.  The engine notices
when it comes to write a list or a record which it is writing; but a record with a field `$term` is
written as a list of entries made for the purpose, so that nobody notices if all that leads back is
of this kind, and the engine goes on until it has no room left.
-/
namespace ModuleBuild
namespace Term

/-- What a cell of a graph of `n` cells holds. -/
inductive Cell (n : Nat) where
  /-- A value that does not refer to cells. -/
  | value (v : Value)
  | list (items : List (Fin n))
  | fields (entries : List (String × Fin n))

/-- Whether a cell is a record that is written as a list of entries. -/
def Cell.isEscaped {n : Nat} : Cell n → Bool
  | .fields es => (Value.findField tagName es).isSome
  | _ => false

/-- Cells that refer to each other. -/
structure Graph (n : Nat) where
  cell : Fin n → Cell n

/-- Why the value of a cell cannot be written. -/
inductive Refusal where
  | foreign (f : Foreign)
  /-- The engine comes to write what it is writing. -/
  | circular
  /-- The engine goes on and on. -/
  | endless

/-- What the engine says of values that lead back into themselves. -/
structure EngineWords where
  circular : String
  endless : String

/-- The error of a refusal. -/
def Refusal.failure (words : EngineWords) : Refusal → Failure
  | foreign f => .typeError (refusal f)
  | circular => .typeError words.circular
  | endless => .exception .range words.endless none .none

namespace Graph

variable {n : Nat} (g : Graph n)

/-- The cells that are not on a path. -/
def off (path : List (Fin n)) : List (Fin n) := (List.finRange n).filter (· ∉ path)

theorem length_off_cons_lt {path : List (Fin n)} {i : Fin n} (h : i ∉ path) :
    (off (i :: path)).length < (off path).length := by
  have hsub : off (i :: path) = (off path).filter (· ≠ i) := by
    simp only [off, List.filter_filter, List.mem_cons, not_or, Bool.decide_and]
  rw [hsub, List.length_filter_lt_length_iff_exists]
  exact ⟨i, List.mem_filter.mpr ⟨List.mem_finRange i, decide_eq_true h⟩, by simp⟩

/-- Why a cell on a path cannot be written again: the engine notices unless it has come back
through records that are written as lists of entries only. -/
def returning (path : List (Fin n)) (i : Fin n) : Refusal :=
  if (i :: path.takeWhile (· ≠ i)).all fun k => (g.cell k).isEscaped then .endless else .circular

/-- The document that stands for what is in a cell, on the path of the lists and records that the
cell is in, the innermost first. -/
def tagAt (path : List (Fin n)) (i : Fin n) : Except Refusal Json :=
  match g.cell i with
  | .value v => (tag v).mapError .foreign
  | .list items =>
    if _h : i ∈ path then .error (g.returning path i)
    else (items.mapM fun k => tagAt (i :: path) k).map .list
  | .fields es =>
    if _h : i ∈ path then .error (g.returning path i)
    else
      (es.mapM fun e => (tagAt (i :: path) e.2).map (e.1, ·)).map fun ms =>
        if (Value.findField tagName es).isSome then
          tagged "object" [("entries", .list (ms.map fun m => .list [.text m.1, m.2]))]
        else .object ms
termination_by (off path).length
decreasing_by
  all_goals exact length_off_cons_lt _h

/-- The payload of what is in a cell, or the failure to write it. -/
def payload (words : EngineWords) (i : Fin n) : Except Failure Bytes :=
  match g.tagAt [] i with
  | .ok j => .ok (Utf8.encode j.render)
  | .error r => .error (r.failure words)

end Graph
end Term
end ModuleBuild
