/-! # Nodes of YAML documents

A document is a tree of scalars, sequences and mappings.  A node may carry a tag, which
says what it is, and an anchor, under which an alias further on refers to it.
-/
namespace ModuleBuild
namespace Yaml

/-- The tag and the anchor of a node, as they are written. -/
structure Props where
  tag : Option String
  anchor : Option String
  deriving DecidableEq

namespace Props

/-- Neither tag nor anchor. -/
def none : Props := ⟨.none, .none⟩

/-- The one or the other of two, unless there are both. -/
def either {α : Type} : Option α → Option α → Option (Option α)
  | .some _, .some _ => .none
  | .some a, .none => .some (.some a)
  | .none, b => .some b

/-- Properties given in two places; neither is given twice. -/
def join (p q : Props) : Option Props := do
  let tag ← either p.tag q.tag
  let anchor ← either p.anchor q.anchor
  some ⟨tag, anchor⟩

end Props

/-- A node. -/
inductive Node where
  | reference (name : String)
  /-- A scalar; what a plain one stands for depends on how it reads. -/
  | scalar (props : Props) (isPlain : Bool) (text : String)
  | sequence (props : Props) (items : List Node)
  | mapping (props : Props) (entries : List (Node × Node))

namespace Node

/-- The node where nothing is written. -/
def empty (p : Props) : Node := scalar p true ""

/-- A node with further properties; an alias takes none. -/
def withProps (p : Props) : Node → Option Node
  | reference name => if p = .none then some (reference name) else none
  | scalar q isPlain text => (p.join q).map fun p => scalar p isPlain text
  | sequence q items => (p.join q).map fun p => sequence p items
  | mapping q entries => (p.join q).map fun p => mapping p entries

end Node
end Yaml
end ModuleBuild
