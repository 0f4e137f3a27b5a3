import Formula.Expr.Basic

/-!
# Arenas

The parser keeps the nodes it makes in an arena and refers to them by number.
A node is stored behind its subtrees, so that numbers decrease on the way down
and every number in use stands for a tree.
-/

namespace Formula

/-- The number of a node in an arena. -/
abbrev NodeId := Nat

/-- A node whose subtrees are referred to by number. -/
inductive Node where
  | literal (value : Literal)
  | var (name : Char)
  | prefixed (op : PrefixOp) (operand : NodeId)
  | postfixed (operand : NodeId) (op : PostfixOp)
  | binary (op : BinaryOp) (left right : NodeId)
deriving DecidableEq, Repr

/-- The nodes made so far, in the order in which they were made. -/
structure Arena where
  nodes : Array Node := #[]

namespace Arena

/-- How many nodes there are. -/
def size (arena : Arena) : Nat := arena.nodes.size

/-- Stores a node. Its number is the former size of the arena. -/
def add (arena : Arena) (node : Node) : Arena := ⟨arena.nodes.push node⟩

/-- A node that is added is one node more. -/
@[simp] theorem size_add (arena : Arena) (node : Node) :
    (arena.add node).size = arena.size + 1 := by
  simp [add, size]

/-- The tree of a node, if the numbers in it exist and decrease. -/
def expr? (arena : Arena) (id : NodeId) : Option Expr :=
  match arena.nodes[id]? with
  | none => none
  | some (.literal value) => some (.literal value)
  | some (.var name) => some (.var name)
  | some (.prefixed op operand) =>
    if operand < id then (arena.expr? operand).map (.prefixed op) else none
  | some (.postfixed operand op) =>
    if operand < id then (arena.expr? operand).map (.postfixed · op) else none
  | some (.binary op left right) =>
    if _h : left < id ∧ right < id then
      match arena.expr? left, arena.expr? right with
      | some l, some r => some (.binary op l r)
      | _, _ => none
    else none
termination_by id
decreasing_by
  · assumption
  · assumption
  · exact _h.1
  · exact _h.2

end Arena

end Formula
