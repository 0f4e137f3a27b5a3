import Formula.Token.Basic

/-!
# Expression trees

A formula denotes a tree of literals, variables and operators. Parentheses leave
no trace in it.
-/

namespace Formula

/-- The tree of a formula. -/
inductive Expr where
  | literal (value : Literal)
  | var (name : Char)
  | prefixed (op : PrefixOp) (operand : Expr)
  | postfixed (operand : Expr) (op : PostfixOp)
  | binary (op : BinaryOp) (left right : Expr)
deriving DecidableEq, Repr

namespace Expr

/-- Whether the tree is a literal or a variable. -/
def isAtom : Expr → Bool
  | literal _ => true
  | var _ => true
  | _ => false

/-- The height of the tree. An atom has height one. -/
def depth : Expr → Nat
  | literal _ => 1
  | var _ => 1
  | prefixed _ operand => 1 + operand.depth
  | postfixed operand _ => 1 + operand.depth
  | binary _ left right => 1 + max left.depth right.depth

/-- The number of literals, variables and operators in the tree. -/
def nodeCount : Expr → Nat
  | literal _ => 1
  | var _ => 1
  | prefixed _ operand => 1 + operand.nodeCount
  | postfixed operand _ => 1 + operand.nodeCount
  | binary _ left right => 1 + left.nodeCount + right.nodeCount

/-- The subtrees right below the root, from left to right. -/
def children : Expr → List Expr
  | literal _ => []
  | var _ => []
  | prefixed _ operand => [operand]
  | postfixed operand _ => [operand]
  | binary _ left right => [left, right]

/-- Equality of literals by value: both zeros are equal, and not-a-number
differs from itself. -/
def sameLiteral : Literal → Literal → Bool
  | .integer a, .integer b => a == b
  | .real a, .real b => a.sameValue b
  | _, _ => false

/-- Equality of trees, with reals compared by value. -/
def sameValue : Expr → Expr → Bool
  | literal a, literal b => sameLiteral a b
  | var a, var b => a == b
  | prefixed f a, prefixed g b => f == g && sameValue a b
  | postfixed a f, postfixed b g => f == g && sameValue a b
  | binary f a b, binary g c d => f == g && sameValue a c && sameValue b d
  | _, _ => false

/-- Every tree is at least one node deep. -/
theorem depth_pos (e : Expr) : 0 < e.depth := by
  cases e <;> simp only [depth] <;> omega

/-- A tree is no deeper than it has nodes. -/
theorem depth_le_nodeCount (e : Expr) : e.depth ≤ e.nodeCount := by
  induction e with
  | literal => exact Nat.le_refl _
  | var => exact Nat.le_refl _
  | prefixed op operand ih => simpa [depth, nodeCount] using ih
  | postfixed operand op ih => simpa [depth, nodeCount] using ih
  | binary op left right hl hr => simp only [depth, nodeCount]; omega

end Expr

end Formula
