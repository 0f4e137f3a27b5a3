import Formula.Expr.Render

/-!
# Outlines

An outline draws a tree with one line for each node, every node above its
subtrees. The branches in front of a label show where the node hangs.
-/

namespace Formula

namespace Expr

/-- What the outline calls a node. -/
def label : Expr → String
  | literal (.integer value) => "Integer " ++ Numeral.integer value.toInt
  | literal (.real value) => "Real " ++ Numeral.formulaReal.write value
  | var name => "Variable " ++ String.singleton name
  | prefixed (.apply name) _ => "Apply " ++ name
  | prefixed op _ => "Prefix " ++ op.symbol
  | postfixed _ op => "Postfix " ++ op.symbol
  | binary op _ _ => "Binary " ++ op.symbol

/-- The branch to a node, by whether it is its parent's last subtree. -/
def branch (last : Bool) : String := if last then "└── " else "├── "

/-- What stands below that branch in the lines of the node's own subtrees. -/
def trunk (last : Bool) : String := if last then "    " else "│   "

/-- The outline lines of a node that hangs at a branch behind an indentation. -/
def branchLines (indent : String) (last : Bool) : Expr → List String
  | literal value => [indent ++ branch last ++ label (literal value)]
  | var name => [indent ++ branch last ++ label (var name)]
  | prefixed op operand =>
    (indent ++ branch last ++ label (prefixed op operand)) ::
      branchLines (indent ++ trunk last) true operand
  | postfixed operand op =>
    (indent ++ branch last ++ label (postfixed operand op)) ::
      branchLines (indent ++ trunk last) true operand
  | binary op left right =>
    (indent ++ branch last ++ label (binary op left right)) ::
      (branchLines (indent ++ trunk last) false left ++
        branchLines (indent ++ trunk last) true right)

/-- The outline lines of the subtrees of the root. -/
def childLines : Expr → List String
  | literal _ => []
  | var _ => []
  | prefixed _ operand => branchLines "" true operand
  | postfixed operand _ => branchLines "" true operand
  | binary _ left right => branchLines "" false left ++ branchLines "" true right

/-- The lines of the outline. -/
def outlineLines (e : Expr) : List String := e.label :: e.childLines

/-- The outline as a text whose lines all end in a line feed. -/
def outline (e : Expr) : String := String.join (e.outlineLines.map (· ++ "\n"))

/-- The outline has one line for each node that hangs at a branch. -/
theorem length_branchLines (indent : String) (last : Bool) (e : Expr) :
    (branchLines indent last e).length = e.nodeCount := by
  induction e generalizing indent last with
  | literal => rfl
  | var => rfl
  | prefixed op operand ih => simp [branchLines, nodeCount, ih, Nat.add_comm]
  | postfixed operand op ih => simp [branchLines, nodeCount, ih, Nat.add_comm]
  | binary op left right hl hr => simp [branchLines, nodeCount, hl, hr]; omega

end Expr

end Formula
