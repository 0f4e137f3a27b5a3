import Formula.Numeral.Layout
import Formula.Token.Basic

/-!
# Precedence tables

A grammar lists levels of operators from the tightest to the loosest. Each level
has one fixity, and only operators that can be used in it. Grammars are built
from lists of levels by `Grammar.ofLevels`, which names the first fault it finds.
-/

namespace Formula

/-- How a chain of equal infix operators is grouped. -/
inductive Associativity where
  | left
  | right
deriving DecidableEq, Repr

/-- Where the operators of a level stand. -/
inductive Fixity where
  | prefixOp
  | postfixOp
  | infixOp (associativity : Associativity)
deriving DecidableEq, Repr

namespace Fixity

/-- The fixity in words. -/
def describe : Fixity → String
  | prefixOp => "prefix"
  | postfixOp => "postfix"
  | infixOp .left => "left-associative infix"
  | infixOp .right => "right-associative infix"

/-- How operators of this fixity are grouped among themselves. -/
def associativity : Fixity → Associativity
  | prefixOp => .right
  | postfixOp => .left
  | infixOp side => side

/-- Whether an operator has a meaning in this fixity. -/
def accepts (fixity : Fixity) (op : Operator) : Bool :=
  match fixity with
  | prefixOp => op.asPrefix?.isSome
  | postfixOp => op.asPostfix?.isSome
  | infixOp _ => op.asBinary?.isSome

end Fixity

/-- The operators of a level: names, which apply functions, or symbols. -/
inductive OperatorSet where
  | names
  | symbols (operators : List Operator)
deriving DecidableEq, Repr

/-- Whether a token is one of the operators. Every name may apply a function, a
name of one letter too. -/
def OperatorSet.contains (operators : OperatorSet) (token : Token) : Bool :=
  match operators with
  | names => token.kind == .identifier || token.kind == .letter
  | symbols list => token.operator?.any list.contains

/-- A row of a precedence table. -/
structure Level where
  operators : OperatorSet
  fixity : Fixity
deriving DecidableEq, Repr

/-- What is wrong with a precedence table. Levels are counted from one. -/
inductive GrammarError where
  | empty
  | emptyLevel (level : Nat)
  | invalidOperator (level : Nat) (op : Operator) (fixity : Fixity)
  | applicationNotPrefix (level : Nat) (fixity : Fixity)
deriving DecidableEq, Repr

/-- The fault in words. -/
def GrammarError.message : GrammarError → String
  | empty => "precedence table has no levels"
  | emptyLevel level => "level " ++ Numeral.natural level ++ " has no operators"
  | invalidOperator level op fixity =>
    "level " ++ Numeral.natural level ++ ": '" ++ op.symbol ++ "' cannot be used as a " ++
      fixity.describe ++ " operator"
  | applicationNotPrefix level fixity =>
    "level " ++ Numeral.natural level ++ ": function application must be prefix, not " ++
      fixity.describe

namespace Level

/-- A level has operators, all of which have a meaning in its fixity; names
apply functions and so are prefix operators. -/
def Valid (level : Level) : Prop :=
  match level.operators with
  | .names => level.fixity = .prefixOp
  | .symbols list => list ≠ [] ∧ ∀ op ∈ list, level.fixity.accepts op

/-- The fault of the level with this number, if it has one. -/
def fault? (number : Nat) (level : Level) : Option GrammarError :=
  match level.operators with
  | .names =>
    if level.fixity = .prefixOp then none
    else some (.applicationNotPrefix number level.fixity)
  | .symbols list =>
    if list.isEmpty then some (.emptyLevel number)
    else (list.find? (!level.fixity.accepts ·)).map (.invalidOperator number · level.fixity)

/-- A level is valid when no fault is found in it. -/
theorem fault?_eq_none_iff {number : Nat} {level : Level} :
    level.fault? number = none ↔ level.Valid := by
  unfold fault? Valid
  cases level.operators with
  | names => simp
  | symbols list => cases list <;> simp

end Level

/-- The first fault of levels that are numbered from the given number on. -/
def Level.firstFault? (number : Nat) : List Level → Option GrammarError
  | [] => none
  | level :: levels => (level.fault? number).or (firstFault? (number + 1) levels)

/-- Levels without a fault are valid. -/
theorem Level.firstFault?_eq_none_iff {number : Nat} {levels : List Level} :
    firstFault? number levels = none ↔ ∀ level ∈ levels, level.Valid := by
  induction levels generalizing number with
  | nil => simp [firstFault?]
  | cons level levels ih => simp [firstFault?, Option.or_eq_none_iff, fault?_eq_none_iff, ih]

/-- A precedence table with at least one level, tightest first. -/
structure Grammar where
  levels : List Level
  nonempty : levels ≠ []
  valid : ∀ level ∈ levels, level.Valid

namespace Grammar

/-- The grammar with these levels, or the first fault in them. -/
def ofLevels (levels : List Level) : Except GrammarError Grammar :=
  if hempty : levels = [] then .error .empty
  else
    match hfault : Level.firstFault? 1 levels with
    | some fault => .error fault
    | none => .ok ⟨levels, hempty, Level.firstFault?_eq_none_iff.mp hfault⟩

/-- The levels of the usual table: application, factorial, power, signs,
products, sums. -/
def standardLevels : List Level := [
  ⟨.names, .prefixOp⟩,
  ⟨.symbols [.bang], .postfixOp⟩,
  ⟨.symbols [.caret], .infixOp .right⟩,
  ⟨.symbols [.plus, .minus], .prefixOp⟩,
  ⟨.symbols [.star, .slash], .infixOp .left⟩,
  ⟨.symbols [.plus, .minus], .infixOp .left⟩]

/-- The usual precedence table. -/
def standard : Grammar where
  levels := standardLevels
  nonempty := by simp [standardLevels]
  valid := by
    have hfault : Level.firstFault? 1 standardLevels = none := by decide
    exact Level.firstFault?_eq_none_iff.mp hfault

instance : Inhabited Grammar := ⟨standard⟩

/-- The index of the loosest level, counted from zero at the tightest. -/
def loosest (grammar : Grammar) : Nat := grammar.levels.length - 1

/-- The levels from the loosest to the tightest. -/
def loosestFirst (grammar : Grammar) : List Level := grammar.levels.reverse

end Grammar

end Formula
