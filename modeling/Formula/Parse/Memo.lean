import Formula.Grammar
import Formula.Parse.Arena
import Formula.Parse.Failure
import Std.Data.HashMap

/-!
# Remembered outcomes

The outcome of a rule depends only on the rule and on the token at which it
starts. A memo keeps one outcome for each such pair, and the pairs that were
looked up, with success and in vain.
-/

namespace Formula

/-- A rule of the parser: a level of the grammar, counted from zero at the
tightest, or what stands below all levels. -/
inductive Rule where
  | primary
  | level (index : Nat)
deriving DecidableEq, Hashable, Repr

namespace Rule

/-- The rule whose own level stands in front of the tighter ones. -/
def ofLevels : List Level → Rule
  | [] => .primary
  | _ :: tighter => .level tighter.length

/-- The rule as log records call it. -/
def describe : Rule → String
  | primary => "Primary"
  | level index => "Level(" ++ Numeral.natural index ++ ")"

end Rule

/-- What a rule found: the node it made and the index of the token behind it. -/
structure Match where
  node : NodeId
  finish : Nat
deriving DecidableEq, Repr

/-- How a rule ended. -/
abbrev Outcome := Except ParseError Match

/-- Counts of the use of a memo. -/
structure MemoStats where
  hits : Nat
  misses : Nat
  entries : Nat
deriving DecidableEq, Repr

/-- The outcomes known so far. The pairs that were looked up are kept newest first. -/
structure Memo where
  entries : Std.HashMap (Rule × Nat) Outcome := ∅
  found : List (Rule × Nat) := []
  missed : List (Rule × Nat) := []

namespace Memo

/-- Counts of the use so far. -/
def stats (memo : Memo) : MemoStats :=
  ⟨memo.found.length, memo.missed.length, memo.entries.size⟩

/-- The outcome of a rule at a token, if it is known. -/
def outcome? (memo : Memo) (rule : Rule) (position : Nat) : Option Outcome :=
  memo.entries[(rule, position)]?

/-- The memo after a successful look-up. -/
def noteHit (memo : Memo) (rule : Rule) (position : Nat) : Memo :=
  { memo with found := (rule, position) :: memo.found }

/-- The memo after a look-up in vain. -/
def noteMiss (memo : Memo) (rule : Rule) (position : Nat) : Memo :=
  { memo with missed := (rule, position) :: memo.missed }

/-- Keeps the outcome of a rule at a token. -/
def insert (memo : Memo) (rule : Rule) (position : Nat) (outcome : Outcome) : Memo :=
  { memo with entries := memo.entries.insert (rule, position) outcome }

/-- The outcome kept last is the one found. -/
theorem outcome?_insert (memo : Memo) (rule other : Rule) (position start : Nat)
    (outcome : Outcome) :
    (memo.insert rule position outcome).outcome? other start =
      if rule = other ∧ position = start then some outcome else memo.outcome? other start := by
  simp [outcome?, insert, Std.HashMap.getElem?_insert]

end Memo

end Formula
