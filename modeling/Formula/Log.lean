import Formula.Text.Line

/-!
# Log records

A record has a level, the part of the program that it comes from, and a message.
A verbosity admits the records of its level and of the more severe ones.
-/

namespace Formula

/-- The levels of records, the most severe first. -/
inductive LogLevel where
  | warn
  | debug
  | trace
deriving DecidableEq, Repr

namespace LogLevel

/-- The level as records spell it. -/
def name : LogLevel → String
  | warn => "WARN"
  | debug => "DEBUG"
  | trace => "TRACE"

/-- How much detail a level has. -/
def detail : LogLevel → Nat
  | warn => 0
  | debug => 1
  | trace => 2

/-- The level chosen by asking for more output a number of times. -/
def ofVerbosity : Nat → LogLevel
  | 0 => warn
  | 1 => debug
  | _ => trace

/-- Whether records of the second level are shown at the first. -/
def admits (limit level : LogLevel) : Bool := level.detail ≤ limit.detail

/-- At a level its own records are shown. -/
theorem admits_self (level : LogLevel) : level.admits level := by
  simp [admits]

end LogLevel

/-- An entry of a log. -/
structure LogRecord where
  level : LogLevel
  target : String
  message : String
deriving DecidableEq, Repr

/-- The record as a line of a log. -/
def LogRecord.line (record : LogRecord) : String :=
  "[" ++ Text.padEnd 5 record.level.name ++ " " ++ record.target ++ "] " ++ record.message

end Formula
