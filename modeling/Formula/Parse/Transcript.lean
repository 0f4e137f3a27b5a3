import Formula.Log
import Formula.Parse.Rules
import Formula.Token.Scan

/-!
# Parsing a token list

The loosest rule is run at the first token and has to reach the end of the input.
The transcript of a parse holds its result and what is known of the run. Of all
failures of a run the one furthest to the right is reported, unless the nesting
limit was reached.
-/

namespace Formula

/-- The tokens with an end of the input at their end. If there is none, one is
put right behind the last token. -/
def Token.close (tokens : List Token) : List Token :=
  match tokens.getLast? with
  | none => [⟨.ending, "", Location.start⟩]
  | some last =>
    if last.isEnding then tokens
    else
      let place : Location := ⟨last.location.offset + last.text.utf8ByteSize,
        last.location.line, last.location.column + last.text.length⟩
      tokens ++ [⟨.ending, "", place⟩]

/-- The first end of the input among the tokens. -/
def Token.firstEnding (tokens : List Token) : Token :=
  (tokens.find? Token.isEnding).getD ⟨.ending, "", Location.start⟩

/-- The tokens in front of the first end of the input. -/
def Token.beforeEnding (tokens : List Token) : List Token :=
  tokens.takeWhile (!·.isEnding)

/-- What a parse did. -/
structure Transcript where
  /-- How many tokens there were, the end of the input among them. -/
  tokenCount : Nat
  /-- The tree, or why there is none. -/
  result : Except ParseError Expr
  /-- The use of the memo. -/
  stats : MemoStats
  /-- How many nodes were made. -/
  nodeCount : Nat
  /-- The outcomes that were given again, in order. -/
  hits : List (Rule × Nat)
  /-- The failures that were noted, in order. -/
  failures : List Failure
  /-- Whether the nesting limit was reached. -/
  limited : Bool

namespace Parse

/-- Notes a failure if tokens are left behind a match. Once the nesting limit
was reached nothing more is noted. -/
def checkEnding (tokens : List Token) : Outcome × ParseState → Outcome × ParseState
  | (.error error, state) => (.error error, state)
  | (.ok root, state) =>
    if state.tooDeep.isSome then (.ok root, state)
    else
      match tokensFrom tokens 0 root.finish with
      | [] => (.ok root, state)
      | next :: _ => state.fail .operatorOrEnding root.finish next

/-- The result of a parse that ended with an outcome in a state. -/
def conclude (context : ParseContext) : Outcome × ParseState → Except ParseError Expr
  | (outcome, state) =>
    match state.tooDeep with
    | some error => .error error
    | none =>
      match outcome with
      | .error error => .error ((state.furthest.map Prod.snd).getD error)
      | .ok root =>
        match state.arena.expr? root.node with
        | some e => .ok e
        | none => .error ⟨.expected .completeExpression, context.ending⟩

/-- What the rules read for a token list under a grammar. -/
def context (grammar : Grammar) (tokens : List Token) : ParseContext :=
  ⟨grammar.loosestFirst, Token.firstEnding (Token.close tokens)⟩

/-- The loosest rule run at the first token. It has to use up the tokens. -/
def runAll (grammar : Grammar) (tokens : List Token) : Outcome × ParseState :=
  checkEnding (Token.beforeEnding tokens)
    (run (context grammar tokens) grammar.loosestFirst 0 (Token.beforeEnding tokens) {})

end Parse

/-- Parses a token list under a grammar. -/
def transcribe (grammar : Grammar) (tokens : List Token) : Transcript :=
  let finished := Parse.runAll grammar tokens
  { tokenCount := (Token.close tokens).length
    result := Parse.conclude (Parse.context grammar tokens) finished
    stats := finished.2.memo.stats
    nodeCount := finished.2.arena.size
    hits := finished.2.memo.found.reverse
    failures := finished.2.failures.noted.reverse
    limited := finished.2.tooDeep.isSome }

/-- The tree of a token list under a grammar. -/
def parseTokens (grammar : Grammar) (tokens : List Token) : Except ParseError Expr :=
  (transcribe grammar tokens).result

namespace Transcript

/-- The record of an outcome that was given again. -/
def hitRecord (hit : Rule × Nat) : LogRecord where
  level := .trace
  target := "exprtree::parser::memo"
  message := "memo hit: " ++ hit.1.describe ++ " at token " ++ Numeral.natural hit.2

/-- A record about the whole parse. -/
def debugRecord (message : String) : LogRecord :=
  ⟨.debug, "exprtree::parser::parse", message⟩

/-- The record with the counts of the parse. -/
def countRecord (transcript : Transcript) : LogRecord :=
  debugRecord ("parsed " ++ Numeral.natural transcript.tokenCount ++ " tokens: " ++
    Numeral.natural transcript.stats.entries ++ " memo entries, " ++
    Numeral.natural transcript.stats.hits ++ " hits, " ++
    Numeral.natural transcript.stats.misses ++ " misses, " ++
    Numeral.natural transcript.nodeCount ++ " nodes")

/-- The record of a parse that reached the nesting limit. -/
def limitRecord : LogRecord :=
  debugRecord ("nesting limit of " ++ Numeral.natural nestingLimit ++ " rules reached")

/-- All records of the parse, in order. -/
def records (transcript : Transcript) : List LogRecord :=
  transcript.hits.map hitRecord ++
    transcript.countRecord :: if transcript.limited then [limitRecord] else []

end Transcript

end Formula
