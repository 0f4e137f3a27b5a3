import Formula.CommandLine.Arguments
import Formula.Diagnostic
import Formula.Expr.Outline
import Formula.Json.Write
import Formula.Log
import Formula.Text.Blank
import Formula.Text.Quoted

/-!
# Running a command line

Each formula is written in the chosen form, or reported on the error channel.
The exit code tells whether all of them had one.
-/

namespace Formula

/-- What a run writes and how it ends. -/
structure RunResult where
  code : Nat
  output : String
  errors : String
deriving DecidableEq, Repr

namespace CommandLine

/-- The text that tells the version. -/
def versionText : String := "exprtree 0.1.0"

/-- The text that explains the command line. -/
def helpText : String :=
  "Parse infix math expressions into syntax trees\n\n" ++
  "Usage: exprtree [OPTIONS] [EXPRESSION]\n\n" ++
  "  -f, --format <FORMAT>  tree, nested, json, infix or tokens\n" ++
  "      --tui              Open the interactive explorer\n" ++
  "  -v, --verbose          Log parser activity to stderr\n" ++
  "  -h, --help             Print help\n" ++
  "  -V, --version          Print version"

/-- A token as a line: its offset, its kind and its text. -/
def tokenLine (token : Token) : String :=
  Text.padStart 4 (Numeral.natural token.location.offset) ++ "  " ++
    Text.padEnd 10 token.kind.name ++ " " ++ token.text

/-- A tree in one of the forms. -/
def renderTree (format : OutputFormat) (e : Expr) : String :=
  match format with
  | .tree => "\n".intercalate e.outlineLines
  | .nested => e.toNested.listing
  | .json => e.toJson
  | .formula => e.render
  | .tokens => e.render

/-- What happened to one formula. -/
structure Processed where
  result : Except FormulaError String
  log : List LogRecord

/-- Writes a formula in one of the forms. Tokens are written without parsing, and
only parsing is logged. -/
def process (format : OutputFormat) (source : String) : Processed :=
  if format = .tokens then
    match tokenize source with
    | .ok tokens => ⟨.ok ("\n".intercalate (tokens.map tokenLine)), []⟩
    | .error error => ⟨.error (.lex error), []⟩
  else
    let opening : LogRecord := ⟨.debug, "exprtree", "parsing " ++ Text.quoted source⟩
    match tokenize source with
    | .error error => ⟨.error (.lex error), [opening]⟩
    | .ok tokens =>
      let transcript := transcribe .standard tokens
      ⟨(transcript.result.mapError .parse).map (renderTree format),
        opening :: transcript.records⟩

/-- A run with one more formula. A formula without a tree makes the exit code one. -/
def addFormula (result : RunResult) (limit : LogLevel) (source : String)
    (processed : Processed) : RunResult :=
  let shown := processed.log.filter fun record => limit.admits record.level
  let errors := result.errors ++ String.join (shown.map (·.line ++ "\n"))
  match processed.result with
  | .ok text => { result with output := result.output ++ text ++ "\n", errors := errors }
  | .error error =>
    { result with code := 1, errors := errors ++ error.report source ++ "\n" }

/-- The lines of an input as bytes, each up to its line feed or to the end. -/
def byteLines (bytes : List UInt8) : List (List UInt8) :=
  match bytes with
  | [] => []
  | byte :: rest =>
    if byte = 10 then [byte] :: byteLines rest
    else
      match byteLines rest with
      | [] => [[byte]]
      | line :: lines => (byte :: line) :: lines

/-- A line without the line feed that ends it and a carriage return before that. -/
def dropEnding (line : List Char) : List Char :=
  if line.getLast? = some '\n' then Text.dropReturn line.dropLast else line

/-- The text of a line, unless its bytes are no text. -/
def lineText? (line : List UInt8) : Option String :=
  (String.fromUTF8? (ByteArray.mk line.toArray)).map fun text =>
    String.ofList (dropEnding text.toList)

/-- Processes lines up to the first that is no text. Blank lines are skipped. -/
def processLines (format : OutputFormat) (limit : LogLevel) (result : RunResult) :
    List (List UInt8) → RunResult
  | [] => result
  | line :: lines =>
    match lineText? line with
    | none =>
      { result with
        code := 1
        errors := result.errors ++
          "Error reading stdin: stream did not contain valid UTF-8\n" }
    | some source =>
      if isBlankText source then processLines format limit result lines
      else
        processLines format limit (addFormula result limit source (process format source)) lines

/-- Runs what a command line asks for on an input. A run has no terminal, so the
explorer cannot be opened. -/
def run (invocation : Invocation) (input : List UInt8) : RunResult :=
  match invocation with
  | .version => ⟨0, versionText ++ "\n", ""⟩
  | .help => ⟨0, helpText ++ "\n", ""⟩
  | .misuse => ⟨2, "", "error: invalid arguments\n\n" ++ helpText ++ "\n"⟩
  | .run arguments =>
    let format := arguments.format.getD .tree
    let limit := LogLevel.ofVerbosity arguments.verbosity
    let fresh : RunResult := ⟨0, "", ""⟩
    if arguments.explorer then ⟨1, "", "Error: no terminal\n"⟩
    else
      match arguments.expression with
      | some source => addFormula fresh limit source (process format source)
      | none => processLines format limit fresh (byteLines input)

end CommandLine

end Formula
