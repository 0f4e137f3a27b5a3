/-!
# Arguments

A command line names at most one formula, the form of the output, and how much is
logged. Arguments are read from left to right, and the first one that is at
fault or that asks for the version or for help ends the reading.
-/

namespace Formula

/-- The forms of output. -/
inductive OutputFormat where
  | tree
  | nested
  | json
  | formula
  | tokens
deriving DecidableEq, Repr

/-- The form with a name. -/
def OutputFormat.ofName? : String → Option OutputFormat
  | "tree" => some .tree
  | "nested" => some .nested
  | "json" => some .json
  | "infix" => some .formula
  | "tokens" => some .tokens
  | _ => none

/-- What a command line asks for. -/
structure Arguments where
  /-- The formula; without one, formulas are read line by line. -/
  expression : Option String := none
  /-- The form of output, if it was given. -/
  format : Option OutputFormat := none
  /-- Whether the explorer is opened. -/
  explorer : Bool := false
  /-- How many times more output was asked for. -/
  verbosity : Nat := 0
deriving DecidableEq, Repr

/-- What a command line comes to. -/
inductive Invocation where
  | run (arguments : Arguments)
  | version
  | help
  | misuse
deriving DecidableEq, Repr

/-- Whether formulas are read from the input. -/
def Invocation.readsInput : Invocation → Bool
  | run arguments => arguments.expression.isNone && !arguments.explorer
  | _ => false

namespace Arguments

/-- What reading a part of a command line comes to: it goes on, perhaps with an
option that still lacks its value, or it ends. -/
inductive Progress where
  | more (arguments : Arguments)
  | formatValue (arguments : Arguments)
  | stop (invocation : Invocation)

/-- Sets the form of output, which may be given once. -/
def setFormat (arguments : Arguments) (name : String) : Progress :=
  match OutputFormat.ofName? name, arguments.format with
  | some format, none => .more { arguments with format := some format }
  | _, _ => .stop .misuse

/-- Sets the formula, which may be given once. -/
def setExpression (arguments : Arguments) (text : String) : Progress :=
  match arguments.expression with
  | none => .more { arguments with expression := some text }
  | some _ => .stop .misuse

/-- Asks for more output. -/
def louder (arguments : Arguments) : Arguments :=
  { arguments with verbosity := arguments.verbosity + 1 }

/-- The value behind a short option in the same argument; an equals sign in
front of it is no part of it. -/
def attachedValue : List Char → String
  | '=' :: value => String.ofList value
  | value => String.ofList value

/-- Reads short options that share an argument. -/
def shortOptions (arguments : Arguments) : List Char → Progress
  | [] => .more arguments
  | 'v' :: options => shortOptions arguments.louder options
  | ['f'] => .formatValue arguments
  | 'f' :: value => arguments.setFormat (attachedValue value)
  | 'V' :: _ => .stop .version
  | 'h' :: _ => .stop .help
  | _ => .stop .misuse

/-- Reads a long option without its dashes. -/
def longOption (arguments : Arguments) (name : String) (value : Option String) : Progress :=
  match name, value with
  | "format", some text => arguments.setFormat text
  | "format", none => .formatValue arguments
  | "verbose", none => .more arguments.louder
  | "tui", none =>
    if arguments.explorer then .stop .misuse else .more { arguments with explorer := true }
  | "version", none => .stop .version
  | "help", none => .stop .help
  | _, _ => .stop .misuse

/-- The part of an option in front of its first equals sign, and its value. -/
def splitValue (option : List Char) : String × Option String :=
  match option.dropWhile (· != '=') with
  | [] => (String.ofList option, none)
  | _ :: value => (String.ofList (option.takeWhile (· != '=')), some (String.ofList value))

/-- Reads one argument. A single dash is a formula. -/
def argument (arguments : Arguments) (text : String) : Progress :=
  match text.toList with
  | '-' :: '-' :: option => arguments.longOption (splitValue option).1 (splitValue option).2
  | '-' :: c :: options => arguments.shortOptions (c :: options)
  | _ => arguments.setExpression text

/-- Whether an argument cannot be the value of an option. -/
def startsOption (text : String) : Bool :=
  match text.toList with
  | '-' :: _ :: _ => true
  | _ => false

/-- Reads the arguments behind two dashes, which are no options. -/
def positionals (arguments : Arguments) : List String → Invocation
  | [] => .run arguments
  | text :: rest =>
    match arguments.setExpression text with
    | .more arguments => positionals arguments rest
    | .formatValue _ => .misuse
    | .stop invocation => invocation

/-- Reads arguments; the flag tells that the value of the form is missing. -/
def readFrom (arguments : Arguments) (wanted : Bool) : List String → Invocation
  | [] => if wanted then .misuse else .run arguments
  | text :: rest =>
    if !wanted && text == "--" then positionals arguments rest
    else
      match if wanted then
          if startsOption text then .stop .misuse else arguments.setFormat text
        else arguments.argument text with
      | .more arguments => readFrom arguments false rest
      | .formatValue arguments => readFrom arguments true rest
      | .stop invocation => invocation

/-- What a command line comes to. -/
def read (texts : List String) : Invocation := readFrom {} false texts

end Arguments

end Formula
