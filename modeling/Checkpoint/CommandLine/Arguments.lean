import Checkpoint.Text.DecimalDigit

/-! # Arguments

The command line has one positional argument, the image, and options. An option may be shortened to
any beginning that it shares with no other; its value follows after an equals sign or as the next
argument. After two dashes every argument is positional. Arguments are texts: one whose bytes are
not UTF-8 has no counterpart here.

Two dashes are never a value: where they are attached to an option, they are dropped and leave it
without one. Readers of command lines have changed in this. This is how the older ones work; newer
ones take the dashes for the value, and they differ in what may follow the letter for help. -/
namespace Checkpoint.CommandLine

inductive Choice where
  | help
  | output
  | lenient
  | listSections
  | diag
  | diagJson
  | version
  deriving DecidableEq, Repr

def Choice.takesValue : Choice → Bool
  | output | diagJson => true
  | help | lenient | listSections | diag | version => false

def spellings : List (String × Choice) :=
  [("-h", .help), ("--help", .help), ("-o", .output), ("--output", .output),
   ("--lenient", .lenient), ("--list-sections", .listSections), ("--diag", .diag),
   ("--diag-json", .diagJson), ("--version", .version)]

/-- An argument by its form. -/
inductive Argument where
  | positional (text : String)
  /-- An option, whether it is spelled by one letter, and what is attached to it. -/
  | option (choice : Choice) (isLetter : Bool) (attached : Option String)
  /-- Something that looks like an option. -/
  | unknown
  | separator
  deriving DecidableEq, Repr

/-- The part of a text before the first equals sign and the part after it. -/
def cutAtEquals (text : List Char) : Option (List Char × List Char) :=
  match text.span (· ≠ '=') with
  | (name, _ :: value) => some (name, value)
  | (_, []) => none

/-- Whether a text is a decimal number without a sign, in digits of any scripts. A line break may
follow it. -/
def isNumber (text : List Char) : Bool :=
  let whole := text.takeWhile Text.isDecimalDigit
  let decimals (rest : List Char) : Bool :=
    match rest.dropWhile Text.isDecimalDigit with
    | [] | ['\n'] => rest.head?.any Text.isDecimalDigit
    | _ => false
  match text.dropWhile Text.isDecimalDigit with
  | [] | ['\n'] => !whole.isEmpty
  | '.' :: rest => decimals rest
  | _ => false

def isNegativeNumber (text : List Char) : Bool :=
  match text with
  | '-' :: number => isNumber number
  | _ => false

/-- The options that an argument may be a shortened spelling of, with the value in it. -/
def candidates (text : List Char) : List Argument :=
  let shortened (name : List Char) (value : Option String) : List Argument :=
    spellings.filterMap fun (spelling, choice) =>
      if name.isPrefixOf spelling.toList then some (.option choice false value) else none
  match text with
  | '-' :: '-' :: _ =>
    match cutAtEquals text with
    | some (name, value) => shortened name (some (String.ofList value))
    | none => shortened text none
  | '-' :: letter :: rest =>
    (spellings.lookup (String.ofList ['-', letter])).toList.map fun choice =>
      .option choice true (some (String.ofList rest))
  | _ => []

/-- Tells the form of an argument; nothing if it could be several options. -/
def classify (text : String) : Option Argument :=
  let chars := text.toList
  match chars with
  | ['-', '-'] => some .separator
  | '-' :: _ :: _ =>
    match spellings.lookup text with
    | some choice => some (.option choice false none)
    | none =>
      let exact := (cutAtEquals chars).bind fun (name, value) =>
        (spellings.lookup (String.ofList name)).map fun choice =>
          Argument.option choice (name.length = 2) (some (String.ofList value))
      match exact, candidates chars with
      | some argument, _ => some argument
      | none, [argument] => some argument
      | none, _ :: _ :: _ => none
      | none, [] =>
        if isNegativeNumber chars || chars.contains ' ' then some (.positional text)
        else some .unknown
  | _ => some (.positional text)

/-- Tells the forms of all arguments; nothing if one could be several options. -/
def classifyAll : List String → Option (List Argument)
  | [] => some []
  | text :: rest =>
    match classify text with
    | some .separator => some (.separator :: rest.map .positional)
    | some argument => (classifyAll rest).map (argument :: ·)
    | none => none

structure Options where
  input : String := ""
  /-- Where the document goes, unless the option has been left without a value. -/
  output : Option String := some "-"
  lenient : Bool := false
  listSections : Bool := false
  diag : Bool := false
  diagJson : String := ""
  deriving DecidableEq, Repr

inductive Command where
  | run (options : Options)
  | showVersion
  | showHelp
  /-- The arguments make no sense. -/
  | misuse
  deriving DecidableEq, Repr

structure Progress where
  options : Options := {}
  /-- Whether the image has been named. -/
  hasInput : Bool := false
  /-- Whether the image was named by the argument before. -/
  justNamed : Bool := false
  /-- Whether there was an argument that has no meaning. -/
  hasExtra : Bool := false

namespace Progress

/-- Notes the value of an option, or that it has been left without one. -/
def setValue (p : Progress) (choice : Choice) (value : Option String) : Progress :=
  let options := match choice with
    | .output => { p.options with output := value }
    | .diagJson => { p.options with diagJson := value.getD "" }
    | .help | .lenient | .listSections | .diag | .version => p.options
  { p with options, justNamed := false }

def setFlag (p : Progress) (choice : Choice) : Progress :=
  let options := match choice with
    | .lenient => { p.options with lenient := true }
    | .listSections => { p.options with listSections := true }
    | .diag => { p.options with diag := true }
    | .help | .output | .diagJson | .version => p.options
  { p with options, justNamed := false }

/-- Notes a positional argument: the first names the image. -/
def addPositional (p : Progress) (text : String) : Progress :=
  if p.hasInput then { p with hasExtra := true, justNamed := false }
  else { p with options := { p.options with input := text }, hasInput := true, justNamed := true }

/-- Notes a separator, which has to stand beside the name of the image. -/
def addSeparator (p : Progress) : Progress :=
  { p with hasExtra := p.hasExtra || (p.hasInput && !p.justNamed) }

def command (p : Progress) : Command :=
  if p.hasInput && !p.hasExtra then .run p.options else .misuse

end Progress

/-- Whether the letters behind the one of the help option let it be answered. They are read as
options of one letter; one that asks for a value has to have it, in the letters behind it or as the
first argument of `rest`. -/
def helps : (letters : List Char) → (rest : List Argument) → Bool
  | ['h'], _ => true
  | 'h' :: letters, rest => helps letters rest
  | ['o'], .positional _ :: _ => true
  | 'o' :: _ :: _, _ => true
  | _, _ => false

def read (p : Progress) : List Argument → Command
  | [] => p.command
  | .positional text :: rest => read (p.addPositional text) rest
  | .separator :: rest => read p.addSeparator rest
  | .unknown :: rest => read { p with hasExtra := true, justNamed := false } rest
  | .option choice isLetter (some attached) :: rest =>
    if choice.takesValue then
      read (p.setValue choice (if attached = "--" then none else some attached)) rest
    else if choice = .help ∧ isLetter ∧ helps attached.toList rest then .showHelp
    else .misuse
  | .option choice _ none :: rest =>
    if choice.takesValue then
      match rest with
      | .positional value :: rest => read (p.setValue choice (some value)) rest
      | _ => .misuse
    else match choice with
      | .help => .showHelp
      | .version => .showVersion
      | choice => read (p.setFlag choice) rest

def Command.ofArguments (arguments : List String) : Command :=
  match classifyAll arguments with
  | some arguments => read {} arguments
  | none => .misuse

end Checkpoint.CommandLine
