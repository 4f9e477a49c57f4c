import ScriptEngine.Text.Search

/-!
# Use of the program

The commands and options of the command line, and what can be wrong with its arguments.

* `usage` is the line that tells how a command is used with some options.
* `UsageFault.text` is the report of a fault.
-/

namespace ScriptEngine
namespace Console

/-- The name of a command. -/
inductive CommandName
  | run
  | eval
  | repl
  | help
  deriving Repr, DecidableEq

namespace CommandName

def word : CommandName → String
  | run => "run"
  | eval => "eval"
  | repl => "repl"
  | help => "help"

/-- The argument that a command takes, as its usage shows it. -/
def parameter? : CommandName → Option String
  | run => some "<FILE>"
  | eval => some "<CODE>"
  | repl => none
  | help => some "[COMMAND]..."

/-- All commands, in the order in which they are listed. -/
def all : List CommandName := [run, eval, repl, help]

def ofWord? (s : String) : Option CommandName := all.find? (·.word == s)

end CommandName

/-- An option. -/
inductive Flag
  | maxDepth
  | randomSelect
  | verbose
  | help
  | version
  deriving Repr, DecidableEq

namespace Flag

/-- The long name of an option. -/
def long : Flag → String
  | maxDepth => "max-depth"
  | randomSelect => "random-select"
  | verbose => "verbose"
  | help => "help"
  | version => "version"

/-- The letter that stands for an option. -/
def short? : Flag → Option Char
  | verbose => some 'v'
  | help => some 'h'
  | version => some 'V'
  | maxDepth | randomSelect => none

/-- How an option is written, with the value that it takes. -/
def text : Flag → String
  | maxDepth => "--max-depth <MAX_DEPTH>"
  | flag => "--" ++ flag.long

/-- The options after a command, or before one; only the program itself has a version. -/
def allowed : Option CommandName → List Flag
  | none => [maxDepth, randomSelect, verbose, help, version]
  | some _ => [maxDepth, randomSelect, verbose, help]

/-- The allowed option whose long name is closest to a word, if one is close. -/
def similar? (c : Option CommandName) (word : String) : Option Flag :=
  ((Text.similarTo word ((allowed c).map long)).getLast?).bind fun name =>
    (allowed c).find? (·.long == name)

end Flag

/-- How a command, or else the program, is used with some options. -/
def usage (c : Option CommandName) (options : List String) : String :=
  let parameter := match c with
    | none => some "<COMMAND>"
    | some c => c.parameter?
  " ".intercalate (["Usage: polyloft"] ++ (c.map (·.word)).toList ++ options ++ parameter.toList)

/-- How it is used in general; help is asked for without options. -/
def generalUsage (c : Option CommandName) : String :=
  usage c (if c = some .help then [] else ["[OPTIONS]"])

/-- How it is used with the options that were given. -/
def usageWith (c : Option CommandName) (given : List Flag) : String :=
  if given.isEmpty then generalUsage c else usage c (given.map (·.text))

/-- How the program is used, with its commands and options. -/
def helpText : String :=
  "Polyloft scripting language runtime\n\n" ++ generalUsage none ++ "\n\n" ++
  "Commands:\n" ++
  "  run   Run a Polyloft file\n" ++
  "  eval  Evaluate inline source and print the result\n" ++
  "  repl  Start interactive REPL\n" ++
  "  help  Print this message or the help of the given subcommand(s)\n\n" ++
  "Options:\n" ++
  "      --max-depth <MAX_DEPTH>  Maximum call depth before evaluation fails\n" ++
  "      --random-select          Pick uniformly among ready \x60select\x60 cases instead of " ++
  "the first declared\n" ++
  "  -v, --verbose                Log engine events at debug level\n" ++
  "  -h, --help                   Print help\n" ++
  "  -V, --version                Print version\n"

/-- What is wrong with arguments.  The command is the one after whose name the fault is, and the
flags are the options that its usage shows. -/
inductive UsageFault
  | noArguments
  | noCommand
  | unknownCommand (word : String) (similar : List String) (command : Option CommandName)
  | commandAfterDashes (word : String)
  | unexpectedWord (word : String) (command : Option CommandName)
  | unknownLetter (letter : Char) (command : Option CommandName)
  | unknownOption (word : String) (meant : Option Flag) (given : List Flag)
      (command : Option CommandName)
  | unexpectedValue (value : String) (flag : Flag) (given : List Flag)
      (command : Option CommandName)
  | repeated (flag : Flag) (command : Option CommandName)
  | missingArgument (given : List Flag) (command : CommandName)
  | missingLimit
  | badLimit (text reason : String)
  deriving Repr, DecidableEq

namespace UsageFault

def message : UsageFault → String
  | noArguments => ""
  | noCommand =>
    "'polyloft' requires a subcommand but one was not provided\n  [subcommands: " ++
      ", ".intercalate (CommandName.all.map (·.word)) ++ "]"
  | unknownCommand word _ _ => s!"unrecognized subcommand '{word}'"
  | commandAfterDashes word | unexpectedWord word _ => s!"unexpected argument '{word}' found"
  | unknownLetter letter _ => s!"unexpected argument '-{letter}' found"
  | unknownOption word _ _ _ => s!"unexpected argument '{word}' found"
  | unexpectedValue value flag _ _ =>
    s!"unexpected value '{value}' for '{flag.text}' found; no more were expected"
  | repeated flag _ => s!"the argument '{flag.text}' cannot be used multiple times"
  | missingArgument _ command =>
    "the following required arguments were not provided:\n  " ++ command.parameter?.getD ""
  | missingLimit => s!"a value is required for '{Flag.maxDepth.text}' but none was supplied"
  | badLimit text reason => s!"invalid value '{text}' for '{Flag.maxDepth.text}': {reason}"

/-- The advice to pass a word as the argument of a command, if the command takes one. -/
def passAsValue (word : String) (command : Option CommandName) : Option String :=
  (command.bind (·.parameter?)).map fun _ => s!"to pass '{word}' as a value, use '-- {word}'"

/-- Advice on what may have been meant. -/
def tip? : UsageFault → Option String
  | unknownCommand _ [] _ => none
  | unknownCommand _ [similar] _ => some s!"a similar subcommand exists: '{similar}'"
  | unknownCommand _ similar _ =>
    some ("some similar subcommands exist: " ++
      ", ".intercalate (similar.map fun s => "'" ++ s ++ "'"))
  | commandAfterDashes word =>
    some s!"subcommand '{word}' exists; to use it, remove the '--' before it"
  | unknownLetter letter command => passAsValue s!"-{letter}" command
  | unknownOption _ (some flag) _ _ => some s!"a similar argument exists: '--{flag.long}'"
  | unknownOption word none _ command => passAsValue word command
  | _ => none

/-- The use that the report shows. -/
def usage? : UsageFault → Option String
  | noArguments | missingLimit | badLimit _ _ => none
  | noCommand | commandAfterDashes _ => some (generalUsage none)
  | unknownCommand _ _ command | unexpectedWord _ command | unknownLetter _ command
  | repeated _ command => some (generalUsage command)
  | unknownOption _ _ given command | unexpectedValue _ _ given command =>
    some (usageWith command given)
  | missingArgument given command => some (usage (some command) (given.map (·.text)))

/-- The hint at the help of the program; the help of help has none. -/
def hint : UsageFault → String
  | unknownCommand _ _ (some .help) => "\n"
  | _ => "\n\nFor more information, try '--help'.\n"

/-- The report of a fault; without arguments it is the help of the program. -/
def text : UsageFault → String
  | noArguments => helpText
  | fault =>
    "error: " ++ fault.message ++ (fault.tip?.elim "" fun tip => "\n\n  tip: " ++ tip) ++
      (fault.usage?.elim "" fun use => "\n\n" ++ use) ++ fault.hint

end UsageFault

end Console
end ScriptEngine
