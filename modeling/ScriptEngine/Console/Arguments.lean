import ScriptEngine.Console.Usage

/-!
# Arguments of the command line

The command line names a command, and options before or after its name.  The arguments before the
name and those after it are two levels, each with options of its own; what is given after the name
counts.

* `Level.scan` reads the arguments of one level, up to the name of a command.
* `Request.ofArguments` reads all arguments.  A limit is looked at when the next option comes or its
  level ends, so that a fault after the name of a command comes before a bad limit in front of it.
-/

namespace ScriptEngine
namespace Console

/-- A command that the program carries out. -/
inductive Command
  | run (file : String)
  | eval (code : String)
  | repl
  deriving Repr, DecidableEq

/-- What the arguments ask for. -/
inductive Request
  /-- To carry out a command with a limit on the nesting of calls, if one is given. -/
  | perform (limit : Option Nat) (c : Command)
  | version
  | help
  deriving Repr, DecidableEq

/-- What ends the reading of arguments before all are read. -/
inductive Halt
  | fault (f : UsageFault)
  | answer (r : Request)
  deriving Repr, DecidableEq

/-- A limit that has not been looked at. -/
inductive PendingLimit
  | none
  /-- Its option was given, and its value is the next argument. -/
  | awaited
  | value (text : String)
  deriving Repr, DecidableEq

/-- What has been read of the arguments of a level. -/
structure Level where
  /-- The command whose arguments these are, none in front of its name. -/
  command : Option CommandName
  /-- The options in the order of their first use. -/
  given : List Flag
  limit : Option Nat
  pending : PendingLimit
  argument : Option String
  deriving Repr, DecidableEq

/-- The digits of a limit as a number, or why they are none; a plus sign may stand before them. -/
def readLimit (s : String) : Except String Nat :=
  let digits := match s.toList with
    | '+' :: ds => if ds.isEmpty then ['+'] else ds
    | ds => ds
  if s.isEmpty then .error "cannot parse integer from empty string"
  else if !digits.all Char.isDigit then .error "invalid digit found in string"
  else
    let n := digits.foldl (fun n c => 10 * n + (c.toNat - 48)) 0
    if n < 0x10000000000000000 then .ok n else .error "number too large to fit in target type"

/-- Adds an option to those in use. -/
def insertFlag (flags : List Flag) (flag : Flag) : List Flag :=
  if flags.contains flag then flags else flags ++ [flag]

namespace Level

/-- A level of which nothing is read. -/
def start (command : Option CommandName) : Level := ⟨command, [], none, .none, none⟩

/-- Notes that an option is given, which may be so only once. -/
def give (a : Level) (flag : Flag) : Except Halt Level :=
  if a.given.contains flag then .error (.fault (.repeated flag a.command))
  else .ok { a with given := a.given ++ [flag] }

def setLimit (a : Level) (text : String) : Except Halt Level := do
  let a ← a.give .maxDepth
  match readLimit text with
  | .ok n => .ok { a with limit := some n }
  | .error reason => .error (.fault (.badLimit text reason))

/-- Looks at a limit that was left for later. -/
def settle (a : Level) : Except Halt Level :=
  match a.pending with
  | .none => .ok a
  | .awaited => .error (.fault .missingLimit)
  | .value text => ({ a with pending := .none } : Level).setLimit text

/-- The options in use when an unknown one comes.  A limit counts whatever its value, unless it is
the second one. -/
def inUse (a : Level) : List Flag :=
  match a.pending with
  | .value _ =>
    if a.given.contains .maxDepth then a.given.erase .maxDepth else a.given ++ [.maxDepth]
  | _ => a.given

/-- Takes an option without a value. -/
def raise (a : Level) (flag : Flag) : Except Halt Level := do
  let a ← a.settle
  match flag with
  | .help => .error (.answer .help)
  | .version => .error (.answer .version)
  | flag => a.give flag

/-- Takes an option by its long name, to which a value may be attached after an equals sign. -/
def takeLong (a : Level) (word : String) : Except Halt Level :=
  let body := word.toList.drop 2
  let name := String.ofList (body.takeWhile (· ≠ '='))
  let attached : Option String := match body.dropWhile (· ≠ '=') with
    | _ :: value => some (String.ofList value)
    | [] => none
  match (Flag.allowed a.command).find? (·.long == name), attached with
  | some .maxDepth, some value => do (← a.settle).setLimit value
  | some .maxDepth, none => do return { ← a.settle with pending := .awaited }
  | some flag, none => a.raise flag
  | some flag, some value =>
    .error (.fault (.unexpectedValue value flag (insertFlag a.given flag) a.command))
  | none, _ =>
    let meant := Flag.similar? a.command name
    let shown := meant.elim a.inUse (insertFlag a.inUse)
    .error (.fault (.unknownOption ("--" ++ name) meant shown a.command))

def takeLetter (a : Level) (letter : Char) : Except Halt Level :=
  match (Flag.allowed a.command).find? (·.short? == some letter) with
  | some flag => a.raise flag
  | none => .error (.fault (.unknownLetter letter a.command))

/-- The fault of a word that is neither option nor argument, after two dashes or not. -/
def strayWord (a : Level) (afterDashes : Bool) (word : String) : UsageFault :=
  match a.command with
  | some _ => .unexpectedWord word a.command
  | none =>
    if afterDashes && (CommandName.ofWord? word).isSome then .commandAfterDashes word
    else
      .unknownCommand word (Text.similarTo word (CommandName.all.map (·.word))) none

def takeWord (a : Level) (afterDashes : Bool) (word : String) : Except Halt Level :=
  match a.command.bind (·.parameter?), a.argument with
  | some _, none => do return { ← a.settle with argument := some word }
  | _, _ => .error (.fault (a.strayWord afterDashes word))

/-- What the words after the name of the help command ask for. -/
def helpOn : List String → Halt
  | [] => .answer .help
  | topic :: rest =>
    match CommandName.ofWord? topic, rest with
    | none, _ => .fault (.unknownCommand topic [] none)
    | some _, [] => .answer .help
    | some c, next :: _ => .fault (.unknownCommand next [] (some c))

/-- Reads the arguments of a level.  In front of the name of a command it ends at that name, and
what comes after the name is left. -/
def scan (a : Level) : List String → Except Halt (Level × Option (CommandName × List String))
  | [] => .ok (a, none)
  | word :: rest =>
    let mayName := a.command.isNone && a.pending != .awaited
    match if mayName then CommandName.ofWord? word else none with
    | some .help => .error (helpOn rest)
    | some c => .ok (a, some (c, rest))
    | none =>
      if word == "--" then do return (← rest.foldlM (fun a w => a.takeWord true w) a, none)
      else if word.startsWith "--" then do scan (← a.takeLong word) rest
      else if word.startsWith "-" && word != "-" then do
        scan (← (word.toList.drop 1).foldlM takeLetter a) rest
      else if a.pending = .awaited then scan { a with pending := .value word } rest
      else do scan (← a.takeWord false word) rest

/-- The command of a level, once all its arguments are read. -/
def finish (a : Level) (c : CommandName) : Except Halt Command :=
  match c, a.argument with
  | .run, some file => .ok (.run file)
  | .eval, some code => .ok (.eval code)
  | .repl, _ => .ok .repl
  | c, _ => .error (.fault (.missingArgument a.given c))

end Level

def Request.read (args : List String) : Except Halt Request := do
  let front ← (Level.start none).scan args
  match front.2 with
  | some (c, rest) =>
    let back ← (← (Level.start (some c)).scan rest).1.settle
    let command ← back.finish c
    let front ← front.1.settle
    return .perform (back.limit <|> front.limit) command
  | none =>
    let front ← front.1.settle
    .error (.fault (if front.given.isEmpty then .noArguments else .noCommand))

def Request.ofArguments (args : List String) : Except UsageFault Request :=
  match Request.read args with
  | .ok r | .error (.answer r) => .ok r
  | .error (.fault f) => .error f

end Console
end ScriptEngine
