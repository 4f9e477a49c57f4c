import ScriptEngine.Console.Files
import ScriptEngine.Session
import ScriptEngine.Text.Search

/-!
# The interactive session

Programs are read line by line and run in one session.  Lines are gathered until they are a whole
program; a line on its own may also be one of a few commands.

* `Repl.step` takes one line and gives what is written for it.
* `isIncomplete` tells whether a text may still become a program when more lines follow.
-/

namespace ScriptEngine
namespace Console

/-- What is written to the two streams. -/
structure Report where
  out : String
  err : String

namespace Report

def none : Report := ⟨"", ""⟩

def line (s : String) : Report := ⟨s ++ "\n", ""⟩

def result (s : String) : Report := .line ("\x1b[36m" ++ s ++ "\x1b[0m")

def error (s : String) : Report := ⟨"", "\x1b[31m" ++ s ++ "\x1b[0m\n"⟩

/-- One report after another. -/
def append (a b : Report) : Report := ⟨a.out ++ b.out, a.err ++ b.err⟩

instance : Append Report := ⟨append⟩

end Report

/-- What can go wrong with a source file. -/
inductive LoadFault
  | unreadable (path : String) (f : FileFault)
  | failed (f : Failure)

/-- The report of what went wrong. -/
def LoadFault.text : LoadFault → String
  | unreadable path f => s!"failed to read {path}: {f.text}"
  | failed f => f.text

def runFile (s : Session) (path : String) :
    Except FileFault String → Except LoadFault Value × Session
  | .error f => (.error (.unreadable path f), s)
  | .ok source =>
    match s.run source with
    | (.ok v, s) => (.ok v, s)
    | (.error f, s) => (.error (.failed f), s)

/-- Whether a text ends where a parser error is. -/
def isOpenPhrase : ParseCause → Bool
  | .unexpectedEof .. | .unclosedBlock .. => true
  | _ => false

/-- Whether a text ends within the token of an error. -/
def isOpenToken : LexCause → Bool
  | .unterminatedString | .unterminatedInterpolation => true
  | _ => false

/-- Whether a text only breaks off too early to be a program: its first error is at its end. -/
def isIncomplete (code : String) : Bool :=
  match Program.read code with
  | .ok _ => false
  | .error (.grammar errors) => errors.head?.any (isOpenPhrase ·.cause)
  | .error (.tokens errors) => errors.head?.any (isOpenToken ·.cause)

def commandWords : List String := ["exit", "quit", "help", "clear", "load"]

/-- Whether a line without blanks around it is a command. -/
def isCommand (line : String) : Bool :=
  ((Text.words line).head?.any commandWords.contains) && !line.contains '('

def loadPath? (command : String) : Option String :=
  if command.startsWith "load " then some (Text.trim (command.drop 5).toString) else none

/-- An interactive session. -/
structure Repl where
  session : Session
  /-- The lines of a program that is not complete. -/
  buffer : String

namespace Repl

def greeting : String := "Polyloft v0.2.0 REPL\nType help for help, exit to quit\n\n"

/-- The commands of the interactive session. -/
def help : String :=
  "Commands:\n" ++
  "  help            Show this help\n" ++
  "  clear           Reset session (discard all state)\n" ++
  "  load <file>     Load and execute a Polyloft file\n" ++
  "  exit            Exit the REPL (also Ctrl-D)\n"

/-- An interactive session in which nothing was read. -/
def start (limit : Nat) : Repl := ⟨.start limit, ""⟩

/-- The path of the file that a line asks for. -/
def wanted? (r : Repl) (line : String) : Option String :=
  let command := Text.trim line
  if r.buffer.isEmpty && isCommand command then loadPath? command else none

/-- The session after a program, and a report of what it printed followed by another. -/
def conclude (s : Session) (report : Report) : Repl × Report :=
  let r := s.takeOutput
  (⟨r.2, ""⟩, ⟨r.1, ""⟩ ++ report)

/-- Runs a source file. -/
def load (r : Repl) (path : String) (content : Except FileFault String) : Repl × Report :=
  match runFile r.session path content with
  | (.ok _, s) => conclude s (.line s!"Loaded: {path}")
  | (.error f, s) => conclude s (.error f.text)

/-- Carries out a command; nothing is left when it ends the session. -/
def command (r : Repl) (read : String → Except FileFault String) (line : String) :
    Option Repl × Report :=
  match line with
  | "exit" | "quit" => (none, .none)
  | "help" => (some r, ⟨help, ""⟩)
  | "clear" => (some ⟨r.session.reset, ""⟩, .line "Session cleared.")
  | _ =>
    match loadPath? line with
    | some path =>
      let result := r.load path (read path)
      (some result.1, result.2)
    | none =>
      (some r,
        .error s!"Unknown command: {line}" ++ ⟨"", "Type help for available commands.\n"⟩)

/-- Runs the gathered lines. -/
def evaluate (s : Session) (code : String) : Repl × Report :=
  match s.run code with
  | (.ok v, s) => conclude s (if v.isNil then .none else .result (s.heap.display v))
  | (.error f, s) => conclude s (.error f.text)

/-- Takes a line; nothing is left when it ends the session. -/
def step (r : Repl) (read : String → Except FileFault String) (line : String) :
    Option Repl × Report :=
  let trimmed := Text.trim line
  if trimmed.isEmpty then
    (some { r with buffer := if r.buffer.isEmpty then "" else r.buffer.push '\n' }, .none)
  else if r.buffer.isEmpty && isCommand trimmed then r.command read trimmed
  else
    let code := if r.buffer.isEmpty then line else r.buffer.push '\n' ++ line
    if isIncomplete code then (some { r with buffer := code }, .none)
    else
      let result := evaluate r.session code
      (some result.1, result.2)

/-- Takes lines until they are used up or one ends the session. -/
def runLines (read : String → Except FileFault String) : List String → Repl → Report → Report
  | [], _, report => report
  | line :: rest, r, report =>
    match r.step read line with
    | (some r, written) => runLines read rest r (report ++ written)
    | (none, written) => report ++ written

end Repl
end Console
end ScriptEngine
