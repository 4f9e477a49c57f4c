import ScriptEngine.Console.Arguments
import ScriptEngine.Console.Repl

/-!
# The command line

What a command writes and the number it exits with, given its arguments, the text of its input and
the files it can read.

* `perform` carries out the arguments of one run.
* A fault is reported with its causes, each set in below the one it explains.
-/

namespace ScriptEngine
namespace Console

/-- What a run writes, and the number it exits with. -/
structure Completed where
  exit : Nat
  report : Report

/-- The lines of a text; a carriage return before the end of a line does not count. -/
def linesFrom (run : List Char) : List Char → List String
  | [] => if run.isEmpty then [] else [String.ofList run.reverse]
  | '\n' :: rest =>
    let line := match run with
      | '\r' :: before => before
      | whole => whole
    String.ofList line.reverse :: linesFrom [] rest
  | c :: rest => linesFrom (c :: run) rest

def inputLines (input : String) : List String := linesFrom [] input.toList

/-- A cause, set in below what it explains. -/
def indented (cause : String) : String := "    " ++ "\n    ".intercalate (Text.split cause "\n")

def errorReport (error : String) (causes : List String) : String :=
  let below := match causes with
    | [] => ""
    | [cause] => "\n\nCaused by:\n" ++ indented cause
    | many =>
      "\n\nCaused by:" ++
        String.join (many.zipIdx.map fun c => s!"\n    {c.2}: {c.1}")
  "Error: " ++ error ++ below ++ "\n"

def failed (out error : String) (causes : List String) : Completed :=
  ⟨1, ⟨out, errorReport error causes⟩⟩

/-- Evaluates a text and writes its value unless that is nil. -/
def evalCode (limit : Nat) (code : String) : Completed :=
  match (Session.start limit).run code with
  | (.ok v, s) =>
    ⟨0, ⟨s.takeOutput.1, ""⟩ ++ if v.isNil then .none else .line (s.heap.display v)⟩
  | (.error f, s) => failed s.takeOutput.1 f.text []

def runSource (limit : Nat) (path : String) (content : Except FileFault String) : Completed :=
  let missing := match content with
    | .error f => !f.isPresent
    | .ok _ => false
  if missing then failed "" s!"File not found: {path}" []
  else
    match runFile (.start limit) path content with
    | (.ok _, s) => ⟨0, ⟨s.takeOutput.1, ""⟩⟩
    | (.error (.failed f), s) => failed s.takeOutput.1 s!"error running {path}" [f.text]
    | (.error (.unreadable p f), s) =>
      failed s.takeOutput.1 s!"error running {path}" [(LoadFault.unreadable p f).text, f.text]

/-- Runs an interactive session on an input. -/
def runRepl (limit : Nat) (read : String → Except FileFault String) (input : String) :
    Completed :=
  ⟨0, Repl.runLines read (inputLines input) (.start limit) ⟨Repl.greeting, ""⟩⟩

def versionText : String := "polyloft 0.2.0\n"

/-- Carries out the arguments of one run. -/
def perform (args : List String) (input : String) (read : String → Except FileFault String) :
    Completed :=
  match Request.ofArguments args with
  | .error fault => ⟨2, ⟨"", fault.text⟩⟩
  | .ok .version => ⟨0, ⟨versionText, ""⟩⟩
  | .ok .help => ⟨0, ⟨helpText, ""⟩⟩
  | .ok (.perform limit command) =>
    let limit := limit.getD Session.defaultLimit
    match command with
    | .run file => runSource limit file (read file)
    | .eval code => evalCode limit code
    | .repl => runRepl limit read input

end Console
end ScriptEngine
