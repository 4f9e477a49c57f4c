import ScriptEngine.Console.Basic

/-!
# The program

The command line on real files and streams.  An interactive session answers line by line.
-/

namespace ScriptEngine
namespace Console

/-- What the system reports about a file that cannot be read. -/
def fileFault (e : IO.Error) : FileFault :=
  match e with
  | .noFileOrDirectory .. | .noSuchThing .. => .missing
  | .inappropriateType .. => .directory
  | e => .other (toString e)

def readSource (path : String) : IO (Except FileFault String) := do
  match ← (IO.FS.readBinFile path).toBaseIO with
  | .error e => return .error (fileFault e)
  | .ok bytes =>
    match String.fromUTF8? bytes with
    | some text => return .ok text
    | none => return .error .notText

/-- Writes a report to the two streams. -/
def writeReport (r : Report) : IO Unit := do
  let out ← IO.getStdout
  let err ← IO.getStderr
  out.putStr r.out
  out.flush
  err.putStr r.err
  err.flush

/-- A line without its end. -/
def chomp (line : String) : String := ((inputLines line).head?).getD ""

/-- Reads lines and answers each until the input or the session ends. -/
partial def interact (input : IO.FS.Stream) (prompts : Bool) (r : Repl) : IO Unit := do
  if prompts then
    writeReport ⟨if r.buffer.isEmpty then "polyloft> " else "     ... ", ""⟩
  let raw ← input.getLine
  if raw.isEmpty then return
  let line := chomp raw
  let content ← match r.wanted? line with
    | some path => readSource path
    | none => pure (.error .missing)
  let result := r.step (fun _ => content) line
  writeReport result.2
  match result.1 with
  | some r => interact input prompts r
  | none => return

/-- Carries out the arguments on the real files and streams. -/
def runProcess (args : List String) : IO UInt32 := do
  match Request.ofArguments args with
  | .ok (.perform limit .repl) =>
    let input ← IO.getStdin
    writeReport ⟨Repl.greeting, ""⟩
    interact input (← input.isTty) (.start (limit.getD Session.defaultLimit))
    return 0
  | request =>
    let content ← match request with
      | .ok (.perform _ (.run file)) => readSource file
      | _ => pure (.error .missing)
    let done := perform args "" fun _ => content
    writeReport done.report
    return done.exit.toUInt32

end Console
end ScriptEngine

def main (args : List String) : IO UInt32 := ScriptEngine.Console.runProcess args
