/-!
# Directories of source files

A directory holds texts under relative paths such as `a.pf` or `lib/b.pf`.

* `Directory.read` gives the text that a path leads to, or why there is none.
* A path is taken apart at its slashes; empty steps and single dots lead nowhere, two dots lead to
  the directory around.  Outside the directory there are directories only, and none can be named.
-/

namespace ScriptEngine
namespace Console

/-- Why a path cannot be read. -/
inductive FileFault
  | missing
  | directory
  | belowFile
  | notText
  | nameTooLong
  | nulByte
  | other (report : String)
  deriving Repr, DecidableEq

def FileFault.text : FileFault → String
  | missing => "No such file or directory (os error 2)"
  | directory => "Is a directory (os error 21)"
  | belowFile => "Not a directory (os error 20)"
  | notText => "stream did not contain valid UTF-8"
  | nameTooLong => "File name too long (os error 36)"
  | nulByte => "file name contained an unexpected NUL byte"
  | other report => report

/-- Whether the path leads to something, be it readable or not. -/
def FileFault.isPresent : FileFault → Bool
  | directory | notText => true
  | missing | belowFile | nameTooLong | nulByte | other _ => false

/-- The texts in a directory, each with its path. -/
structure Directory where
  files : List (String × String)

namespace Directory

/-- The pieces of a path between its slashes; `run` is the current one, its last character first. -/
def piecesFrom (run : List Char) : List Char → List String
  | [] => [String.ofList run.reverse]
  | '/' :: rest => String.ofList run.reverse :: piecesFrom [] rest
  | c :: rest => piecesFrom (c :: run) rest

def steps (path : String) : List String :=
  (piecesFrom [] path.toList).filter fun s => s != "" && s != "."

/-- What a part of a path leads to. -/
inductive Place
  | within (steps : List String)
  /-- A directory around the files. -/
  | outside
  | file (content : String)

/-- The longest name that a file can have, in bytes. -/
def longestName : Nat := 255

/-- The longest path that can be asked for, in bytes. -/
def longestPath : Nat := 4095

/-- The place at the end of some steps, those before the last one leading to a directory. -/
def place (d : Directory) (target : List String) : Except FileFault Place :=
  match d.files.find? fun f => steps f.1 == target with
  | some f => .ok (.file f.2)
  | none =>
    if d.files.any fun f => target.isPrefixOf (steps f.1) then .ok (.within target)
    else .error .missing

/-- Takes one step of a path; no step leads on from a file. -/
def step (d : Directory) (p : Place) (name : String) : Except FileFault Place :=
  match p, name with
  | .file _, _ => .error .belowFile
  | p, "" | p, "." => .ok p
  | .within (first :: steps), ".." => .ok (.within (first :: steps).dropLast)
  | _, ".." => .ok .outside
  | p, name =>
    if longestName < name.utf8ByteSize then .error .nameTooLong
    else
      match p with
      | .within steps => d.place (steps ++ [name])
      | _ => .error .missing

/-- What a path leads to; one that begins with a slash leads from outside. -/
def read (d : Directory) (path : String) : Except FileFault String := do
  if path.contains '\x00' then throw .nulByte
  if path.isEmpty then throw .missing
  if longestPath < path.utf8ByteSize then throw .nameTooLong
  let origin : Place := if path.startsWith "/" then .outside else .within []
  match ← (piecesFrom [] path.toList).foldlM d.step origin with
  | .file content => return content
  | _ => throw .directory

end Directory
end Console
end ScriptEngine
