import ScriptEngine.Console.Repl

/-!
# Programs of several lines

The prompt gathers lines as long as the text so far is incomplete, and evaluates the text with the line
that makes it something else (`runLines_gathers`).  So a program that is typed line by line is evaluated
as a whole just if each of its lines but the last leaves an incomplete text.

Not every beginning of a program is incomplete in this sense: where the first line of a program is
rejected it is evaluated alone, and so is the rest.
-/

namespace ScriptEngine
namespace Console
namespace Repl

/-- A line with nothing on it. -/
def isBlank (line : String) : Bool := (Text.trim line).isEmpty

/-- What is gathered with one line more; a blank one counts as empty. -/
def gather (buffer line : String) : String :=
  if isBlank line then if buffer.isEmpty then "" else buffer.push '\n'
  else if buffer.isEmpty then line else buffer.push '\n' ++ line

/-- The text of lines. -/
def textOf (lines : List String) : String := lines.foldl gather ""

/-- Whether a line is read as a command; no line is one while others are gathered. -/
def isOrder (buffer line : String) : Bool :=
  !isBlank line && buffer.isEmpty && isCommand (Text.trim line)

/-- Whether lines are gathered, each with those before it. -/
def areGathered (buffer : String) : List String → Bool
  | [] => true
  | line :: rest =>
    !isOrder buffer line && (isBlank line || isIncomplete (gather buffer line)) &&
      areGathered (gather buffer line) rest

variable {r : Repl} {read : String → Except FileFault String} {line last : String}
variable {lines rest : List String} {report : Report}

/-- A line that leaves the text incomplete is gathered. -/
theorem step_open
    (read : String → Except FileFault String) (horder : isOrder r.buffer line = false)
    (hopen : isBlank line = true ∨ isIncomplete (gather r.buffer line) = true) :
    r.step read line = (some { r with buffer := gather r.buffer line }, .none) := by
  unfold step
  dsimp only
  split
  · next hblank =>
      have hgather : gather r.buffer line = if r.buffer.isEmpty then "" else r.buffer.push '\n' :=
        if_pos hblank
      rw [hgather]
  · next hline =>
      have hblank : isBlank line = false := Bool.eq_false_iff.mpr hline
      have hgather : gather r.buffer line =
          if r.buffer.isEmpty then line else r.buffer.push '\n' ++ line := by
        simp [gather, hblank]
      rw [← hgather]
      split
      · next hcommand =>
          simp [isOrder, hblank, hcommand] at horder
      · rw [if_pos (hopen.resolve_left (by simp [hblank]))]

/-- A line that makes the text something else has it evaluated. -/
theorem step_whole
    (read : String → Except FileFault String) (horder : isOrder r.buffer line = false)
    (hblank : isBlank line = false) (hwhole : isIncomplete (gather r.buffer line) = false) :
    r.step read line =
      (some (evaluate r.session (gather r.buffer line)).1,
        (evaluate r.session (gather r.buffer line)).2) := by
  have hgather : gather r.buffer line =
      if r.buffer.isEmpty then line else r.buffer.push '\n' ++ line := by
    simp [gather, hblank]
  rw [hgather] at hwhole ⊢
  unfold step
  dsimp only
  split
  · next hempty =>
      exact absurd hempty (Bool.eq_false_iff.mp hblank)
  · split
    · next hcommand =>
        simp [isOrder, hblank, hcommand] at horder
    · rw [if_neg (Bool.eq_false_iff.mp hwhole)]

theorem report_append_none :
    report ++ Report.none = report := by
  show Report.append report Report.none = report
  simp [Report.append, Report.none]

/-- A line after which the session goes on. -/
theorem runLines_of_step
    {r' : Repl} {written : Report} (hstep : r.step read line = (some r', written)) :
    runLines read (line :: rest) r report = runLines read rest r' (report ++ written) := by
  rw [runLines, hstep]

/-- Lines that are gathered write nothing. -/
theorem runLines_open
    {s : Session} {buffer : String} (hlines : areGathered buffer lines = true) :
    runLines read (lines ++ rest) ⟨s, buffer⟩ report =
      runLines read rest ⟨s, lines.foldl gather buffer⟩ report := by
  induction lines generalizing buffer with
  | nil =>
      rw [List.nil_append, List.foldl_nil]
  | cons line lines ih =>
      simp only [areGathered, Bool.and_eq_true, Bool.not_eq_true', Bool.or_eq_true] at hlines
      obtain ⟨⟨horder, hopen⟩, hrest⟩ := hlines
      have hstep := step_open (r := ⟨s, buffer⟩) read horder hopen
      rw [List.cons_append, runLines_of_step hstep, report_append_none, ih hrest, List.foldl_cons]

/-- The text that is evaluated is that of the lines up to the first that leaves it no longer incomplete;
the lines that follow are read anew. -/
theorem runLines_gathers
    (s : Session) (read : String → Except FileFault String) (rest : List String) (report : Report)
    (hlines : areGathered "" lines = true) (horder : isOrder (textOf lines) last = false)
    (hblank : isBlank last = false) (hwhole : isIncomplete (textOf (lines ++ [last])) = false) :
    runLines read (lines ++ last :: rest) ⟨s, ""⟩ report =
      let result := evaluate s (textOf (lines ++ [last]))
      runLines read rest result.1 (report ++ result.2) := by
  have htext : textOf (lines ++ [last]) = gather (textOf lines) last := by
    rw [textOf, textOf, List.foldl_append, List.foldl_cons, List.foldl_nil]
  rw [htext] at hwhole ⊢
  have hstep := step_whole (r := ⟨s, textOf lines⟩) read horder hblank hwhole
  rw [runLines_open hlines, ← textOf, runLines_of_step hstep]

/-- Of a program in three lines the first two are gathered, and all of it is evaluated with the last.
The first line of another program is not incomplete, though the program is one. -/
theorem runLines_gathers_if :
    let lines := ["if true:", "    1"]
    let read : String → Except FileFault String := fun _ => .error .missing
    areGathered "" lines = true ∧ isOrder (textOf lines) "end" = false ∧
      isBlank "end" = false ∧ isIncomplete (textOf (lines ++ ["end"])) = false ∧
      runLines read ["if true:", "    1", "end"] (start 10) .none =
        Report.none ++ (evaluate (.start 10) (textOf (lines ++ ["end"]))).2 ∧
      isIncomplete "try:" = false ∧
      (Program.read "try:\n    1\ncatch e:\n    2\nend").isOk = true := by
  intro lines read
  have hlines : areGathered "" lines = true := by decide +kernel
  have horder : isOrder (textOf lines) "end" = false := by decide +kernel
  have hblank : isBlank "end" = false := by decide +kernel
  have hwhole : isIncomplete (textOf (lines ++ ["end"])) = false := by decide +kernel
  have hrun := runLines_gathers (.start 10) read [] .none hlines horder hblank hwhole
  exact ⟨hlines, horder, hblank, hwhole, hrun, by decide +kernel, by decide +kernel⟩

end Repl
end Console
end ScriptEngine
