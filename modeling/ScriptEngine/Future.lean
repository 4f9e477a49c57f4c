import ScriptEngine.Value.Basic

/-!
# Futures

A future is settled once: fulfilled, rejected or cancelled.  Continuations that are registered
before run when it settles, those registered afterwards at once; each gets the settlement.
-/

namespace ScriptEngine

/-- A future with the continuations that wait for it. -/
structure Future (κ : Type) where
  kind : FutureKind
  settlement : Settlement
  waiting : List κ

namespace Future

variable {κ : Type}

instance : Inhabited (Future κ) := ⟨⟨.promise, .pending, []⟩⟩

def ofKind (kind : FutureKind) : Future κ := ⟨kind, .pending, []⟩

def isDone (f : Future κ) : Bool := !f.settlement.isPending

/-- Settles an open future and gives the continuations to run; a settled one stays as it is. -/
def settle? (f : Future κ) (s : Settlement) : Option (Future κ × List κ) :=
  if s.isPending || f.isDone then none
  else some ({ f with settlement := s, waiting := [] }, f.waiting)

/-- Registers a continuation; if the future has settled, it is to run now with the settlement. -/
def onSettle (f : Future κ) (k : κ) : Future κ × Option Settlement :=
  if f.isDone then (f, some f.settlement) else ({ f with waiting := f.waiting ++ [k] }, none)

def text (f : Future κ) : String :=
  let word := f.settlement.word
  match f.kind with
  | .promise => "Promise\x7bstate=" ++ word ++ "\x7d"
  | .completable =>
    let status :=
      match f.settlement with
      | .fulfilled _ => "completed"
      | .rejected _ => "failed"
      | _ => word
    "CompletableFuture\x7bstatus=" ++ status ++ "\x7d"

end Future
end ScriptEngine
