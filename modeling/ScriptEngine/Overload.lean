import ScriptEngine.Fault.Cause

/-!
# Overloads

Candidates with parameter lists are told apart by the number of arguments alone: an exact match
wins, then the first candidate that takes any number of further arguments.

* `select` picks the candidate for a number of arguments, `arityFault` is the fault when none fits.
* `pack` fits arguments to parameters: what a variadic parameter takes becomes one list.
-/

namespace ScriptEngine
namespace Overload

/-- Whether the last parameter takes any number of arguments. -/
def isVariadic (ps : List Param) : Bool := ps.getLast?.any (·.variadic)

/-- The number of parameters that take exactly one argument each. -/
def fixedArity (ps : List Param) : Nat := if isVariadic ps then ps.length - 1 else ps.length

/-- Whether parameters take a number of arguments. -/
def accepts (ps : List Param) (argc : Nat) : Bool :=
  if isVariadic ps then fixedArity ps ≤ argc else argc == ps.length

variable {α : Type}

/-- The candidate for a number of arguments. -/
def select (params : α → List Param) (candidates : List α) (argc : Nat) : Option α :=
  (candidates.find? fun c => !isVariadic (params c) && (params c).length == argc) <|>
    candidates.find? fun c => isVariadic (params c) && decide (fixedArity (params c) ≤ argc)

section Selection

variable {params : α → List Param} {candidates : List α} {argc : Nat} {a : α}

/-- What is selected is one of the candidates. -/
theorem mem_of_select
    (hselect : select params candidates argc = some a) :
    a ∈ candidates := by
  rw [select, Option.orElse_eq_orElse, Option.orElse_eq_or, Option.or_eq_some_iff] at hselect
  rcases hselect with hexact | ⟨-, hvariadic⟩
  · exact List.mem_of_find?_eq_some hexact
  · exact List.mem_of_find?_eq_some hvariadic

/-- What is selected takes the number of arguments. -/
theorem accepts_of_select (hselect : select params candidates argc = some a) :
    accepts (params a) argc = true := by
  rw [select, Option.orElse_eq_orElse, Option.orElse_eq_or, Option.or_eq_some_iff] at hselect
  rw [accepts]
  rcases hselect with hexact | ⟨-, hvariadic⟩
  · have hfits := List.find?_some hexact
    rw [Bool.and_eq_true, Bool.not_eq_true'] at hfits
    rw [if_neg (by simp [hfits.1]), beq_iff_eq]
    exact (beq_iff_eq.mp hfits.2).symm
  · have hfits := List.find?_some hvariadic
    rw [Bool.and_eq_true] at hfits
    rw [if_pos hfits.1]
    exact hfits.2

/-- Something is selected where some candidate takes the number of arguments. -/
theorem exists_select (ha : a ∈ candidates) (haccepts : accepts (params a) argc = true) :
    ∃ b, select params candidates argc = some b := by
  rw [← Option.isSome_iff_exists, select, Option.orElse_eq_orElse, Option.orElse_eq_or,
    Option.isSome_or, Bool.or_eq_true, List.find?_isSome, List.find?_isSome]
  rw [accepts] at haccepts
  split at haccepts
  · next hvariadic =>
      exact .inr ⟨a, ha, by rw [hvariadic, Bool.true_and]; exact haccepts⟩
  · next hfixed =>
      refine .inl ⟨a, ha, ?_⟩
      rw [Bool.eq_false_iff.mpr hfixed, beq_iff_eq.mp haccepts]
      simp

end Selection

/-- How a parameter list is counted in a fault. -/
def arityText (ps : List Param) : String :=
  if isVariadic ps then s!"at least {fixedArity ps}" else toString ps.length

/-- A list without the elements that repeat the one before them. -/
def withoutRuns : List String → List String
  | [] => []
  | [a] => [a]
  | a :: b :: rest => if a == b then withoutRuns (b :: rest) else a :: withoutRuns (b :: rest)

/-- The numbers of arguments that candidates take. -/
def expectedArity (params : α → List Param) (candidates : List α) : String :=
  " or ".intercalate (withoutRuns (candidates.map fun c => arityText (params c)))

/-- The fault when no candidate takes the number of arguments. -/
def arityFault (params : α → List Param) (candidates : List α) (argc : Nat) : Cause :=
  .arity (expectedArity params candidates) argc

/-- Arguments fitted to parameters: those of fixed parameters one by one, and those that a variadic
parameter takes as one list. -/
def pack (ps : List Param) (args : List α) : List α × Option (List α) :=
  if isVariadic ps then (args.take (ps.length - 1), some (args.drop (ps.length - 1)))
  else (args, none)

/-- Packing loses no argument and keeps their order. -/
theorem flatten_pack (ps : List Param) (args : List α) :
    (pack ps args).1 ++ (pack ps args).2.getD [] = args := by
  unfold pack
  split <;> simp

end Overload
end ScriptEngine
