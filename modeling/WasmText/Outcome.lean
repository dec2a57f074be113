import WasmText.Diagnostic

/-!
# Outcomes

What reading a whole source comes to. It is accepted only if no problem was found. It is abandoned
at an index out of bounds, where the program panics: it neither accepts the source nor rejects it,
and the reporter is left with what it was told before.
-/

namespace WasmText

/-- Why reading stops: at a problem to log, or in a panic, which no caller recovers from. -/
inductive Failure
  | problem (p : Problem)
  | abandoned

/-- A reader that meets problems only, among readers that may be abandoned. -/
def Failure.lift {α : Type} (r : Except Problem α) : Except Failure α := r.mapError .problem

instance : MonadLift (Except Problem) (Except Failure) := ⟨Failure.lift⟩

/-- What a source comes to. It is abandoned if the program panics on it. -/
inductive Outcome (α : Type)
  | accepted (value : α)
  | rejected (errors : Nat)
  | abandoned
deriving Repr

/-- How the number of errors of a rejected source is told. -/
def Outcome.rejectionText (errors : Nat) : String :=
  "parsing failed with " ++ toString errors ++ " error(s)"

/-- The outcome of a source, and the problems found in it in the order they were found. -/
structure Parsed (α : Type) where
  source : Source
  outcome : Outcome α
  problems : List Problem
deriving Repr

namespace Parsed

/-- The problems as they are shown with snippets of at most `max` characters. -/
def diagnostics? {α : Type} (p : Parsed α) (max : Nat) : Option (List Diagnostic) :=
  Diagnostic.ofProblems? p.source max p.problems

end Parsed

end WasmText
