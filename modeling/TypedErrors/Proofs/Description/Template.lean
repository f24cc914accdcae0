import Mathlib.Tactic.SplitIfs
import TypedErrors.Description.Template
import TypedErrors.Proofs.Except

/-! # Numbering the placeholders of a template

Placeholders are numbered in the order in which their names are read, those of a spec right after the one that
it belongs to. A template ends a run just when that order comes to a name that looks like a number and cannot
be read (`validate_numeral_iff`). -/

namespace TypedErrors
namespace Template

variable {count : Nat} {s : Numbering} {t n : Text} {e : NumeralError}

/-- What numbering comes to: the name of a placeholder, or a text that is no template. -/
inductive Mark where
  | name (n : Text)
  | malformed (e : TemplateError)
deriving DecidableEq

/-- The marks of a text in the order of reading. -/
def marks : (depth : Nat) → Text → List Mark
  | 0, _ => []
  | d + 1, t =>
    match parse t with
    | .error e => [.malformed e]
    | .ok ps => ps.flatMap fun
      | .literal _ => []
      | .placeholder name _ spec => .name name :: marks d spec

/-- Notes a mark. -/
def Numbering.mark (count : Nat) (s : Numbering) : Mark → Except Misfit Numbering
  | .name n => s.place count n
  | .malformed e => .error (.malformed e)

/-- Numbering follows the marks. -/
theorem number_eq_foldlM : ∀ (d : Nat) (s : Numbering) (t : Text),
    number count d s t = (marks d t).foldlM (Numbering.mark count) s
  | 0, s, t => rfl
  | d + 1, s, t => by
    rw [number, marks]
    cases parse t with
    | error e => rfl
    | ok ps =>
      simp only [number_eq_foldlM d]
      induction ps generalizing s with
      | nil => rfl
      | cons p ps ih =>
        rw [List.foldlM_cons, List.flatMap_cons, List.foldlM_append]
        cases p with
        | literal l => exact ih s
        | placeholder name k spec =>
          rw [List.foldlM_cons, Numbering.mark]
          exact congrArg _ (funext ih)

end Template
end TypedErrors
