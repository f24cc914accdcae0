import Mathlib.Data.List.Infix
import TypedErrors.Proofs.Manifest.Form

/-! # Names in a manifest

The source of a target ends in one suffix and its output in another, and so do the last names of their paths. -/

namespace TypedErrors

namespace FilePath

variable {suffix t : Text}

theorem split_of_not_mem (h : CodePoint.char '/' ∉ t) : split t = [t] := by
  induction t with
  | nil => rfl
  | cons p t ih =>
    obtain ⟨hp, ht⟩ := not_or.mp (List.mem_cons.not.mp h)
    rw [split, if_neg (Ne.symm hp), ih ht]

theorem split_ne_nil (t : Text) : split t ≠ [] := by
  cases t with
  | nil => exact List.cons_ne_nil _ _
  | cons p t =>
    rw [split]
    split_ifs
    · exact List.cons_ne_nil _ _
    · cases split t <;> exact List.cons_ne_nil _ _

/-- What stands behind the last slash of a text ends as the text does. -/
theorem getLast?_split (hslash : CodePoint.char '/' ∉ suffix) (t : Text) :
    ∃ s, (split (t ++ suffix)).getLast? = some s ∧ suffix <:+ s := by
  induction t with
  | nil => exact ⟨suffix, by rw [List.nil_append, split_of_not_mem hslash]; rfl, List.suffix_rfl⟩
  | cons p t ih =>
    obtain ⟨s, hlast, hs⟩ := ih
    rw [List.cons_append, split]
    cases hsplit : split (t ++ suffix) with
    | nil => exact absurd hsplit (split_ne_nil _)
    | cons a as =>
      rw [hsplit] at hlast
      split_ifs
      · exact ⟨s, by rw [List.getLast?_cons_cons, hlast], hs⟩
      · cases as with
        | nil =>
          obtain rfl : a = s := Option.some.inj hlast
          exact ⟨p :: a, rfl, hs.trans (List.suffix_cons p a)⟩
        | cons b as =>
          rw [List.getLast?_cons_cons] at hlast
          exact ⟨s, by rw [List.getLast?_cons_cons, hlast], hs⟩

/-- The last name of a path ends as its text does. -/
theorem getLast?_segments (hslash : CodePoint.char '/' ∉ suffix) (hlength : 2 ≤ suffix.length) (ht : suffix <:+ t) :
    ∃ s, (ofText t).segments.getLast? = some s ∧ suffix <:+ s := by
  obtain ⟨front, rfl⟩ := ht
  obtain ⟨s, hlast, hs⟩ := getLast?_split hslash front
  refine ⟨s, ?_, hs⟩
  have hstep : isStep s = true := by
    have hle := hs.length_le
    rw [isStep, Bool.and_eq_true, bne_iff_ne, bne_iff_ne]
    constructor
    · rintro rfl
      rw [List.length_nil] at hle
      omega
    · rintro rfl
      rw [show (Text.ofString ".").length = 1 from rfl] at hle
      omega
  obtain ⟨rest, hrest⟩ := List.getLast?_eq_some_iff.mp hlast
  rw [ofText, hrest, List.filter_append, List.filter_cons_of_pos hstep, List.filter_nil, List.getLast?_concat]

end FilePath

namespace Manifest

variable {m : Manifest} {file : String} {root : FilePath} {document : Text}

end Manifest
end TypedErrors
