import Mathlib.Data.List.Basic
import Mathlib.Tactic.SplitIfs
import TypedErrors.Text.Identifier
import TypedErrors.Text.Join

/-! # Texts and strings -/

namespace TypedErrors
namespace Text

theorem ofChars_injective : Function.Injective ofChars :=
  List.map_injective_iff.mpr fun _ _ h => CodePoint.char.inj h

theorem ofString_injective : Function.Injective ofString := fun _ _ h =>
  String.toList_inj.mp (ofChars_injective h)

theorem chars?_ofChars : ∀ cs : List Char, chars? (ofChars cs) = some cs
  | [] => rfl
  | c :: cs => by
    have ih := chars?_ofChars cs
    rw [chars?, ofChars] at ih ⊢
    rw [List.map_cons, List.mapM_cons, ih]
    rfl

/-- The text of a string denotes that string alone. -/
theorem string?_ofString (s : String) : string? (ofString s) = some s := by
  rw [string?, ofString, chars?_ofChars, Option.map_some, String.ofList_toList]

end Text

theorem joinWith_eq_intercalate (sep : String) : ∀ parts : List String, joinWith sep parts = sep.intercalate parts
  | [] => String.intercalate_nil.symm
  | [_] => String.intercalate_singleton.symm
  | a :: b :: parts => by
    have hmore := joinWith_eq_intercalate sep (b :: parts)
    rw [String.intercalate_cons_cons, ← hmore]
    rfl

/-- The first character of an identifier could stand further on as well. -/
theorem Identifier.isContinue_of_ofText? {t : Text} {n : String} (h : ofText? t = some n) :
    ∀ c ∈ n.toList, isContinue c = true := by
  rw [ofText?] at h
  split at h
  · next c cs _ =>
    split_ifs at h with hall
    obtain rfl := Option.some.inj h
    obtain ⟨hstart, hrest⟩ := Bool.and_eq_true_iff.mp hall
    rw [String.toList_ofList]
    refine List.forall_mem_cons.mpr ⟨?_, List.all_eq_true.mp hrest⟩
    rw [isContinue, hstart, Bool.true_or]
  · cases h

end TypedErrors
