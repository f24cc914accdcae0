import Mathlib.Data.List.Basic
import Mathlib.Data.List.TakeDrop
import Mathlib.Data.List.TakeWhile
import Mathlib.Tactic.SplitIfs
import TypedErrors.Description.Template

/-! # Numbers that are placeholder names

A name of digits that can be read as an integer denotes the number that its decimal digits spell
(`index?_of_readInteger`). -/

namespace TypedErrors

variable {c : Char} {cs : List Char} {n : Nat}

theorem inRanges_eq_true {table : List (Nat × Nat)} :
    inRanges table n = true ↔ ∃ r ∈ table, r.1 ≤ n ∧ n ≤ r.2 := by
  simp [inRanges, List.any_eq_true]

namespace Digit

theorem value?_of_ascii (hc : c.toNat < 0x80) : value? c = if c.isDigit then some (c.toNat - 0x30) else none := by
  rw [value?, if_pos hc]

theorem lt_ten_of_value? {d : Nat} (h : value? c = some d) : d < 10 := by
  rw [value?] at h
  split_ifs at h with hascii hdigit
  · obtain rfl := Option.some.inj h
    have hle : c.toNat ≤ 0x39 := by
      simp only [Char.isDigit, Bool.and_eq_true, decide_eq_true_eq] at hdigit
      exact hdigit.2
    omega
  · obtain ⟨z, hz, rfl⟩ := Option.map_eq_some_iff.mp h
    have hrange := List.find?_some hz
    simp only [Bool.and_eq_true, decide_eq_true_eq] at hrange
    omega

theorem isDigit_of_ascii (hc : c.toNat < 0x80) (h : isDigit c = true) : c.isDigit = true := by
  have habove : ∀ r ∈ otherRanges, 0x80 ≤ r.1 := by decide
  rw [isDigit, Bool.or_eq_true] at h
  rcases h with h | h
  · rw [isDecimal, value?_of_ascii hc] at h
    split_ifs at h with hdigit
    · exact hdigit
    · cases h
  · obtain ⟨r, hr, hle, -⟩ := inRanges_eq_true.mp h
    have := habove r hr
    omega

/-- No digit is a blank: their tables are apart. -/
theorem not_isBlank (hc : 0x80 ≤ c.toNat) (h : isDigit c = true) : isBlank c = false := by
  have hzeros : ∀ r ∈ blankRanges, ∀ z ∈ zeros, r.2 < z ∨ z + 9 < r.1 := by decide
  have hother : ∀ r ∈ blankRanges, ∀ o ∈ otherRanges, r.2 < o.1 ∨ o.2 < r.1 := by decide
  by_contra hblank
  obtain ⟨r, hr, hlow, hhigh⟩ := inRanges_eq_true.mp (Bool.not_eq_false _ ▸ hblank)
  rw [isDigit, Bool.or_eq_true] at h
  rcases h with h | h
  · rw [isDecimal, value?, if_neg (by omega), Option.isSome_map, List.find?_isSome] at h
    obtain ⟨z, hz, hrange⟩ := h
    simp only [Bool.and_eq_true, decide_eq_true_eq] at hrange
    have := hzeros r hr z hz
    omega
  · obtain ⟨o, ho, hle, hge⟩ := inRanges_eq_true.mp h
    have := hother r hr o ho
    omega

end Digit

namespace Numeral

/-- What one code point is in plain form. -/
def plainChar? : CodePoint → Option Char
  | .surrogate _ => none
  | .char c =>
    if c.toNat < 0x80 then some c
    else if isBlank c then some ' '
    else (Digit.value? c).map fun d => Char.ofNat (0x30 + d)

/-- The plain form of a digit is an ASCII digit of the same value. -/
theorem plainChar?_of_isDigit {c' : Char} (hc : Digit.isDigit c = true) (h : plainChar? (.char c) = some c') :
    c'.isDigit = true ∧ Digit.value? c = some (c'.toNat - 0x30) := by
  rw [plainChar?] at h
  split_ifs at h with hascii hblank
  · obtain rfl := Option.some.inj h
    have hdigit := Digit.isDigit_of_ascii hascii hc
    exact ⟨hdigit, by rw [Digit.value?_of_ascii hascii, if_pos hdigit]⟩
  · rw [Digit.not_isBlank (by omega) hc] at hblank
    cases hblank
  · obtain ⟨d, hd, rfl⟩ := Option.map_eq_some_iff.mp h
    have hten : ∀ d < 10, (Char.ofNat (0x30 + d)).isDigit = true ∧ (Char.ofNat (0x30 + d)).toNat - 0x30 = d := by
      decide
    obtain ⟨hdigit, hvalue⟩ := hten d (Digit.lt_ten_of_value? hd)
    exact ⟨hdigit, by rw [hvalue, hd]⟩

/-- The number that ASCII digits spell after `n`. -/
def spelled (n : Nat) (cs : List Char) : Nat := cs.foldl (fun m c => m * 10 + (c.toNat - 0x30)) n

theorem digitValue?_of_isDigit (h : c.isDigit = true) : digitValue? 10 c = some (c.toNat - 0x30) := by
  have hle : c.toNat ≤ 0x39 := by
    simp only [Char.isDigit, Bool.and_eq_true, decide_eq_true_eq] at h
    exact h.2
  rw [digitValue?]
  simp only [h, if_true]
  rw [if_pos (by omega)]

theorem value_eq_spelled (h : ∀ c ∈ cs, c.isDigit = true) : value 10 cs = spelled 0 cs := by
  rw [value, spelled]
  refine List.foldl_ext _ _ _ fun m c hc => ?_
  rw [digitValue?_of_isDigit (h c hc)]

theorem spanDigits_of_isDigit (h : ∀ c ∈ cs, c.isDigit = true) : spanDigits 10 cs = (cs, []) := by
  have hall : ∀ c ∈ cs, (c == '_' || (digitValue? 10 c).isSome) = true := by
    intro c hc
    rw [digitValue?_of_isDigit (h c hc), Option.isSome_some, Bool.or_true]
  rw [spanDigits, List.span_eq_takeWhile_dropWhile, List.takeWhile_eq_self_iff.mpr hall,
    List.dropWhile_eq_nil_iff.mpr hall]

theorem magnitude?_eq_spelled (h : ∀ c ∈ cs, c.isDigit = true) (hn : magnitude? 10 cs = .ok n) :
    n = spelled 0 cs := by
  rw [magnitude?, spanDigits_of_isDigit h] at hn
  simp only at hn
  split_ifs at hn with hspaced hcount hrest
  · rw [← Except.ok.inj hn, value_eq_spelled h]

/-- Digits are neither space nor sign. -/
theorem sign_trim_of_isDigit (h : ∀ c ∈ cs, c.isDigit = true) : sign (trim cs) = (false, cs) := by
  have hspace : ∀ c : Char, c.isDigit = true → isSpace c = false := by
    intro c hc
    simp only [Char.isDigit, Bool.and_eq_true, decide_eq_true_eq] at hc
    have hlow : 0x30 ≤ c.toNat := hc.1
    have hne : c ≠ ' ' := by
      rintro rfl
      exact absurd hlow (by decide)
    simp [isSpace, hne]
    omega
  have hdrop : ∀ ds : List Char, (∀ c ∈ ds, c.isDigit = true) → ds.dropWhile isSpace = ds := by
    intro ds hds
    cases ds with
    | nil => rfl
    | cons d ds => rw [List.dropWhile_cons, hspace d (hds d (by simp)), if_neg Bool.false_ne_true]
  have htrim : trim cs = cs := by
    rw [trim, hdrop cs h, hdrop cs.reverse (by simpa using h), List.reverse_reverse]
  rw [htrim]
  cases cs with
  | nil => rfl
  | cons c cs =>
    have hc := h c (by simp)
    rw [sign]
    · rintro _ ⟨⟩
      exact absurd hc (by decide)
    · rintro _ ⟨⟩
      exact absurd hc (by decide)

end Numeral

/-! ### Names -/

namespace Template

/-- The number that the decimal digits of a name spell. -/
def index? (name : Text) : Option Nat :=
  name.foldlM (fun n c => (c.char?.bind Digit.value?).map (n * 10 + ·)) 0

theorem foldlM_of_plain {name : Text} (hname : ∀ p ∈ name, (p.char?.map Digit.isDigit).getD false = true)
    (h : name.mapM Numeral.plainChar? = some cs) (n : Nat) : (∀ c ∈ cs, c.isDigit = true) ∧
      name.foldlM (fun n c => (c.char?.bind Digit.value?).map (n * 10 + ·)) n = some (Numeral.spelled n cs) := by
  induction name generalizing cs n with
  | nil =>
    obtain rfl := Option.some.inj h
    exact ⟨List.forall_mem_nil _, rfl⟩
  | cons p name ih =>
    obtain ⟨hp, hrest⟩ := List.forall_mem_cons.mp hname
    rw [List.mapM_cons] at h
    obtain ⟨c', hc', h⟩ := Option.bind_eq_some_iff.mp h
    obtain ⟨cs', hcs', h⟩ := Option.bind_eq_some_iff.mp h
    obtain rfl := Option.some.inj h
    cases p with
    | surrogate i => cases hc'
    | char c =>
      obtain ⟨hdigit, hvalue⟩ := Numeral.plainChar?_of_isDigit hp hc'
      obtain ⟨hdigits, hfold⟩ := ih hrest hcs' (n * 10 + (c'.toNat - 0x30))
      refine ⟨List.forall_mem_cons.mpr ⟨hdigit, hdigits⟩, ?_⟩
      rw [List.foldlM_cons]
      simp only [CodePoint.char?, Option.bind_some, hvalue, Option.map_some]
      exact hfold

/-- A name of digits that can be read denotes the number that its digits spell. -/
theorem index?_of_readInteger {name : Text} {i : Int} (hname : isNumber name = true)
    (h : Numeral.readInteger name = .ok i) : index? name = some i.toNat := by
  rw [isNumber, Bool.and_eq_true, List.all_eq_true] at hname
  rw [Numeral.readInteger] at h
  cases hplain : Numeral.plain? name with
  | none =>
    rw [hplain] at h
    cases h
  | some cs =>
    obtain ⟨hdigits, hfold⟩ := foldlM_of_plain hname.2 (show name.mapM Numeral.plainChar? = some cs from hplain) 0
    rw [hplain] at h
    simp only [Numeral.sign_trim_of_isDigit hdigits] at h
    cases hmagnitude : Numeral.magnitude? 10 cs with
    | error e =>
      rw [hmagnitude] at h
      cases h
    | ok n =>
      rw [hmagnitude] at h
      obtain rfl := Except.ok.inj h
      rw [index?, hfold, ← Numeral.magnitude?_eq_spelled hdigits hmagnitude]
      rfl

end Template
end TypedErrors
