import Mathlib.Data.List.TakeDrop
import Mathlib.Tactic.SplitIfs
import TypedErrors.Number.Numeral
import TypedErrors.Proofs.Source.Lexeme

/-! # Numbers with a fraction or an exponent

Whatever the scanner takes for such a number is read as one, once its underscores are left out
(`exists_readFloat_of_floatText`). -/

namespace TypedErrors
namespace Numeral

variable {cs ds rest : List Char} {c : Char}

/-! ### Characters -/

/-- The characters of a number without underscores. -/
def isFloatPart (c : Char) : Bool := c.isDigit || ['.', 'e', 'E', '+', '-'].contains c

theorem ascii_of_isFloatPart (h : isFloatPart c = true) : c.toNat < 0x80 ∧ isSpace c = false ∧ c ≠ '_' := by
  rcases Bool.or_eq_true_iff.mp h with hdigit | hmark
  · obtain ⟨hlow, hhigh⟩ := Char.isDigit_iff_toNat.mp hdigit
    have hzero : '0'.toNat = 48 := rfl
    have hnine : '9'.toNat = 57 := rfl
    refine ⟨by omega, ?_, ?_⟩
    · have hspace : c ≠ ' ' := by
        rintro rfl
        cases hdigit
      simp [isSpace, hspace]
      omega
    · rintro rfl
      cases hdigit
  · simp only [List.contains_eq_mem, List.mem_cons, List.not_mem_nil, or_false, decide_eq_true_eq] at hmark
    rcases hmark with rfl | rfl | rfl | rfl | rfl <;> exact ⟨by decide, rfl, by decide⟩

theorem plain?_ofChars (h : ∀ c ∈ cs, c.toNat < 0x80) : plain? (Text.ofChars cs) = some cs := by
  induction cs with
  | nil => rfl
  | cons c cs ih =>
    obtain ⟨hc, hcs⟩ := List.forall_mem_cons.mp h
    have ih := ih hcs
    rw [plain?, Text.ofChars] at ih ⊢
    rw [List.map_cons, List.mapM_cons, ih]
    simp [hc]

theorem dropWhile_eq_self {p : Char → Bool} (h : ∀ c ∈ cs, p c = false) : cs.dropWhile p = cs := by
  cases cs with
  | nil => rfl
  | cons c cs => exact List.dropWhile_cons_of_neg (by simp [h])

theorem trim_eq_self (h : ∀ c ∈ cs, isSpace c = false) : trim cs = cs := by
  rw [trim, dropWhile_eq_self h, dropWhile_eq_self (by simpa using h), List.reverse_reverse]

theorem dropUnderscores?_eq_self {previous : Char} (hp : previous ≠ '_') (h : ∀ c ∈ cs, c ≠ '_') :
    dropUnderscores? previous cs = some cs := by
  induction cs generalizing previous with
  | nil => exact if_neg hp
  | cons c cs ih =>
    obtain ⟨hc, hcs⟩ := List.forall_mem_cons.mp h
    rw [dropUnderscores?, if_neg hc, if_neg (fun h => hp h.1), ih hc hcs]
    rfl

/-! ### Parts -/

theorem span_digits (hds : ∀ c ∈ ds, c.isDigit = true) (hrest : ∀ c ∈ rest.head?, c.isDigit = false) :
    (ds ++ rest).span Char.isDigit = (ds, rest) := by
  have hstop : rest.takeWhile Char.isDigit = [] ∧ rest.dropWhile Char.isDigit = rest := by
    cases rest with
    | nil => exact ⟨rfl, rfl⟩
    | cons c rest =>
      have hc := hrest c rfl
      exact ⟨List.takeWhile_cons_of_neg (by simp [hc]), List.dropWhile_cons_of_neg (by simp [hc])⟩
  rw [List.span_eq_takeWhile_dropWhile, List.takeWhile_append_of_pos hds, List.dropWhile_append_of_pos hds, hstop.1,
    hstop.2, List.append_nil]

/-- Digits, and not none. -/
structure Digits (ds : List Char) : Prop where
  nonempty : ds ≠ []
  all : ∀ c ∈ ds, c.isDigit = true

theorem digits_filter (h : DigitsText cs) : Digits (cs.filter (· ≠ '_')) := by
  obtain ⟨hc, hcs⟩ := h
  rename_i c cs
  have hne : c ≠ '_' := by
    rintro rfl
    cases hc
  refine ⟨?_, fun d hd => ?_⟩
  · rw [List.filter_cons_of_pos (by simp [hne])]
    exact List.cons_ne_nil _ _
  · obtain ⟨hmem, hd⟩ := List.mem_filter.mp hd
    have hd : d ≠ '_' := by simpa using hd
    rcases List.mem_cons.mp hmem with rfl | hmem
    · exact hc
    · simpa [Scan.isDigitPart, hd] using hcs d hmem

/-- A sign, perhaps left out. -/
def IsSign (cs : List Char) : Prop := cs = [] ∨ cs = ['+'] ∨ cs = ['-']

theorem sign_of_isDigit (hc : c.isDigit = true) : sign (c :: cs) = (false, c :: cs) := by
  rw [sign]
  · rintro _ ⟨⟩
    cases hc
  · rintro _ ⟨⟩
    cases hc

theorem sign_append (hds : Digits ds) : sign (ds ++ rest) = (false, ds ++ rest) := by
  obtain ⟨hne, hall⟩ := hds
  cases ds with
  | nil => exact absurd rfl hne
  | cons c ds => exact sign_of_isDigit (List.forall_mem_cons.mp hall).1

theorem snd_sign_append {sgn : List Char} (hsgn : IsSign sgn) (hds : Digits ds) : (sign (sgn ++ ds)).2 = ds := by
  rcases hsgn with rfl | rfl | rfl
  · have hsign : sign (ds ++ []) = (false, ds ++ []) := sign_append hds
    rw [List.append_nil] at hsign
    rw [List.nil_append, hsign]
  · rfl
  · rfl

inductive Exponent : List Char → Prop
  | mk {e : Char} {sgn ds : List Char} (he : e = 'e' ∨ e = 'E') (hsgn : IsSign sgn) (hds : Digits ds) :
    Exponent (e :: (sgn ++ ds))

/-- Digits, perhaps with a fraction, an exponent or both. -/
inductive Decimal : List Char → Prop
  | mk {whole part exponent : List Char} (hwhole : Digits whole) (hpart : part = [] ∨ ∃ ds, part = '.' :: ds ∧ Digits ds)
      (hexponent : exponent = [] ∨ Exponent exponent) : Decimal (whole ++ (part ++ exponent))

theorem Digits.isFloatPart (h : Digits cs) : ∀ c ∈ cs, isFloatPart c = true := fun c hc => by
  rw [Numeral.isFloatPart, h.all c hc, Bool.true_or]

theorem Exponent.isFloatPart (h : Exponent cs) : ∀ c ∈ cs, isFloatPart c = true := by
  cases h with
  | mk he hsgn hds =>
    refine List.forall_mem_cons.mpr ⟨?_, List.forall_mem_append.mpr ⟨?_, hds.isFloatPart⟩⟩
    · rcases he with rfl | rfl <;> rfl
    · rcases hsgn with rfl | rfl | rfl
      · exact List.forall_mem_nil _
      · exact List.forall_mem_singleton.mpr rfl
      · exact List.forall_mem_singleton.mpr rfl

theorem Decimal.isFloatPart (h : Decimal cs) : ∀ c ∈ cs, isFloatPart c = true := by
  cases h with
  | mk hwhole hpart hexponent =>
    refine List.forall_mem_append.mpr ⟨hwhole.isFloatPart, List.forall_mem_append.mpr ⟨?_, ?_⟩⟩
    · rcases hpart with rfl | ⟨ds, rfl, hds⟩
      · exact List.forall_mem_nil _
      · exact List.forall_mem_cons.mpr ⟨by decide, hds.isFloatPart⟩
    · rcases hexponent with rfl | h
      · exact List.forall_mem_nil _
      · exact h.isFloatPart

theorem Decimal.isSome_readDecimal? (h : Decimal cs) : (readDecimal? cs).isSome = true := by
  obtain ⟨hwhole, hpart, hexponent⟩ := h
  rename_i whole part exponent
  have hhead : ∀ c ∈ exponent.head?, c.isDigit = false := by
    rcases hexponent with rfl | ⟨he, -, -⟩
    · simp
    · rcases he with rfl | rfl <;> simp
  rcases hpart with rfl | ⟨ds, rfl, hds⟩
  · rw [List.nil_append, readDecimal?, span_digits hwhole.all hhead]
    rcases hexponent with rfl | ⟨he, hsgn, hes⟩
    · simp [hwhole.nonempty]
    · have hsign := snd_sign_append hsgn hes
      rcases he with rfl | rfl <;> simpa [hsign, hwhole.nonempty, hes.nonempty] using hes.all
  · have hdot : ∀ c ∈ ('.' :: ds ++ exponent).head?, c.isDigit = false := by simp
    rw [readDecimal?, span_digits hwhole.all hdot]
    simp only [List.cons_append, span_digits hds.all hhead]
    rcases hexponent with rfl | ⟨he, hsgn, hes⟩
    · simp [hwhole.nonempty]
    · have hsign := snd_sign_append hsgn hes
      rcases he with rfl | rfl <;> simpa [hsign, hwhole.nonempty, hes.nonempty] using hes.all

theorem Decimal.sign_eq (h : Decimal cs) : sign cs = (false, cs) := by
  cases h with
  | mk hwhole _ _ => exact sign_append hwhole

theorem Decimal.exists_readFloat (h : Decimal cs) : ∃ x, readFloat (Text.ofChars cs) = .ok x := by
  have hparts := fun c hc => ascii_of_isFloatPart (h.isFloatPart c hc)
  have hplain := plain?_ofChars fun c hc => (hparts c hc).1
  have htrim := trim_eq_self fun c hc => (hparts c hc).2.1
  have hdrop := dropUnderscores?_eq_self (by decide : ' ' ≠ '_') fun c hc => (hparts c hc).2.2
  obtain ⟨x, hx⟩ := Option.isSome_iff_exists.mp h.isSome_readDecimal?
  simp only [readFloat, hplain, Option.bind_eq_bind, Option.bind_some, htrim, hdrop, h.sign_eq, hx]
  split_ifs <;> exact ⟨_, rfl⟩

theorem exponent_filter (h : ExponentText cs) : Exponent (cs.filter (· ≠ '_')) := by
  cases h with
  | mk he hsgn hne hcs =>
    have h : Exponent _ := .mk he hsgn ⟨hne, hcs⟩
    have hself := List.filter_eq_self.mpr fun c hc => decide_eq_true (ascii_of_isFloatPart (h.isFloatPart c hc)).2.2
    rwa [hself]

theorem decimal_filter (h : FloatText cs) : Decimal (cs.filter (· ≠ '_')) := by
  cases h with
  | fraction hwhole hpart hexponent =>
    rw [List.filter_append, List.filter_cons_of_pos (by decide), List.filter_append, ← List.cons_append]
    refine .mk (digits_filter hwhole) (.inr ⟨_, rfl, digits_filter hpart⟩) ?_
    exact hexponent.imp (by rintro rfl; rfl) exponent_filter
  | exponent hwhole hexponent =>
    rw [List.filter_append, ← List.nil_append (List.filter _ _)]
    exact .mk (digits_filter hwhole) (.inl rfl) (.inr (exponent_filter hexponent))

end Numeral

/-- A number with a fraction or an exponent is read, as it stands in a block. -/
theorem exists_readFloat_of_floatText {s : String} (h : FloatText s.toList) :
    ∃ x, Numeral.readFloat ((Text.ofString s).filter (· ≠ .char '_')) = .ok x := by
  have hfilter : (Text.ofString s).filter (· ≠ .char '_') = Text.ofChars (s.toList.filter (· ≠ '_')) := by
    rw [Text.ofString, Text.ofChars, List.filter_map]
    congr 2
    funext c
    simp
  rw [hfilter]
  exact (Numeral.decimal_filter h).exists_readFloat

end TypedErrors
