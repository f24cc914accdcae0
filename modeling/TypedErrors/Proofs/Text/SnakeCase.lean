import Mathlib.Data.List.Basic
import Mathlib.Tactic.SplitIfs
import TypedErrors.Proofs.Text
import TypedErrors.Text.SnakeCase

/-! # Where snake case breaks a name

Each pass overlooks places: the first one those behind a word that it has just set off, the second one those between
two capitals. What the first one overlooks comes after a small letter, so the second one sees it, and no place is seen
twice, since an underscore already stands there. Together they break a name at the capitals of `Breaks`. -/

namespace TypedErrors

/-! ### Lower case of ASCII -/

variable {c : Char} {cs : List Char}

/-- What is decided for the numbers below 128 holds of the ASCII characters. -/
theorem forall_ascii {P : Char → Prop} (h : ∀ n < 128, P (Char.ofNat n)) (hc : c.toNat < 128) : P c := by
  have hP := h c.toNat hc
  rwa [Char.ofNat_toNat] at hP

theorem LowerCase.go_ascii (before : Text) (h : ∀ c ∈ cs, c.toNat < 128) :
    go before (Text.ofChars cs) = Text.ofChars (cs.map Char.toLower) := by
  induction cs generalizing before with
  | nil => rfl
  | cons c cs ih =>
    obtain ⟨hc, hcs⟩ := List.forall_mem_cons.mp h
    have hsigma : (c == 'Σ') = false := by
      rw [beq_eq_false_iff_ne]
      rintro rfl
      exact absurd hc (by decide)
    have hdotted : (c == 'İ') = false := by
      rw [beq_eq_false_iff_ne]
      rintro rfl
      exact absurd hc (by decide)
    have hchar : ofChar c = c.toLower := if_pos hc
    rw [Text.ofChars, List.map_cons, ← Text.ofChars, go, hsigma, hdotted, ih _ hcs, hchar]
    rfl

theorem lowerString_ascii (h : ∀ c ∈ cs, c.toNat < 128) :
    lowerString (String.ofList cs) = String.ofList (cs.map Char.toLower) := by
  have hchars : ∀ cs : List Char, (Text.ofChars cs).filterMap CodePoint.char? = cs := fun cs => by
    rw [Text.ofChars, List.filterMap_map]
    exact List.filterMap_some
  rw [lowerString, Text.ofString, String.toList_ofList, Text.lower, LowerCase.go_ascii [] h, hchars]

namespace SnakeCase

/-- A name is broken before `i`: there stands a capital, after another character than an underscore, and either that
character is a small letter or a digit, or a small letter comes next. -/
def Breaks (cs : List Char) (i : Nat) : Prop :=
  0 < i ∧ cs[i]?.any isCapital ∧ cs[i - 1]? ≠ some '_' ∧
    (cs[i - 1]?.any (fun a => isSmall a || a.isDigit) ∨ cs[i + 1]?.any isSmall)

instance (cs : List Char) (i : Nat) : Decidable (Breaks cs i) := inferInstanceAs (Decidable (_ ∧ _))

/-! ### The two passes -/

/-- Whether a name is broken between two characters; `next` is what follows them. -/
def breaksBetween (a b : Char) (next : Option Char) : Bool :=
  a ≠ '_' && isCapital b && (isSmall a || a.isDigit || (next.map isSmall).getD false)

/-- What comes after the character `a` of a name, broken. -/
def broken (a : Char) : List Char → List Char
  | [] => []
  | b :: cs => (if breaksBetween a b cs.head? then ['_'] else []) ++ b :: broken b cs

variable {a b : Char}

theorem isSmall_iff : isSmall c = true ↔ 97 ≤ c.toNat ∧ c.toNat ≤ 122 := by
  rw [isSmall, Bool.and_eq_true, decide_eq_true_iff, decide_eq_true_iff]
  rfl

theorem isCapital_iff : isCapital c = true ↔ 65 ≤ c.toNat ∧ c.toNat ≤ 90 := by
  rw [isCapital, Bool.and_eq_true, decide_eq_true_iff, decide_eq_true_iff]
  rfl

theorem isDigit_iff : c.isDigit = true ↔ 48 ≤ c.toNat ∧ c.toNat ≤ 57 := by
  rw [Char.isDigit, Bool.and_eq_true, decide_eq_true_iff, decide_eq_true_iff]
  rfl

theorem isCapital_of_isSmall (h : isSmall c = true) : isCapital c = false := by
  have hc := isSmall_iff.mp h
  rw [← Bool.not_eq_true, isCapital_iff]
  omega

/-- A capital ends no word. -/
theorem not_ends_of_isCapital (h : isCapital c = true) : (isSmall c || c.isDigit) = false := by
  have hc := isCapital_iff.mp h
  rw [← Bool.not_eq_true, Bool.or_eq_true, isSmall_iff, isDigit_iff]
  omega

theorem ne_underscore_of_ends (h : (isSmall c || c.isDigit) = true) : c ≠ '_' := by
  rintro rfl
  exact absurd h (by decide)

/-- The second pass goes on with the capital before which it has put an underscore. -/
theorem breakTails_cons_cons (a b : Char) (cs : List Char) : breakTails (a :: b :: cs) =
    a :: ((if (isSmall a || a.isDigit) && isCapital b then ['_'] else []) ++ breakTails (b :: cs)) := by
  rw [breakTails]
  split_ifs with h
  · have hends := not_ends_of_isCapital (Bool.and_eq_true_iff.mp h).2
    have hrest : breakTails (b :: cs) = b :: breakTails cs := by
      cases cs with
      | nil => rfl
      | cons c cs => rw [breakTails, hends, Bool.false_and, if_neg Bool.false_ne_true]
    rw [hrest]
    rfl
  · rfl

theorem breakWords_eq_cons (inWord : Bool) (a : Char) (cs : List Char) : ∃ rest, breakWords inWord (a :: cs) = a :: rest := by
  cases cs with
  | nil => exact ⟨[], rfl⟩
  | cons b cs =>
    rw [breakWords]
    split_ifs
    exacts [⟨_, rfl⟩, ⟨_, rfl⟩, ⟨_, rfl⟩]

theorem breakTails_cons_breakWords (inWord : Bool) (a b : Char) (cs : List Char) :
    breakTails (a :: breakWords inWord (b :: cs)) = a :: ((if (isSmall a || a.isDigit) && isCapital b then ['_'] else []) ++
      breakTails (breakWords inWord (b :: cs))) := by
  obtain ⟨rest, hrest⟩ := breakWords_eq_cons inWord b cs
  rw [hrest, breakTails_cons_cons]

/-- Where the first pass breaks nothing, the second one breaks all that is to be broken. -/
theorem breaksBetween_of_overlooked {next : Option Char}
    (h : isSmall a = true ∨ (a ≠ '_' && isCapital b && (next.map isSmall).getD false) = false) :
    breaksBetween a b next = ((isSmall a || a.isDigit) && isCapital b) := by
  cases hends : (isSmall a || a.isDigit) with
  | true => simp [breaksBetween, hends, ne_underscore_of_ends hends]
  | false =>
    have hnext := h.resolve_left (by simp_all)
    rw [breaksBetween, hends, Bool.false_or, hnext, Bool.false_and]

/-- The first pass changes only how the second one finds the places. -/
theorem breakTails_breakWords (inWord : Bool) (a : Char) :
    ∀ cs : List Char, breakTails (breakWords inWord (a :: cs)) = a :: broken a cs
  | [] => rfl
  | b :: cs => by
    rw [breakWords]
    split_ifs with hword hbreak
    · have hsmall := (Bool.and_eq_true_iff.mp hword).2
      rw [breakTails_cons_breakWords, breakTails_breakWords true b cs, broken, breaksBetween_of_overlooked (.inl hsmall)]
    · cases cs with
      | nil => simp at hbreak
      | cons c cs =>
        obtain ⟨⟨hne, hcapital⟩, hsmall⟩ : (a ≠ '_' ∧ isCapital b = true) ∧ isSmall c = true := by simpa using hbreak
        have hbetween : breaksBetween a b (some c) = true := by simp [breaksBetween, hne, hcapital, hsmall]
        have hinside : breaksBetween b c cs.head? = false := by simp [breaksBetween, isCapital_of_isSmall hsmall]
        have hunderscore : isCapital '_' = false ∧ (isSmall '_' || '_'.isDigit) = false := by decide
        rw [breakTails_cons_cons, breakTails_cons_cons, breakTails_cons_breakWords, breakTails_breakWords true c cs, broken,
          List.head?_cons, hbetween, broken, hinside, hunderscore.1, hunderscore.2, not_ends_of_isCapital hcapital]
        simp
    · rw [breakTails_cons_breakWords, breakTails_breakWords false b cs, broken,
        breaksBetween_of_overlooked (.inr (by simpa using hbreak))]

/-! ### The places -/

theorem breaks_iff (front : List Char) (a b : Char) (cs : List Char) :
    Breaks (front ++ a :: b :: cs) (front.length + 1) ↔ breaksBetween a b cs.head? = true := by
  have hb : (front ++ a :: b :: cs)[front.length + 1]? = some b := by simp
  have hnext : (front ++ a :: b :: cs)[front.length + 1 + 1]? = cs.head? := by
    rw [List.getElem?_append_right (by omega), Nat.add_assoc, Nat.add_sub_cancel_left, List.head?_eq_getElem?]
    rfl
  rw [Breaks, hb, hnext, Nat.add_sub_cancel, List.getElem?_append_right (Nat.le_refl _), Nat.sub_self]
  cases cs.head? <;> simp [breaksBetween, and_assoc, and_left_comm]

theorem broken_eq (front : List Char) (a : Char) (cs : List Char) : broken a cs =
    (cs.zipIdx (front.length + 1)).flatMap fun (c, i) => if Breaks (front ++ a :: cs) i then ['_', c] else [c] := by
  induction cs generalizing front a with
  | nil => rfl
  | cons b cs ih =>
    have hrest := ih (front ++ [a]) b
    rw [List.length_append, List.length_singleton, List.append_assoc, List.singleton_append] at hrest
    rw [broken, hrest, List.zipIdx_cons, List.flatMap_cons]
    simp only [breaks_iff]
    split_ifs
    · rfl
    · rfl

/-- The passes put one underscore before each place where the name is to be broken. -/
theorem passes_eq (cs : List Char) : breakTails (breakWords false cs) =
    cs.zipIdx.flatMap fun (c, i) => if Breaks cs i then ['_', c] else [c] := by
  cases cs with
  | nil => rfl
  | cons a cs =>
    have hfirst : ¬ Breaks (a :: cs) 0 := fun h => Nat.lt_irrefl 0 h.1
    rw [breakTails_breakWords, broken_eq [], List.zipIdx_cons, List.flatMap_cons]
    simp only [if_neg hfirst]
    rfl

/-! ### Names of ASCII characters -/

theorem ascii_passes (h : ∀ c ∈ cs, c.toNat < 128) : ∀ c ∈ breakTails (breakWords false cs), c.toNat < 128 := by
  intro c hc
  rw [passes_eq, List.mem_flatMap] at hc
  obtain ⟨⟨b, i⟩, hb, hc⟩ := hc
  have hbound := h b (List.fst_mem_of_mem_zipIdx hb)
  dsimp only at hc
  split_ifs at hc
  · rcases List.mem_cons.mp hc with rfl | hc
    · decide
    · rwa [List.mem_singleton.mp hc]
  · rwa [List.mem_singleton.mp hc]

theorem flatMap_zipIdx_fst (cs : List Char) : cs.zipIdx.flatMap (fun p => [p.1]) = cs := by
  rw [← List.map_eq_flatMap, List.zipIdx_map_fst]

/-- Nothing but underscores is put in. -/
theorem filter_passes (cs : List Char) :
    (breakTails (breakWords false cs)).filter (· ≠ '_') = cs.filter (· ≠ '_') := by
  have hpiece : ∀ p : Char × Nat, (if Breaks cs p.2 then ['_', p.1] else [p.1]).filter (· ≠ '_') =
      [p.1].filter (· ≠ '_') := fun p => by split_ifs <;> rfl
  rw [passes_eq, List.filter_flatMap]
  simp only [hpiece]
  rw [← List.filter_flatMap, flatMap_zipIdx_fst]

/-- A name without capitals is not broken. -/
theorem passes_of_no_capital (h : ∀ c ∈ cs, isCapital c = false) : breakTails (breakWords false cs) = cs := by
  have hbreaks : ∀ i, ¬ Breaks cs i := fun i hi => by
    obtain ⟨c, hc, hcapital⟩ := (Option.any_eq_true _ _).mp hi.2.1
    rw [h c (List.mem_of_getElem? hc)] at hcapital
    cases hcapital
  rw [passes_eq]
  simp only [if_neg (hbreaks _)]
  exact flatMap_zipIdx_fst cs

theorem toLower_ascii (hc : c.toNat < 128) :
    c.toLower.toNat < 128 ∧ isCapital c.toLower = false ∧ c.toLower.toLower = c.toLower ∧ (c.toLower = '_' ↔ c = '_') :=
  forall_ascii (P := fun c => c.toLower.toNat < 128 ∧ isCapital c.toLower = false ∧
    c.toLower.toLower = c.toLower ∧ (c.toLower = '_' ↔ c = '_')) (by decide) hc

theorem filter_map_passes (h : ∀ c ∈ cs, c.toNat < 128) :
    ((breakTails (breakWords false cs)).map Char.toLower).filter (· ≠ '_') =
      (cs.filter (· ≠ '_')).map Char.toLower := by
  have hsame : ∀ c ∈ breakTails (breakWords false cs),
      ((fun c => decide (c ≠ '_')) ∘ Char.toLower) c = decide (c ≠ '_') := fun c hc => by
    have hiff := (toLower_ascii (ascii_passes h c hc)).2.2.2
    rw [Function.comp_apply, decide_eq_decide, ne_eq, ne_eq, hiff]
  rw [List.filter_map, List.filter_congr hsame, filter_passes]

theorem lowerString_map_toLower (h : ∀ c ∈ cs, c.toNat < 128) :
    lowerString (String.ofList (cs.map Char.toLower)) = lowerString (String.ofList cs) := by
  have hlower : ∀ c ∈ cs.map Char.toLower, c.toNat < 128 := fun c hc => by
    obtain ⟨d, hd, rfl⟩ := List.mem_map.mp hc
    exact (toLower_ascii (h d hd)).1
  rw [lowerString_ascii hlower, lowerString_ascii h, List.map_map]
  exact congrArg String.ofList (List.map_congr_left fun c hc => (toLower_ascii (h c hc)).2.2.1)

end SnakeCase

open SnakeCase

theorem toList_snakeCase (s : String) (h : ∀ c ∈ s.toList, c.toNat < 128) :
    (snakeCase s).toList = (breakTails (breakWords false s.toList)).map Char.toLower := by
  rw [snakeCase, lowerString_ascii (ascii_passes h), String.toList_ofList]

/-- A name of ASCII characters becomes its lower case with one underscore before each place where it is to be broken,
and nothing else changes: without underscores and letter case it reads the same. A second time nothing happens. -/
theorem snakeCase_ascii (s : String) (h : ∀ c ∈ s.toList, c.toNat < 128) :
    (snakeCase s).toList =
        s.toList.zipIdx.flatMap (fun (c, i) => if Breaks s.toList i then ['_', c.toLower] else [c.toLower]) ∧
      lowerString (String.ofList ((snakeCase s).toList.filter (· ≠ '_'))) =
        lowerString (String.ofList (s.toList.filter (· ≠ '_'))) ∧
      snakeCase (snakeCase s) = snakeCase s := by
  have hlower : ∀ c ∈ (snakeCase s).toList, c.toNat < 128 ∧ isCapital c = false ∧ c.toLower = c := by
    intro c hc
    rw [toList_snakeCase s h] at hc
    obtain ⟨d, hd, rfl⟩ := List.mem_map.mp hc
    have hfacts := toLower_ascii (ascii_passes h d hd)
    exact ⟨hfacts.1, hfacts.2.1, hfacts.2.2.1⟩
  refine ⟨?_, ?_, ?_⟩
  · rw [toList_snakeCase s h, passes_eq, List.map_flatMap]
    congr 1
    funext ⟨c, i⟩
    dsimp only
    split_ifs
    · rfl
    · rfl
  · rw [toList_snakeCase s h, filter_map_passes h,
      lowerString_map_toLower fun c hc => h c (List.mem_of_mem_filter hc)]
  · rw [← String.toList_inj, toList_snakeCase _ fun c hc => (hlower c hc).1,
      passes_of_no_capital fun c hc => (hlower c hc).2.1, List.map_congr_left fun c hc => (hlower c hc).2.2, List.map_id']

/-- A run of capitals, a digit, an underscore of the name's own and a second word. -/
theorem snakeCase_jsonDecode2 : (∀ c ∈ "JSONDecode2_ErrorXs".toList, c.toNat < 128) ∧
    snakeCase "JSONDecode2_ErrorXs" = "json_decode2_error_xs" ∧
    snakeCase "json_decode2_error_xs" = "json_decode2_error_xs" := by
  have hascii : ∀ c ∈ "JSONDecode2_ErrorXs".toList, c.toNat < 128 := by simp
  obtain ⟨hplaces, -, hagain⟩ := snakeCase_ascii "JSONDecode2_ErrorXs" hascii
  have hsnake : snakeCase "JSONDecode2_ErrorXs" = "json_decode2_error_xs" := by
    rw [← String.toList_inj, hplaces]
    decide
  rw [hsnake] at hagain
  exact ⟨hascii, hsnake, hagain⟩

end TypedErrors
