import Mathlib.Data.List.Basic
import TypedErrors.Proofs.Source.Imports
import TypedErrors.Proofs.Source.Lexeme

/-! # Scanning what is spelled

A gap is gone past as a whole, and the reader of each class takes a text of the class and no more of what follows. -/

namespace TypedErrors
namespace Scan

variable {c : Char} {cs ds rest gap : List Char} {p : Char → Bool} {docs : Bool}

/-! ### Runs of characters -/

theorem countWhile_append (hcs : ∀ d ∈ cs, p d = true) (hrest : ∀ d ∈ rest.head?, p d = false) (acc : Nat) :
    countWhile p acc (cs ++ rest) = acc + cs.length := by
  induction cs generalizing acc with
  | nil =>
    cases rest with
    | nil => rfl
    | cons d rest =>
      have hd : p d = false := hrest d rfl
      simp [countWhile, hd]
  | cons c cs ih =>
    obtain ⟨hc, hcs⟩ := List.forall_mem_cons.mp hcs
    rw [List.cons_append, countWhile, if_pos hc, ih hcs, List.length_cons]
    omega

theorem toLineEnd_append {body : List Char} (hbody : '\n' ∉ body) (hrest : ∀ d ∈ rest.head?, d = '\n') :
    toLineEnd (body ++ rest) = body.length := by
  have hrun : ∀ d ∈ body, (decide (d ≠ '\n')) = true := fun d hd => by
    refine decide_eq_true ?_
    rintro rfl
    exact hbody hd
  have hend : ∀ d ∈ rest.head?, (decide (d ≠ '\n')) = false := fun d hd => by simp [hrest d hd]
  have h := countWhile_append hrun hend 0
  rw [Nat.zero_add] at h
  exact h

theorem blockRest?_append {body : List Char} (hbody : ¬ ['*', '/'] <:+: body) (acc : Nat) :
    blockRest? acc (body ++ '*' :: '/' :: cs) = some (acc + body.length + 2) := by
  induction body generalizing acc with
  | nil => rfl
  | cons c body ih =>
    have hrest : ¬ ['*', '/'] <:+: body := fun h => hbody (h.trans (List.suffix_cons c body).isInfix)
    have hskip : blockRest? acc (c :: (body ++ '*' :: '/' :: cs)) =
        blockRest? (acc + 1) (body ++ '*' :: '/' :: cs) := by
      cases body with
      | nil =>
        by_cases hc : c = '*'
        · subst hc; rfl
        · simp [blockRest?]
      | cons d body =>
        by_cases hc : c = '*'
        · by_cases hd : d = '/'
          · subst hc hd
            exact absurd ⟨[], body, rfl⟩ hbody
          · subst hc
            simp [blockRest?, hd]
        · simp [blockRest?, hc]
    rw [List.cons_append, hskip, ih hrest, List.length_cons]
    congr 1
    omega

/-! ### Gaps -/

theorem trivia_skip {k : Nat} (hk : k ≤ cs.length) (acc : Nat) :
    trivia docs k acc cs = trivia docs 0 (acc + k) (cs.drop k) := by
  induction k generalizing acc cs with
  | zero => rfl
  | succ k ih =>
    cases cs with
    | nil => cases hk
    | cons c cs =>
      rw [trivia, ih (Nat.le_of_succ_le_succ hk), List.drop_succ_cons, Nat.add_assoc, Nat.add_comm 1 k]

/-- A comment is gone past as a whole. -/
theorem trivia_comment {body : List Char} (hspace : isSpace c = false)
    (hdoc : docs = true → doc? (c :: (body ++ rest)) = none)
    (hcomment : comment? (c :: (body ++ rest)) = some (body.length + 1)) (acc : Nat) :
    trivia docs 0 acc (c :: (body ++ rest)) = trivia docs 0 (acc + (c :: body).length) rest := by
  have hdocs : (docs && (doc? (c :: (body ++ rest))).isSome) = false := by
    cases docs with
    | false => rfl
    | true => rw [hdoc rfl]; rfl
  rw [trivia, hspace, hdocs, hcomment]
  show trivia docs (body.length + 1 - 1) (acc + 1) (body ++ rest) = _
  rw [Nat.add_sub_cancel, trivia_skip (by simp), List.drop_left, List.length_cons, Nat.add_assoc, Nat.add_comm 1]

theorem trivia_line {body : List Char} (hbody : '\n' ∉ body) (hdoc : body.head? ≠ some '/')
    (hrest : ∀ d ∈ rest.head?, d = '\n') (acc : Nat) :
    trivia docs 0 acc ('/' :: '/' :: (body ++ rest)) = trivia docs 0 (acc + ('/' :: '/' :: body).length) rest := by
  have hline : comment? ('/' :: (('/' :: body) ++ rest)) = some (('/' :: body).length + 1) := by
    show some (2 + toLineEnd (body ++ rest)) = _
    rw [toLineEnd_append hbody hrest, List.length_cons]
    congr 1
    omega
  have hdoc? : docs = true → doc? ('/' :: (('/' :: body) ++ rest)) = none := by
    intro _
    rw [List.cons_append]
    unfold doc?
    split
    · next cs hcs =>
      cases body with
      | nil =>
        obtain ⟨-, hslash⟩ := List.cons.inj (List.cons.inj hcs).2
        exact absurd (hrest '/' (by rw [show rest = '/' :: cs from hslash]; rfl)) (by decide)
      | cons d body => exact absurd (by rw [(List.cons.inj (List.cons.inj (List.cons.inj hcs).2).2).1]; rfl) hdoc
    · rfl
  exact trivia_comment (by decide) hdoc? hline acc

theorem trivia_gap (hgap : Gap gap) (acc : Nat) :
    trivia docs 0 acc (gap ++ rest) = trivia docs 0 (acc + gap.length) rest := by
  induction hgap generalizing acc with
  | nil => rfl
  | @space c cs hc _ ih =>
    rw [List.cons_append, trivia, if_pos hc, ih, List.length_cons, Nat.add_assoc, Nat.add_comm 1]
  | @line body cs hbody hdoc _ ih =>
    have hend : trivia docs 0 (acc + ('/' :: '/' :: body).length) ('\n' :: (cs ++ rest)) =
        trivia docs 0 (acc + ('/' :: '/' :: body).length + 1) (cs ++ rest) := by
      rw [trivia, if_pos (by decide)]
    have hsplit : '/' :: '/' :: (body ++ '\n' :: cs) ++ rest = '/' :: '/' :: (body ++ '\n' :: (cs ++ rest)) := by
      simp
    rw [hsplit, trivia_line hbody hdoc (by simp), hend, ih]
    congr 1
    simp only [List.length_cons, List.length_append]
    omega
  | @block body cs hbody _ ih =>
    have hblock : comment? ('/' :: (('*' :: (body ++ ['*', '/'])) ++ (cs ++ rest))) =
        some (('*' :: (body ++ ['*', '/'])).length + 1) := by
      have hrest : body ++ ['*', '/'] ++ (cs ++ rest) = body ++ '*' :: '/' :: (cs ++ rest) := by simp
      show blockRest? 2 (body ++ ['*', '/'] ++ (cs ++ rest)) = _
      rw [hrest, blockRest?_append hbody]
      simp
      omega
    have hsplit : '/' :: '*' :: (body ++ '*' :: '/' :: cs) ++ rest =
        '/' :: (('*' :: (body ++ ['*', '/'])) ++ (cs ++ rest)) := by
      simp
    rw [hsplit, trivia_comment (by decide) (fun _ => rfl) hblock, ih]
    congr 1
    simp only [List.length_cons, List.length_append, List.length_nil]
    omega

/-- Nothing is gone past before the end or a character that begins no space or comment. -/
theorem trivia_of_head (h : ∀ d ∈ rest.head?, isSpace d = false ∧ d ≠ '/') (acc : Nat) :
    trivia docs 0 acc rest = acc := by
  cases rest with
  | nil => rfl
  | cons d rest =>
    obtain ⟨hspace, hslash⟩ := h d rfl
    have hdoc : doc? (d :: rest) = none := by
      unfold doc?
      split
      · next hcs => exact absurd (List.cons.inj hcs).1 hslash
      · rfl
    have hcomment : comment? (d :: rest) = none := by
      unfold comment?
      split
      · next hcs => exact absurd (List.cons.inj hcs).1 hslash
      · next hcs => exact absurd (List.cons.inj hcs).1 hslash
      · rfl
    simp [trivia, hspace, hdoc, hcomment]

/-! ### Characters of lexemes -/

theorem isNamePart_of_isDigitPart (h : isDigitPart c = true) : isNamePart c = true := by
  rw [isDigitPart, Bool.or_eq_true] at h
  rw [isNamePart, Bool.or_eq_true]
  exact h.imp_left fun hc => by rw [Char.isAlphanum, hc, Bool.or_true]

theorem isNamePart_of_isDigit (h : c.isDigit = true) : isNamePart c = true :=
  isNamePart_of_isDigitPart (by rw [isDigitPart, h, Bool.true_or])

theorem isNamePart_of_isHexPart (h : isHexPart c = true) : isNamePart c = true := by
  simp only [isHexPart, Bool.or_eq_true, Bool.and_eq_true, decide_eq_true_eq] at h
  rcases h with (hd | ⟨ha, hf⟩) | ⟨ha, hf⟩
  · exact isNamePart_of_isDigitPart hd
  · have hlower : c.isLower = true := Bool.and_eq_true_iff.mpr
      ⟨decide_eq_true ha, decide_eq_true (Char.le_trans hf (by decide))⟩
    have halpha : c.isAlpha = true := Bool.or_eq_true_iff.mpr (.inr hlower)
    rw [isNamePart, Char.isAlphanum, halpha, Bool.true_or, Bool.true_or]
  · have hupper : c.isUpper = true := decide_eq_true ⟨ha, Char.le_trans hf (by decide)⟩
    have halpha : c.isAlpha = true := Bool.or_eq_true_iff.mpr (.inl hupper)
    rw [isNamePart, Char.isAlphanum, halpha, Bool.true_or, Bool.true_or]

/-- What is not part of a name is not in a class of characters of names. -/
theorem head_not_of_notName (h : NotName rest) (hp : ∀ d, p d = true → isNamePart d = true) :
    ∀ d ∈ rest.head?, p d = false := by
  intro d hd
  by_contra hne
  rw [Bool.not_eq_false] at hne
  have hpart := hp d hne
  rw [h d hd] at hpart
  cases hpart

/-! ### Readers by the first character -/

theorem name?_none (h : isNameStart c = false) : name? (c :: cs) = none := by simp [name?, h]

theorem digits?_none (h : c.isDigit = false) : digits? (c :: cs) = none := by simp [digits?, h]

theorem float?_none (h : c.isDigit = false) : float? (c :: cs) = none := by simp [float?, digits?, h]

theorem int?_none (h : c.isDigit = false) : int? (c :: cs) = none := by
  have hzero : c ≠ '0' := by
    rintro rfl
    cases h
  cases cs <;> simp [int?, digits?, h, hzero]

theorem string?_none (h : c ≠ '"') : string? (c :: cs) = none := by simp [string?, h]

theorem char?_none (h : c ≠ '\'') : char? (c :: cs) = none := by
  unfold char?
  split
  · next hcs => exact absurd (List.cons.inj hcs).1 h
  · next hcs => exact absurd (List.cons.inj hcs).1 h
  · rfl

theorem doc?_none (h : c ≠ '/') : doc? (c :: cs) = none := by
  unfold doc?
  split
  · next hcs => exact absurd (List.cons.inj hcs).1 h
  · rfl

/-! ### Readers of the classes -/

theorem name?_append (h : NameText cs) (hrest : NotName rest) : name? (cs ++ rest) = some cs.length := by
  obtain ⟨hc, hcs⟩ := h
  rw [List.cons_append, name?, if_pos hc, countWhile_append hcs hrest, List.length_cons, Nat.add_comm]

theorem stringRest?_append (h : StringBody cs) (acc : Nat) :
    stringRest? acc (cs ++ '"' :: rest) = some (acc + cs.length + 1) := by
  induction h generalizing acc with
  | nil => rfl
  | @plain c cs hquote hslash hline _ ih =>
    have hstep : stringRest? acc (c :: (cs ++ '"' :: rest)) = stringRest? (acc + 1) (cs ++ '"' :: rest) := by
      rw [stringRest?.eq_def]
      split
      · next heq => exact absurd (List.cons.inj heq).1 hquote
      · next heq => exact absurd (List.cons.inj heq).1 hslash
      · next heq =>
        obtain ⟨rfl, rfl⟩ := List.cons.inj heq
        rw [if_neg (by simp [hslash, hline])]
      · next heq => cases heq
    rw [List.cons_append, hstep, ih, List.length_cons]
    congr 1
    omega
  | @escape c cs hline _ ih =>
    have hstep : stringRest? acc ('\\' :: c :: (cs ++ '"' :: rest)) = stringRest? (acc + 2) (cs ++ '"' :: rest) := by
      rw [stringRest?, if_neg hline]
    rw [List.cons_append, List.cons_append, hstep, ih, List.length_cons, List.length_cons]
    congr 1
    omega

theorem string?_append (h : QuotedText cs) : string? (cs ++ rest) = some cs.length := by
  obtain ⟨h⟩ := h
  rw [List.cons_append, List.append_assoc]
  show stringRest? 1 (_ ++ '"' :: rest) = _
  rw [stringRest?_append h, List.length_cons, List.length_append, List.length_singleton]
  congr 1
  omega

theorem char?_append (h : CharText cs) : char? (cs ++ rest) = some cs.length := by
  cases h with
  | @plain c hquote hslash hline =>
    show char? ('\'' :: c :: '\'' :: rest) = some 3
    unfold char?
    split
    · next heq => exact absurd (List.cons.inj (List.cons.inj heq).2).1 hslash
    · next heq =>
      obtain ⟨rfl, -⟩ := List.cons.inj (List.cons.inj heq).2
      exact if_pos ⟨hquote, hline⟩
    · next hne => exact absurd rfl (hne c rest)
  | @escape cs hne hcs =>
    have hrun : countWhile (fun c => c ≠ '\'' && c ≠ '\n') 0 (cs ++ '\'' :: rest) = cs.length := by
      rw [countWhile_append (fun d hd => by simpa using hcs d hd) (by simp), Nat.zero_add]
    have hsplit : '\'' :: '\\' :: (cs ++ ['\'']) ++ rest = '\'' :: '\\' :: (cs ++ '\'' :: rest) := by simp
    rw [hsplit, char?, hrun, if_pos ⟨List.length_pos_iff.mpr hne, by rw [List.drop_left]; rfl⟩]
    simp

theorem doc?_append (h : DocText cs) (hrest : ∀ d ∈ rest.head?, d = '\n') : doc? (cs ++ rest) = some cs.length := by
  obtain @⟨body, hbody⟩ := h
  show some (3 + toLineEnd (body ++ rest)) = _
  rw [toLineEnd_append hbody hrest, List.length_cons, List.length_cons, List.length_cons]
  congr 1
  omega

/-! ### Numbers -/

theorem digits?_append (h : DigitsText cs) (hrest : ∀ d ∈ rest.head?, isDigitPart d = false) :
    digits? (cs ++ rest) = some cs.length := by
  obtain ⟨hc, hcs⟩ := h
  rw [List.cons_append, digits?, if_pos hc, countWhile_append hcs hrest, List.length_cons, Nat.add_comm]

theorem exponent?_append (h : ExponentText cs) (hrest : NotName rest) : exponent? (cs ++ rest) = some cs.length := by
  obtain ⟨he, hsign, hne, hcs⟩ := h
  rename_i e sign ds
  have hrun : countWhile Char.isDigit 0 (ds ++ rest) = ds.length := by
    rw [countWhile_append hcs (head_not_of_notName hrest fun _ => isNamePart_of_isDigit), Nat.zero_add]
  have hpos : 0 < ds.length := List.length_pos_iff.mpr hne
  have hskip : ∀ n, n = sign.length → (if 0 < countWhile Char.isDigit 0 ((sign ++ ds ++ rest).drop n) then
      some (1 + n + countWhile Char.isDigit 0 ((sign ++ ds ++ rest).drop n)) else none) =
        some (e :: (sign ++ ds)).length := by
    rintro n rfl
    rw [List.append_assoc, List.drop_left, hrun, if_pos hpos, List.length_cons, List.length_append]
    congr 1
    omega
  rw [List.cons_append, show exponent? (e :: (sign ++ ds ++ rest)) = _ from if_pos he]
  refine hskip _ ?_
  rcases hsign with rfl | rfl | rfl
  · obtain ⟨d, ds, rfl⟩ := List.exists_cons_of_ne_nil hne
    have hd : d.isDigit = true := hcs d (List.mem_cons_self ..)
    have hplus : ¬ (d = '+' ∨ d = '-') := by
      rintro (rfl | rfl) <;> cases hd
    exact if_neg hplus
  · rfl
  · rfl

theorem exponent?_none_of_ne (he : ¬ (c = 'e' ∨ c = 'E')) : exponent? (c :: cs) = none := if_neg he

theorem exponent?_none (hrest : NotName rest) : exponent? rest = none := by
  cases rest with
  | nil => rfl
  | cons c rest =>
    have hc : isNamePart c = false := hrest c rfl
    refine exponent?_none_of_ne ?_
    rintro (rfl | rfl) <;> cases hc

theorem head_exponentText (h : ExponentText cs) : ∀ d ∈ (cs ++ rest).head?, isDigitPart d = false := by
  obtain ⟨he, -, -, -⟩ := h
  rintro d hd
  obtain rfl := Option.some.inj hd
  rcases he with rfl | rfl <;> rfl

theorem float?_append (h : FloatText cs) (hrest : NotName rest) : float? (cs ++ rest) = some cs.length := by
  have hdigit : ∀ d ∈ rest.head?, isDigitPart d = false :=
    head_not_of_notName hrest fun _ => isNamePart_of_isDigitPart
  cases h with
  | @fraction whole part exponent hwhole hpart hexponent =>
    have hsplit : whole ++ '.' :: (part ++ exponent) ++ rest = whole ++ '.' :: (part ++ (exponent ++ rest)) := by simp
    have hw : digits? (whole ++ '.' :: (part ++ (exponent ++ rest))) = some whole.length :=
      digits?_append hwhole (by rintro d ⟨⟩; rfl)
    have hp : digits? (part ++ (exponent ++ rest)) = some part.length := by
      refine digits?_append hpart ?_
      rcases hexponent with rfl | hexponent
      · exact hdigit
      · exact head_exponentText hexponent
    have hx : (exponent? (exponent ++ rest)).getD 0 = exponent.length := by
      rcases hexponent with rfl | hexponent
      · rw [List.nil_append, exponent?_none hrest]
        rfl
      · rw [exponent?_append hexponent hrest]
        rfl
    rw [hsplit, float?, hw]
    simp only [Option.bind_eq_bind, Option.bind_some, List.drop_left, hp, hx, Option.pure_def]
    simp
    omega
  | @exponent whole exponent hwhole hexponent =>
    have hw : digits? (whole ++ (exponent ++ rest)) = some whole.length :=
      digits?_append hwhole (head_exponentText hexponent)
    have hx := exponent?_append hexponent hrest
    obtain ⟨he, -, -, -⟩ := hexponent
    rename_i e sign ds
    have hdot : e ≠ '.' := by
      rcases he with rfl | rfl <;> decide
    rw [List.append_assoc, float?, hw]
    simp only [Option.bind_eq_bind, Option.bind_some, List.drop_left]
    split
    · next heq => exact absurd (List.cons.inj heq).1 hdot
    · rw [hx]
      simp

/-- A run of digits is no float when no fraction or exponent follows. -/
theorem float?_none_of_digits (h : DigitsText cs) (hrest : NotName rest)
    (hdot : ∀ d ds, rest = '.' :: d :: ds → d.isDigit = false) : float? (cs ++ rest) = none := by
  have hdigit : ∀ d ∈ rest.head?, isDigitPart d = false :=
    head_not_of_notName hrest fun _ => isNamePart_of_isDigitPart
  rw [float?, digits?_append h hdigit]
  simp only [Option.bind_eq_bind, Option.bind_some, List.drop_left]
  split
  · next rest =>
    cases rest with
    | nil => rfl
    | cons d ds =>
      rw [digits?_none (hdot d ds rfl)]
      rfl
  · rw [exponent?_none hrest]
    rfl

/-- A number with a letter for its base after the zero is no float. -/
theorem float?_none_of_base {x : Char} (hx : isDigitPart x = false) (hdot : x ≠ '.') (he : ¬ (x = 'e' ∨ x = 'E')) :
    float? ('0' :: x :: cs) = none := by
  have hzero : digits? ('0' :: x :: cs) = some 1 := by simp [digits?, countWhile, hx]
  rw [float?, hzero]
  simp only [Option.bind_eq_bind, Option.bind_some, List.drop_one, List.tail_cons]
  split
  · next heq => exact absurd (List.cons.inj heq).1 hdot
  · rw [exponent?_none_of_ne he]
    rfl

theorem float?_none_of_int (h : IntText cs) (hrest : NotName rest)
    (hdot : ∀ d ds, rest = '.' :: d :: ds → d.isDigit = false) : float? (cs ++ rest) = none := by
  cases h with
  | hex hx => rcases hx with rfl | rfl <;> exact float?_none_of_base (by decide) (by decide) (by decide)
  | octal hx => rcases hx with rfl | rfl <;> exact float?_none_of_base (by decide) (by decide) (by decide)
  | binary hx => rcases hx with rfl | rfl <;> exact float?_none_of_base (by decide) (by decide) (by decide)
  | decimal h => exact float?_none_of_digits h hrest hdot

/-- The digits of a number with a base. -/
theorem countWhile_base (hne : cs ≠ []) (hcs : ∀ d ∈ cs, p d = true) (hrest : NotName rest)
    (hp : ∀ d, p d = true → isNamePart d = true) :
    countWhile p 0 (cs ++ rest) = cs.length ∧ 0 < cs.length := by
  refine ⟨?_, List.length_pos_iff.mpr hne⟩
  rw [countWhile_append hcs (head_not_of_notName hrest hp), Nat.zero_add]

theorem int?_append (h : IntText cs) (hrest : NotName rest) : int? (cs ++ rest) = some cs.length := by
  cases h with
  | hex hx hne hcs =>
    obtain ⟨hrun, hpos⟩ := countWhile_base hne hcs hrest fun _ => isNamePart_of_isHexPart
    rcases hx with rfl | rfl <;> simp [int?, hrun, hpos]
  | octal hx hne hcs =>
    obtain ⟨hrun, hpos⟩ := countWhile_base hne hcs hrest fun d hd => by
      simp only [Bool.or_eq_true, Bool.and_eq_true, decide_eq_true_eq, beq_iff_eq] at hd
      rcases hd with ⟨hl, hu⟩ | rfl
      · exact isNamePart_of_isDigit (by
          rw [Char.isDigit, Bool.and_eq_true, decide_eq_true_eq, decide_eq_true_eq]
          exact ⟨hl, Char.le_trans hu (by decide)⟩)
      · rfl
    rcases hx with rfl | rfl <;> simp [int?, hrun, hpos]
  | binary hx hne hcs =>
    obtain ⟨hrun, hpos⟩ := countWhile_base hne hcs hrest fun d hd => by
      simp only [Bool.or_eq_true, beq_iff_eq] at hd
      rcases hd with (rfl | rfl) | rfl <;> rfl
    rcases hx with rfl | rfl <;> simp [int?, hrun, hpos]
  | decimal h =>
    have hdigits := digits?_append h (head_not_of_notName hrest fun _ => isNamePart_of_isDigitPart)
    obtain ⟨hc, hcs⟩ := h
    rename_i c cs
    rw [List.cons_append] at hdigits ⊢
    unfold int?
    split
    · next x xs heq =>
      obtain ⟨rfl, htail⟩ := List.cons.inj heq
      -- the character after the zero is one of its digits, or no part of a name
      have hx : isDigitPart x = true ∨ isNamePart x = false := by
        cases cs with
        | nil => exact .inr (hrest x (by rw [← List.nil_append rest, htail]; rfl))
        | cons d cs =>
          obtain ⟨rfl, -⟩ := List.cons.inj htail
          exact .inl (hcs d (List.mem_cons_self ..))
      have hne : ∀ y, isDigitPart y = false → isNamePart y = true → x ≠ y := by
        rintro y hdigit hname rfl
        rcases hx with hx | hx
        · rw [hdigit] at hx; cases hx
        · rw [hname] at hx; cases hx
      simp only [hne 'x' rfl rfl, hne 'X' rfl rfl, hne 'o' rfl rfl, hne 'O' rfl rfl, hne 'b' rfl rfl,
        hne 'B' rfl rfl, or_self, if_false]
      rw [if_neg (Nat.lt_irrefl 0), ← hdigits, htail]
    · exact hdigits

end Scan
end TypedErrors
