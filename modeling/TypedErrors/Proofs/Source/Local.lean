import TypedErrors.Proofs.Source.Fetched

/-! # Scanning is local

A text that has a character no word, number or symbol goes past (`Stops`) is scanned alike whatever comes after it, as
long as what is scanned lies within it (`terminal?_local`, `trivia_local`). -/

namespace TypedErrors
namespace Scan

variable {accepts : List Terminal} {u v w : List Char} {c : Char} {n : Nat} {t : Terminal} {docs : Bool}

/-! ### Lengths -/

theorem countWhile_le (p : Char → Bool) (acc : Nat) (u : List Char) : countWhile p acc u ≤ acc + u.length := by
  rw [countWhile_eq]
  exact Nat.add_le_add_left (List.takeWhile_prefix _).length_le acc

theorem le_of_name? (h : name? u = some n) : n ≤ u.length := by
  cases u with
  | nil => cases h
  | cons c u =>
    rw [name?] at h
    split_ifs at h
    obtain rfl := Option.some.inj h
    rw [List.length_cons, Nat.add_comm]
    exact countWhile_le _ 1 u

theorem le_of_digits? (h : digits? u = some n) : n ≤ u.length := by
  cases u with
  | nil => cases h
  | cons c u =>
    rw [digits?] at h
    split_ifs at h
    obtain rfl := Option.some.inj h
    rw [List.length_cons, Nat.add_comm]
    exact countWhile_le _ 1 u

theorem le_of_exponent? (h : exponent? u = some n) : n ≤ u.length := by
  cases u with
  | nil => cases h
  | cons e u =>
    rw [exponent?.eq_def] at h
    have hrun (skip : Nat) (hpos : 0 < countWhile Char.isDigit 0 (u.drop skip)) :
        1 + skip + countWhile Char.isDigit 0 (u.drop skip) ≤ (e :: u).length := by
      have hle := countWhile_le Char.isDigit 0 (u.drop skip)
      rw [List.length_drop] at hle
      rw [List.length_cons]
      omega
    dsimp only at h
    split_ifs at h with he hpos
    exact Option.some.inj h ▸ hrun _ hpos

theorem le_of_float? (h : float? u = some n) : n ≤ u.length := by
  rw [float?] at h
  obtain ⟨whole, hwhole, h⟩ := Option.bind_eq_some_iff.mp h
  have hle := le_of_digits? hwhole
  have hlen : (u.drop whole).length = u.length - whole := List.length_drop
  split at h
  · next rest hrest =>
    obtain ⟨fraction, hfraction, h⟩ := Option.bind_eq_some_iff.mp h
    obtain rfl := Option.some.inj h
    have hfrac := le_of_digits? hfraction
    have hexp : (exponent? (rest.drop fraction)).getD 0 ≤ rest.length - fraction := by
      cases hread : exponent? (rest.drop fraction) with
      | none => exact Nat.zero_le _
      | some e => exact List.length_drop ▸ le_of_exponent? hread
    rw [hrest, List.length_cons] at hlen
    omega
  · obtain ⟨e, he, h⟩ := Option.bind_eq_some_iff.mp h
    obtain rfl := Option.some.inj h
    have hexp := le_of_exponent? he
    omega

theorem length_le_of_stringRest? {acc : Nat} (h : stringRest? acc u = some n) : n ≤ acc + u.length := by
  fun_induction stringRest? acc u with
  | case1 acc =>
    obtain rfl := Option.some.inj h
    simp
  | case2 => cases h
  | case3 acc c cs hline ih =>
    have hle := ih h
    simp only [List.length_cons]
    omega
  | case4 => cases h
  | case5 acc c cs _ _ hne ih =>
    have hle := ih h
    simp only [List.length_cons]
    omega
  | case6 => cases h

theorem le_of_string? (h : string? u = some n) : n ≤ u.length := by
  unfold string? at h
  split at h
  · rw [List.length_cons, Nat.add_comm]
    exact length_le_of_stringRest? h
  · cases h

theorem le_of_char? (h : char? u = some n) : n ≤ u.length := by
  unfold char? at h
  split at h
  · next cs =>
    dsimp only at h
    split_ifs at h with hend
    obtain rfl := Option.some.inj h
    have hlt : countWhile (fun c => c ≠ '\'' && c ≠ '\n') 0 cs < cs.length := by
      by_contra hge
      rw [List.drop_eq_nil_of_le (by omega)] at hend
      cases hend.2
    simp only [List.length_cons]
    omega
  · split_ifs at h
    obtain rfl := Option.some.inj h
    simp
  · cases h

theorem le_of_int? (h : int? u = some n) : n ≤ u.length := by
  unfold int? at h
  split at h
  · next c cs =>
    dsimp only at h
    split_ifs at h
    all_goals first
      | exact le_of_digits? h
      | exact absurd ‹0 < 0› (Nat.lt_irrefl 0)
      | exact Option.some.inj h ▸ Nat.add_le_add_right ((countWhile_le _ 0 cs).trans (Nat.zero_add _).le) 2
  · exact le_of_digits? h

theorem le_of_doc? (h : doc? u = some n) : n ≤ u.length := by
  unfold doc? at h
  split at h
  · obtain rfl := Option.some.inj h
    have hle := countWhile_le (· ≠ '\n') 0 ‹List Char›
    simp only [List.length_cons, toLineEnd]
    omega
  · cases h

theorem le_of_fixed? {spelling? : Terminal → Option String} {ts : List Terminal}
    (h : fixed? spelling? u ts = some (t, n)) : n ≤ u.length := by
  obtain ⟨-, s, -, hfront, rfl⟩ := fixed?_eq_some h
  exact String.length_toList ▸ hfront.length_le

/-- A token lies within the text. -/
theorem le_of_terminal? (h : terminal? accepts u = some (t, n)) : n ≤ u.length := by
  rw [terminal?_eq] at h
  simp only [Option.orElse_eq_orElse, Option.orElse_eq_or, Option.or_eq_some_iff] at h
  rcases h with h | ⟨-, h | ⟨-, h | ⟨-, h | ⟨-, h | ⟨-, h | ⟨-, h | ⟨-, h⟩⟩⟩⟩⟩⟩⟩
  · exact le_of_float? (classRead_eq_some h).2
  · exact le_of_doc? (classRead_eq_some h).2
  · obtain ⟨⟨u, m⟩, hread, heq⟩ := Option.map_eq_some_iff.mp h
    obtain ⟨rfl, rfl⟩ := Prod.mk.inj heq
    exact le_of_name? (classRead_eq_some hread).2
  · exact le_of_string? (classRead_eq_some h).2
  · exact le_of_char? (classRead_eq_some h).2
  · exact le_of_int? (classRead_eq_some h).2
  · split_ifs at h
    exact le_of_fixed? h
  · exact le_of_fixed? h

theorem mem_of_classRead {o : Option Nat} (h : classRead accepts t o = some (t, n)) : t ∈ accepts := by
  rw [classRead] at h
  split_ifs at h with haccepts
  exact List.contains_iff_mem.mp haccepts

/-- What is read is accepted. -/
theorem mem_of_terminal? (h : terminal? accepts u = some (t, n)) : t ∈ accepts := by
  have hclass {k : Terminal} {o : Option Nat} (h : classRead accepts k o = some (t, n)) : t ∈ accepts := by
    obtain ⟨rfl, -⟩ := classRead_eq_some h
    exact mem_of_classRead h
  rw [terminal?_eq] at h
  simp only [Option.orElse_eq_orElse, Option.orElse_eq_or, Option.or_eq_some_iff] at h
  rcases h with h | ⟨-, h | ⟨-, h | ⟨-, h | ⟨-, h | ⟨-, h | ⟨-, h | ⟨-, h⟩⟩⟩⟩⟩⟩⟩
  · exact hclass h
  · exact hclass h
  · obtain ⟨⟨k, m⟩, hread, heq⟩ := Option.map_eq_some_iff.mp h
    obtain ⟨rfl, rfl⟩ := Prod.mk.inj heq
    obtain ⟨rfl, -⟩ := classRead_eq_some hread
    rw [nameOrWord]
    cases hfind : accepts.find? fun w => w.word? = some (String.ofList (u.take m)) with
    | none => exact mem_of_classRead hread
    | some w => exact List.mem_of_find?_eq_some hfind
  · exact hclass h
  · exact hclass h
  · exact hclass h
  · split_ifs at h
    exact (List.mem_filter.mp (fixed?_eq_some h).1).1
  · exact List.contains_iff_mem.mp (List.mem_filter.mp (fixed?_eq_some h).1).2

/-! ### Characters that end a token -/

/-- No name, number or symbol goes on with the character. -/
def isStop (c : Char) : Bool := !isNamePart c && c != '.' && c != ':' && c != '+' && c != '-'

/-- There is such a character in the text. -/
def Stops (u : List Char) : Prop := ∃ c ∈ u, isStop c = true

theorem Stops.ne_nil (h : Stops u) : u ≠ [] := by
  obtain ⟨c, hc, -⟩ := h
  exact List.ne_nil_of_mem hc

theorem Stops.tail (h : Stops (c :: u)) (hc : isStop c = false) : Stops u := by
  obtain ⟨d, hd, hstop⟩ := h
  obtain rfl | hd := List.mem_cons.mp hd
  · rw [hstop] at hc
    cases hc
  · exact ⟨d, hd, hstop⟩

theorem isStop_of_isNamePart (h : isNamePart c = true) : isStop c = false := by simp [isStop, h]

theorem not_of_isStop {p : Char → Bool} (hp : ∀ d, p d = true → isNamePart d = true) (h : isStop c = true) :
    p c = false := by
  by_contra hne
  rw [isStop_of_isNamePart (hp c (by simpa using hne))] at h
  cases h

/-! ### Readers -/

theorem countWhile_local {p : Char → Bool} (h : ∃ c ∈ u, p c = false) (acc : Nat) :
    countWhile p acc (u ++ v) = countWhile p acc u := by
  induction u generalizing acc with
  | nil => simp at h
  | cons c u ih =>
    rw [List.cons_append, countWhile, countWhile]
    split
    · next hc =>
      obtain ⟨d, hd, hpd⟩ := h
      obtain rfl | hd := List.mem_cons.mp hd
      · rw [hc] at hpd
        cases hpd
      · exact ih ⟨d, hd, hpd⟩ (acc + 1)
    · rfl

/-- A run that is shorter than the text stops in it. -/
theorem exists_of_countWhile_lt {p : Char → Bool} (h : countWhile p 0 (u ++ v) < u.length) : ∃ c ∈ u, p c = false := by
  by_contra hall
  simp only [not_exists, not_and, Bool.not_eq_false] at hall
  rw [countWhile_eq, List.takeWhile_append_of_pos hall, List.length_append] at h
  omega

/-- A run of characters of names stops within the text. -/
theorem Stops.countWhile {p : Char → Bool} (h : Stops u) (hp : ∀ d, p d = true → isNamePart d = true) (acc : Nat) :
    countWhile p acc (u ++ v) = Scan.countWhile p acc u := by
  obtain ⟨c, hc, hstop⟩ := h
  exact countWhile_local ⟨c, hc, not_of_isStop hp hstop⟩ acc

theorem Stops.drop_countWhile {p : Char → Bool} (h : Stops u) (hp : ∀ d, p d = true → isNamePart d = true) :
    Scan.countWhile p 0 u ≤ u.length ∧ Stops (u.drop (Scan.countWhile p 0 u)) := by
  induction u with
  | nil => exact absurd rfl h.ne_nil
  | cons c u ih =>
    rw [Scan.countWhile]
    split
    · next hc =>
      obtain ⟨hle, hdrop⟩ := ih (h.tail (isStop_of_isNamePart (hp c hc)))
      rw [countWhile_eq, Nat.zero_add, Nat.add_comm]
      rw [countWhile_eq, Nat.zero_add] at hle hdrop
      exact ⟨Nat.succ_le_succ hle, hdrop⟩
    · exact ⟨Nat.zero_le _, h⟩

theorem Stops.name? (h : Stops u) : name? (u ++ v) = Scan.name? u := by
  cases u with
  | nil => exact absurd rfl h.ne_nil
  | cons c u =>
    rw [List.cons_append, Scan.name?, Scan.name?]
    split
    · next hc => rw [(h.tail (isStop_of_isNamePart (isNamePart_of_isNameStart hc))).countWhile fun _ => id]
    · rfl

theorem Stops.digits? (h : Stops u) : digits? (u ++ v) = Scan.digits? u := by
  cases u with
  | nil => exact absurd rfl h.ne_nil
  | cons c u =>
    rw [List.cons_append, Scan.digits?, Scan.digits?]
    split
    · next hc =>
      rw [(h.tail (isStop_of_isNamePart (isNamePart_of_isDigit hc))).countWhile fun _ => isNamePart_of_isDigitPart]
    · rfl

theorem Stops.drop_digits? (h : Stops u) (hn : Scan.digits? u = some n) : n ≤ u.length ∧ Stops (u.drop n) := by
  cases u with
  | nil => cases hn
  | cons c u =>
    rw [Scan.digits?] at hn
    split_ifs at hn with hc
    obtain rfl := Option.some.inj hn
    obtain ⟨hle, hdrop⟩ := (h.tail (isStop_of_isNamePart (isNamePart_of_isDigit hc))).drop_countWhile
      (p := isDigitPart) fun _ => isNamePart_of_isDigitPart
    rw [countWhile_eq, Nat.zero_add] at hle hdrop
    rw [countWhile_eq, Nat.add_comm]
    exact ⟨Nat.succ_le_succ hle, hdrop⟩

theorem Stops.exponent? (h : Stops u) : exponent? (u ++ v) = Scan.exponent? u := by
  cases u with
  | nil => exact absurd rfl h.ne_nil
  | cons e u =>
    by_cases he : e = 'e' ∨ e = 'E'
    · have hu : Stops u := h.tail (by rcases he with rfl | rfl <;> decide)
      simp only [List.cons_append, Scan.exponent?.eq_def, if_pos he]
      cases u with
      | nil => exact absurd rfl hu.ne_nil
      | cons c u =>
        simp only [List.cons_append]
        by_cases hsign : c = '+' ∨ c = '-'
        · have hu : Stops u := hu.tail (by rcases hsign with rfl | rfl <;> decide)
          rw [if_pos hsign, List.drop_succ_cons, List.drop_succ_cons, List.drop_zero, List.drop_zero,
            hu.countWhile fun _ => isNamePart_of_isDigit]
        · rw [if_neg hsign, List.drop_zero, List.drop_zero, ← List.cons_append,
            hu.countWhile fun _ => isNamePart_of_isDigit]
    · rw [List.cons_append, exponent?_none_of_ne he, exponent?_none_of_ne he]

theorem Stops.float? (h : Stops u) : float? (u ++ v) = Scan.float? u := by
  rw [Scan.float?, Scan.float?, h.digits?]
  cases hwhole : Scan.digits? u with
  | none => rfl
  | some whole =>
    obtain ⟨hle, hdrop⟩ := h.drop_digits? hwhole
    simp only [Option.bind_eq_bind, Option.bind_some]
    rw [List.drop_append_of_le_length hle]
    generalize u.drop whole = rest at hdrop
    cases rest with
    | nil => exact absurd rfl hdrop.ne_nil
    | cons d rest =>
      by_cases hd : d = '.'
      · subst hd
        have hrest : Stops rest := hdrop.tail (by decide)
        simp only [List.cons_append]
        rw [hrest.digits?]
        cases hfraction : Scan.digits? rest with
        | none => rfl
        | some fraction =>
          obtain ⟨hle, hdrop⟩ := hrest.drop_digits? hfraction
          simp only [Option.bind_some]
          rw [List.drop_append_of_le_length hle, hdrop.exponent?]
      · have hexponent := hdrop.exponent? (v := v)
        rw [List.cons_append] at hexponent ⊢
        split
        · next heq => exact absurd (List.cons.inj heq).1 hd
        · split
          · next heq => exact absurd (List.cons.inj heq).1 hd
          · rw [hexponent]

theorem isNamePart_of_isOctal (h : (('0' ≤ c && c ≤ '7') || c == '_') = true) : isNamePart c = true := by
  simp only [Bool.or_eq_true, Bool.and_eq_true, decide_eq_true_eq, beq_iff_eq] at h
  obtain ⟨hlow, hhigh⟩ | rfl := h
  · refine isNamePart_of_isDigit ?_
    rw [Char.isDigit, Bool.and_eq_true, decide_eq_true_eq, decide_eq_true_eq]
    exact ⟨hlow, Char.le_trans hhigh (by decide)⟩
  · rfl

theorem isNamePart_of_isBinary (h : (c == '0' || c == '1' || c == '_') = true) : isNamePart c = true := by
  simp only [Bool.or_eq_true, beq_iff_eq] at h
  obtain (rfl | rfl) | rfl := h <;> rfl

theorem int?_eq_digits? (h : c ≠ '0') : int? (c :: u) = digits? (c :: u) := by
  unfold int?
  split
  · next heq => exact absurd (List.cons.inj heq).1 h
  · rfl

theorem Stops.int? (h : Stops u) : int? (u ++ v) = Scan.int? u := by
  have hdigits := h.digits? (v := v)
  cases u with
  | nil => exact absurd rfl h.ne_nil
  | cons z u =>
    by_cases hzero : z = '0'
    · subst hzero
      have hu := h.tail (by decide)
      cases u with
      | nil => exact absurd rfl hu.ne_nil
      | cons c u =>
        have hrun {p : Char → Bool} (hp : ∀ d, p d = true → isNamePart d = true) (hc : isStop c = false) :
            Scan.countWhile p 0 (u ++ v) = Scan.countWhile p 0 u :=
          (hu.tail hc).countWhile hp 0
        rw [List.cons_append, List.cons_append] at hdigits ⊢
        rw [Scan.int?, Scan.int?, hdigits]
        by_cases hx : c = 'x' ∨ c = 'X'
        · simp only [if_pos hx, hrun (fun _ => isNamePart_of_isHexPart) (by rcases hx with rfl | rfl <;> decide)]
        · by_cases ho : c = 'o' ∨ c = 'O'
          · simp only [if_neg hx, if_pos ho,
              hrun (fun _ => isNamePart_of_isOctal) (by rcases ho with rfl | rfl <;> decide)]
          · by_cases hb : c = 'b' ∨ c = 'B'
            · simp only [if_neg hx, if_neg ho, if_pos hb,
                hrun (fun _ => isNamePart_of_isBinary) (by rcases hb with rfl | rfl <;> decide)]
            · simp only [if_neg hx, if_neg ho, if_neg hb]
    · rw [List.cons_append] at hdigits ⊢
      rw [int?_eq_digits? hzero, int?_eq_digits? hzero, hdigits]

/-! ### Strings and characters -/

theorem lt_of_stringRest? {acc : Nat} (h : stringRest? acc u = some n) : acc < n := by
  fun_induction stringRest? acc u with
  | case1 acc => exact Nat.lt_of_succ_le (Nat.le_of_eq (Option.some.inj h))
  | case2 => cases h
  | case3 acc c cs hline ih => exact Nat.lt_trans (by omega) (ih h)
  | case4 => cases h
  | case5 acc c cs _ _ hne ih => exact Nat.lt_trans (by omega) (ih h)
  | case6 => cases h

theorem stringRest?_plain {acc : Nat} (hquote : c ≠ '"') (hslash : c ≠ '\\') :
    stringRest? acc (c :: u) = if c = '\n' then none else stringRest? (acc + 1) u := by
  rw [stringRest?.eq_def]
  split
  · next heq => exact absurd (List.cons.inj heq).1 hquote
  · next heq => exact absurd (List.cons.inj heq).1 hslash
  · next heq =>
    obtain ⟨rfl, rfl⟩ := List.cons.inj heq
    simp only [hslash, false_or]
  · next heq => cases heq

theorem stringRest?_local : ∀ {u : List Char} {acc : Nat}, stringRest? acc (u ++ v) = some n → n ≤ acc + u.length →
    stringRest? acc (u ++ w) = some n
  | [], acc, h, hn => absurd (lt_of_stringRest? h) (Nat.not_lt.mpr hn)
  | c :: u, acc, h, hn => by
    rw [List.length_cons] at hn
    by_cases hquote : c = '"'
    · subst hquote
      exact h
    · by_cases hslash : c = '\\'
      · subst hslash
        match u with
        | [] =>
          -- the character that is escaped would be outside
          cases v with
          | nil => cases h
          | cons d v =>
            rw [List.cons_append, List.nil_append, stringRest?] at h
            split_ifs at h
            have hlt := lt_of_stringRest? h
            simp only [List.length_nil] at hn
            omega
        | d :: u =>
          rw [List.cons_append, List.cons_append, stringRest?] at h ⊢
          split_ifs at h ⊢
          rw [List.length_cons] at hn
          exact stringRest?_local h (by omega)
      · rw [List.cons_append, stringRest?_plain hquote hslash] at h ⊢
        split_ifs at h ⊢
        exact stringRest?_local h (by omega)

theorem string?_local (h : string? (u ++ v) = some n) (hn : n ≤ u.length) : string? (u ++ w) = some n := by
  cases u with
  | nil => exact absurd (pos_of_string? h) (Nat.not_lt.mpr hn)
  | cons c u =>
    by_cases hquote : c = '"'
    · subst hquote
      have hrest : stringRest? 1 (u ++ v) = some n := h
      exact stringRest?_local hrest (by rw [List.length_cons] at hn; omega)
    · rw [List.cons_append, string?_none hquote] at h
      cases h

theorem char?_escape (cs : List Char) : char? ('\'' :: '\\' :: cs) =
    if 0 < countWhile (fun c => c ≠ '\'' && c ≠ '\n') 0 cs ∧
      (cs.drop (countWhile (fun c => c ≠ '\'' && c ≠ '\n') 0 cs)).head? = some '\'' then
        some (countWhile (fun c => c ≠ '\'' && c ≠ '\n') 0 cs + 3) else none := rfl

theorem char?_plain {d : Char} (hslash : c ≠ '\\') (cs : List Char) : char? ('\'' :: c :: d :: cs) =
    if d = '\'' ∧ c ≠ '\'' ∧ c ≠ '\n' then some 3 else none := by
  unfold char?
  split
  · next heq => exact absurd (List.cons.inj (List.cons.inj heq).2).1 hslash
  · next _ heq =>
    simp only [List.cons.injEq, true_and] at heq
    obtain ⟨rfl, rfl, -⟩ := heq
    simp only [true_and]
  · next hother => rw [if_neg fun h => hother c cs (by rw [h.1])]

theorem char?_local (h : char? (u ++ v) = some n) (hn : n ≤ u.length) : char? (u ++ w) = some n := by
  have hlen : 3 ≤ n := by
    unfold char? at h
    split at h
    · dsimp only at h
      split_ifs at h
      obtain rfl := Option.some.inj h
      omega
    · split_ifs at h
      obtain rfl := Option.some.inj h
      omega
    · cases h
  match u, hn with
  | a :: b :: c :: u, hn =>
    rw [List.cons_append, List.cons_append] at h ⊢
    by_cases hquote : a = '\''
    · subst hquote
      by_cases hslash : b = '\\'
      · subst hslash
        rw [char?_escape] at h ⊢
        generalize hk : countWhile (fun c => c ≠ '\'' && c ≠ '\n') 0 (c :: u ++ v) = k at h
        split_ifs at h with hend
        obtain rfl := Option.some.inj h
        -- the quote that ends it lies within
        have hwithin : k < (c :: u).length := by
          simp only [List.length_cons] at hn ⊢
          omega
        have hhead : ((c :: u).drop k).head? = some '\'' := by
          rw [← hend.2, List.drop_append_of_le_length hwithin.le, List.head?_append_of_ne_nil]
          exact List.ne_nil_of_length_pos (by rw [List.length_drop]; omega)
        have hstop : ∃ d ∈ c :: u, (fun c => c ≠ '\'' && c ≠ '\n') d = false :=
          ⟨'\'', List.mem_of_mem_drop (List.mem_of_mem_head? hhead), by decide⟩
        rw [countWhile_local hstop] at hk
        rw [countWhile_local hstop, hk, if_pos]
        refine ⟨hend.1, ?_⟩
        rw [List.drop_append_of_le_length hwithin.le, List.head?_append, hhead]
        rfl
      · rw [List.cons_append, char?_plain hslash] at h ⊢
        exact h
    · rw [char?_none hquote] at h
      cases h
  | [], hn => simp at hn; omega
  | [_], hn => simp at hn; omega
  | [_, _], hn => simp at hn; omega

/-! ### Fixed spellings -/

/-- A spelling of one character, or of characters that do not stop, is at the front of the text or nowhere. -/
theorem Stops.prefix_iff {s : List Char} (h : Stops u) (hs : s.length ≤ 1 ∨ ∀ d ∈ s, isStop d = false) :
    s <+: u ++ v ↔ s <+: u := by
  refine ⟨fun hfront => ?_, fun hfront => hfront.trans (List.prefix_append u v)⟩
  obtain hsu | hus := List.prefix_or_prefix_of_prefix hfront (List.prefix_append u v)
  · exact hsu
  · obtain hs | hs := hs
    · have hlen : s.length ≤ u.length := by
        have hpos := List.length_pos_iff.mpr h.ne_nil
        omega
      exact (hus.eq_of_length_le hlen) ▸ List.prefix_rfl
    · obtain ⟨d, hd, hstop⟩ := h
      rw [hs d (hus.subset hd)] at hstop
      cases hstop

theorem Stops.fixed? {spelling? : Terminal → Option String} (h : Stops u)
    (hs : ∀ t s, spelling? t = some s → s.toList.length ≤ 1 ∨ ∀ d ∈ s.toList, isStop d = false) (ts : List Terminal) :
    fixed? spelling? (u ++ v) ts = Scan.fixed? spelling? u ts := by
  induction ts with
  | nil => rfl
  | cons t ts ih =>
    rw [Scan.fixed?, Scan.fixed?, ih]
    split
    · next s hspelling =>
      have hfront : s.toList.isPrefixOf (u ++ v) = s.toList.isPrefixOf u := by
        rw [Bool.eq_iff_iff, List.isPrefixOf_iff_prefix, List.isPrefixOf_iff_prefix, h.prefix_iff (hs t s hspelling)]
      rw [hfront]
    · rfl

theorem not_isStop_of_word (t : Terminal) (s : String) (h : t.word? = some s) :
    s.toList.length ≤ 1 ∨ ∀ d ∈ s.toList, isStop d = false :=
  .inr fun d hd => isStop_of_isNamePart (isNamePart_of_word h d hd)

theorem not_isStop_of_symbol (t : Terminal) (s : String) (h : t.symbol? = some s) :
    s.toList.length ≤ 1 ∨ ∀ d ∈ s.toList, isStop d = false := by
  cases t <;> simp only [Terminal.symbol?, Option.some.injEq, reduceCtorEq] at h <;> subst h <;>
    first | exact .inl (by decide) | exact .inr fun d hd => Bool.eq_false_iff.mpr (List.any_eq_false.mp (by decide) d hd)

/-! ### Tokens -/

theorem symbols_none (h : isSymbolStart c = false) (ts : List Terminal) :
    fixed? Terminal.symbol? (c :: u) ts = none := by
  refine fixed?_none fun t _ s hs hfront => ?_
  obtain ⟨d, ds, hds, hstart⟩ := symbol_start hs
  rw [hds] at hfront
  rw [(List.cons_prefix_cons.mp hfront).1, h] at hstart
  cases hstart

/-- What starts with a slash is a doc comment or no token. -/
theorem terminal?_slash : terminal? accepts ('/' :: u) = classRead accepts .doc (doc? ('/' :: u)) := by
  rw [terminal?_eq, float?_none (by decide), name?_none (by decide), string?_none (by decide), char?_none (by decide),
    int?_none (by decide), words_none (by decide), symbols_none (by decide)]
  simp

theorem terminal?_quote : terminal? accepts ('"' :: u) = classRead accepts .string (string? ('"' :: u)) := by
  rw [terminal?_eq, float?_none (by decide), name?_none (by decide), doc?_none (by decide), char?_none (by decide),
    int?_none (by decide), words_none (by decide), symbols_none (by decide)]
  simp

theorem terminal?_apostrophe : terminal? accepts ('\'' :: u) = classRead accepts .char (char? ('\'' :: u)) := by
  rw [terminal?_eq, float?_none (by decide), name?_none (by decide), doc?_none (by decide), string?_none (by decide),
    int?_none (by decide), words_none (by decide), symbols_none (by decide)]
  simp

theorem toLineEnd_lt (h : '\n' ∈ u) : toLineEnd (u ++ v) < u.length := by
  obtain ⟨x, y, rfl⟩ := List.append_of_mem h
  rw [List.append_assoc, toLineEnd, countWhile_eq, Nat.zero_add, List.takeWhile_append, List.length_append]
  split
  · simp
  · have hle := (List.takeWhile_prefix (l := x) fun c => decide (c ≠ '\n')).length_le
    simp only [List.length_cons]
    omega

theorem le_toLineEnd (h : '\n' ∉ u) : u.length ≤ toLineEnd (u ++ v) := by
  have hall : ∀ d ∈ u, (decide (d ≠ '\n')) = true := fun d hd => decide_eq_true fun hline => h (hline ▸ hd)
  rw [toLineEnd, countWhile_eq, Nat.zero_add, List.takeWhile_append_of_pos hall, List.length_append]
  exact Nat.le_add_right ..

/-- A line that ends within the text, or with it. -/
theorem toLineEnd_local (h : toLineEnd (u ++ v) ≤ u.length)
    (hend : toLineEnd (u ++ v) = u.length → ∀ d ∈ w.head?, d = '\n') : toLineEnd (u ++ w) = toLineEnd (u ++ v) := by
  obtain hlt | heq := Nat.lt_or_eq_of_le h
  · have hstop := exists_of_countWhile_lt hlt
    rw [toLineEnd, toLineEnd, countWhile_local hstop, countWhile_local hstop]
  · rw [heq]
    exact toLineEnd_append (fun hline => absurd heq (toLineEnd_lt hline).ne) (hend heq)

theorem doc?_local (h : doc? (u ++ v) = some n) (hn : n ≤ u.length) (hend : n = u.length → ∀ d ∈ w.head?, d = '\n') :
    doc? (u ++ w) = some n := by
  have hlen : 3 ≤ n := by
    unfold doc? at h
    split at h
    · obtain rfl := Option.some.inj h
      omega
    · cases h
  match u, hn with
  | a :: b :: c :: u, hn =>
    simp only [List.cons_append] at h ⊢
    unfold doc? at h
    split at h
    · next cs heq =>
      simp only [List.cons.injEq] at heq
      obtain ⟨rfl, rfl, rfl, rfl⟩ := heq
      obtain rfl := Option.some.inj h
      simp only [List.length_cons] at hn hend
      rw [doc?, toLineEnd_local (v := v) (by omega) fun heq => hend (by omega)]
    · cases h
  | [], hn => simp at hn; omega
  | [_], hn => simp at hn; omega
  | [_, _], hn => simp at hn; omega

/-- What comes after a text that stops does not matter for a token within it; a doc comment ends with its line. -/
theorem terminal?_local (hstop : Stops u) (h : terminal? accepts (u ++ v) = some (t, n)) (hn : n ≤ u.length)
    (hdoc : t = .doc → n = u.length → ∀ d ∈ w.head?, d = '\n') : terminal? accepts (u ++ w) = some (t, n) := by
  have hkept {t' : Terminal} {o o' : Option Nat} (h : classRead accepts t' o = some (t, n))
      (ho : o = some n → o' = some n) : classRead accepts t' o' = some (t, n) := by
    obtain ⟨rfl, hread⟩ := classRead_eq_some h
    rw [ho hread, ← hread]
    exact h
  cases u with
  | nil => exact absurd rfl hstop.ne_nil
  | cons c u =>
    by_cases hslash : c = '/'
    · subst hslash
      rw [List.cons_append, terminal?_slash] at h ⊢
      obtain ⟨rfl, -⟩ := classRead_eq_some h
      exact hkept h fun hread => doc?_local (u := '/' :: u) hread hn (hdoc rfl)
    by_cases hquote : c = '"'
    · subst hquote
      rw [List.cons_append, terminal?_quote] at h ⊢
      exact hkept h fun hread => string?_local (u := '"' :: u) hread hn
    by_cases happ : c = '\''
    · subst happ
      rw [List.cons_append, terminal?_apostrophe] at h ⊢
      exact hkept h fun hread => char?_local (u := '\'' :: u) hread hn
    have hname (z : List Char) : (classRead accepts .name (name? (c :: u))).map
        (fun p => (nameOrWord accepts ((c :: u ++ z).take p.2), p.2)) = (classRead accepts .name (name? (c :: u))).map
          fun p => (nameOrWord accepts ((c :: u).take p.2), p.2) := by
      refine Option.map_congr fun p hp => ?_
      obtain ⟨t, m⟩ := p
      rw [List.take_append_of_le_length (le_of_name? (classRead_eq_some hp).2)]
    -- the others do not look past the character that stops them
    have hread (z : List Char) : terminal? accepts (c :: u ++ z) =
        (classRead accepts .float (float? (c :: u))
          <|> (classRead accepts .name (name? (c :: u))).map (fun p => (nameOrWord accepts ((c :: u).take p.2), p.2))
          <|> classRead accepts .int (int? (c :: u))
          <|> (if accepts.contains .name then none
            else fixed? Terminal.word? (c :: u) (accepts.filter Terminal.isWord))
          <|> fixed? Terminal.symbol? (c :: u) (Terminal.symbols.filter accepts.contains)) := by
      rw [terminal?_eq, hstop.float?, hstop.name?, hstop.int?, hstop.fixed? not_isStop_of_word,
        hstop.fixed? not_isStop_of_symbol, hname, List.cons_append, doc?_none hslash, string?_none hquote,
        char?_none happ]
      simp
    rw [hread] at h ⊢
    exact h

/-! ### Space and comments -/

theorem le_trivia (skip acc : Nat) (u : List Char) : acc + min skip u.length ≤ trivia docs skip acc u := by
  induction u generalizing skip acc with
  | nil => simp [trivia]
  | cons c u ih =>
    cases skip with
    | succ k =>
      have h := ih k (acc + 1)
      rw [trivia, List.length_cons]
      omega
    | zero =>
      rw [trivia, Nat.zero_min, Nat.add_zero]
      split
      · exact Nat.le_trans (by omega) (ih 0 (acc + 1))
      · split
        · exact Nat.le_refl acc
        · split
          · next n _ => exact Nat.le_trans (by omega) (ih (n - 1) (acc + 1))
          · exact Nat.le_refl acc

/-- What is gone past ends before a character that is no space. -/
theorem head_of_trivia (hv : v ≠ []) {skip acc : Nat} (h : trivia docs skip acc (u ++ v) = acc + u.length) :
    ∀ d ∈ v.head?, isSpace d = false := by
  induction u generalizing skip acc with
  | nil =>
    intro d hd
    obtain ⟨v, rfl⟩ := List.head?_eq_some_iff.mp hd
    by_contra hspace
    have hle : acc + 1 ≤ trivia docs skip acc (d :: v) := by
      cases skip with
      | zero =>
        rw [trivia, if_pos (by simpa using hspace)]
        exact Nat.le_trans (by omega) (le_trivia 0 (acc + 1) v)
      | succ k => exact Nat.le_trans (by omega) (le_trivia k (acc + 1) v)
    rw [List.nil_append, List.length_nil] at h
    omega
  | cons c u ih =>
    rw [List.cons_append, List.length_cons] at h
    cases skip with
    | succ k =>
      rw [trivia] at h
      exact ih (show trivia docs k (acc + 1) (u ++ v) = acc + 1 + u.length by omega)
    | zero =>
      rw [trivia] at h
      split_ifs at h
      · exact ih (show trivia docs 0 (acc + 1) (u ++ v) = acc + 1 + u.length by omega)
      · omega
      · split at h
        · next n _ => exact ih (show trivia docs (n - 1) (acc + 1) (u ++ v) = acc + 1 + u.length by omega)
        · omega

theorem lt_of_blockRest? {acc : Nat} (h : blockRest? acc u = some n) : acc + 1 < n := by
  fun_induction blockRest? acc u with
  | case1 acc => exact Nat.lt_of_succ_le (Nat.le_of_eq (Option.some.inj h))
  | case2 acc c cs _ ih => exact Nat.lt_trans (by omega) (ih h)
  | case3 => cases h

theorem pos_of_comment? (h : comment? u = some n) : 1 < n := by
  unfold comment? at h
  split at h
  · obtain rfl := Option.some.inj h
    omega
  · have hlt := lt_of_blockRest? h
    omega
  · cases h

theorem blockRest?_local {acc : Nat} (h : blockRest? acc (u ++ v) = some n) (hn : n ≤ acc + u.length) :
    blockRest? acc (u ++ w) = some n := by
  induction u generalizing acc with
  | nil =>
    have hlt := lt_of_blockRest? h
    rw [List.length_nil] at hn
    omega
  | cons c u ih =>
    rw [List.length_cons] at hn
    cases u with
    | nil =>
      have hlt := lt_of_blockRest? h
      rw [List.length_nil] at hn
      omega
    | cons d u =>
      simp only [List.cons_append] at h ih ⊢
      by_cases hend : c = '*' ∧ d = '/'
      · obtain ⟨rfl, rfl⟩ := hend
        exact h
      · have hskip (z : List Char) : blockRest? acc (c :: d :: z) = blockRest? (acc + 1) (d :: z) := by
          rw [blockRest?.eq_def]
          split
          · next heq =>
            simp only [List.cons.injEq] at heq
            exact absurd ⟨heq.1, heq.2.1⟩ hend
          · next heq =>
            obtain ⟨-, rfl⟩ := List.cons.inj heq
            rfl
          · next heq => cases heq
        rw [hskip] at h ⊢
        exact ih h (by omega)

/-- A comment within the text, when what comes after it starts no line. -/
theorem comment?_local (h : comment? (u ++ v) = some n) (hn : n ≤ u.length) (hv : v.head? ≠ some '\n') (hne : v ≠ []) :
    3 ≤ u.length ∧ comment? (u ++ w) = some n := by
  match u, hn with
  | a :: b :: u, hn =>
    simp only [List.cons_append, List.length_cons] at h hn ⊢
    unfold comment? at h
    split at h
    · next cs heq =>
      simp only [List.cons.injEq] at heq
      obtain ⟨rfl, rfl, rfl⟩ := heq
      obtain rfl := Option.some.inj h
      have hshort : toLineEnd (u ++ v) ≠ u.length := by
        intro heq
        obtain ⟨d, v, rfl⟩ := List.exists_cons_of_ne_nil hne
        have hline : '\n' ∉ u ++ [d] := by
          rw [List.mem_append, List.mem_singleton, not_or]
          refine ⟨fun hline => absurd heq (toLineEnd_lt hline).ne, ?_⟩
          rintro rfl
          exact hv rfl
        have hle : (u ++ [d]).length ≤ toLineEnd (u ++ [d] ++ v) := le_toLineEnd hline
        rw [List.append_assoc, List.singleton_append, List.length_append, List.length_singleton] at hle
        omega
      have hlocal := toLineEnd_local (v := v) (w := w) (by omega) fun heq => absurd heq hshort
      exact ⟨by omega, congrArg (fun n => some (2 + n)) hlocal⟩
    · next cs heq =>
      simp only [List.cons.injEq] at heq
      obtain ⟨rfl, rfl, rfl⟩ := heq
      have hlt := lt_of_blockRest? h
      exact ⟨by omega, blockRest?_local h (by omega)⟩
    · cases h
  | [], hn =>
    have hpos := pos_of_comment? h
    simp only [List.length_nil] at hn
    omega
  | [_], hn =>
    have hpos := pos_of_comment? h
    simp only [List.length_singleton] at hn
    omega

theorem doc?_isSome_local (h : 3 ≤ u.length) : (doc? (u ++ w)).isSome = (doc? (u ++ v)).isSome := by
  match u, h with
  | a :: b :: c :: u, _ =>
    simp only [List.cons_append, doc?.eq_def]
    split <;> split <;> simp_all

/-- A text that is gone past is gone past whatever comes after it. -/
theorem trivia_local (hv : v ≠ []) {skip acc : Nat} (h : trivia docs skip acc (u ++ v) = acc + u.length) :
    trivia docs skip acc (u ++ w) = trivia docs 0 (acc + u.length) w := by
  induction u generalizing skip acc with
  | nil =>
    cases skip with
    | zero => rfl
    | succ k =>
      have hle : acc + min (k + 1) v.length ≤ trivia docs (k + 1) acc v := le_trivia ..
      have hpos := List.length_pos_iff.mpr hv
      rw [List.nil_append, List.length_nil] at h
      omega
  | cons c u ih =>
    cases skip with
    | succ k =>
      rw [List.cons_append, trivia, List.length_cons] at h ⊢
      rw [ih (by omega)]
      congr 1
      omega
    | zero =>
      rw [List.cons_append, trivia, List.length_cons] at h ⊢
      by_cases hspace : isSpace c = true
      · rw [if_pos hspace] at h ⊢
        rw [ih (by omega)]
        congr 1
        omega
      · rw [if_neg hspace] at h ⊢
        split_ifs at h with hdoc
        · omega
        cases hcomment : comment? (c :: (u ++ v)) with
        | none =>
          simp only [hcomment] at h
          omega
        | some n =>
          simp only [hcomment] at h
          -- the comment ends within the text, before a character that is no space
          have hle : acc + 1 + min (n - 1) (u ++ v).length ≤ trivia docs (n - 1) (acc + 1) (u ++ v) := le_trivia ..
          have hpos := List.length_pos_iff.mpr hv
          rw [List.length_append] at hle
          have hacc : trivia docs (n - 1) (acc + 1) (u ++ v) = acc + 1 + u.length := by omega
          have hhead : v.head? ≠ some '\n' := fun hline => absurd (head_of_trivia hv hacc '\n' hline) (by decide)
          have hn : n ≤ (c :: u).length := by
            rw [List.length_cons]
            omega
          obtain ⟨hlen, hlocal⟩ := comment?_local (u := c :: u) (w := w) hcomment hn hhead hv
          have hsame : (doc? (c :: (u ++ w))).isSome = (doc? (c :: (u ++ v))).isSome := doc?_isSome_local hlen
          have hcomment' : comment? (c :: (u ++ w)) = some n := hlocal
          rw [if_neg (by rwa [hsame]), hcomment']
          show trivia docs (n - 1) (acc + 1) (u ++ w) = _
          rw [ih hacc]
          congr 1
          omega

/-- No space or comment is gone past where a token starts. -/
theorem trivia_of_terminal? (h : terminal? accepts u = some (t, n)) (hspace : ∀ d ∈ u.head?, isSpace d = false)
    (acc : Nat) : trivia (accepts.contains .doc) 0 acc u = acc := by
  cases u with
  | nil => rfl
  | cons c u =>
    by_cases hslash : c = '/'
    · subst hslash
      rw [terminal?_slash] at h
      obtain ⟨rfl, hdoc⟩ := classRead_eq_some h
      have haccepts : accepts.contains .doc = true := by
        by_contra hnot
        rw [classRead, if_neg hnot] at h
        cases h
      rw [trivia, if_neg (by decide), haccepts, hdoc]
      rfl
    · exact trivia_of_head (fun d hd => ⟨hspace d hd, fun hd' => hslash (by cases hd; exact hd')⟩) acc

end Scan

namespace Lookahead

variable {site : Site} {last : Option Token} {c c' : Cursor} {a : Lookahead} {t : Token} {k : Terminal}
  {gap text rest r v w : List Char}

/-- Space and comments are gone past, and then a token is read. -/
theorem gap_of_fetch (h : fetch site last c = .ok a) (ht : a.token? = some t) :
    ∃ gap, c.rest = gap ++ (t.text.toList ++ a.after.rest) ∧
      Scan.trivia (site.accepts.contains .doc) 0 0 c.rest = gap.length ∧
      Scan.terminal? site.accepts (t.text.toList ++ a.after.rest) = some (t.terminal, t.text.toList.length) := by
  obtain ⟨-, -, rfl⟩ | ⟨u, n, hread, rfl⟩ := fetch_eq_ok.mp h
  · cases ht
  · obtain rfl := Option.some.inj ht
    rw [Scan.skip, Scan.rest_advance] at hread
    simp only [Scan.skip, Scan.take, Scan.rest_advance, String.toList_ofList, List.take_append_drop]
    generalize Scan.trivia (site.accepts.contains .doc) 0 0 c.rest = k at hread
    have hk : k ≤ c.rest.length := by
      by_contra hlong
      rw [List.drop_eq_nil_of_le (by omega), Scan.terminal?_nil] at hread
      cases hread
    refine ⟨c.rest.take k, (List.take_append_drop ..).symm, (List.length_take_of_le hk).symm, ?_⟩
    rw [hread, List.length_take_of_le (Scan.le_of_terminal? hread)]

theorem fetch_of_gap (hrest : c.rest = gap ++ (text ++ rest))
    (hgap : Scan.trivia (site.accepts.contains .doc) 0 0 c.rest = gap.length)
    (hread : Scan.terminal? site.accepts (text ++ rest) = some (k, text.length)) (last : Option Token) :
    ∃ a t, fetch site last c = .ok a ∧ a.token? = some t ∧ t.terminal = k ∧ t.text.toList = text ∧
      a.after.rest = rest := by
  have hskip : (Scan.skip site.accepts c).rest = text ++ rest := by
    rw [Scan.skip, Scan.rest_advance, hgap, hrest, List.drop_left]
  refine ⟨_, _, fetch_eq_ok.mpr (.inr ⟨k, text.length, hskip ▸ hread, rfl⟩), rfl, rfl, ?_, ?_⟩
  · rw [Scan.take, hskip, List.take_left, String.toList_ofList]
  · rw [Scan.take, Scan.rest_advance, hskip, List.drop_left]

/-- What is read alike before another text is fetched alike. -/
theorem fetch_alike (h : fetch site last c = .ok a) (ht : a.token? = some t)
    (hrest : c.rest = gap ++ (t.text.toList ++ a.after.rest)) (hrest' : c'.rest = gap ++ (t.text.toList ++ w))
    (hread : Scan.terminal? site.accepts (t.text.toList ++ w) = some (t.terminal, t.text.toList.length))
    (last' : Option Token) :
    ∃ a' t', fetch site last' c' = .ok a' ∧ a'.token? = some t' ∧ t'.terminal = t.terminal ∧
      t'.text.toList = t.text.toList ∧ a'.after.rest = w := by
  obtain ⟨gap', hrest'', hgap, -⟩ := gap_of_fetch h ht
  obtain rfl : gap = gap' := List.append_cancel_right (hrest.symm.trans hrest'')
  have hpos := Scan.pos_of_terminal? hread
  have hne (z : List Char) : t.text.toList ++ z ≠ [] :=
    List.append_ne_nil_of_left_ne_nil (List.ne_nil_of_length_pos hpos) z
  rw [hrest] at hgap
  have hend : Scan.trivia (site.accepts.contains .doc) 0 0 (gap ++ (t.text.toList ++ a.after.rest)) =
      0 + gap.length := by rw [hgap, Nat.zero_add]
  have hspace := Scan.head_of_trivia (hne a.after.rest) hend
  refine fetch_of_gap hrest' ?_ hread last'
  rw [hrest', Scan.trivia_local (hne a.after.rest) hend, Nat.zero_add]
  refine Scan.trivia_of_terminal? hread (fun d hd => hspace d ?_) _
  rwa [List.head?_append_of_ne_nil _ (List.ne_nil_of_length_pos hpos)] at hd ⊢

/-- What comes after a text that stops does not matter for a token that is fetched within it. -/
theorem fetch_local (h : fetch site last c = .ok a) (ht : a.token? = some t) (hafter : a.after.rest = r ++ v)
    (hrest : c.rest = gap ++ (t.text.toList ++ (r ++ v))) (hstop : Scan.Stops (t.text.toList ++ r))
    (hdoc : t.terminal = .doc → r = [] → ∀ d ∈ w.head?, d = '\n')
    (hrest' : c'.rest = gap ++ (t.text.toList ++ (r ++ w))) (last' : Option Token) :
    ∃ a' t', fetch site last' c' = .ok a' ∧ a'.token? = some t' ∧ t'.terminal = t.terminal ∧
      t'.text.toList = t.text.toList ∧ a'.after.rest = r ++ w := by
  obtain ⟨_, -, -, hread⟩ := gap_of_fetch h ht
  refine fetch_alike h ht (hafter ▸ hrest) hrest' ?_ last'
  rw [hafter, ← List.append_assoc] at hread
  rw [← List.append_assoc]
  refine Scan.terminal?_local hstop hread (by simp) fun hk hlen => hdoc hk ?_
  rw [List.length_append] at hlen
  exact List.eq_nil_of_length_eq_zero (by omega)

end Lookahead
end TypedErrors
