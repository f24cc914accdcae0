import TypedErrors.Proofs.Source.Resumed

/-! # What comes behind a name

No name or number goes on with what comes behind a name that is the first one of a type (`Closes`). So what is scanned
up to such a name does not depend on what comes behind it (`terminal?_behind`, `Lookahead.fetch_behind`). -/

namespace TypedErrors
namespace Scan

variable {accepts : List Terminal} {u v w : List Char} {c : Char} {n : Nat} {t : Terminal} {p : Char → Bool}

/-- No name or number goes on with the text. -/
structure Closes (v : List Char) : Prop where
  head : ∀ c ∈ v.head?, isNamePart c = false ∧ c ≠ '+' ∧ c ≠ '-'
  point : ∀ c cs, v = '.' :: c :: cs → c.isDigit = false

/-! ### Readers -/

namespace Closes

theorem ne_part (h : Closes v) (hp : ∀ d, p d = true → isNamePart d = true) : ∀ c ∈ v.head?, p c = false := by
  intro c hc
  by_contra hpc
  have hpart := hp c (by simpa using hpc)
  rw [(h.head c hc).1] at hpart
  cases hpart

theorem countWhile (h : Closes v) (hp : ∀ d, p d = true → isNamePart d = true) (acc : Nat) (u : List Char) :
    countWhile p acc (u ++ v) = Scan.countWhile p acc u := by
  induction u generalizing acc with
  | nil =>
    cases v with
    | nil => rfl
    | cons c v =>
      have hc := h.ne_part hp c rfl
      simp [Scan.countWhile, hc]
  | cons c u ih => rw [List.cons_append, Scan.countWhile, Scan.countWhile, ih]

theorem name? (h : Closes v) (u : List Char) : name? (u ++ v) = Scan.name? u := by
  cases u with
  | nil =>
    cases v with
    | nil => rfl
    | cons c v => rw [List.nil_append, Scan.name?, h.ne_part (fun _ => isNamePart_of_isNameStart) c rfl]; rfl
  | cons c u => rw [List.cons_append, Scan.name?, Scan.name?, h.countWhile fun _ => id]

theorem digits? (h : Closes v) (u : List Char) : digits? (u ++ v) = Scan.digits? u := by
  cases u with
  | nil =>
    cases v with
    | nil => rfl
    | cons c v => rw [List.nil_append, Scan.digits?, h.ne_part (fun _ => isNamePart_of_isDigit) c rfl]; rfl
  | cons c u => rw [List.cons_append, Scan.digits?, Scan.digits?, h.countWhile fun _ => isNamePart_of_isDigitPart]

theorem exponent? (h : Closes v) (u : List Char) : exponent? (u ++ v) = Scan.exponent? u := by
  have hrun (u : List Char) := h.countWhile (fun _ => isNamePart_of_isDigit) 0 u
  match u with
  | [] =>
    cases v with
    | nil => rfl
    | cons c v =>
      rw [List.nil_append, exponent?_none_of_ne, Scan.exponent?]
      rintro (rfl | rfl) <;> exact absurd (h.head _ rfl).1 (by decide)
  | [e] =>
    cases v with
    | nil => rfl
    | cons c v =>
      have hsign : ¬ (c = '+' ∨ c = '-') := not_or.mpr (h.head c rfl).2
      simp only [List.cons_append, List.nil_append, Scan.exponent?.eq_def, if_neg hsign, List.drop_zero]
      rw [show Scan.countWhile Char.isDigit 0 (c :: v) = _ from hrun []]
  | e :: c :: u =>
    simp only [List.cons_append, Scan.exponent?.eq_def]
    by_cases hsign : c = '+' ∨ c = '-'
    · simp only [if_pos hsign, List.drop_succ_cons, List.drop_zero, hrun]
    · simp only [if_neg hsign, List.drop_zero, ← List.cons_append, hrun]

theorem float? (h : Closes v) (u : List Char) : float? (u ++ v) = Scan.float? u := by
  rw [Scan.float?, Scan.float?, h.digits?]
  cases hwhole : Scan.digits? u with
  | none => rfl
  | some whole =>
    simp only [Option.bind_eq_bind, Option.bind_some]
    rw [List.drop_append_of_le_length (le_of_digits? hwhole)]
    generalize u.drop whole = rest
    cases rest with
    | nil =>
      -- a point behind the digits is no fraction
      have hexponent := h.exponent? []
      rw [List.nil_append] at hexponent ⊢
      split
      · next cs => cases cs with
        | nil => rfl
        | cons c cs =>
          rw [Scan.digits?, h.point c cs rfl]
          rfl
      · rw [hexponent]
    | cons d rest =>
      by_cases hd : d = '.'
      · subst hd
        simp only [List.cons_append]
        rw [h.digits?]
        cases hfraction : Scan.digits? rest with
        | none => rfl
        | some fraction =>
          simp only [Option.bind_some]
          rw [List.drop_append_of_le_length (le_of_digits? hfraction), h.exponent?]
      · have hexponent := h.exponent? (d :: rest)
        rw [List.cons_append] at hexponent ⊢
        split
        · next heq => exact absurd (List.cons.inj heq).1 hd
        · split
          · next heq => exact absurd (List.cons.inj heq).1 hd
          · rw [hexponent]

theorem int? (h : Closes v) (u : List Char) : int? (u ++ v) = Scan.int? u := by
  have hdigits := h.digits? u
  match u with
  | [] =>
    cases v with
    | nil => rfl
    | cons c v =>
      have hc : c ≠ '0' := by rintro rfl; exact absurd (h.head _ rfl).1 (by decide)
      rw [List.nil_append] at hdigits ⊢
      rw [int?_eq_digits? hc, hdigits]
      rfl
  | [z] =>
    by_cases hz : z = '0'
    · subst hz
      cases v with
      | nil => rfl
      | cons c v =>
        have hne (d : Char) (hd : isNamePart d = true) : c ≠ d := by
          rintro rfl
          rw [(h.head _ rfl).1] at hd
          cases hd
        rw [List.cons_append, List.nil_append] at hdigits ⊢
        rw [Scan.int?, hdigits]
        simp [hne 'x' (by decide), hne 'X' (by decide), hne 'o' (by decide), hne 'O' (by decide), hne 'b' (by decide),
          hne 'B' (by decide)]
        rfl
    · rw [List.cons_append] at hdigits ⊢
      rw [int?_eq_digits? hz, int?_eq_digits? hz, hdigits]
  | z :: c :: u =>
    by_cases hz : z = '0'
    · subst hz
      rw [List.cons_append, List.cons_append] at hdigits ⊢
      simp only [Scan.int?, hdigits, h.countWhile (fun _ => isNamePart_of_isHexPart),
        h.countWhile (fun _ => isNamePart_of_isOctal), h.countWhile (fun _ => isNamePart_of_isBinary)]
    · rw [List.cons_append] at hdigits ⊢
      rw [int?_eq_digits? hz, int?_eq_digits? hz, hdigits]

end Closes

/-! ### Fixed spellings -/

theorem fixed?_congr {spelling? : Terminal → Option String} {cs ds : List Char}
    (h : ∀ t s, spelling? t = some s → (s.toList <+: cs ↔ s.toList <+: ds)) (ts : List Terminal) :
    fixed? spelling? cs ts = fixed? spelling? ds ts := by
  induction ts with
  | nil => rfl
  | cons t ts ih =>
    rw [fixed?, fixed?, ih]
    split
    · next s hs =>
      have hfront : s.toList.isPrefixOf cs = s.toList.isPrefixOf ds := by
        rw [Bool.eq_iff_iff, List.isPrefixOf_iff_prefix, List.isPrefixOf_iff_prefix]
        exact h t s hs
      rw [hfront]
    · rfl

theorem not_isNamePart_of_symbol {s : String} (h : t.symbol? = some s) : ∀ d ∈ s.toList, isNamePart d = false := by
  have hall : s.toList.all (fun d => !isNamePart d) = true := by
    cases t <;> simp only [Terminal.symbol?, Option.some.injEq, reduceCtorEq] at h <;> subst h <;> rfl
  intro d hd
  simpa using List.all_eq_true.mp hall d hd

/-- The text ends with a name, as far as its last character goes. -/
def EndsInName (u : List Char) : Prop := ∃ c ∈ u.getLast?, isNamePart c = true

/-- No symbol goes on from a name. -/
theorem EndsInName.symbol_iff (hu : EndsInName u) {s : String} (hs : t.symbol? = some s) :
    s.toList <+: u ++ v ↔ s.toList <+: u := by
  refine ⟨fun hfront => ?_, fun hfront => hfront.trans (List.prefix_append u v)⟩
  obtain hsu | hus := List.prefix_or_prefix_of_prefix hfront (List.prefix_append u v)
  · exact hsu
  · obtain ⟨c, hc, hpart⟩ := hu
    rw [not_isNamePart_of_symbol hs c (hus.subset (List.mem_of_getLast? hc))] at hpart
    cases hpart

/-- No word goes on with what no name goes on with. -/
theorem Closes.word_iff (hv : Closes v) {s : String} (hs : t.word? = some s) :
    s.toList <+: u ++ v ↔ s.toList <+: u := by
  refine ⟨fun hfront => ?_, fun hfront => hfront.trans (List.prefix_append u v)⟩
  obtain hsu | ⟨z, hz⟩ := List.prefix_or_prefix_of_prefix hfront (List.prefix_append u v)
  · exact hsu
  · cases z with
    | nil => exact ⟨[], by rw [← hz, List.append_nil, List.append_nil]⟩
    | cons c z =>
      rw [← hz, List.prefix_append_right_inj] at hfront
      obtain ⟨rest, rfl⟩ := hfront
      have hpart := isNamePart_of_word hs c (by rw [← hz]; simp)
      rw [(hv.head c rfl).1] at hpart
      cases hpart

/-! ### Tokens -/

/-- A token that is read up to a name, or is the name, is read whatever closes the name. -/
theorem terminal?_behind (hu : EndsInName u) (hv : Closes v) (hw : Closes w)
    (h : terminal? accepts (u ++ v) = some (t, n)) (hn : n ≤ u.length) (hdoc : t = .doc → n ≠ u.length) :
    terminal? accepts (u ++ w) = some (t, n) := by
  have hkept {t' : Terminal} {o o' : Option Nat} (h : classRead accepts t' o = some (t, n))
      (ho : o = some n → o' = some n) : classRead accepts t' o' = some (t, n) := by
    obtain ⟨rfl, hread⟩ := classRead_eq_some h
    rw [ho hread, ← hread]
    exact h
  cases u with
  | nil =>
    obtain ⟨c, hc, -⟩ := hu
    cases hc
  | cons c u =>
    by_cases hslash : c = '/'
    · subst hslash
      rw [List.cons_append, terminal?_slash] at h ⊢
      obtain ⟨rfl, -⟩ := classRead_eq_some h
      exact hkept h fun hread => doc?_local (u := '/' :: u) hread hn fun heq => absurd heq (hdoc rfl)
    by_cases hquote : c = '"'
    · subst hquote
      rw [List.cons_append, terminal?_quote] at h ⊢
      exact hkept h fun hread => string?_local (u := '"' :: u) hread hn
    by_cases happ : c = '\''
    · subst happ
      rw [List.cons_append, terminal?_apostrophe] at h ⊢
      exact hkept h fun hread => char?_local (u := '\'' :: u) hread hn
    have hname (z : List Char) : (classRead accepts .name (name? (c :: u))).map
        (fun p => (nameOrWord accepts ((c :: u ++ z).take p.2), p.2)) = (classRead accepts .name (name? (c :: u))).map
          fun p => (nameOrWord accepts ((c :: u).take p.2), p.2) := by
      refine Option.map_congr fun p hp => ?_
      obtain ⟨t, m⟩ := p
      rw [List.take_append_of_le_length (le_of_name? (classRead_eq_some hp).2)]
    -- the others do not look at what closes the name
    have hread {z : List Char} (hz : Closes z) : terminal? accepts (c :: u ++ z) =
        (classRead accepts .float (float? (c :: u))
          <|> (classRead accepts .name (name? (c :: u))).map (fun p => (nameOrWord accepts ((c :: u).take p.2), p.2))
          <|> classRead accepts .int (int? (c :: u))
          <|> (if accepts.contains .name then none
            else fixed? Terminal.word? (c :: u) (accepts.filter Terminal.isWord))
          <|> fixed? Terminal.symbol? (c :: u) (Terminal.symbols.filter accepts.contains)) := by
      rw [terminal?_eq, hz.float?, hz.name?, hz.int?, fixed?_congr (fun _ _ hs => hz.word_iff hs),
        fixed?_congr (fun _ _ hs => hu.symbol_iff hs), hname, List.cons_append, doc?_none hslash, string?_none hquote,
        char?_none happ]
      simp
    rw [hread hv] at h
    rw [hread hw]
    exact h

end Scan

namespace Lookahead

variable {site : Site} {last : Option Token} {c c' : Cursor} {a : Lookahead} {t : Token} {gap r v w rest : List Char}

/-- A token up to a name, or the name, is fetched whatever closes the name. -/
theorem fetch_behind (h : fetch site last c = .ok a) (ht : a.token? = some t) (hafter : a.after.rest = r ++ v)
    (hv : Scan.Closes v) (hw : Scan.Closes w) (hname : Scan.EndsInName (t.text.toList ++ r))
    (hdoc : t.terminal = .doc → r ≠ []) (hrest : c.rest = gap ++ (t.text.toList ++ (r ++ v)))
    (hrest' : c'.rest = gap ++ (t.text.toList ++ (r ++ w))) (last' : Option Token) :
    ∃ a', fetch site last' c' = .ok a' ∧ a'.lexeme? = a.lexeme? ∧ a'.after.rest = r ++ w := by
  obtain ⟨_, -, -, hread⟩ := gap_of_fetch h ht
  rw [hafter, ← List.append_assoc] at hread
  have hread' : Scan.terminal? site.accepts (t.text.toList ++ (r ++ w)) = some (t.terminal, t.text.toList.length) := by
    rw [← List.append_assoc]
    refine Scan.terminal?_behind hname hv hw hread (by simp) fun hk hlen => hdoc hk ?_
    rw [List.length_append] at hlen
    exact List.eq_nil_of_length_eq_zero (by omega)
  obtain ⟨a', t', ha', ht', hterminal, htext, hrest''⟩ := fetch_alike h ht (hafter ▸ hrest) hrest' hread' last'
  refine ⟨a', ha', ?_, hrest''⟩
  rw [lexeme?, lexeme?, ht, ht', Option.map_some, Option.map_some, Token.lexeme, Token.lexeme, hterminal,
    String.toList_inj.mp htext]

end Lookahead
end TypedErrors
