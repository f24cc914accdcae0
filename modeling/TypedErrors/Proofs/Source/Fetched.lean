import TypedErrors.Proofs.Source.Taken

/-! # Tokens that are fetched

A token is fetched by going past space and comments and reading a terminal that the site accepts (`fetch_eq_ok`). -/

namespace TypedErrors

variable {site : Site} {last : Option Token} {c : Cursor} {a : Lookahead} {t : Token}

namespace Scan

variable {accepts : List Terminal} {cs : List Char} {n : Nat}

/-- The cursor at the next token. -/
def skip (accepts : List Terminal) (c : Cursor) : Cursor := c.advance (trivia (accepts.contains .doc) 0 0 c.rest)

theorem next_eq (accepts : List Terminal) (c : Cursor) : next accepts c =
    match (skip accepts c).rest with
    | [] => .endOfInput
    | x :: _ =>
      match terminal? accepts (skip accepts c).rest with
      | some (t, n) => .token (take t n (skip accepts c)).1 (take t n (skip accepts c)).2
      | none =>
        match terminal? Terminal.all (skip accepts c).rest with
        | some (t, n) => .refused (take t n (skip accepts c)).1
        | none => .unknown x (skip accepts c).position :=
  rfl

theorem fixed?_eq_some {spelling? : Terminal → Option String} {t : Terminal} {ts : List Terminal}
    (h : fixed? spelling? cs ts = some (t, n)) :
    t ∈ ts ∧ ∃ s, spelling? t = some s ∧ s.toList <+: cs ∧ s.length = n := by
  induction ts with
  | nil => cases h
  | cons u ts ih =>
    rw [fixed?] at h
    split at h
    · next s hs =>
      split_ifs at h with hfront
      · obtain ⟨rfl, rfl⟩ := Prod.mk.inj (Option.some.inj h)
        exact ⟨List.mem_cons_self, s, hs, List.isPrefixOf_iff_prefix.mp hfront, rfl⟩
      · exact (ih h).imp_left (List.mem_cons_of_mem u)
    · exact (ih h).imp_left (List.mem_cons_of_mem u)

/-- Where only words are accepted, one of them is read. -/
theorem word_of_terminal? {t : Terminal} (hwords : ∀ u ∈ accepts, u.isWord = true)
    (h : terminal? accepts cs = some (t, n)) :
    t ∈ accepts ∧ ∃ s, t.word? = some s ∧ s.toList <+: cs ∧ s.length = n := by
  have hclass (u : Terminal) (hu : u.isWord = false) : accepts.contains u = false := by
    rw [List.contains_eq_mem, decide_eq_false_iff_not]
    intro hmem
    rw [hwords u hmem] at hu
    cases hu
  have hread (u : Terminal) (hu : u.isWord = false) (o : Option Nat) : classRead accepts u o = none := by
    rw [classRead, if_neg (by rw [hclass u hu]; exact Bool.false_ne_true)]
  have hsymbols : Terminal.symbols.filter accepts.contains = [] :=
    List.filter_eq_nil_iff.mpr fun u hu => by
      rw [hclass u (by revert u; decide)]
      exact Bool.false_ne_true
  rw [terminal?_eq, hsymbols] at h
  simp only [hread .float rfl, hread .doc rfl, hread .name rfl, hread .string rfl, hread .char rfl, hread .int rfl,
    hclass .name rfl, Option.map_none, Option.orElse_eq_orElse, Option.orElse_eq_or, Option.none_or, fixed?,
    Option.or_none] at h
  obtain ⟨hmem, s, hs⟩ := fixed?_eq_some h
  exact ⟨(List.mem_filter.mp hmem).1, s, hs⟩

theorem terminal?_nil : terminal? accepts [] = none := by
  have hfixed (spelling? : Terminal → Option String) (hne : ∀ t s, spelling? t = some s → s.toList ≠ [])
      (ts : List Terminal) : fixed? spelling? [] ts = none := by
    refine Option.eq_none_iff_forall_ne_some.mpr fun ⟨t, n⟩ h => ?_
    obtain ⟨-, s, hs, hfront, -⟩ := fixed?_eq_some h
    exact hne t s hs (List.prefix_nil.mp hfront)
  rw [terminal?_eq, hfixed _ symbol_ne_nil, hfixed _ word_ne_nil, ite_self]
  simp [float?, digits?, doc?, name?, string?, char?, int?]

end Scan

namespace Lookahead

/-- What is fetched: the terminal after the space and comments, or the end of the input. -/
theorem fetch_eq_ok : fetch site last c = .ok a ↔
    ((Scan.skip site.accepts c).rest = [] ∧ site.mayEnd = true ∧ a = ⟨none, c, last⟩) ∨
    ∃ t n, Scan.terminal? site.accepts (Scan.skip site.accepts c).rest = some (t, n) ∧
      a = ⟨some (Scan.take t n (Scan.skip site.accepts c)).1, (Scan.take t n (Scan.skip site.accepts c)).2, last⟩ := by
  rw [fetch, Scan.next_eq]
  generalize Scan.skip site.accepts c = d
  cases hrest : d.rest with
  | nil =>
    rw [Scan.terminal?_nil]
    constructor
    · intro h
      split_ifs at h with hend
      exact .inl ⟨rfl, hend, (Except.ok.inj h).symm⟩
    · rintro (⟨-, hend, rfl⟩ | ⟨_, _, ⟨⟩, -⟩)
      exact if_pos hend
  | cons x cs =>
    cases hread : Scan.terminal? site.accepts (x :: cs) with
    | none =>
      constructor
      · intro h
        cases hall : Scan.terminal? Terminal.all (x :: cs) <;> simp only [hall] at h <;> cases h
      · rintro (⟨⟨⟩, -⟩ | ⟨_, _, ⟨⟩, -⟩)
    | some p =>
      constructor
      · intro h
        exact .inr ⟨p.1, p.2, rfl, (Except.ok.inj h).symm⟩
      · rintro (⟨⟨⟩, -⟩ | ⟨t, n, ht, rfl⟩)
        obtain rfl := Option.some.inj ht
        rfl

end Lookahead
end TypedErrors
