import Mathlib.Data.List.Basic
import Mathlib.Tactic.SplitIfs
import TypedErrors.Text.Expression

/-! # A single literal is an expression

Where a text is one literal, the expression that it is spells what the literal denotes (`read?_of_single?`): its quotes
are where the body ends, and nothing stands around it. -/

namespace TypedErrors
namespace Expression
open Escape

variable {q c : Char} {isRaw : Bool} {cs body : List Char}

theorem isQuote_iff : isQuote q = true ↔ q = '"' ∨ q = '\'' := by
  simp [isQuote]

theorem isOpen_cons (hslash : c ≠ '\\') (q : Char) (cs : List Char) :
    isOpen q (c :: cs) = (c ≠ q && isOpen q cs) := by
  rw [isOpen]
  exact fun _ _ h _ => hslash h

theorem unifyLineEnds_cons (hc : c ≠ '\r') (cs : List Char) : unifyLineEnds (c :: cs) = c :: unifyLineEnds cs := by
  rw [unifyLineEnds]
  · exact fun _ h _ => hc h
  · exact hc

/-- A carriage return ends the line, with the line feed after it or without. -/
theorem unifyLineEnds_return (cs : List Char) : ∃ ds, unifyLineEnds ('\r' :: cs) = '\n' :: ds ∧
    (unifyLineEnds cs = ds ∨ unifyLineEnds cs = '\n' :: ds) := by
  by_cases h : ∃ rest, cs = '\n' :: rest
  · obtain ⟨rest, rfl⟩ := h
    exact ⟨unifyLineEnds rest, by rw [unifyLineEnds], .inr (unifyLineEnds_cons (by decide) rest)⟩
  · refine ⟨unifyLineEnds cs, ?_, .inl rfl⟩
    rw [unifyLineEnds]
    exact fun rest hrest => h ⟨rest, hrest⟩

theorem isOpen_unifyLineEnds (hq : isQuote q = true) (h : isOpen q cs = true) : isOpen q (unifyLineEnds cs) = true := by
  have hline (cs : List Char) : isOpen q ('\n' :: cs) = isOpen q cs := by
    rcases isQuote_iff.mp hq with rfl | rfl <;> simp [isOpen_cons]
  -- A line end is no quote, and behind a backslash it is one character however it is spelled.
  have hreturn {cs : List Char} (h : isOpen q (unifyLineEnds cs) = true) :
      ∃ ds, unifyLineEnds ('\r' :: cs) = '\n' :: ds ∧ isOpen q ds = true := by
    obtain ⟨ds, hds, hrest⟩ := unifyLineEnds_return cs
    refine ⟨ds, hds, ?_⟩
    rcases hrest with hrest | hrest
    · rwa [hrest] at h
    · rwa [hrest, hline] at h
  fun_induction isOpen q cs with
  | case1 => rfl
  | case2 c cs ih =>
    rw [unifyLineEnds_cons (by decide)]
    by_cases hc : c = '\r'
    · obtain ⟨ds, hds, hopen⟩ := hreturn (ih h)
      rw [hc, hds, isOpen, hopen]
    · rw [unifyLineEnds_cons hc, isOpen, ih h]
  | case3 c cs hslash ih =>
    obtain ⟨hquote, hcs⟩ := (Bool.and_eq_true _ _).mp h
    by_cases hc : c = '\r'
    · obtain ⟨ds, hds, hopen⟩ := hreturn (ih hcs)
      rw [hc, hds, hline, hopen]
    · rw [unifyLineEnds_cons hc]
      by_cases hc' : c = '\\'
      · cases cs with
        | nil =>
          rw [unifyLineEnds, isOpen, hquote]
          · rfl
          · simp
        | cons d ds => exact absurd rfl (hslash _ _ hc')
      · rw [isOpen_cons hc', hquote, ih hcs, Bool.true_and]

/-- A body without its quote in it goes up to the next one, if every line end in it is behind a backslash. -/
theorem body?_append (h : isOpen q cs = true) (line : Nat) :
    body? [q] (cs ++ [q]) = if (openLine? line cs).isNone then some (cs, []) else none := by
  have hplain {c : Char} {cs : List Char} (h : isOpen q (c :: cs) = true) (hslash : c ≠ '\\') (rest : List Char) :
      body? [q] (c :: rest) =
        if c = '\n' then none else (body? [q] rest).map (Prod.map (c :: ·) id) := by
    have hquote : c ≠ q := by
      rw [isOpen_cons hslash, Bool.and_eq_true, decide_eq_true_iff] at h
      exact h.1
    rw [body?]
    · simp [hquote.symm]
    · exact fun _ _ hc _ => hslash hc
  fun_induction openLine? line cs with
  | case1 line => simp [body?]
  | case2 line => simp [body?]
  | case3 line c cs ih =>
    rw [isOpen] at h
    rw [List.cons_append, List.cons_append, body?, ih h]
    split <;> simp_all
  | case4 line cs hlast hslash =>
    rw [List.cons_append, hplain h (by decide), if_pos rfl]
    rfl
  | case5 line c cs hlast hslash hline ih =>
    have hc : c ≠ '\\' := by
      rintro rfl
      cases cs with
      | nil => exact hlast rfl rfl
      | cons d ds => exact hslash d ds rfl rfl
    have hcs : isOpen q cs = true := by
      rw [isOpen_cons hc, Bool.and_eq_true] at h
      exact h.2
    rw [List.cons_append, hplain h hc, if_neg hline, ih hcs]
    split <;> rfl

theorem unifyLineEnds_append (hq : isQuote q = true) (cs : List Char) :
    unifyLineEnds (cs ++ [q]) = unifyLineEnds cs ++ [q] := by
  have hreturn : q ≠ '\r' := by
    rintro rfl
    cases hq
  fun_induction unifyLineEnds cs with
  | case1 cs ih => rw [List.cons_append, List.cons_append, unifyLineEnds, ih, List.cons_append]
  | case2 cs hcs ih =>
    rw [List.cons_append, unifyLineEnds, ih, List.cons_append]
    rintro rest hrest
    cases cs with
    | nil =>
      cases hrest
      cases hq
    | cons c cs => exact hcs cs (by rw [(List.cons.inj hrest).1])
  | case3 c cs _ hc ih => rw [List.cons_append, unifyLineEnds_cons hc, ih, List.cons_append]
  | case4 =>
    rw [List.nil_append, unifyLineEnds_cons hreturn]
    rfl

theorem unlettered_cons (hq : isQuote q = true) (cs : List Char) : unlettered (q :: cs) = (false, q :: cs) := by
  rcases isQuote_iff.mp hq with rfl | rfl <;> simp [unlettered]

theorem single?_of_unlettered (hq : isQuote q = true) (h : isOpen q body = true)
    (hcs : unlettered cs = (isRaw, q :: (body ++ [q]))) : single? cs = some (isRaw, body) := by
  simp [single?, hcs, hq, h]

theorem of_single? (h : single? cs = some (isRaw, body)) :
    ∃ q, isQuote q = true ∧ isOpen q body = true ∧ unlettered cs = (isRaw, q :: (body ++ [q])) := by
  rw [single?] at h
  split at h
  · cases h
  · next isRaw' quote rest hcs =>
    split_ifs at h with hcond
    simp only [Bool.and_eq_true, decide_eq_true_iff] at hcond
    obtain ⟨⟨hq, hlast⟩, hopen⟩ := hcond
    obtain ⟨init, rfl⟩ := List.getLast?_eq_some_iff.mp hlast
    rw [List.dropLast_concat] at h hopen
    obtain ⟨rfl, rfl⟩ := Prod.mk.inj (Option.some.inj h)
    exact ⟨quote, hq, hopen, hcs⟩

theorem literal?_of_unlettered (hq : isQuote q = true) (h : isOpen q body = true)
    (hcs : unlettered cs = (isRaw, q :: (body ++ [q]))) :
    literal? cs = if (openLine? 1 body).isNone then (denoted isRaw body).toOption.map (·, []) else none := by
  have hshort : [q, q].isPrefixOf (body ++ [q]) = false := by
    cases body with
    | nil => simp
    | cons c cs =>
      have hc : q ≠ c := by
        rintro rfl
        have hslash : q ≠ '\\' := by
          rintro rfl
          cases hq
        simp [isOpen_cons hslash] at h
      rw [List.cons_append, List.isPrefixOf, beq_false_of_ne hc]
      rfl
  rw [literal?, hcs]
  dsimp only
  rw [if_pos hq, hshort, if_neg Bool.false_ne_true, List.length_singleton, Nat.sub_self, List.drop_zero,
    body?_append h 1]
  split <;> rfl

theorem literals?_of_literal? {t : Text} (isInner : Bool) (n : Nat) (h : literal? cs = some (t, [])) :
    literals? isInner (n + 1) cs = some (t, []) := by
  have hnone : literals? isInner n [] = none := by
    cases n <;> rfl
  simp only [literals?, h, Option.bind_eq_bind, Option.bind_some, afterGap, hnone]
  rfl

/-- The first character of a literal. -/
def IsFirst (c : Char) : Prop := c ∈ ['r', 'R', 'u', 'U', '"', '\'']

/-- An expression that starts with a literal is on the first line and in no parentheses. -/
theorem read?_of_isFirst (hc : IsFirst c) {rest : List Char} (hcs : unifyLineEnds cs = c :: rest)
    (hnull : cs.contains '\x00' = false) :
    read? cs =
      (literals? false (rest.length + 1) (c :: rest)).bind fun r => if isOver r.2 then some r.1 else none := by
  have hstart : codeStart 0 0 false ((c :: rest).dropWhile fun c => c == ' ' || c == '\t') = (0, c :: rest) := by
    simp only [IsFirst, List.mem_cons, List.not_mem_nil, or_false] at hc
    rcases hc with rfl | rfl | rfl | rfl | rfl | rfl <;> simp [codeStart]
  have hgroup : group? false nestingLimit (c :: rest) = literals? false (rest.length + 1) (c :: rest) := by
    simp only [IsFirst, List.mem_cons, List.not_mem_nil, or_false] at hc
    rcases hc with rfl | rfl | rfl | rfl | rfl | rfl <;> rw [nestingLimit, group?]
    all_goals simp
  rw [read?, hnull, if_neg Bool.false_ne_true, hcs, hstart]
  dsimp only
  rw [hgroup]
  cases literals? false (rest.length + 1) (c :: rest) with
  | none => rfl
  | some r => simp

/-- Either a letter goes, whatever follows it, or nothing does. -/
theorem unlettered_eq {rest : List Char} (h : unlettered (c :: cs) = (isRaw, rest)) :
    c ∈ ['r', 'R', 'u', 'U'] ∧ cs = rest ∧ (∀ ds, unlettered (c :: ds) = (isRaw, ds)) ∨
      isRaw = false ∧ c :: cs = rest := by
  rw [unlettered] at h
  split_ifs at h with hr hu
  · obtain ⟨rfl, rfl⟩ := Prod.mk.inj h
    exact .inl ⟨by rcases hr with rfl | rfl <;> decide, rfl, fun ds => by rw [unlettered, if_pos hr]⟩
  · obtain ⟨rfl, rfl⟩ := Prod.mk.inj h
    exact .inl ⟨by rcases hu with rfl | rfl <;> decide, rfl, fun ds => by rw [unlettered, if_neg hr, if_pos hu]⟩
  · obtain ⟨rfl, hcons⟩ := Prod.mk.inj h
    exact .inr ⟨rfl, hcons⟩

theorem unifyLineEnds_of_unlettered (hq : isQuote q = true) (h : unlettered cs = (isRaw, q :: (body ++ [q]))) :
    ∃ c rest, IsFirst c ∧ unifyLineEnds cs = c :: rest ∧
      unlettered (c :: rest) = (isRaw, q :: (unifyLineEnds body ++ [q])) ∧
      cs.contains '\x00' = body.contains '\x00' := by
  have hline : unifyLineEnds (q :: (body ++ [q])) = q :: (unifyLineEnds body ++ [q]) := by
    rw [unifyLineEnds_cons (by rcases isQuote_iff.mp hq with rfl | rfl <;> decide), unifyLineEnds_append hq]
  have hnull : (q :: (body ++ [q])).contains '\x00' = body.contains '\x00' := by
    rcases isQuote_iff.mp hq with rfl | rfl <;> simp
  cases cs with
  | nil => cases h
  | cons c cs =>
    obtain ⟨hc, rfl, hrest⟩ | ⟨rfl, hcons⟩ := unlettered_eq h
    · simp only [List.mem_cons, List.not_mem_nil, or_false] at hc
      refine ⟨c, _, ?_, ?_, hrest _, ?_⟩
      · rcases hc with rfl | rfl | rfl | rfl <;> simp [IsFirst]
      · rw [unifyLineEnds_cons (by rcases hc with rfl | rfl | rfl | rfl <;> decide), hline]
      · rw [← hnull]
        rcases hc with rfl | rfl | rfl | rfl <;> simp
    · refine ⟨q, _, ?_, by rw [hcons, hline], unlettered_cons hq _, by rw [hcons, hnull]⟩
      rcases isQuote_iff.mp hq with rfl | rfl <;> simp [IsFirst]

/-- A text that is one literal is an expression that spells what the literal denotes. -/
theorem read?_of_single? (h : single? cs = some (isRaw, body)) : read? cs = (decode isRaw body).toOption := by
  obtain ⟨q, hq, hopen, hcs⟩ := of_single? h
  obtain ⟨c, rest, hc, hlines, hfirst, hnull⟩ := unifyLineEnds_of_unlettered hq hcs
  have hliteral := literal?_of_unlettered hq (isOpen_unifyLineEnds hq hopen) hfirst
  cases hzero : body.contains '\x00' with
  | true =>
    rw [decode, if_pos hzero, read?, if_pos (hnull.trans hzero)]
    rfl
  | false =>
    rw [read?_of_isFirst hc hlines (hnull.trans hzero), decode, hzero, if_neg Bool.false_ne_true]
    have hnone (h : literal? (c :: rest) = none) : literals? false (rest.length + 1) (c :: rest) = none := by
      rw [literals?, h]
      rfl
    cases hline : openLine? 1 (unifyLineEnds body) with
    | some line =>
      rw [hnone (by rw [hliteral, hline]; rfl)]
      rfl
    | none =>
      rw [hline] at hliteral
      cases hdenoted : denoted isRaw (unifyLineEnds body) with
      | error e =>
        rw [hnone (by rw [hliteral, hdenoted]; rfl)]
        rfl
      | ok t =>
        rw [literals?_of_literal? false rest.length (by rw [hliteral, hdenoted]; rfl)]
        rfl

end Expression
end TypedErrors
