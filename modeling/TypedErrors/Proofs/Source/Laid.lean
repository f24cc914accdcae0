import Mathlib.Data.List.Induction
import TypedErrors.Proofs.Source.Cut

/-! # Where tokens are laid

Tokens that are taken tile a stretch of the source together with the space and comments behind each of them (`Laid`).
Each starts and stops at the lines and columns where its text does (`Takes.laid`), and from the first to the last of
them the stretch is written in their texts (`Laid.spaced`). -/

namespace TypedErrors

open Scan

/-! ### Space and comments -/

/-- Space and comments. A line comment goes on to the end of its line, and a block comment ends at the first `*/`. -/
inductive Blank : List Char → Prop
  | nil : Blank []
  | space {c : Char} {cs : List Char} (hc : isSpace c = true) (h : Blank cs) : Blank (c :: cs)
  | line {body cs : List Char} (hbody : '\n' ∉ body) (h : Blank cs) : Blank ('/' :: '/' :: (body ++ '\n' :: cs))
  | block {body cs : List Char} (hbody : ¬ ['*', '/'] <:+: body) (h : Blank cs) :
      Blank ('/' :: '*' :: (body ++ '*' :: '/' :: cs))

/-- Space and comments up to the end of a source, where the last line comment need not end. -/
inductive LastBlank : List Char → Prop
  | ended {cs : List Char} (h : Blank cs) : LastBlank cs
  | open_ {cs body : List Char} (h : Blank cs) (hbody : '\n' ∉ body) : LastBlank (cs ++ '/' :: '/' :: body)

theorem Blank.append {cs ds : List Char} (h : Blank cs) (h' : Blank ds) : Blank (cs ++ ds) := by
  induction h with
  | nil => exact h'
  | space hc _ ih => exact .space hc ih
  | line hbody _ ih => simpa only [List.cons_append, List.append_assoc] using Blank.line hbody ih
  | block hbody _ ih => simpa only [List.cons_append, List.append_assoc] using Blank.block hbody ih

theorem LastBlank.append {cs ds : List Char} (h : Blank cs) (h' : LastBlank ds) : LastBlank (cs ++ ds) := by
  cases h' with
  | ended h' => exact .ended (h.append h')
  | open_ h' hbody =>
    rw [← List.append_assoc]
    exact .open_ (h.append h') hbody

namespace Scan

variable {docs : Bool} {u v cs : List Char} {n acc : Nat}

theorem trivia_le (skip acc : Nat) (u : List Char) : trivia docs skip acc u ≤ acc + u.length := by
  induction u generalizing skip acc with
  | nil => cases skip <;> exact Nat.le_refl acc
  | cons c u ih =>
    rw [List.length_cons]
    cases skip with
    | succ k =>
      rw [trivia]
      exact Nat.le_trans (ih k (acc + 1)) (by omega)
    | zero =>
      rw [trivia]
      split
      · exact Nat.le_trans (ih 0 (acc + 1)) (by omega)
      · split
        · omega
        · split
          · next n _ => exact Nat.le_trans (ih (n - 1) (acc + 1)) (by omega)
          · omega

theorem toLineEnd_eq (cs : List Char) : toLineEnd cs = (cs.takeWhile (· ≠ '\n')).length := by
  rw [toLineEnd, countWhile_eq, Nat.zero_add]

theorem blockRest?_eq_some (h : blockRest? acc cs = some n) :
    ∃ body rest, cs = body ++ '*' :: '/' :: rest ∧ ¬ ['*', '/'] <:+: body ∧ n = acc + body.length + 2 := by
  fun_induction blockRest? acc cs with
  | case1 acc rest => exact ⟨[], rest, rfl, by simp, (Option.some.inj h).symm⟩
  | case2 acc c cs hne ih =>
    obtain ⟨body, rest, rfl, hbody, rfl⟩ := ih h
    refine ⟨c :: body, rest, rfl, fun hinfix => ?_, by rw [List.length_cons]; omega⟩
    rcases List.infix_cons_iff.mp hinfix with hfront | hinfix
    · obtain ⟨tail, htail⟩ := hfront
      obtain ⟨hc, hrest⟩ := List.cons.inj htail
      subst hc
      obtain rfl : body = '/' :: tail := hrest.symm
      exact hne _ rfl rfl
    · exact hbody hinfix
  | case3 => cases h

/-- What a comment at the front of a text is: up to the end of its line, or a block. -/
theorem comment?_eq_some (h : comment? cs = some n) :
    (∃ body rest, cs = '/' :: '/' :: (body ++ rest) ∧ '\n' ∉ body ∧ (∀ d ∈ rest.head?, d = '\n') ∧
      n = body.length + 2) ∨
    ∃ body rest, cs = '/' :: '*' :: (body ++ '*' :: '/' :: rest) ∧ ¬ ['*', '/'] <:+: body ∧ n = body.length + 4 := by
  unfold comment? at h
  split at h
  · next cs =>
    have hsplit := List.takeWhile_append_dropWhile (p := (· ≠ '\n')) (l := cs)
    refine .inl ⟨cs.takeWhile (· ≠ '\n'), cs.dropWhile (· ≠ '\n'), by rw [hsplit], fun hmem => ?_, fun d hd => ?_, ?_⟩
    · simpa using List.mem_takeWhile_imp hmem
    · by_contra hne
      have hhead := List.head?_dropWhile_not (· ≠ '\n') cs
      rw [hd] at hhead
      simp [hne] at hhead
    · rw [← Option.some.inj h, toLineEnd_eq, Nat.add_comm]
  · obtain ⟨body, rest, rfl, hbody, rfl⟩ := blockRest?_eq_some h
    exact .inr ⟨body, rest, rfl, hbody, by omega⟩
  · cases h

/-- The rest of a comment ends within what is gone past. -/
theorem skip_within {front rest : List Char} (h : trivia docs n acc (u ++ v) = acc + u.length)
    (hfront : u ++ v = front ++ rest) (hn : n = front.length) :
    ∃ w, u = front ++ w ∧ rest = w ++ v ∧ trivia docs 0 (acc + n) (w ++ v) = acc + n + w.length := by
  rw [hfront, hn, trivia_skip (by simp), List.drop_left] at h
  have hle : _ ≤ trivia docs _ _ _ := le_trivia 0 (acc + front.length) rest
  subst hn
  rcases List.append_eq_append_iff.mp hfront with ⟨w, hw, rfl⟩ | ⟨w, hw, rfl⟩
  · rw [hw, List.length_append] at h hle
    obtain rfl : w = [] := List.eq_nil_of_length_eq_zero (by omega)
    refine ⟨[], by rw [hw, List.append_nil, List.append_nil], rfl, ?_⟩
    rw [hw, List.length_append, List.length_nil]
    exact h.trans (by omega)
  · rw [hw, List.length_append] at h
    exact ⟨w, hw, rfl, by omega⟩

/-- Space and comments before `v`, and up to the end if there is nothing. -/
def BlankBefore (v u : List Char) : Prop := LastBlank u ∧ (v ≠ [] → Blank u)

theorem BlankBefore.append (h : Blank cs) (h' : BlankBefore v u) : BlankBefore v (cs ++ u) :=
  ⟨.append h h'.1, fun hne => .append h (h'.2 hne)⟩

/-- A line comment goes on to the end of its line, which need not end at the end of a text. -/
theorem blankBefore_line {body w : List Char} (hv : ∀ d ∈ v.head?, isSpace d = false) (hbody : '\n' ∉ body)
    (hend : ∀ d ∈ (w ++ v).head?, d = '\n') (hrest : ∀ rest, w = '\n' :: rest → BlankBefore v rest) :
    BlankBefore v ('/' :: '/' :: (body ++ w)) := by
  cases w with
  | nil =>
    have hnil : v = [] := by
      by_contra hne
      obtain ⟨d, v, rfl⟩ := List.exists_cons_of_ne_nil hne
      obtain rfl := hend d rfl
      cases hv '\n' rfl
    rw [List.append_nil]
    exact ⟨.open_ .nil hbody, fun hne => absurd hnil hne⟩
  | cons d rest =>
    obtain rfl := hend d rfl
    have hline : Blank ('/' :: '/' :: (body ++ '\n' :: [])) := .line hbody .nil
    have h := BlankBefore.append hline (hrest rest rfl)
    simpa using h

/-- What is gone past before something that is no space is space and comments. -/
theorem blank_of_trivia (hv : ∀ d ∈ v.head?, isSpace d = false)
    (h : trivia docs 0 acc (u ++ v) = acc + u.length) : BlankBefore v u := by
  -- a comment is gone past as a whole, so the induction is on the length
  induction hlen : u.length using Nat.strong_induction_on generalizing u acc with
  | _ k ih =>
  subst hlen
  cases u with
  | nil => exact ⟨.ended .nil, fun _ => .nil⟩
  | cons c u =>
    rw [List.cons_append, List.length_cons, trivia] at h
    split at h
    · next hspace => exact .append (.space hspace .nil) (ih u.length (Nat.lt_succ_self _) (h.trans (by omega)) rfl)
    split at h
    · omega
    split at h
    · next n hcomment =>
      rcases comment?_eq_some hcomment with
        ⟨body, rest, hstart, hbody, hend, rfl⟩ | ⟨body, rest, hstart, hbody, rfl⟩
      · obtain ⟨rfl, hcs⟩ := List.cons.inj hstart
        have hcs : u ++ v = ('/' :: body) ++ rest := hcs
        obtain ⟨w, rfl, rfl, h⟩ := skip_within (h.trans (by omega)) hcs (by simp)
        refine blankBefore_line hv hbody hend ?_
        rintro rest rfl
        rw [List.cons_append, trivia, if_pos (by decide)] at h
        exact ih rest.length (by simp; omega) (h.trans (by rw [List.length_cons]; omega)) rfl
      · obtain ⟨rfl, hcs⟩ := List.cons.inj hstart
        have hsplit : '*' :: (body ++ '*' :: '/' :: rest) = ('*' :: (body ++ ['*', '/'])) ++ rest := by simp
        obtain ⟨w, rfl, rfl, h⟩ := skip_within (h.trans (by omega)) (hcs.trans hsplit) (by simp)
        have hblock : Blank ('/' :: '*' :: (body ++ '*' :: '/' :: [])) := .block hbody .nil
        exact .append hblock (ih w.length (by simp; omega) h rfl)
    · omega

end Scan

/-! ### Lines and columns -/

/-- The line and the column just past a text: the line feeds in it, and the characters behind the last of them, both
counted from one. -/
def Position.behind (text : List Char) : Position :=
  ⟨text.count '\n' + 1, (text.reverse.takeWhile (· ≠ '\n')).length + 1⟩

theorem Position.past_eq_behind (text : List Char) : Position.past {} text = .behind text := by
  induction text using List.reverseRecOn with
  | nil => rfl
  | append_singleton text c ih =>
    have hlast : Position.past {} (text ++ [c]) = (Position.past {} text).after c := Position.past_append {} text [c]
    rw [hlast, ih, behind, behind, Position.after, List.count_append, List.reverse_append, List.reverse_singleton,
      List.singleton_append, List.takeWhile_cons]
    by_cases hc : c = '\n'
    · subst hc
      rfl
    · simp [hc]

/-! ### Tokens in a source -/

variable {source before text rest : List Char} {a b : Lookahead} {t : Token} {ts us : List Token}

/-- The tokens stand one after another in the text, which comes just after `before` in the source, the first of them at
its start. Behind each of them there are only space and comments. -/
inductive Laid (source : List Char) : (before text : List Char) → List Token → Prop
  | nil {before : List Char} (h : before <+: source) : Laid source before [] []
  | cons {before gap text : List Char} {t : Token} {ts : List Token} (hstart : t.start = .behind before)
      (hstop : t.stop = .behind (before ++ t.text.toList)) (hne : t.text.toList ≠ []) (hgap : Blank gap)
      (h : Laid source (before ++ (t.text.toList ++ gap)) text ts) :
      Laid source before (t.text.toList ++ gap ++ text) (t :: ts)

/-- What is ahead starts just after `before` in the source: a token, or the space and comments at the end. -/
inductive Lookahead.From (source before : List Char) (a : Lookahead) : Prop
  | token {t : Token} (ht : a.token? = some t) (hat : a.At source before t)
      (hstop : t.stop = .behind (before ++ t.text.toList)) : From source before a
  | ended (ht : a.token? = none) (hafter : a.after.At source before) (hrest : LastBlank a.after.rest) :
      From source before a

/-- In front of what is fetched there are only space and comments. -/
theorem Lookahead.from_of_fetch {site : Site} {last : Option Token} {c : Cursor} (hc : c.At source before)
    (h : fetch site last c = .ok a) : ∃ gap, Blank gap ∧ a.From source (before ++ gap) := by
  cases ht : a.token? with
  | some t =>
    obtain ⟨gap, hrest, htrivia, hread⟩ := gap_of_fetch h ht
    obtain ⟨gap', hat⟩ := Lookahead.At.of_fetch hc h ht
    obtain rfl : gap' = gap := by
      have hsource := hat.after.source
      rw [hc.source, hrest] at hsource
      simp only [List.append_assoc] at hsource
      exact (List.append_cancel_right (List.append_cancel_left hsource)).symm
    have hne : t.text.toList ++ a.after.rest ≠ [] := List.append_ne_nil_of_left_ne_nil hat.text _
    rw [hrest, ← Nat.zero_add gap'.length] at htrivia
    refine ⟨gap', (Scan.blank_of_trivia (Scan.head_of_trivia hne htrivia) htrivia).2 hne, .token ht hat ?_⟩
    rw [(stands_of_fetch hc h).stop t ht, hat.after.position, Position.past_eq_behind]
  | none =>
    obtain ⟨hrest, -, rfl⟩ | ⟨_, _, -, rfl⟩ := fetch_eq_ok.mp h
    · refine ⟨[], .nil, .ended rfl (by rwa [List.append_nil]) ?_⟩
      rw [Scan.skip, Scan.rest_advance, List.drop_eq_nil_iff] at hrest
      have hle : Scan.trivia (site.accepts.contains .doc) _ _ _ ≤ _ := Scan.trivia_le 0 0 c.rest
      have hend : Scan.trivia (site.accepts.contains .doc) 0 0 (c.rest ++ []) = 0 + c.rest.length := by
        rw [List.append_nil]
        omega
      exact (Scan.blank_of_trivia (by rintro d ⟨⟩) hend).1
    · cases ht

/-- Tokens that are taken are laid in the source from where the first of them starts to what is ahead then. -/
theorem Takes.laid (h : Takes a ts b) (ha : a.From source before) :
    ∃ text, Laid source before text ts ∧ b.From source (before ++ text) := by
  induction h generalizing before with
  | @nil a =>
    refine ⟨[], .nil ?_, by rwa [List.append_nil]⟩
    cases ha with
    | @token t _ hat _ => exact ⟨t.text.toList ++ a.after.rest, by rw [hat.after.source, List.append_assoc]⟩
    | ended _ hafter _ => exact ⟨a.after.rest, hafter.source.symm⟩
  | @cons a c b t ts site ht hc _ ih =>
    cases ha with
    | ended hnone _ _ => cases hnone.symm.trans ht
    | @token u hu hat hstop =>
      obtain rfl := Option.some.inj (hu.symm.trans ht)
      obtain ⟨gap, hgap, hfrom⟩ := Lookahead.from_of_fetch hat.after hc
      rw [List.append_assoc] at hfrom
      obtain ⟨text, hlaid, hb⟩ := ih hfrom
      refine ⟨u.text.toList ++ gap ++ text, .cons ?_ hstop hat.text hgap hlaid, by rwa [← List.append_assoc]⟩
      rw [hat.start, Position.past_eq_behind]

namespace Laid

theorem isPrefix (h : Laid source before text ts) : before ++ text <+: source := by
  induction h with
  | nil h => rwa [List.append_nil]
  | cons _ _ _ _ _ ih => rwa [← List.append_assoc]

/-- Tokens of two lists are laid one list after the other. -/
theorem append (h : Laid source before text (ts ++ us)) :
    ∃ front rest, text = front ++ rest ∧ Laid source before front ts ∧ Laid source (before ++ front) rest us := by
  induction ts generalizing before text with
  | nil =>
    refine ⟨[], text, rfl, .nil ((List.prefix_append before text).trans h.isPrefix), ?_⟩
    rwa [List.append_nil]
  | cons t ts ih =>
    obtain _ | ⟨hstart, hstop, hne, hgap, h⟩ := h
    obtain ⟨front, rest, rfl, hfront, hrest⟩ := ih h
    rw [List.append_assoc] at hrest
    exact ⟨_, rest, (List.append_assoc ..).symm, .cons hstart hstop hne hgap hfront, hrest⟩

end Laid

/-- The words stand one after another in the text, from its start to its end, with space and comments between them. -/
inductive Spaced : List String → List Char → Prop
  | last {s : String} : Spaced [s] s.toList
  | cons {s : String} {ss : List String} {gap text : List Char} (hgap : Blank gap) (h : Spaced ss text) :
      Spaced (s :: ss) (s.toList ++ gap ++ text)

/-- Tokens that are laid are written from the start of the text to where the last of them stops. -/
theorem Laid.spaced (h : Laid source before text (ts ++ [t])) : ∃ front gap, text = front ++ gap ∧ Blank gap ∧
    Spaced ((ts ++ [t]).map Token.text) front ∧ t.stop = .behind (before ++ front) := by
  induction ts generalizing before text with
  | nil =>
    obtain _ | ⟨-, hstop, -, hgap, h⟩ := h
    cases h
    exact ⟨_, _, List.append_nil _, hgap, .last, hstop⟩
  | cons u us ih =>
    obtain _ | ⟨-, -, -, hgap, h⟩ := h
    obtain ⟨front, gap, rfl, hlast, hwritten, hstop⟩ := ih h
    refine ⟨_, gap, (List.append_assoc ..).symm, hlast, .cons hgap hwritten, ?_⟩
    rw [hstop]
    simp only [List.append_assoc]

theorem Laid.start (h : Laid source before text (t :: ts)) : t.start = .behind before := by
  cases h with
  | cons hstart => exact hstart

/-! ### Spans -/

/-- The span is that of the text, which stands in the file just after `before`. -/
structure Delimits (file : String) (source before text : List Char) (span : Option Span) : Prop where
  isPrefix : before ++ text <+: source
  eq : span = some ((Position.behind before).spanTo file (.behind (before ++ text)))

/-- A span is that of one text only. -/
theorem Delimits.unique {file file' : String} {before' text' : List Char} {span : Option Span}
    (h : Delimits file source before text span) (h' : Delimits file' source before' text' span) :
    before = before' ∧ text = text' := by
  obtain ⟨⟨rest, hrest⟩, hspan⟩ := h
  obtain ⟨⟨rest', hrest'⟩, hspan'⟩ := h'
  have hsource := hrest.trans hrest'.symm
  simp only [hspan, Option.some.injEq, Position.spanTo, Span.mk.injEq] at hspan'
  obtain ⟨-, hline, hcolumn, hendLine, hendColumn⟩ := hspan'
  obtain rfl : before = before' := by
    refine Position.past_injective (p := {}) (u := text ++ rest) (v := text' ++ rest') ?_ ?_
    · rwa [← List.append_assoc, ← List.append_assoc]
    · rw [Position.past_eq_behind, Position.past_eq_behind]
      exact congrArg₂ Position.mk hline hcolumn
  refine ⟨rfl, ?_⟩
  have hfront : before ++ text = before ++ text' := by
    refine Position.past_injective (p := {}) (u := rest) (v := rest') hsource ?_
    rw [Position.past_eq_behind, Position.past_eq_behind]
    exact congrArg₂ Position.mk hendLine hendColumn
  exact List.append_cancel_left hfront

end TypedErrors
