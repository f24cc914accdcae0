import TypedErrors.Proofs.Source.Ahead
import TypedErrors.Proofs.Source.Print

/-! # Printed types are read back

One lemma for each function that reads a part of a type: it reads a printed part to its end, whatever fits after
it. -/

namespace TypedErrors

variable {n : Nat} {ls ms rest : List Lexeme}

namespace Site
open Terminal

/-- After a dotted name. -/
def pathEnd : Site :=
  ⟨[asWord, comma, leftBracket, pipe, rightBrace, rightParen, rightBracket, semicolon], false⟩

/-- After a type. -/
def typeEnd : Site := ⟨[comma, rightBrace, rightParen, rightBracket], false⟩

end Site

/-! ### What printed parts start with -/

theorem PrintsParts.fits {ss : List String} (h : PrintsParts ss ls) (hrest : Fits .pathEnd rest) :
    Fits .pathNext (ls ++ rest) := by
  cases h with
  | nil => exact hrest.mono (by decide)
  | cons hsep => rcases hsep with rfl | rfl <;> exact .lexeme (by decide) (by decide)

theorem DottedName.Prints.fits {p : DottedName} (h : p.Prints ls) : Fits .name (ls ++ rest) := by
  obtain ⟨hs, -⟩ := h
  exact .name hs (by decide)

theorem DottedName.Prints.length_pos {p : DottedName} (h : p.Prints ls) : 0 < ls.length := by
  obtain ⟨-, -⟩ := h
  exact Nat.succ_pos _

theorem TypeAtom.Prints.fits {a : TypeAtom} (h : a.Prints ls) : Fits .name (ls ++ rest) := by
  cases h with
  | plain hp => exact hp.fits
  | subscripted hp =>
    rw [List.append_assoc]
    exact hp.fits

theorem TypeExpr.Prints.fits {e : TypeExpr} (h : e.Prints ls) : Fits .name (ls ++ rest) := by
  obtain ⟨ha, -⟩ := h
  rw [List.append_assoc]
  exact ha.fits

theorem TypeArg.Prints.fits {a : TypeArg} (h : a.Prints ls) : Fits .typeArg (ls ++ rest) := by
  cases h with
  | type he => exact he.fits.mono (by decide)
  | empty | list => exact .lexeme (by decide) (by decide)
  | literal => exact ⟨show Terminal.string ∈ _ by decide, nofun⟩
  | ellipsis => exact .lexeme (by decide) (by decide)

theorem TypeAtom.PrintsMore.fits {as : List TypeAtom} (h : TypeAtom.PrintsMore as ls) (hrest : Fits .typeEnd rest) :
    Fits .subscriptNext (ls ++ rest) := by
  cases h with
  | nil => exact hrest.mono (by decide)
  | cons => exact .lexeme (by decide) (by decide)

theorem TypeArg.PrintsMore.fits {as : List TypeArg} (h : TypeArg.PrintsMore as ls) :
    Fits .bracketList (ls ++ Terminal.rightBracket.lexeme :: rest) := by
  cases h <;> exact .lexeme (by decide) (by decide)

/-! ### Dotted names -/

namespace Parse

theorem pathRest_yields {ss : List String} (h : PrintsParts ss ls) (hrest : Fits .pathEnd rest) :
    ∀ {n : Nat} {acc : List String}, ls.length + 1 ≤ n →
      Yields (pathRest n acc) (ls ++ rest) rest (· = acc.reverse ++ ss) := by
  induction h with
  | nil =>
    rintro n acc hn
    obtain ⟨n, rfl⟩ : ∃ m, n = m + 1 := ⟨n - 1, by omega⟩
    refine .bind_peek ?_
    split
    · next hdot => exact absurd hdot (hrest.head_ne (by decide))
    · next hsep => exact absurd hsep (hrest.head_ne (by decide))
    · exact .pure (by simp)
  | @cons s ss ls sep hsep hs h ih =>
    rintro n acc hn
    obtain ⟨n, rfl⟩ : ∃ m, n = m + 1 := ⟨n - 1, by omega⟩
    have hname : Fits .name (.name s :: (ls ++ rest)) := .name hs (by decide)
    have hnext : ∀ {site : Site}, Site.Within .name site → Follows site (.name s :: (ls ++ rest)) :=
      fun hsite => hname.follows hsite
    simp only [List.length_cons] at hn
    refine .bind_peek ?_
    rcases hsep with rfl | rfl
    all_goals
      refine .bind_shift (hnext (by decide)) fun _ _ => ?_
      refine .bind_check (hnext (by decide)) ?_
      refine .bind_shift ((h.fits hrest).follows (by decide)) fun t ht => ?_
      refine (ih (by omega)).mono fun parts hparts => ?_
      rw [hparts, show t.text = s from congrArg Lexeme.text ht]
      simp

theorem path_yields {p : DottedName} (h : p.Prints ls) (hn : ls.length ≤ n) (hrest : Fits .pathEnd rest) :
    Yields (path n) (ls ++ rest) rest (· = p) := by
  obtain ⟨hs, h⟩ := h
  refine .bind_shift ((h.fits hrest).follows (by decide)) fun t ht => ?_
  refine .bind (pathRest_yields h hrest hn) fun parts hparts => .pure ?_
  rw [hparts, show t.text = _ from congrArg Lexeme.text ht]
  rfl

/-! ### Types -/

mutual

theorem typeExpr_yields : ∀ (n : Nat) {e : TypeExpr} {ls rest : List Lexeme}, e.Prints ls → ls.length + 2 ≤ n →
    Fits .typeEnd rest → Yields (typeExpr n) (ls ++ rest) rest (· = e)
  | 0, _, _, _, _, hn, _ => by omega
  | n + 1, _, _, _, h, hn, hrest => by
    obtain ⟨ha, hmore⟩ := h
    simp only [List.length_append] at hn
    rw [List.append_assoc]
    refine .bind (typeAtom_yields n ha (by omega) (hmore.fits hrest)) fun a hatom => ?_
    refine .bind (typeMore_yields n hmore (by omega) hrest) fun as has => .pure ?_
    rw [hatom, has]
    rfl

theorem typeMore_yields : ∀ (n : Nat) {as acc : List TypeAtom} {ls rest : List Lexeme},
    TypeAtom.PrintsMore as ls → ls.length + 1 ≤ n → Fits .typeEnd rest →
      Yields (typeMore n acc) (ls ++ rest) rest (· = acc.reverse ++ as)
  | 0, _, _, _, _, _, hn, _ => by omega
  | n + 1, _, acc, _, rest, h, hn, hrest => by
    refine .bind_peek ?_
    cases h with
    | nil =>
      split
      · next hpipe => exact absurd hpipe (hrest.head_ne (by decide))
      · exact .pure (by simp)
    | @cons ls ms a more ha hmore =>
      simp only [List.length_cons, List.length_append] at hn
      rw [List.cons_append, List.append_assoc]
      refine .bind_shift (ha.fits.follows (by decide)) fun _ _ => ?_
      refine .bind (typeAtom_yields n ha (by omega) (hmore.fits hrest)) fun b hb => ?_
      refine (typeMore_yields n hmore (by omega) hrest).mono fun bs hbs => ?_
      rw [hbs, hb]
      simp

theorem typeAtom_yields : ∀ (n : Nat) {a : TypeAtom} {ls rest : List Lexeme}, a.Prints ls → ls.length + 1 ≤ n →
    Fits .subscriptNext rest → Yields (typeAtom n) (ls ++ rest) rest (· = a)
  | 0, _, _, _, _, hn, _ => by omega
  | n + 1, _, _, rest, h, hn, hrest => by
    cases h with
    | plain hp =>
      refine .bind (path_yields hp (by omega) (hrest.mono (by decide))) fun p hpath => ?_
      refine .bind_check (hrest.follows (by decide)) (.bind_peek ?_)
      split
      · next hbracket => exact absurd hbracket (hrest.head_ne (by decide))
      · exact .pure (by rw [hpath])
    | @subscripted p a more ls ms ns hp ha hmore =>
      simp only [List.length_append, List.length_cons, List.length_nil] at hn
      have hlen := hp.length_pos
      simp only [List.append_assoc, List.cons_append, List.nil_append]
      refine .bind (path_yields hp (by omega) (.lexeme (by decide) (by decide))) fun p' hpath => ?_
      have hbracket : Fits .leftBracketOnly (Terminal.leftBracket.lexeme ::
          (ms ++ (ns ++ Terminal.rightBracket.lexeme :: rest))) := .lexeme (by decide) (by decide)
      refine .bind_check (hbracket.follows (by decide)) (.bind_peek ?_)
      refine .bind_shift (ha.fits.follows (by decide)) fun _ _ => ?_
      refine .bind (typeArg_yields n ha (by omega) hmore.fits) fun b hb => ?_
      refine .bind (typeArgs_yields n hmore (by omega)) fun bs hbs => ?_
      refine .bind_shift (hrest.follows (by decide)) fun _ _ => .pure ?_
      rw [hpath, hb, hbs]
      rfl

/-- A last comma is taken with the arguments, the closing bracket is not. -/
theorem typeArgs_yields : ∀ (n : Nat) {as acc : List TypeArg} {ls rest : List Lexeme}, TypeArg.PrintsMore as ls →
    ls.length + 3 ≤ n → Yields (typeArgs n acc) (ls ++ Terminal.rightBracket.lexeme :: rest)
      (Terminal.rightBracket.lexeme :: rest) (· = acc.reverse ++ as)
  | 0, _, _, _, _, _, hn => by omega
  | n + 1, _, acc, _, rest, h, hn => by
    have hclose : ∀ {site : Site}, Site.Within ⟨[.rightBracket], false⟩ site →
        Follows site (Terminal.rightBracket.lexeme :: rest) := fun hsite =>
      Fits.follows (.lexeme (by decide) (by decide)) hsite
    refine .bind_check (h.fits.follows (by decide)) (.bind_peek ?_)
    cases h with
    | nil => exact .pure (by simp)
    | comma => exact .bind_shift (hclose (by decide)) fun _ _ => .bind_peek (.pure (by simp))
    | @cons ls ms a more ha hmore =>
      simp only [List.length_cons, List.length_append] at hn
      rw [List.cons_append, List.append_assoc]
      have hstart : Fits .typeArg (ls ++ (ms ++ Terminal.rightBracket.lexeme :: rest)) := ha.fits
      refine .bind_shift (hstart.follows (by decide)) fun _ _ => .bind_peek ?_
      split
      · next hbracket => exact absurd hbracket (hstart.head_ne (by decide))
      · refine .bind (typeArg_yields n ha (by omega) hmore.fits) fun b hb => ?_
        refine (typeArgs_yields n hmore (by omega)).mono fun bs hbs => ?_
        rw [hbs, hb]
        simp

theorem typeArg_yields : ∀ (n : Nat) {a : TypeArg} {ls rest : List Lexeme}, a.Prints ls → ls.length + 3 ≤ n →
    Fits .bracketList rest → Yields (typeArg n) (ls ++ rest) rest (· = a)
  | 0, _, _, _, _, hn, _ => by omega
  | n + 1, _, _, rest, h, hn, hrest => by
    refine .bind_peek ?_
    cases h with
    | type he =>
      have hstart : Fits .name (_ ++ rest) := he.fits
      split
      · next hbracket => exact absurd hbracket (hstart.head_ne (by decide))
      · next hstring => exact absurd hstring (hstart.head_ne (by decide))
      · next hellipsis => exact absurd hellipsis (hstart.head_ne (by decide))
      · refine .bind (typeExpr_yields n he (by omega) (hrest.mono (by decide))) fun e' he' => .pure ?_
        rw [he']
    | empty =>
      refine .bind_shift (Fits.follows (s := ⟨[.rightBracket], false⟩) (.lexeme (by decide) (by decide)) (by decide))
        fun _ _ => .bind_peek ?_
      exact .bind_shift (hrest.follows (by decide)) fun _ _ => .pure rfl
    | @list ls ms a more ha hmore =>
      simp only [List.length_cons, List.length_append, List.length_nil] at hn
      simp only [List.append_assoc, List.cons_append, List.nil_append]
      have hstart : Fits .typeArg (ls ++ (ms ++ Terminal.rightBracket.lexeme :: rest)) := ha.fits
      refine .bind_shift (hstart.follows (by decide)) fun _ _ => .bind_peek ?_
      split
      · next hbracket => exact absurd hbracket (hstart.head_ne (by decide))
      · refine .bind (typeArg_yields n ha (by omega) hmore.fits) fun b hb => ?_
        refine .bind (typeArgs_yields n hmore (by omega)) fun bs hbs => ?_
        refine .bind_shift (hrest.follows (by decide)) fun _ _ => .pure ?_
        rw [hb, hbs]
        rfl
    | literal =>
      refine .bind_shift (hrest.follows (by decide)) fun t ht => .pure ?_
      rw [show t.text = _ from congrArg Lexeme.text ht]
    | ellipsis => exact .bind_shift (hrest.follows (by decide)) fun _ _ => .pure rfl

end

end Parse
end TypedErrors
