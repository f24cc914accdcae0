import TypedErrors.Proofs.Source.Ahead
import TypedErrors.Proofs.Source.Print

/-! # Printed attribute blocks, doc comments and visibilities are read back

What stands in front of a declaration, variant or field. The tokens of an attribute block are read under the closers
due, and a balanced sequence leaves them as they were (`attributeTokens_balanced`). -/

namespace TypedErrors

variable {file : String} {n : Nat} {l : Lexeme} {ls ms rest : List Lexeme} {k t : Terminal}

namespace Site
open Terminal

/-- After attribute blocks and doc comments. -/
def outerEnd : Site := ⟨[enumWord, .name, pubWord, structWord, unionWord], false⟩

end Site

/-! ### Token trees -/

namespace Parse

def closers : List Terminal := [.rightParen, .rightBracket, .rightBrace]

theorem mem_of_closer (h : closer? t = some k) : t ∈ Site.treeStart ∧ k ∈ closers := by
  cases t <;> simp only [closer?, reduceCtorEq, Option.some.injEq] at h <;> subst h <;> decide

theorem ne_closer (ht : t ∈ Site.treeStart) (hk : k ∈ closers) : t ≠ k :=
  (by decide : ∀ t ∈ Site.treeStart, ∀ k ∈ closers, t ≠ k) t ht k hk

/-- No word and no ellipsis is accepted in an attribute block. -/
theorem reads_tree (hk : k ∈ closers) (hl : l.terminal ∈ k :: Site.treeStart) :
    Scan.Reads (Site.tree k).accepts l ∧ Scan.Reads Site.treeNext.accepts l := by
  have hwords : ∀ w ∈ closers ++ Site.treeStart, w.word? = none := by decide
  have hdot : .ellipsis ∉ closers ++ Site.treeStart := by decide
  have hsub : ∀ w ∈ k :: Site.treeStart, w ∈ closers ++ Site.treeStart := by
    intro w hw
    rcases List.mem_cons.mp hw with rfl | hw
    · exact List.mem_append_left _ hk
    · exact List.mem_append_right _ hw
  have hnone : ∀ w ∈ closers ++ Site.treeStart, w.word? ≠ some l.text := fun w hw => by
    rw [hwords w hw]
    exact nofun
  exact ⟨⟨hl, fun _ w hw => hnone w (hsub w hw), fun _ h => hdot (hsub _ h)⟩,
    ⟨hsub _ hl, fun _ w hw => hnone w hw, fun _ => hdot⟩⟩

theorem follows_tree (h : Balanced ls) (hk : k ∈ closers) :
    Follows (.tree k) (ls ++ k.lexeme :: rest) ∧ Follows .treeNext (ls ++ k.lexeme :: rest) := by
  cases h with
  | nil => exact reads_tree hk (List.mem_cons_self ..)
  | token hl => exact reads_tree hk (List.mem_cons_of_mem _ hl)
  | group hclose => exact reads_tree hk (List.mem_cons_of_mem _ (mem_of_closer hclose).1)

variable {α : Type} {Q : List AttrToken → Prop}

/-- A balanced sequence is put on top of the tokens read, and the closers due stay. -/
theorem attributeTokens_balanced (h : Balanced ls) :
    ∀ {n : Nat} {k : Terminal} {outer : List Terminal} {acc : List AttrToken} {rest : List Lexeme}, k ∈ closers →
      (∀ vs : List AttrToken, vs.map AttrToken.lexeme = ls →
        Yields (attributeTokens file n (k :: outer) (vs.reverse ++ acc)) (k.lexeme :: rest) ms Q) →
      Yields (attributeTokens file (n + ls.length) (k :: outer) acc) (ls ++ k.lexeme :: rest) ms Q := by
  induction h with
  | nil =>
    intro n k outer acc rest _ hend
    exact hend [] rfl
  | @token l ls hl hplain h ih =>
    intro n k outer acc rest hk hend
    have hne : l.terminal ≠ k := ne_closer hl hk
    rw [List.length_cons, ← Nat.add_assoc, attributeTokens]
    refine .bind_check (reads_tree hk (List.mem_cons_of_mem _ hl)).1 (.bind_peek ?_)
    simp only [List.cons_append, List.head?_cons, Option.map_some, Option.some.injEq, if_neg hne, Option.bind_some,
      hplain]
    refine .bind_shift (follows_tree h hk).2 fun t ht => ih hk fun vs hvs => ?_
    have hvs' := hend (⟨t.terminal, t.text, some (t.span file)⟩ :: vs) (by rw [List.map_cons, hvs, ← ht]; rfl)
    rwa [List.reverse_cons, List.append_assoc] at hvs'
  | @group ls ms' t closer hclose hin h ihin ih =>
    intro n k outer acc rest hk hend
    obtain ⟨ht, hcloser⟩ := mem_of_closer hclose
    have hne : t ≠ k := ne_closer ht hk
    have hlen : n + (t.lexeme :: (ls ++ closer.lexeme :: ms')).length = n + ms'.length + 1 + ls.length + 1 := by
      simp only [List.length_cons, List.length_append]
      omega
    rw [hlen, attributeTokens, List.cons_append, List.append_assoc, List.cons_append]
    refine .bind_check (reads_tree hk (List.mem_cons_of_mem _ ht)).1 (.bind_peek ?_)
    have hhead : ∀ more, (t.lexeme :: more).head?.map Lexeme.terminal = some t := fun _ => rfl
    simp only [hhead, Option.some.injEq, if_neg hne, Option.bind_some, hclose]
    refine .bind_shift (follows_tree hin hcloser).1 fun u hu => ihin hcloser fun vs hvs => ?_
    -- the closer of the group is the one due
    rw [attributeTokens]
    refine .bind_check (follows_tree .nil hcloser).1 (.bind_peek ?_)
    have hdue : ∀ more, (closer.lexeme :: more).head?.map Lexeme.terminal = some closer := fun _ => rfl
    simp only [hdue, if_pos, List.isEmpty_cons, Bool.false_eq_true, if_false]
    refine .bind_shift (follows_tree h hk).2 fun w hw => ih hk fun vs' hvs' => ?_
    have hall := hend
      (⟨u.terminal, u.text, some (u.span file)⟩ :: (vs ++ ⟨w.terminal, w.text, some (w.span file)⟩ :: vs'))
      (by rw [List.map_cons, List.map_append, List.map_cons, hvs, hvs', ← hu, ← hw]; rfl)
    simpa using hall

theorem attributeBlock_yields {a : RawAttribute} (h : a.Prints ls) (hn : ls.length ≤ n)
    (hrest : Follows .outerNext rest) :
    Yields (attributeBlock file n) (ls ++ rest) rest fun b => b.unspanned = a.unspanned := by
  obtain ⟨h⟩ := h
  simp only [List.length_cons, List.length_append, List.length_nil] at hn
  simp only [List.cons_append, List.append_assoc, List.nil_append]
  have hbracket : Fits .leftBracketOnly (Terminal.leftBracket.lexeme ::
      (a.tokens.map AttrToken.lexeme ++ Terminal.rightBracket.lexeme :: rest)) := .lexeme (by decide) (by decide)
  refine .bind_here fun start => ?_
  refine .bind_shift (hbracket.follows (by decide)) fun _ _ => ?_
  refine .bind_shift (follows_tree h (by decide)).1 fun _ _ => ?_
  obtain ⟨m, rfl⟩ : ∃ m, n = m + 1 + (a.tokens.map AttrToken.lexeme).length :=
    ⟨n - 1 - (a.tokens.map AttrToken.lexeme).length, by omega⟩
  refine .bind (P := fun vs : List AttrToken => vs.map AttrToken.lexeme = a.tokens.map AttrToken.lexeme)
    (attributeTokens_balanced h (by decide) fun vs hvs => ?_) fun vs hvs => .bind_there fun stop => .pure ?_
  · rw [attributeTokens]
    refine .bind_check (follows_tree .nil (by decide)).1 (.bind_peek ?_)
    exact .bind_shift hrest fun _ _ => .pure (by simpa using hvs)
  · have htokens : ∀ t : AttrToken, t.unspanned = ⟨t.lexeme.terminal, t.lexeme.text, none⟩ := fun _ => rfl
    have hmap := congrArg (List.map fun l : Lexeme => (⟨l.terminal, l.text, none⟩ : AttrToken)) hvs
    rw [List.map_map, List.map_map] at hmap
    exact congrArg (fun ts => (⟨ts, none⟩ : RawAttribute)) hmap

/-! ### Doc comments -/

theorem docText_of_prints {s : String} {t : Token} (h : PrintsDoc s t.lexeme) : docText t = s := by
  generalize hl : t.lexeme = l at h
  have htext : t.text = l.text := congrArg Lexeme.text hl
  rw [docText, htext]
  cases h with
  | spaced =>
    rw [show ("/// " ++ s).toList.drop 3 = ' ' :: s.toList by rw [String.toList_append]; rfl]
    exact String.ofList_toList
  | bare hs =>
    rw [show ("///" ++ s).toList.drop 3 = s.toList by rw [String.toList_append]; rfl]
    split
    · next cs hcs => exact absurd (by rw [hcs]; rfl) hs
    · exact String.ofList_toList

end Parse

/-! ### In front of a declaration, variant or field -/

theorem RawAttribute.Prints.length_pos {a : RawAttribute} (h : a.Prints ls) : 0 < ls.length := by
  obtain ⟨-⟩ := h
  exact Nat.succ_pos _

theorem RawAttribute.Prints.head {a : RawAttribute} (h : a.Prints ls) :
    (ls ++ rest).head?.map Lexeme.terminal = some .hash := by
  obtain ⟨-⟩ := h
  rfl

theorem PrintsOuter.fits {site : Site} {attrs : List RawAttribute} {docs : List String} (h : PrintsOuter attrs docs ls)
    (hhash : .hash ∈ site.accepts) (hdoc : .doc ∈ site.accepts) (hrest : Fits site rest) : Fits site (ls ++ rest) := by
  cases h with
  | nil => exact hrest
  | block ha =>
    obtain ⟨-⟩ := ha
    exact .lexeme hhash (by decide)
  | doc hs => cases hs <;> exact ⟨hdoc, nofun⟩

theorem Visibility.Prints.fits {site : Site} {v : Visibility} (h : v.Prints ls) (hpub : .pubWord ∈ site.accepts)
    (hrest : Fits site rest) : Fits site (ls ++ rest) := by
  cases h with
  | inherited => exact hrest
  | pub | restricted => exact .lexeme hpub (by decide)

namespace Parse

theorem outer_yields {attrs : List RawAttribute} {docs : List String} (h : PrintsOuter attrs docs ls)
    (hrest : Fits .outerEnd rest) : ∀ {n : Nat} {attrs' : List RawAttribute} {docs' : List String},
      ls.length + 1 ≤ n → Yields (outer file n attrs' docs') (ls ++ rest) rest fun p =>
        p.1.map RawAttribute.unspanned = (attrs'.reverse ++ attrs).map RawAttribute.unspanned ∧
          p.2 = docs'.reverse ++ docs := by
  induction h with
  | nil =>
    intro n attrs' docs' hn
    obtain ⟨n, rfl⟩ : ∃ m, n = m + 1 := ⟨n - 1, by omega⟩
    refine .bind_peek ?_
    split
    · next hhash => exact absurd hhash (hrest.head_ne (by decide))
    · next hdoc => exact absurd hdoc (hrest.head_ne (by decide))
    · exact .pure (by simp)
  | @block ls ms a attrs docs ha h ih =>
    intro n attrs' docs' hn
    obtain ⟨n, rfl⟩ : ∃ m, n = m + 1 := ⟨n - 1, by omega⟩
    have hpos : 0 < ls.length := ha.length_pos
    simp only [List.length_append] at hn
    rw [List.append_assoc]
    refine .bind_peek ?_
    rw [ha.head]
    have hnext : Fits .outerNext (_ ++ rest) := h.fits (by decide) (by decide) (hrest.mono (by decide))
    refine .bind (attributeBlock_yields ha (by omega) (hnext.follows (by decide))) fun b hb => ?_
    refine (ih (by omega)).mono fun p hp => ⟨?_, hp.2⟩
    rw [hp.1]
    simp [hb]
  | @doc s l ls attrs docs hs h ih =>
    intro n attrs' docs' hn
    obtain ⟨n, rfl⟩ : ∃ m, n = m + 1 := ⟨n - 1, by omega⟩
    simp only [List.length_cons] at hn
    have hdoc : l.terminal = .doc := by cases hs <;> rfl
    refine .bind_peek ?_
    simp only [List.cons_append, List.head?_cons, Option.map_some, hdoc]
    have hnext : Fits .outerNext (_ ++ rest) := h.fits (by decide) (by decide) (hrest.mono (by decide))
    refine .bind_shift (hnext.follows (by decide)) fun t ht => ?_
    refine (ih (by omega)).mono fun p hp => ⟨hp.1, ?_⟩
    rw [hp.2, docText_of_prints (ht ▸ hs)]
    simp

/-! ### Visibilities -/

theorem scope_fits {s : String} (h : PrintsScope s l) : Fits .segment (l :: ls) := by
  cases h with
  | name hs => exact .name hs (by decide)
  | word ht =>
    simp only [List.mem_cons, List.not_mem_nil, or_false] at ht
    rcases ht with rfl | rfl | rfl <;> exact .lexeme (by decide) (by decide)

theorem scope_text {s : String} (h : PrintsScope s l) : l.text = s := by
  cases h <;> rfl

theorem scopes_fits {ss : List String} (h : PrintsScopes ss ls) :
    Fits .segmentNext (ls ++ Terminal.rightParen.lexeme :: rest) := by
  cases h with
  | nil => exact .lexeme (by decide) (by decide)
  | cons hsep => rcases hsep with rfl | rfl <;> exact .lexeme (by decide) (by decide)

theorem scopes_yields {ss : List String} (h : PrintsScopes ss ls) : ∀ {n : Nat} {acc : List String},
    ls.length + 1 ≤ n → Yields (scopes n acc) (ls ++ Terminal.rightParen.lexeme :: rest)
      (Terminal.rightParen.lexeme :: rest) (· = acc.reverse ++ ss) := by
  induction h with
  | nil =>
    intro n acc hn
    obtain ⟨n, rfl⟩ : ∃ m, n = m + 1 := ⟨n - 1, by omega⟩
    exact .bind_peek (.pure (by simp))
  | @cons s ss l ls sep hsep hs h ih =>
    intro n acc hn
    obtain ⟨n, rfl⟩ : ∃ m, n = m + 1 := ⟨n - 1, by omega⟩
    simp only [List.length_cons] at hn
    refine .bind_peek ?_
    rcases hsep with rfl | rfl
    all_goals
      refine .bind_shift ((scope_fits hs).follows (by decide)) fun _ _ => ?_
      refine .bind_shift ((scopes_fits h).follows (by decide)) fun t ht => ?_
      refine (ih (by omega)).mono fun ss' hss' => ?_
      rw [hss', show t.text = s from (congrArg Lexeme.text ht).trans (scope_text hs)]
      simp

theorem restriction_yields {v : Visibility} (h : PrintsRestriction v ls) (hn : ls.length ≤ n) (rest : List Lexeme) :
    Fits .restriction (ls ++ Terminal.rightParen.lexeme :: rest) ∧
      Yields (restriction n) (ls ++ Terminal.rightParen.lexeme :: rest) (Terminal.rightParen.lexeme :: rest)
        (· = v) := by
  have hclose : Fits .rightParenOnly (Terminal.rightParen.lexeme :: rest) := .lexeme (by decide) (by decide)
  cases h with
  | crate =>
    refine ⟨.lexeme (by decide) (by decide), .bind_peek ?_⟩
    exact .bind_shift (hclose.follows (by decide)) fun _ _ => .pure rfl
  | scope ht =>
    rcases ht with rfl | rfl
    all_goals
      refine ⟨.lexeme (by decide) (by decide), .bind_peek ?_⟩
      refine .bind_shift (hclose.follows (by decide)) fun t ht => .pure ?_
      rw [show t.text = _ from congrArg Lexeme.text ht]
  | path hs h =>
    refine ⟨.lexeme (by decide) (by decide), .bind_peek ?_⟩
    simp only [List.length_cons] at hn
    refine .bind_shift ((scope_fits hs).follows (by decide)) fun _ _ => ?_
    refine .bind_shift ((scopes_fits h).follows (by decide)) fun t ht => ?_
    refine .bind (scopes_yields h (by omega)) fun ss hss => .pure ?_
    rw [hss, show t.text = _ from (congrArg Lexeme.text ht).trans (scope_text hs)]
    rfl

theorem visibility_yields {v : Visibility} {next : Site} (h : v.Prints ls) (hn : ls.length ≤ n)
    (hnext : next = .name ∨ next = .keyword) (hrest : Fits next rest) :
    Yields (visibility n next) (ls ++ rest) rest (· = v) := by
  have hpub : Site.Within next .restrictionNext ∧ Site.Within next .pubNext ∧ Site.Within next next ∧
      .leftParen ∉ next.accepts ∧ .pubWord ∉ next.accepts := by
    rcases hnext with rfl | rfl <;> decide
  obtain ⟨hrestriction, hpubNext, hself, hparen, hword⟩ := hpub
  cases h with
  | inherited =>
    refine .bind_peek ?_
    split
    · next hpub => exact absurd hpub (hrest.head_ne hword)
    · exact .pure rfl
  | pub =>
    refine .bind_peek (.bind_shift (hrest.follows hpubNext) fun _ _ => .bind_peek ?_)
    split
    · next hleft => exact absurd hleft (hrest.head_ne hparen)
    · refine .bind (P := (· = .pub)) (.pure rfl) fun v hv => ?_
      exact .bind_check (hrest.follows hself) (.pure hv)
  | @restricted ls v h =>
    simp only [List.length_cons, List.length_append, List.length_nil] at hn
    simp only [List.cons_append, List.append_assoc, List.nil_append]
    obtain ⟨hstart, hyields⟩ := restriction_yields h (show ls.length ≤ n by omega) rest
    have hopen : Fits ⟨[.leftParen], false⟩ (Terminal.leftParen.lexeme ::
        (ls ++ Terminal.rightParen.lexeme :: rest)) := .lexeme (by decide) (by decide)
    refine .bind_peek (.bind_shift (hopen.follows (by decide)) fun _ _ => .bind_peek ?_)
    refine .bind_shift (hstart.follows (by decide)) fun _ _ => .bind hyields fun v' hv => ?_
    refine .bind_shift (hrest.follows hrestriction) fun _ _ => .bind (P := (· = v)) (.pure hv) fun w hw => ?_
    exact .bind_check (hrest.follows hself) (.pure hw)

end Parse
end TypedErrors
