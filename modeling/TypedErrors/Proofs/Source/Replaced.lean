import TypedErrors.Proofs.Source.Rendered

/-! # A type replaced by its text

A source that is read over a type is read alike with the rendered text in its place, up to the type, over it and behind
it (`Reading.render`). -/

namespace TypedErrors

variable {site : Site} {last last' : Option Token} {c c' : Cursor} {a b d goal : Lookahead} {s : Step}
  {ss us vs : List Step} {t u : Token} {k : Terminal} {text : String} {source pre post v w r rest : List Char}

/-! ### What closes the first name -/

namespace Scan

theorem closes_of_head (h : ∀ c ∈ v.head?, isNamePart c = false ∧ c ≠ '+' ∧ c ≠ '-' ∧ c ≠ '.') : Closes v where
  head c hc := ⟨(h c hc).1, (h c hc).2.1, (h c hc).2.2.1⟩
  point c cs hv := by
    rw [hv] at h
    exact absurd rfl (h '.' rfl).2.2.2

/-- A point closes a name where no digit follows. -/
theorem closes_point (h : ∀ c ∈ rest.head?, c.isDigit = false) : Closes ('.' :: rest) where
  head := by
    rintro _ ⟨⟩
    decide
  point c cs hv := h c (by rw [(List.cons.inj hv).2]; rfl)

theorem closes_symbol (hs : k.symbol? = some text) (hdot : k ≠ .dot) (hellipsis : k ≠ .ellipsis) :
    Closes (text.toList ++ rest) := by
  refine closes_of_head ?_
  cases k <;> simp only [Terminal.symbol?, Option.some.injEq, reduceCtorEq] at hs <;>
    first | exact absurd rfl hdot | exact absurd rfl hellipsis | (subst hs; rintro _ ⟨⟩; decide)

end Scan

namespace Lookahead

/-- What is gone past begins with a space or a slash. -/
theorem head_of_gap (h : fetch site last c = .ok a) (ht : a.token? = some t) :
    ∃ gap, c.rest = gap ++ (t.text.toList ++ a.after.rest) ∧
      ∀ d ∈ gap.head?, Scan.isNamePart d = false ∧ d ≠ '+' ∧ d ≠ '-' ∧ d ≠ '.' := by
  obtain ⟨gap, hrest, hgap, -⟩ := gap_of_fetch h ht
  refine ⟨gap, hrest, fun d hd => ?_⟩
  obtain ⟨gap, rfl⟩ := List.head?_eq_some_iff.mp hd
  have hhead : Scan.isSpace d = true ∨ d = '/' := by
    by_contra hne
    rw [not_or, Bool.not_eq_true] at hne
    rw [Scan.trivia_of_head (fun e he => ?_) 0] at hgap
    · cases hgap
    · rw [hrest] at he
      obtain rfl := Option.some.inj he
      exact hne
  simp only [Scan.isSpace, Bool.or_eq_true, beq_iff_eq] at hhead
  rcases hhead with ((((rfl | rfl) | rfl) | rfl) | rfl) | rfl <;> decide

/-- What closes a name closes it behind a gap, too. -/
theorem closes_of_fetch (h : fetch site last c = .ok a) (ht : a.token? = some t)
    (hclose : Scan.Closes (t.text.toList ++ a.after.rest)) : Scan.Closes c.rest := by
  obtain ⟨gap, hrest, hgap⟩ := head_of_gap h ht
  rw [hrest]
  cases gap with
  | nil => exact hclose
  | cons d gap => exact Scan.closes_of_head hgap

/-- No digit is at the front where a name is fetched. -/
theorem head_of_name (h : fetch site last c = .ok a) (ht : a.token? = some t) (hname : NameText t.text.toList) :
    ∀ d ∈ c.rest.head?, d.isDigit = false := by
  obtain ⟨gap, hrest, hgap⟩ := head_of_gap h ht
  rw [hrest]
  cases gap with
  | nil =>
    generalize t.text.toList = cs at hname
    obtain ⟨hc, -⟩ := hname
    rintro _ ⟨⟩
    exact Scan.isDigit_of_isNameStart hc
  | cons d gap =>
    rintro _ ⟨⟩
    by_contra hdigit
    have hpart := Scan.isNamePart_of_isDigit (Bool.of_not_eq_false hdigit)
    rw [(hgap d rfl).1] at hpart
    cases hpart

theorem FetchedAt.symbol_text (h : a.FetchedAt site) (ht : a.token? = some t) (hs : t.terminal.symbol? = some text) :
    t.text = text := by
  have hlexeme := (h.readAt ht).symbol hs
  rw [Terminal.lexeme, show t.lexeme.terminal.symbol? = some text from hs] at hlexeme
  exact congrArg Lexeme.text hlexeme

/-- A type ends in front of a symbol. -/
theorem closes_typeEnd (h : fetch site last c = .ok a) (ha : Site.typeEnd.admits a.head? = true) :
    Scan.Closes c.rest := by
  obtain ⟨k, hk, hhead⟩ := Site.exists_of_admits ha rfl
  obtain ⟨t, ht, hterminal⟩ := Option.map_eq_some_iff.mp hhead
  subst hterminal
  obtain ⟨text, hs, hdot, hellipsis⟩ : ∃ text, t.terminal.symbol? = some text ∧ t.terminal ≠ .dot ∧
      t.terminal ≠ .ellipsis := by
    have hends : ∀ k ∈ Site.typeEnd.accepts, (k.symbol?.isSome = true) ∧ k ≠ .dot ∧ k ≠ .ellipsis := by decide
    obtain ⟨hsome, hne⟩ := hends _ hk
    obtain ⟨text, hs⟩ := Option.isSome_iff_exists.mp hsome
    exact ⟨text, hs, hne⟩
  refine closes_of_fetch h ht ?_
  rw [FetchedAt.symbol_text ⟨_, _, h⟩ ht hs]
  exact Scan.closes_symbol hs hdot hellipsis

end Lookahead

theorem Token.text_of_lexeme {l : Lexeme} (h : t.lexeme = l) : t.text = l.text := congrArg Lexeme.text h

/-- The steps behind the first name of a type. -/
inductive Closing : List Step → Prop
  | nil : Closing []
  | symbol {k : Terminal} {next : Site} {ss : List Step}
      (hk : k ∈ [.pathSep, .leftBracket, .pipe]) : Closing (⟨k.lexeme, next⟩ :: ss)
  | dot {s : String} {next : Site} {ss : List Step} (hs : NameText s.toList) :
      Closing (⟨Terminal.dot.lexeme, .segment⟩ :: ⟨.name s, next⟩ :: ss)

namespace Closing

theorem append (h : Closing ss) (h' : Closing us) : Closing (ss ++ us) := by
  cases h with
  | nil => exact h'
  | symbol hk => exact .symbol hk
  | dot hs => exact .dot hs

theorem closes (h : Closing ss) (ha : Lookahead.fetch site last c = .ok a) (hwalk : Walk a ss b)
    (hb : Site.typeEnd.admits b.head? = true) : Scan.Closes c.rest := by
  cases h with
  | nil =>
    cases hwalk
    exact Lookahead.closes_typeEnd ha hb
  | @symbol k next ss hk =>
    obtain _ | ⟨ht, hlexeme, -, -⟩ := hwalk
    refine Lookahead.closes_of_fetch ha ht ?_
    rw [Token.text_of_lexeme hlexeme]
    have hsymbol : ∀ k ∈ [Terminal.pathSep, .leftBracket, .pipe],
        k.symbol? = some k.lexeme.text ∧ k ≠ .dot ∧ k ≠ .ellipsis := by decide
    obtain ⟨htext, hdot, hellipsis⟩ := hsymbol k hk
    exact Scan.closes_symbol htext hdot hellipsis
  | @dot s next ss hs =>
    obtain _ | ⟨ht, hlexeme, hfetch, hwalk⟩ := hwalk
    obtain _ | ⟨hu, hname, -, -⟩ := hwalk
    refine Lookahead.closes_of_fetch ha ht ?_
    rw [Token.text_of_lexeme hlexeme]
    refine Scan.closes_point (Lookahead.head_of_name hfetch hu ?_)
    rw [Token.text_of_lexeme hname]
    exact hs

/-- The text that the steps are read in closes the name in front of it. -/
theorem closes_text {P : Lookahead → Prop} (h : Closing ss) (hread : TextSteps site v ss post)
    (hpost : ∀ last c, c.rest = post → ∃ b, Lookahead.fetch (endOf site ss) last c = .ok b ∧ P b)
    (hP : ∀ b, P b → Site.typeEnd.admits b.head? = true) : Scan.Closes v := by
  have hat : (Cursor.mk {} v).At v [] := ⟨rfl, rfl⟩
  obtain ⟨a, b, -, ha, hwalk, hb, -⟩ := hread.walk hpost (t := ⟨.name, "", {}, {}⟩) hat rfl rfl
  exact h.closes ha hwalk (hP b hb)

end Closing

theorem PartSteps.closing {parts : List String} (h : PartSteps parts ss) : Closing ss := by
  cases h with
  | nil => exact .nil
  | cons hsep hs =>
    rcases hsep with rfl | rfl
    · exact .dot hs
    · exact .symbol (by decide)

theorem DottedName.Steps.closing {p : DottedName} (h : p.Steps ss) : Closing ss.tail := by
  obtain ⟨-, h⟩ := h
  exact h.closing

theorem TypeAtom.Steps.closing {a : TypeAtom} (h : a.Steps ss) : Closing ss.tail := by
  cases h with
  | plain hp => exact hp.closing
  | subscripted hp =>
    rw [List.tail_append_of_ne_nil (List.ne_nil_of_length_pos hp.length_pos)]
    exact hp.closing.append (.symbol (by decide))

theorem TypeExpr.Steps.closing {e : TypeExpr} (h : e.Steps ss) : Closing ss.tail := by
  obtain ⟨ha, hmore⟩ := h
  obtain ⟨s, us, rfl, -⟩ := ha.exists_name
  rw [List.cons_append, List.tail_cons]
  refine ha.closing.append ?_
  cases hmore with
  | nil => exact .nil
  | cons => exact .symbol (by decide)

/-! ### Walks up to a name -/

theorem NameText.ne_nil (h : NameText w) : w ≠ [] := by
  obtain ⟨-⟩ := h
  exact List.cons_ne_nil _ _

theorem NameText.endsInName (h : NameText w) (u : List Char) : Scan.EndsInName (u ++ w) := by
  have hlast : (u ++ w).getLast? = some (w.getLast h.ne_nil) := by
    rw [List.getLast?_append_of_ne_nil _ h.ne_nil, List.getLast?_eq_some_getLast h.ne_nil]
  have hparts : ∀ d ∈ w, Scan.isNamePart d = true := by
    obtain ⟨hc, hcs⟩ := h
    exact List.forall_mem_cons.mpr ⟨Scan.isNamePart_of_isNameStart hc, hcs⟩
  exact ⟨_, hlast, hparts _ (List.getLast_mem _)⟩

namespace Walk

theorem front_suffix (h : Walk a (s :: ss) b) : b.front <:+ a.after.rest := by
  obtain ⟨ts, hts, hlexemes⟩ := h.takes
  cases ts with
  | nil => cases hlexemes
  | cons t ts => exact hts.front_suffix

/-- The steps up to a name are made in front of whatever closes it. -/
theorem behind (h : Walk a us goal) (ht : goal.token? = some t) (hname : t.terminal = .name)
    (htext : NameText t.text.toList) (hv : Scan.Closes goal.after.rest) (hw : Scan.Closes w) {site : Site}
    {last : Option Token} {c : Cursor} (ha : Lookahead.fetch site last c = .ok a) (last' : Option Token) {c' : Cursor}
    {r : List Char} (hrest : c.rest = r ++ (t.text.toList ++ goal.after.rest))
    (hrest' : c'.rest = r ++ (t.text.toList ++ w)) :
    ∃ a' goal', Lookahead.fetch site last' c' = .ok a' ∧ Walk a' us goal' ∧ goal'.lexeme? = goal.lexeme? ∧
      goal'.after.rest = w := by
  induction h generalizing site last last' c c' r with
  | @nil a =>
    obtain ⟨gap, hgap, -⟩ := Lookahead.gap_of_fetch ha ht
    obtain rfl : r = gap := List.append_cancel_right (hrest.symm.trans hgap)
    have hend : Scan.EndsInName (t.text.toList ++ []) := by
      rw [List.append_nil]
      exact htext.endsInName []
    obtain ⟨a', ha', hlexeme, hafter⟩ := Lookahead.fetch_behind (r := []) ha ht rfl hv hw hend
      (fun hdoc => by rw [hname] at hdoc; cases hdoc) hgap hrest' last'
    exact ⟨a', a', ha', .nil, hlexeme, hafter⟩
  | @cons a b goal u s ss hu hs hb hwalk ih =>
    obtain ⟨m, hm⟩ := front_suffix (.cons hu hs hb hwalk)
    rw [Lookahead.front_of_token ht] at hm
    obtain ⟨gap, hgap, -⟩ := Lookahead.gap_of_fetch ha hu
    have hr : r = gap ++ (u.text.toList ++ m) := by
      refine List.append_cancel_right (?_ : r ++ (t.text.toList ++ goal.after.rest) = _)
      rw [← hrest, hgap, ← hm]
      simp only [List.append_assoc]
    have hend : Scan.EndsInName (u.text.toList ++ (m ++ t.text.toList)) := by
      rw [← List.append_assoc]
      exact htext.endsInName _
    have hne : m ++ t.text.toList ≠ [] := List.append_ne_nil_of_right_ne_nil m htext.ne_nil
    rw [hr] at hrest hrest'
    simp only [List.append_assoc] at hrest hrest'
    obtain ⟨a', ha', hlexeme, hafter⟩ := Lookahead.fetch_behind (r := m ++ t.text.toList) ha hu
      (by rw [← hm, List.append_assoc]) hv hw hend (fun _ => hne) (by simpa only [List.append_assoc] using hrest)
      (by simpa only [List.append_assoc] using hrest') last'
    obtain ⟨u', hu', hs'⟩ := Lookahead.exists_token hlexeme hu
    obtain ⟨b', goal', hb', hwalk', hgoal⟩ := ih ht hv hb (some u') hm.symm (hafter.trans (List.append_assoc ..))
    exact ⟨a', goal', ha', .cons hu' (hs'.trans hs) hb' hwalk', hgoal⟩

/-- The tokens of the steps are spread over a stretch of the source, behind which the last one stops and what is ahead
then is fetched. -/
theorem stretch (h : Walk a (s :: ss) b) (ht : a.token? = some t) (ha : a.At source pre t)
    (hstop : t.stop = a.after.position) :
    ∃ ts text post last c, Takes a ts b ∧ ts.map Token.lexeme = (s :: ss).map Step.lexeme ∧
      source = pre ++ text ++ post ∧ Spread (Position.past {} pre) text ts ∧
      b.last.map Token.stop = some (Position.past {} (pre ++ text)) ∧
      Lookahead.fetch (endOf s.next ss) last c = .ok b ∧ c.rest = post := by
  induction ss generalizing a pre t s with
  | nil =>
    obtain _ | ⟨ht', hs, hb, h⟩ := h
    obtain rfl := Option.some.inj (ht.symm.trans ht')
    cases h
    refine ⟨[t], t.text.toList, _, _, _, .cons ht hb .nil, by rw [List.map_singleton, hs]; rfl, ha.after.source,
      ?_, ?_, hb, rfl⟩
    · rw [← ha.start]
      exact .last ha.text
    · rw [Lookahead.last_of_fetch hb, Option.map_some, hstop, ha.after.position]
  | cons s' ss ih =>
    obtain _ | ⟨ht', hs, hb, h⟩ := h
    obtain rfl := Option.some.inj (ht.symm.trans ht')
    have hu : ∃ u, _ := Option.map_eq_some_iff.mp h.lexeme
    obtain ⟨u, hu, -⟩ := hu
    obtain ⟨gap, hat⟩ := Lookahead.At.of_fetch ha.after hb hu
    obtain ⟨ts, text, post, last, c, hts, hlexemes, hsource, hspread, hlast, hfetch, hrest⟩ :=
      ih h hu hat ((Lookahead.stands_of_fetch ha.after hb).stop u hu)
    refine ⟨t :: ts, t.text.toList ++ gap ++ text, post, last, c, .cons ht hb hts, ?_, ?_, ?_, ?_, hfetch, hrest⟩
    · rw [List.map_cons, hs, hlexemes]
      rfl
    · rw [hsource]
      simp only [List.append_assoc]
    · rw [List.append_assoc, Position.past_append, ← ha.start] at hspread
      rw [← ha.start]
      exact .cons ha.text hspread
    · rw [hlast]
      simp only [List.append_assoc]

end Walk

/-! ### Readings of a source -/

/-- The steps in which a source is read: up to the text in the middle, over it and behind it. -/
structure Reading (pre text post : String) (us ss vs : List Step) where
  start : Lookahead
  front : Lookahead
  back : Lookahead
  ending : Lookahead
  tokens : List Token
  fetched : Lookahead.fetch .items none (.ofString (pre ++ text ++ post)) = .ok start
  before : Walk start us front
  middle : Walk front ss back
  after : Walk back vs ending
  takes : Takes front tokens back
  lexemes : tokens.map Token.lexeme = ss.map Step.lexeme
  at_front : ∀ t, front.token? = some t → front.At (pre ++ text ++ post).toList pre.toList t
  spread : Spread (Position.past {} pre.toList) text.toList tokens
  stop : back.last.map Token.stop = some (Position.past {} (pre ++ text).toList)
  behind : ∃ last c, Lookahead.fetch (endOf .name ss) last c = .ok back ∧ c.rest = post.toList

theorem exists_reading {source : String} {start ending : Lookahead}
    (hstart : Lookahead.fetch .items none (.ofString source) = .ok start) (hus : Walk start us a)
    (hss : Walk a (s :: ss) b) (hvs : Walk b vs ending) : ∃ pre text post, source = pre ++ text ++ post ∧
      ∃ R : Reading pre text post us (s :: ss) vs, R.start = start ∧ R.front = a ∧ R.back = b ∧ R.ending = ending := by
  have hat := Cursor.at_ofString source
  obtain ⟨ts, hts, -⟩ := hus.takes
  obtain ⟨t, ht, -⟩ := Option.map_eq_some_iff.mp hss.lexeme
  obtain ⟨pre, hpre⟩ := hts.lookahead_in (Lookahead.in_of_fetch hat hstart) t ht
  have hstands := hts.stands (Lookahead.stands_of_fetch hat hstart)
  obtain ⟨tokens, text, post, last, c, htakes, hlexemes, hsource, hspread, hstop, hfetch, hrest⟩ :=
    hss.stretch ht hpre (hstands.stop t ht)
  have hsplit : source = String.ofList pre ++ String.ofList text ++ String.ofList post := by
    rw [← String.toList_inj]
    simpa using hsource
  subst hsplit
  refine ⟨_, _, _, rfl, ⟨start, a, b, ending, tokens, hstart, hus, hss, hvs, htakes, hlexemes, fun u hu => ?_, ?_, ?_,
    last, c, hfetch, ?_⟩, rfl, rfl, rfl, rfl⟩
  · rw [String.toList_ofList]
    obtain rfl := Option.some.inj (ht.symm.trans hu)
    exact hpre
  · rwa [String.toList_ofList, String.toList_ofList]
  · rwa [String.toList_append, String.toList_ofList, String.toList_ofList]
  · rwa [String.toList_ofList]

namespace Reading

variable {pre text post : String} {e : TypeExpr} {ss' : List Step}

/-- There are no more steps than characters. -/
theorem length_le (R : Reading pre text post us ss vs) : (us ++ (ss ++ vs)).length ≤ (pre ++ text ++ post).length := by
  have hat := Cursor.at_ofString (pre ++ text ++ post)
  refine ((R.before.append (R.middle.append R.after)).length_le (Lookahead.stands_of_fetch hat R.fetched)).trans ?_
  exact (Lookahead.front_suffix R.fetched).length_le.trans (Nat.le_of_eq String.length_toList)

/-- The texts are told by what is behind the first token of the text in the middle, and by where its last one stops. -/
theorem parts_eq {pre' text' post' : String} (R : Reading pre' text' post' us ss vs)
    (hsource : pre ++ text ++ post = pre' ++ text' ++ post') (ht : R.front.token? = some t)
    (hfront : (pre ++ text ++ post).toList = pre.toList ++ (t.text.toList ++ R.front.after.rest))
    (hstop : R.back.last.map Token.stop = some (Position.past {} (pre ++ text).toList)) :
    pre = pre' ∧ text = text' ∧ post = post' := by
  have hpre : pre = pre' := by
    have hfront' := (R.at_front t ht).after.source
    rw [← hsource, hfront, List.append_assoc] at hfront'
    exact String.toList_inj.mp (List.append_cancel_right hfront')
  have htext : pre ++ text = pre' ++ text' := by
    rw [R.stop, Option.some.injEq] at hstop
    refine String.toList_inj.mp (Position.past_injective (u := post.toList) (v := post'.toList) ?_ hstop.symm)
    rw [← String.toList_append, ← String.toList_append, hsource]
  rw [htext, String.append_right_inj] at hsource
  rw [hpre, String.append_right_inj] at htext
  exact ⟨hpre, htext, hsource⟩

/-- With the rendered text in place of a type the source is read in the same steps, but for those of the type. -/
theorem render (R : Reading pre text post us ss vs) (he : e.Steps ss)
    (hend : Site.typeEnd.admits R.back.head? = true) : ∃ ss', e.Steps ss' ∧ CanonicalTo ss ss' ∧
      ∃ R' : Reading pre e.render post us ss' vs, R'.back.head? = R.back.head? ∧ R'.ending.head? = R.ending.head? := by
  obtain ⟨last, c, hback, hpost⟩ := R.behind
  obtain ⟨s, us₀, rfl, hs⟩ := id he.exists_name
  obtain ⟨us', tail, hss', hcanonical, hsplit, htail⟩ := he.rendered_behind
  have hread : TextSteps .pathNext (tail ++ post.toList) us' post.toList := by
    refine htail _ fun c hc => ?_
    rw [← hpost] at hc
    exact ((Lookahead.closes_typeEnd hback hend).head c hc).1
  have hnext : ∀ last' c', c'.rest = post.toList →
      ∃ b, Lookahead.fetch (endOf .pathNext us') last' c' = .ok b ∧ R.back.Agrees b := by
    intro last' c' hc'
    have hendOf : endOf .name (⟨.name s, .pathNext⟩ :: us') = e.endSite := hss'.endOf
    rw [he.endOf, ← hendOf] at hback
    exact Lookahead.fetch_agrees (hc'.trans hpost.symm) hback
  -- what comes behind the first name closes it in both sources
  obtain _ | ⟨ht, hlexeme, hfetch, hwalk⟩ := id R.middle
  rename_i t
  have hv : Scan.Closes R.front.after.rest := he.closing.closes hfetch hwalk hend
  have hw : Scan.Closes (tail ++ post.toList) :=
    hss'.closing.closes_text hread hnext fun b hb => Coupling.afterwards.head hb ▸ hend
  have htext : t.text = s := Token.text_of_lexeme hlexeme
  have hsource := (R.at_front t ht).after.source
  rw [List.append_assoc] at hsource
  have hsource' : (Cursor.ofString (pre ++ e.render ++ post)).rest =
      pre.toList ++ (t.text.toList ++ (tail ++ post.toList)) := by
    simp only [Cursor.ofString, String.toList_append, hsplit, htext, List.append_assoc]
  obtain ⟨start', front', hstart', hbefore', hlexeme', hafter'⟩ :=
    R.before.behind ht (congrArg Lexeme.terminal hlexeme) (htext ▸ hs) hv hw R.fetched none hsource hsource'
  obtain ⟨t', ht', hfirst⟩ := Lookahead.exists_token hlexeme' ht
  -- behind it the rendered text is read up to where the type ended
  have hat := Cursor.at_ofString (pre ++ e.render ++ post)
  obtain ⟨ts, hts, -⟩ := hbefore'.takes
  have hstands := hts.stands (Lookahead.stands_of_fetch hat hstart')
  obtain ⟨_, hafter⟩ := hstands.after
  obtain ⟨a, back', q, ha, hmiddle', hagrees, hq, hstop⟩ := hread.walk hnext hafter hafter' (hstands.stop t' ht')
  obtain ⟨ending', hbehind', hending⟩ := R.after.agrees hagrees
  obtain ⟨pre', text', post', hparts, R', rfl, rfl, rfl, rfl⟩ :=
    exists_reading hstart' hbefore' (.cons ht' (hfirst.trans hlexeme) ha hmiddle') hbehind'
  obtain ⟨rfl, rfl, rfl⟩ : pre = pre' ∧ e.render = text' ∧ post = post' := by
    refine R'.parts_eq hparts ht' ?_ ?_
    · rw [hafter', Token.text_eq hfirst]
      exact hsource'
    · rw [String.toList_append] at hq
      rw [hstop, List.append_cancel_right hq]
  exact ⟨_, hss', hcanonical, R', Coupling.afterwards.head hagrees, Coupling.afterwards.head hending⟩

end Reading

end TypedErrors
