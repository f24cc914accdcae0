import TypedErrors.Proofs.Source.Annotations

/-! # Rendered types

The text that a type is rendered as is read in steps of the same type. Their lexemes are those of the steps that the
type was read in, with dots for double colons and without last commas (`TypeExpr.Steps.rendered`). -/

namespace TypedErrors

variable {site : Site} {ss ss' us us' : List Step} {l : Lexeme} {ls : List Lexeme} {t : Terminal} {s text : String}
  {cs ds gap tail more post rest : List Char}

/-! ### Canonical lexemes -/

/-- The lexemes of a type with dots for double colons and without the commas before closing brackets. -/
def canonicalLexemes : List Lexeme → List Lexeme
  | [] => []
  | l :: ls =>
    if l.terminal = .pathSep then Terminal.dot.lexeme :: canonicalLexemes ls
    else if l.terminal = .comma ∧ ls.head?.map Lexeme.terminal = some .rightBracket then canonicalLexemes ls
    else l :: canonicalLexemes ls

theorem canonicalLexemes_cons (hsep : l.terminal ≠ .pathSep)
    (hcomma : l.terminal = .comma → ls.head?.map Lexeme.terminal ≠ some .rightBracket) :
    canonicalLexemes (l :: ls) = l :: canonicalLexemes ls := by
  rw [canonicalLexemes, if_neg hsep, if_neg fun h => hcomma h.1 h.2]

/-- The lexemes of the first steps in canonical form are those of the second. -/
def CanonicalTo (ss ss' : List Step) : Prop :=
  ∀ ls, canonicalLexemes (ss.map Step.lexeme ++ ls) = ss'.map Step.lexeme ++ canonicalLexemes ls

namespace CanonicalTo

variable {next : Site}

theorem nil : CanonicalTo [] [] := fun _ => rfl

theorem append (h : CanonicalTo ss ss') (h' : CanonicalTo us us') : CanonicalTo (ss ++ us) (ss' ++ us') := by
  intro ls
  rw [List.map_append, List.append_assoc, h, h', List.map_append, List.append_assoc]

theorem cons (hsep : l.terminal ≠ .pathSep) (hcomma : l.terminal ≠ .comma) (h : CanonicalTo ss ss') :
    CanonicalTo (⟨l, next⟩ :: ss) (⟨l, next⟩ :: ss') := by
  intro ls
  rw [List.map_cons, List.cons_append, canonicalLexemes_cons hsep fun h => absurd h hcomma, h]
  rfl

/-- A comma in front of something else than a closing bracket. -/
theorem comma (h : CanonicalTo ss ss') (hss : ∃ s us, ss = s :: us ∧ s.lexeme.terminal ≠ .rightBracket) :
    CanonicalTo (⟨Terminal.comma.lexeme, next⟩ :: ss) (⟨Terminal.comma.lexeme, next⟩ :: ss') := by
  intro ls
  obtain ⟨s, us, rfl, hs⟩ := hss
  have hkept : canonicalLexemes (Terminal.comma.lexeme :: ((s :: us).map Step.lexeme ++ ls)) = _ :=
    canonicalLexemes_cons (by decide) fun _ hhead => hs (Option.some.inj hhead)
  exact hkept.trans (congrArg _ (h ls))

theorem last_comma {next' : Site} : CanonicalTo [⟨Terminal.comma.lexeme, next⟩, ⟨Terminal.rightBracket.lexeme, next'⟩]
    [⟨Terminal.rightBracket.lexeme, next'⟩] := by
  intro ls
  have hbracket : canonicalLexemes (Terminal.rightBracket.lexeme :: ls) = _ :=
    canonicalLexemes_cons (by decide) fun h => absurd h (by decide)
  have hcomma : canonicalLexemes (Terminal.comma.lexeme :: Terminal.rightBracket.lexeme :: ls) = _ :=
    (if_neg (by decide)).trans (if_pos ⟨rfl, rfl⟩)
  exact hcomma.trans hbracket

/-- A name stays the first one. -/
theorem first {next' : Site} (h : CanonicalTo (⟨.name s, next⟩ :: ss) (⟨l, next'⟩ :: ss')) : l = .name s := by
  have hname : canonicalLexemes (.name s :: (ss.map Step.lexeme ++ [])) = _ := canonicalLexemes_cons nofun nofun
  exact (List.cons.inj (hname.symm.trans (h []))).1.symm

theorem separator (ht : t = .dot ∨ t = .pathSep) (h : CanonicalTo ss ss') :
    CanonicalTo (⟨t.lexeme, next⟩ :: ss) (⟨Terminal.dot.lexeme, next⟩ :: ss') := by
  rcases ht with rfl | rfl
  · exact h.cons (by decide) (by decide)
  · intro ls
    have hdot (ls : List Lexeme) : canonicalLexemes (Terminal.pathSep.lexeme :: ls) =
        Terminal.dot.lexeme :: canonicalLexemes ls := by rw [canonicalLexemes, if_pos (by rfl)]
    exact (hdot _).trans (congrArg _ (h ls))

end CanonicalTo

/-! ### Sites behind steps -/

/-- The site behind the steps, the first of which is made at a site. -/
def endOf : Site → List Step → Site
  | site, [] => site
  | _, s :: ss => endOf s.next ss

theorem endOf_append (site : Site) (ss us : List Step) : endOf site (ss ++ us) = endOf (endOf site ss) us := by
  induction ss generalizing site with
  | nil => rfl
  | cons s ss ih => exact ih s.next

/-- The site behind an alternative. -/
def TypeAtom.endSite : TypeAtom → Site
  | .plain _ => .pathNext
  | .subscripted .. => .subscriptNext

def TypeExpr.endSite : TypeExpr → Site
  | .union first more => (more.getLast?.getD first).endSite

def TypeArg.endSite : TypeArg → Site
  | .type e => e.endSite
  | _ => .bracketList

theorem PartSteps.endOf {parts : List String} (h : PartSteps parts ss) : endOf .pathNext ss = .pathNext := by
  induction h with
  | nil => rfl
  | cons _ _ _ _ ih => exact ih

theorem DottedName.Steps.endOf {p : DottedName} (h : p.Steps ss) : endOf site ss = .pathNext := by
  obtain ⟨-, h⟩ := h
  exact h.endOf

theorem TypeArg.StepsMore.endOf {next : Site} {as : List TypeArg} (h : TypeArg.StepsMore next as ss) :
    ∀ site, endOf site ss = next := by
  induction as generalizing ss with
  | nil => cases h <;> exact fun _ => rfl
  | cons a as ih =>
    cases h with
    | cons ha hmore =>
      intro site
      rw [TypedErrors.endOf, endOf_append]
      exact ih hmore _

theorem TypeAtom.Steps.endOf {a : TypeAtom} (h : a.Steps ss) : endOf site ss = a.endSite := by
  cases h with
  | plain hp => exact hp.endOf
  | subscripted hp ha hmore => rw [endOf_append, TypedErrors.endOf, endOf_append, hmore.endOf]; rfl

theorem TypeAtom.StepsMore.endOf {as : List TypeAtom} (h : TypeAtom.StepsMore as ss) (a : TypeAtom) :
    endOf a.endSite ss = (as.getLast?.getD a).endSite := by
  induction as generalizing ss a with
  | nil =>
    cases h
    rfl
  | cons b as ih =>
    cases h with
    | cons hb hmore =>
      rw [TypedErrors.endOf, endOf_append, hb.endOf, ih hmore b, List.getLast?_cons]
      rfl

theorem TypeExpr.Steps.endOf {e : TypeExpr} (h : e.Steps ss) : endOf site ss = e.endSite := by
  obtain ⟨ha, hmore⟩ := h
  rw [endOf_append, ha.endOf, hmore.endOf]
  rfl

theorem TypeArg.Steps.endOf {a : TypeArg} (h : a.Steps ss) : endOf site ss = a.endSite := by
  cases h with
  | type he => exact he.endOf
  | list ha hmore => rw [TypedErrors.endOf, endOf_append, hmore.endOf]; rfl
  | _ => rfl

theorem TypeAtom.subset_endSite (a : TypeAtom) : Site.subscriptNext.accepts ⊆ a.endSite.accepts := by
  cases a with
  | plain => exact (by decide : Site.subscriptNext.accepts ⊆ Site.pathNext.accepts)
  | subscripted => exact List.Subset.refl _

theorem TypeArg.subset_endSite (a : TypeArg) : Site.bracketList.accepts ⊆ a.endSite.accepts := by
  cases a with
  | type e =>
    obtain ⟨first, more⟩ := e
    exact List.Subset.trans (by decide) (TypeAtom.subset_endSite _)
  | _ => exact List.Subset.refl _

/-! ### Texts of steps -/

theorem NotName.append (h : NotName tail) (hpost : NotName post) : NotName (tail ++ post) := by
  cases tail with
  | nil => exact hpost
  | cons => exact h

/-- The text, with gaps, is read in the steps up to the rest. -/
inductive TextSteps : Site → List Char → List Step → List Char → Prop
  | nil {site : Site} {cs : List Char} : TextSteps site cs [] cs
  | cons {site next : Site} {gap rest post : List Char} {l : Lexeme} {ss : List Step} (hgap : Gap gap)
      (hreads : Scan.Reads site.accepts l) (hraw : ¬ l.IsRaw) (hl : l.terminal.Spells l.text.toList)
      (hends : l.terminal.Ends rest) (h : TextSteps next rest ss post) :
      TextSteps site (gap ++ (l.text.toList ++ rest)) (⟨l, next⟩ :: ss) post

theorem spells_of_symbol (hs : t.symbol? = some s) : t.Spells s.toList := by
  cases t <;> simp only [Terminal.symbol?, Option.some.injEq, reduceCtorEq] at hs <;> subst hs <;> rfl

theorem ends_of_symbol (hs : t.symbol? = some s) (hcolon : t ≠ .colon) : t.Ends rest := by
  cases t <;> simp only [Terminal.symbol?, reduceCtorEq] at hs <;>
    first | exact absurd rfl hcolon | exact fun hword => (by cases hword)

namespace TextSteps

theorem append (h : TextSteps site cs ss ds) (h' : TextSteps (endOf site ss) ds us post) :
    TextSteps site cs (ss ++ us) post := by
  induction h with
  | nil => exact h'
  | cons hgap hreads hraw hl hends _ ih => exact .cons hgap hreads hraw hl hends (ih h')

/-- A symbol that is fully told by its site. -/
theorem symbol {next : Site} (t : Terminal) (gap : List Char) (hgap : Gap gap) (ht : t ∈ site.accepts)
    (hs : t.symbol? = some s) (hcolon : t ≠ .colon) (hdot : t = .dot → .ellipsis ∉ site.accepts)
    (h : TextSteps next rest ss post) :
    TextSteps site (gap ++ (s.toList ++ rest)) (⟨t.lexeme, next⟩ :: ss) post := by
  have htext : t.lexeme.text = s := by rw [Terminal.lexeme, hs]; rfl
  have hspells := spells_of_symbol hs
  rw [← htext] at hspells ⊢
  refine .cons hgap ⟨ht, fun hname => ?_, hdot⟩ (fun hraw => ?_) hspells (ends_of_symbol hs hcolon) h
  · cases (show t = Terminal.name from hname) ▸ hs
  · cases (show t = Terminal.string from hraw.1) ▸ hs

/-- The bracket that closes a list. -/
theorem rightBracket {next : Site} (h : .rightBracket ∈ site.accepts) :
    TextSteps site ("]".toList ++ post) [⟨Terminal.rightBracket.lexeme, next⟩] post :=
  .symbol .rightBracket [] .nil h rfl (by decide) nofun .nil

theorem name {next : Site} (gap : List Char) (hgap : Gap gap) (hsite : .name ∈ site.accepts) (hs : NameText s.toList)
    (hword : ∀ w ∈ site.accepts, w.word? ≠ some s) (hrest : NotName rest) (h : TextSteps next rest ss post) :
    TextSteps site (gap ++ (s.toList ++ rest)) (⟨.name s, next⟩ :: ss) post :=
  .cons (l := .name s) hgap ⟨hsite, fun _ => hword, nofun⟩ (fun hraw => nomatch hraw.1) hs hrest h

/-- Behind a token the steps can be made wherever the text is, when what comes after it is fetched. The last token then
stops in front of the rest. -/
theorem walk {P : Lookahead → Prop} (h : TextSteps site cs ss post)
    (hpost : ∀ last c, c.rest = post → ∃ b, Lookahead.fetch (endOf site ss) last c = .ok b ∧ P b) :
    ∀ {source q : List Char} {t : Token} {c : Cursor}, c.At source q → c.rest = cs → t.stop = c.position →
      ∃ a b q, Lookahead.fetch site (some t) c = .ok a ∧ Walk a ss b ∧ P b ∧ source = q ++ post ∧
        b.last.map Token.stop = some (Position.past {} q) := by
  induction h with
  | nil =>
    intro source q t c hat hc hstop
    obtain ⟨b, hb, hP⟩ := hpost (some t) c hc
    refine ⟨b, b, q, hb, .nil, hP, hc ▸ hat.source, ?_⟩
    rw [Lookahead.last_of_fetch hb, Option.map_some, hstop, hat.position]
  | @cons site next gap rest post l ss hgap hreads hraw hl hends _ ih =>
    intro source q t c hat hc _
    have hdocs : l.terminal = .doc → site.accepts.contains .doc = true := fun hdoc =>
      List.contains_iff_mem.mpr (hdoc ▸ hreads.accepted)
    have htrivia : Scan.trivia (site.accepts.contains .doc) 0 0 c.rest = gap.length := by
      rw [hc, Scan.trivia_gap hgap, Scan.trivia_lexeme hdocs hl, Nat.zero_add]
    have hread := Scan.terminal?_of_reads hreads hraw hl hends
    rw [← String.length_toList] at hread
    obtain ⟨a, u, ha, hu, hterminal, htext, hafter⟩ := Lookahead.fetch_of_gap hc htrivia hread (some t)
    have hstands := Lookahead.stands_of_fetch hat ha
    obtain ⟨q, hq⟩ := hstands.after
    obtain ⟨a', b, q, ha', hwalk, hP, hsource, hstop⟩ := ih hpost hq hafter (hstands.stop u hu)
    have hlexeme : u.lexeme = l := by rw [Token.lexeme, hterminal, String.toList_inj.mp htext]
    exact ⟨a, b, q, ha, .cons hu hlexeme ha' hwalk, hP, hsource, hstop⟩

end TextSteps

/-- The text is read in the steps in front of whatever no name goes on with. -/
def FrontSteps (site : Site) (tail : List Char) (ss : List Step) : Prop :=
  ∀ post, NotName post → TextSteps site (tail ++ post) ss post

theorem FrontSteps.append (h : FrontSteps site tail ss) (hmore : NotName more)
    (h' : FrontSteps (endOf site ss) more us) : FrontSteps site (tail ++ more) (ss ++ us) := by
  intro post hpost
  rw [List.append_assoc]
  exact (h _ (hmore.append hpost)).append (h' post hpost)

/-- The first lexeme begins the text, and what comes after it in the text is read in the other steps. -/
structure Renders (ss : List Step) (text : String) (ss' : List Step) : Prop where
  canonical : CanonicalTo ss ss'
  split : ∃ l next us tail, ss' = ⟨l, next⟩ :: us ∧ text.toList = l.text.toList ++ tail ∧ ¬ l.IsRaw ∧
    l.terminal.Spells l.text.toList ∧ (∀ post, NotName post → l.terminal.Ends (tail ++ post)) ∧ FrontSteps next tail us

namespace Renders

theorem append (h : Renders ss text ss') (hcanonical : CanonicalTo us us') (hmore : NotName more)
    (hsteps : ∀ site, FrontSteps (endOf site ss') more us') {text' : String}
    (htext : text'.toList = text.toList ++ more) : Renders (ss ++ us) text' (ss' ++ us') := by
  obtain ⟨l, next, vs, tail, rfl, hsplit, hraw, hl, hends, htail⟩ := h.split
  refine ⟨h.canonical.append hcanonical, l, next, vs ++ us', tail ++ more, rfl, ?_, hraw, hl, fun post hpost => ?_, ?_⟩
  · rw [htext, hsplit, List.append_assoc]
  · rw [List.append_assoc]
    exact hends _ (hmore.append hpost)
  · exact htail.append hmore (hsteps next)

/-- The rendered text is read at any site where its first lexeme is. -/
theorem textSteps (h : Renders ss text ss') (gap : List Char) (hgap : Gap gap)
    (hreads : ∀ s ∈ ss'.head?, Scan.Reads site.accepts s.lexeme) (hpost : NotName post) :
    TextSteps site (gap ++ (text.toList ++ post)) ss' post := by
  obtain ⟨l, next, us, tail, rfl, hsplit, hraw, hl, hends, htail⟩ := h.split
  rw [hsplit, List.append_assoc]
  exact .cons hgap (hreads _ rfl) hraw hl (hends post hpost) (htail post hpost)

/-- The text of one symbol, or a text that begins with it. -/
theorem of_symbol {next : Site} (tail : List Char) (hcanonical : CanonicalTo ss us) (ht : t.symbol? = some s)
    (hkind : t ≠ .colon) (hsep : t ≠ .pathSep) (hcomma : t ≠ .comma) (htext : text.toList = s.toList ++ tail)
    (htail : FrontSteps next tail us) :
    Renders (⟨t.lexeme, next⟩ :: ss) text (⟨t.lexeme, next⟩ :: us) := by
  have hlexeme : t.lexeme.text = s := by rw [Terminal.lexeme, ht]; rfl
  refine ⟨hcanonical.cons hsep hcomma, t.lexeme, next, us, tail, rfl, by rw [hlexeme, htext], fun hraw => ?_, ?_,
    fun _ _ => ends_of_symbol ht hkind, htail⟩
  · cases (show t = Terminal.string from hraw.1) ▸ ht
  · rw [hlexeme]
    exact spells_of_symbol ht

end Renders

/-! ### Dotted names -/

theorem PartSteps.rendered {parts : List String} (h : PartSteps parts ss) : ∀ first : String, ∃ ss' tail,
    PartSteps parts ss' ∧ CanonicalTo ss ss' ∧ NotName tail ∧
      (".".intercalate (first :: parts)).toList = first.toList ++ tail ∧ FrontSteps .pathNext tail ss' := by
  induction h with
  | nil =>
    intro first
    refine ⟨[], [], .nil, .nil, nofun, ?_, fun _ _ => .nil⟩
    rw [String.intercalate_singleton, List.append_nil]
  | @cons s parts ss sep hsep hs hword _ ih =>
    intro first
    obtain ⟨ss', tail, hparts, hcanonical, hname, htext, hsteps⟩ := ih s
    refine ⟨_, ".".toList ++ (s.toList ++ tail), .cons (.inl rfl) hs hword hparts,
      .separator hsep (hcanonical.cons nofun nofun), by rintro _ ⟨⟩; rfl, ?_, fun post hpost => ?_⟩
    · rw [String.intercalate_cons_cons, String.toList_append, String.toList_append, htext, List.append_assoc]
    · rw [List.append_assoc, List.append_assoc]
      exact .symbol .dot [] .nil (by decide) rfl (by decide) (by decide)
        (.name [] .nil (by decide) hs hword (hname.append hpost) (hsteps post hpost))

theorem DottedName.Steps.rendered {p : DottedName} (h : p.Steps ss) : ∃ ss', p.Steps ss' ∧ Renders ss p.text ss' := by
  obtain ⟨hs, h⟩ := h
  obtain ⟨ss', tail, hparts, hcanonical, hname, htext, hsteps⟩ := h.rendered _
  exact ⟨_, .mk hs hparts, hcanonical.cons nofun nofun, .name _, _, _, tail, rfl, htext, (fun hraw => nomatch hraw.1),
    hs, fun post hpost => hname.append hpost, hsteps⟩

/-! ### Types -/

theorem TypeAtom.Steps.reads {a : TypeAtom} (h : a.Steps ss) :
    ∀ s ∈ ss.head?, Scan.Reads Site.name.accepts s.lexeme := by
  obtain ⟨s, us, rfl, -⟩ := h.exists_name
  rintro _ ⟨⟩
  exact ⟨List.mem_singleton_self _, fun _ w hw => by rw [List.mem_singleton.mp hw]; exact nofun, nofun⟩

theorem TypeArg.Steps.reads {a : TypeArg} (h : a.Steps ss) (hsite : Site.typeArg.accepts ⊆ site.accepts)
    (hwords : ∀ w ∈ site.accepts, w.word? = none) : ∀ s ∈ ss.head?, Scan.Reads site.accepts s.lexeme := by
  obtain ⟨s, us, rfl, hs⟩ := h.exists_first
  rintro _ ⟨⟩
  refine ⟨hsite hs, fun _ w hw => by rw [hwords w hw]; exact nofun, fun hdot => ?_⟩
  rw [hdot] at hs
  exact absurd hs (by decide)

mutual

theorem TypeExpr.Steps.rendered : {e : TypeExpr} → {ss : List Step} → e.Steps ss →
    ∃ ss', e.Steps ss' ∧ Renders ss e.render ss'
  | .union a _, _, .union ha hmore => by
    obtain ⟨ss', hss', hrenders⟩ := ha.rendered
    obtain ⟨us', hus', hcanonical, hname, hsteps⟩ := hmore.rendered
    refine ⟨_, .union hss' hus', hrenders.append hcanonical hname (fun site => ?_) ?_⟩
    · rw [hss'.endOf]
      exact hsteps (a.subset_endSite (by decide))
    · rw [TypeExpr.render, String.toList_append]

/-- The rendered alternatives begin with a space. -/
theorem TypeAtom.StepsMore.rendered : {more : List TypeAtom} → {ss : List Step} → TypeAtom.StepsMore more ss →
    ∃ ss', TypeAtom.StepsMore more ss' ∧ CanonicalTo ss ss' ∧ NotName (TypeAtom.renderMore more).toList ∧
      ∀ {site : Site}, .pipe ∈ site.accepts → FrontSteps site (TypeAtom.renderMore more).toList ss'
  | _, _, .nil => ⟨[], .nil, .nil, nofun, fun _ _ _ => .nil⟩
  | a :: more, _, .cons ha hmore => by
    obtain ⟨ss', hss', hrenders⟩ := ha.rendered
    obtain ⟨us', hus', hcanonical, hname, hsteps⟩ := hmore.rendered
    have htext : (TypeAtom.renderMore (a :: more)).toList =
        [' '] ++ ("|".toList ++ ([' '] ++ (a.render.toList ++ (TypeAtom.renderMore more).toList))) := by
      rw [TypeAtom.renderMore, String.toList_append, String.toList_append, List.append_assoc]
      rfl
    refine ⟨_, .cons hss' hus', (hrenders.canonical.append hcanonical).cons (by decide) (by decide), ?_,
      fun hpipe post hpost => ?_⟩
    · rw [htext]
      rintro _ ⟨⟩
      rfl
    · rw [htext]
      simp only [List.append_assoc]
      have hmore' : TextSteps (endOf .name ss') ((TypeAtom.renderMore more).toList ++ post) us' post := by
        rw [hss'.endOf]
        exact hsteps (a.subset_endSite (by decide)) post hpost
      exact .symbol .pipe [' '] (.space rfl .nil) hpipe rfl (by decide) nofun
        (.append (hrenders.textSteps [' '] (.space rfl .nil) hss'.reads (hname.append hpost)) hmore')

theorem TypeAtom.Steps.rendered : {a : TypeAtom} → {ss : List Step} → a.Steps ss →
    ∃ ss', a.Steps ss' ∧ Renders ss a.render ss'
  | _, _, .plain hp => by
    obtain ⟨ss', hss', hrenders⟩ := hp.rendered
    exact ⟨ss', .plain hss', hrenders⟩
  | .subscripted _ a more, _, .subscripted hp ha hmore => by
    obtain ⟨ss', hss', hpath⟩ := hp.rendered
    obtain ⟨us', hus', hrenders⟩ := ha.rendered
    obtain ⟨vs', hvs', hcanonical, hname, hsteps⟩ := hmore.rendered
    have hbracket : NotName ("[".toList ++ (a.render.toList ++ (TypeArg.renderMore more ++ "]").toList)) := by
      rintro _ ⟨⟩
      rfl
    refine ⟨_, .subscripted hss' hus' hvs', hpath.append
      ((hrenders.canonical.append hcanonical).cons (by decide) (by decide)) hbracket (fun site post hpost => ?_) ?_⟩
    · rw [hss'.endOf]
      simp only [List.append_assoc]
      have hmore' : TextSteps (endOf .typeArg us') ((TypeArg.renderMore more ++ "]").toList ++ post) vs' post := by
        rw [hus'.endOf]
        exact hsteps a.subset_endSite post hpost
      exact .symbol .leftBracket [] .nil (by decide) rfl (by decide) nofun
        (.append (hrenders.textSteps [] .nil (hus'.reads (List.Subset.refl _) (by decide)) (hname.append hpost)) hmore')
    · simp only [TypeAtom.render, String.toList_append, List.append_assoc]

/-- The rendered arguments after the first, and the closing bracket. -/
theorem TypeArg.StepsMore.rendered : {next : Site} → {more : List TypeArg} → {ss : List Step} →
    TypeArg.StepsMore next more ss → ∃ ss', TypeArg.StepsMore next more ss' ∧ CanonicalTo ss ss' ∧
      NotName (TypeArg.renderMore more ++ "]").toList ∧
        ∀ {site : Site}, Site.bracketList.accepts ⊆ site.accepts →
          FrontSteps site (TypeArg.renderMore more ++ "]").toList ss'
  | next, _, _, .nil => by
    refine ⟨_, .nil, .cons (by decide) (by decide) .nil, by rintro _ ⟨⟩; rfl, fun hsite post hpost => ?_⟩
    exact .rightBracket (hsite (by decide))
  | next, _, _, .comma => by
    refine ⟨_, .nil, .last_comma, by rintro _ ⟨⟩; rfl, fun hsite post hpost => ?_⟩
    exact .rightBracket (hsite (by decide))
  | next, a :: more, _, .cons ha hmore => by
    obtain ⟨ss', hss', hrenders⟩ := ha.rendered
    obtain ⟨us', hus', hcanonical, hname, hsteps⟩ := hmore.rendered
    have htext : (TypeArg.renderMore (a :: more) ++ "]").toList =
        ",".toList ++ ([' '] ++ (a.render.toList ++ (TypeArg.renderMore more ++ "]").toList)) := by
      simp only [TypeArg.renderMore, String.toList_append, List.append_assoc]
      rfl
    refine ⟨_, .cons hss' hus', .comma (hrenders.canonical.append hcanonical) ?_, ?_, fun hsite post hpost => ?_⟩
    · obtain ⟨s, vs, rfl, hs⟩ := ha.exists_first
      refine ⟨s, _, rfl, fun hbracket => ?_⟩
      rw [hbracket] at hs
      exact absurd hs (by decide)
    · rw [htext]
      rintro _ ⟨⟩
      rfl
    · rw [htext]
      simp only [List.append_assoc]
      have hmore' : TextSteps (endOf .typeArgOrClose ss') ((TypeArg.renderMore more ++ "]").toList ++ post) us'
          post := by
        rw [hss'.endOf]
        exact hsteps a.subset_endSite post hpost
      exact .symbol .comma [] .nil (hsite (by decide)) rfl (by decide) nofun
        (.append (hrenders.textSteps [' '] (.space rfl .nil) (hss'.reads (by decide) (by decide)) (hname.append hpost))
          hmore')

theorem TypeArg.Steps.rendered : {a : TypeArg} → {ss : List Step} → a.Steps ss →
    ∃ ss', a.Steps ss' ∧ Renders ss a.render ss'
  | _, _, .type he => by
    obtain ⟨ss', hss', hrenders⟩ := he.rendered
    exact ⟨ss', .type hss', hrenders⟩
  | _, _, .empty => by
    refine ⟨_, .empty, .of_symbol "]".toList (.cons (by decide) (by decide) .nil) rfl (by decide) (by decide)
      (by decide) rfl fun post _ => ?_⟩
    exact .rightBracket (by decide)
  | .list (a :: more), _, .list ha hmore => by
    obtain ⟨ss', hss', hrenders⟩ := ha.rendered
    obtain ⟨us', hus', hcanonical, hname, hsteps⟩ := hmore.rendered
    refine ⟨_, .list hss' hus', .of_symbol (a.render.toList ++ (TypeArg.renderMore more ++ "]").toList)
      (hrenders.canonical.append hcanonical) rfl (by decide) (by decide) (by decide) ?_ fun post hpost => ?_⟩
    · simp only [TypeArg.render, String.toList_append, List.append_assoc]
    · rw [List.append_assoc]
      refine .append (hrenders.textSteps [] .nil (hss'.reads (by decide) (by decide)) (hname.append hpost)) ?_
      rw [hss'.endOf]
      exact hsteps a.subset_endSite post hpost
  | _, _, .literal (s := s) hs => by
    refine ⟨_, .literal hs, .cons nofun nofun .nil, _, _, _, [], rfl, (List.append_nil _).symm, ?_, .quoted hs,
      fun _ _ => nofun, fun _ _ => .nil⟩
    rintro ⟨-, hraw⟩
    generalize hcs : s.toList = cs at hs
    obtain ⟨hs⟩ := hs
    rw [show (Lexeme.mk .string s).text.toList = _ from hcs] at hraw
    cases hraw
  | _, _, .ellipsis =>
    ⟨_, .ellipsis, .of_symbol [] .nil rfl (by decide) (by decide) (by decide) (List.append_nil _).symm fun _ _ => .nil⟩

end

/-- The rendered text begins with the first name, and what comes after it there is read in the other steps. -/
theorem TypeExpr.Steps.rendered_behind {e : TypeExpr} (h : e.Steps (⟨.name s, .pathNext⟩ :: ss)) : ∃ ss' tail,
    e.Steps (⟨.name s, .pathNext⟩ :: ss') ∧
      CanonicalTo (⟨.name s, .pathNext⟩ :: ss) (⟨.name s, .pathNext⟩ :: ss') ∧
        e.render.toList = s.toList ++ tail ∧ FrontSteps .pathNext tail ss' := by
  obtain ⟨_, hss', hrenders⟩ := h.rendered
  obtain ⟨l, next, ss', tail, rfl, hsplit, -, -, -, htail⟩ := hrenders.split
  obtain rfl : l = .name s := hrenders.canonical.first
  obtain rfl : next = .pathNext := by
    obtain ⟨_, _, hfirst, -⟩ := hss'.exists_name
    exact congrArg Step.next (List.cons.inj hfirst).1
  exact ⟨ss', tail, hss', hrenders.canonical, hsplit, htail⟩

end TypedErrors
