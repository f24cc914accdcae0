import TypedErrors.Proofs.Source.Steps
import TypedErrors.Proofs.Source.Types

/-! # Steps of a type

The steps that a type is read in (`TypeExpr.Steps`). Whenever a type is read these are the steps made
(`Parse.typeExpr_traces`), and where there are such steps the type is read (`Parse.typeExpr_retraces`). -/

namespace TypedErrors

/-- The parts after the first of a dotted name. After a separator `crate`, `self` and `super` are no names. -/
inductive PartSteps : List String → List Step → Prop
  | nil : PartSteps [] []
  | cons {s : String} {parts : List String} {ss : List Step} {sep : Terminal} (hsep : sep = .dot ∨ sep = .pathSep)
      (hs : NameText s.toList) (hword : ∀ w ∈ Site.segment.accepts, w.word? ≠ some s) (h : PartSteps parts ss) :
      PartSteps (s :: parts) (⟨sep.lexeme, .segment⟩ :: ⟨.name s, .pathNext⟩ :: ss)

inductive DottedName.Steps : DottedName → List Step → Prop
  | mk {s : String} {parts : List String} {ss : List Step} (hs : NameText s.toList) (h : PartSteps parts ss) :
      Steps ⟨s, parts⟩ (⟨.name s, .pathNext⟩ :: ss)

mutual

inductive TypeExpr.Steps : TypeExpr → List Step → Prop
  | union {a : TypeAtom} {more : List TypeAtom} {ss us : List Step} (ha : TypeAtom.Steps a ss)
      (hmore : TypeAtom.StepsMore more us) : TypeExpr.Steps (.union a more) (ss ++ us)

inductive TypeAtom.StepsMore : List TypeAtom → List Step → Prop
  | nil : TypeAtom.StepsMore [] []
  | cons {a : TypeAtom} {more : List TypeAtom} {ss us : List Step} (ha : TypeAtom.Steps a ss)
      (hmore : TypeAtom.StepsMore more us) :
      TypeAtom.StepsMore (a :: more) (⟨Terminal.pipe.lexeme, .name⟩ :: (ss ++ us))

inductive TypeAtom.Steps : TypeAtom → List Step → Prop
  | plain {p : DottedName} {ss : List Step} (hp : p.Steps ss) : TypeAtom.Steps (.plain p) ss
  | subscripted {p : DottedName} {a : TypeArg} {more : List TypeArg} {ss us vs : List Step} (hp : p.Steps ss)
      (ha : TypeArg.Steps a us) (hmore : TypeArg.StepsMore .subscriptNext more vs) :
      TypeAtom.Steps (.subscripted p a more) (ss ++ ⟨Terminal.leftBracket.lexeme, .typeArg⟩ :: (us ++ vs))

/-- The arguments after the first, a last comma or none, and the closing bracket. -/
inductive TypeArg.StepsMore : Site → List TypeArg → List Step → Prop
  | nil {next : Site} : TypeArg.StepsMore next [] [⟨Terminal.rightBracket.lexeme, next⟩]
  | comma {next : Site} :
      TypeArg.StepsMore next [] [⟨Terminal.comma.lexeme, .typeArgOrClose⟩, ⟨Terminal.rightBracket.lexeme, next⟩]
  | cons {next : Site} {a : TypeArg} {more : List TypeArg} {ss us : List Step} (ha : TypeArg.Steps a ss)
      (hmore : TypeArg.StepsMore next more us) :
      TypeArg.StepsMore next (a :: more) (⟨Terminal.comma.lexeme, .typeArgOrClose⟩ :: (ss ++ us))

inductive TypeArg.Steps : TypeArg → List Step → Prop
  | type {e : TypeExpr} {ss : List Step} (he : TypeExpr.Steps e ss) : TypeArg.Steps (.type e) ss
  | empty : TypeArg.Steps (.list [])
      [⟨Terminal.leftBracket.lexeme, .typeArgOrClose⟩, ⟨Terminal.rightBracket.lexeme, .bracketList⟩]
  | list {a : TypeArg} {more : List TypeArg} {ss us : List Step} (ha : TypeArg.Steps a ss)
      (hmore : TypeArg.StepsMore .bracketList more us) :
      TypeArg.Steps (.list (a :: more)) (⟨Terminal.leftBracket.lexeme, .typeArgOrClose⟩ :: (ss ++ us))
  | literal {s : String} (hs : QuotedText s.toList) : TypeArg.Steps (.literal s) [⟨⟨.string, s⟩, .bracketList⟩]
  | ellipsis : TypeArg.Steps .ellipsis [⟨Terminal.ellipsis.lexeme, .bracketList⟩]

end

variable {site : Site} {ahead k : Option Terminal} {t : Token} {ss us : List Step}

/-! ### First steps -/

theorem DottedName.Steps.exists_name {p : DottedName} (h : p.Steps ss) :
    ∃ s us, ss = ⟨.name s, .pathNext⟩ :: us ∧ NameText s.toList := by
  obtain ⟨hs, -⟩ := h
  exact ⟨_, _, rfl, hs⟩

theorem TypeAtom.Steps.exists_name {a : TypeAtom} (h : a.Steps ss) :
    ∃ s us, ss = ⟨.name s, .pathNext⟩ :: us ∧ NameText s.toList := by
  cases h with
  | plain hp => exact hp.exists_name
  | subscripted hp =>
    obtain ⟨s, us, rfl, hs⟩ := hp.exists_name
    exact ⟨s, _, List.cons_append, hs⟩

/-- A type begins with a name. -/
theorem TypeExpr.Steps.exists_name {e : TypeExpr} (h : e.Steps ss) :
    ∃ s us, ss = ⟨.name s, .pathNext⟩ :: us ∧ NameText s.toList := by
  obtain ⟨ha, -⟩ := h
  obtain ⟨s, us, rfl, hs⟩ := ha.exists_name
  exact ⟨s, _, List.cons_append, hs⟩

/-- An argument begins with what may stand in brackets. -/
theorem TypeArg.Steps.exists_first {a : TypeArg} (h : a.Steps ss) :
    ∃ s us, ss = s :: us ∧ s.lexeme.terminal ∈ Site.typeArg.accepts := by
  cases h with
  | type he =>
    obtain ⟨s, us, rfl, -⟩ := he.exists_name
    exact ⟨_, us, rfl, show Terminal.name ∈ _ by decide⟩
  | literal => exact ⟨_, _, rfl, show Terminal.string ∈ _ by decide⟩
  | _ => exact ⟨_, _, rfl, by decide⟩

theorem TypeArg.StepsMore.headOf {next : Site} {more : List TypeArg} (h : TypeArg.StepsMore next more ss) :
    Site.bracketList.admits (headOf ss k) = true := by
  cases h <;> rfl

theorem DottedName.Steps.length_pos {p : DottedName} (h : p.Steps ss) : 0 < ss.length := by
  obtain ⟨s, us, rfl, -⟩ := h.exists_name
  exact Nat.succ_pos _

/-! ### Terminals ahead -/

namespace Site

variable {s site : Site} {t : Terminal}

theorem admits_mono (h : s.admits k = true) (hs : s.Within site) : site.admits k = true := by
  cases k with
  | none => exact hs.2.2 h
  | some t => exact List.contains_iff_mem.mpr (hs.1 (List.contains_iff_mem.mp h))

theorem ne_of_admits (h : s.admits k = true) (ht : t ∉ s.accepts) : k ≠ some t := by
  rintro rfl
  exact ht (List.contains_iff_mem.mp h)

end Site

theorem TypeAtom.StepsMore.headOf {as : List TypeAtom} (h : TypeAtom.StepsMore as ss)
    (hk : Site.typeEnd.admits k = true) : Site.subscriptNext.admits (headOf ss k) = true := by
  cases h with
  | nil => exact Site.admits_mono hk (by decide)
  | cons => rfl

/-! ### Reading -/

namespace Parse

/-- What is ahead is a symbol. -/
theorem lexeme_of_symbol {u : Terminal} {s : String} (hs : u.symbol? = some s) (ht : some u = some t.terminal)
    (hread : t.lexeme.ReadAt site) : t.lexeme = u.lexeme := by
  obtain rfl := Option.some.inj ht
  exact hread.symbol hs

theorem lexeme_of_name (ht : some .name = some t.terminal) : t.lexeme = .name t.text := by
  rw [Token.lexeme, ← Option.some.inj ht]
  rfl

theorem pathRest_traces : ∀ (n : Nat) (acc : List String) (site : Site) (ahead : Option Terminal),
    Traces site ahead (pathRest n acc) fun ss _ parts => ∃ more, parts = acc.reverse ++ more ∧ PartSteps more ss
  | 0, _, _, _ => .exhausted
  | n + 1, acc, site, ahead => by
    have hstep {sep : Terminal} {s : String} (hsep : sep = .dot ∨ sep = .pathSep) (hs : sep.symbol? = some s)
        (hahead : ahead = some sep) : Traces site ahead (do
          let _ ← shift .segment
          check .name
          let t ← shift .pathNext
          pathRest n (t.text :: acc)) fun ss _ parts => ∃ more, parts = acc.reverse ++ more ∧ PartSteps more ss := by
      refine .bind_shift fun u k hu hread _ => .bind_check fun hadmits => .bind_shift fun t _ ht hname _ => ?_
      refine (pathRest_traces n _ _ _).mono ?_
      rintro ss _ _ ⟨more, rfl, hmore⟩
      have hlexeme := lexeme_of_name ((ahead_of_only hadmits).symm.trans ht)
      have hterminal : t.lexeme.terminal = .name := by rw [hlexeme]; rfl
      refine ⟨t.text :: more, by simp, ?_⟩
      rw [lexeme_of_symbol hs (hahead.symm.trans hu) hread, hlexeme]
      exact .cons hsep (hname.name hterminal) (hname.word hterminal) hmore
    refine .bind_peek ?_
    split
    · exact hstep (.inl rfl) rfl rfl
    · exact hstep (.inr rfl) rfl rfl
    · exact .pure ⟨[], (List.append_nil _).symm, .nil⟩

theorem path_traces (n : Nat) : Traces site (some .name) (path n) fun ss _ p => p.Steps ss := by
  refine .bind_shift fun t _ ht hname _ => .bind (pathRest_traces n _ _ _) ?_
  rintro _ ss _ _ ⟨more, rfl, hmore⟩
  refine .pure ?_
  rw [lexeme_of_name ht, List.append_nil]
  exact .mk (hname.name (Option.some.inj ht).symm) hmore

/-- Behind a path in a type. -/
theorem atomEnd_of_admits (h : Site.typePathNext.admits k = true) (hk : k ≠ some .leftBracket) :
    Site.subscriptNext.admits k = true := by
  obtain ⟨t, ht, rfl⟩ := Site.exists_of_admits h rfl
  revert hk
  revert t
  decide

theorem typeEnd_of_admits (h : Site.subscriptNext.admits k = true) (hk : k ≠ some .pipe) :
    Site.typeEnd.admits k = true := by
  obtain ⟨t, ht, rfl⟩ := Site.exists_of_admits h rfl
  revert hk
  revert t
  decide

mutual

theorem typeExpr_traces (n : Nat) (site : Site) : Traces site (some .name) (typeExpr n) fun ss k e =>
    e.Steps ss ∧ Site.typeEnd.admits k = true := by
  cases n with
  | zero => exact .exhausted
  | succ n =>
    refine .bind (typeAtom_traces n _) fun site' ss k a ⟨ha, hk⟩ => .bind (typeMore_traces n [] site' k hk) ?_
    rintro _ us k' _ ⟨⟨more, rfl, hmore⟩, hk'⟩
    refine .pure ⟨?_, hk'⟩
    rw [List.append_nil]
    exact .union ha hmore

theorem typeMore_traces (n : Nat) (acc : List TypeAtom) (site : Site) (ahead : Option Terminal)
    (hahead : Site.subscriptNext.admits ahead = true) : Traces site ahead (typeMore n acc) fun ss k as =>
      (∃ more, as = acc.reverse ++ more ∧ TypeAtom.StepsMore more ss) ∧ Site.typeEnd.admits k = true := by
  cases n with
  | zero => exact .exhausted
  | succ n =>
    refine .bind_peek ?_
    split
    · refine .bind_shift fun t k ht hread hadmits => ?_
      obtain rfl := ahead_of_only hadmits
      refine .bind (typeAtom_traces n _) fun site' ss k a ⟨ha, hk⟩ => (typeMore_traces n _ site' k hk).mono ?_
      rintro us k' _ ⟨⟨more, rfl, hmore⟩, hk'⟩
      refine ⟨⟨a :: more, by simp, ?_⟩, hk'⟩
      rw [lexeme_of_symbol rfl ht hread]
      exact .cons ha hmore
    · next hpipe => exact .pure ⟨⟨[], (List.append_nil _).symm, .nil⟩, typeEnd_of_admits hahead hpipe⟩

theorem typeAtom_traces (n : Nat) (site : Site) : Traces site (some .name) (typeAtom n) fun ss k a =>
    a.Steps ss ∧ Site.subscriptNext.admits k = true := by
  cases n with
  | zero => exact .exhausted
  | succ n =>
    refine .bind (path_traces n) fun site' ss k p hp => .bind_check fun hadmits => .bind_peek ?_
    split
    · refine .bind_shift fun t k ht hread hadmits => .bind (typeArg_traces n _ k hadmits) fun site' us k' a ha => ?_
      refine .bind (typeArgs_traces n [] site' k') ?_
      rintro _ vs _ _ ⟨rfl, more, rfl, hmore⟩
      refine .bind_shift fun u k'' hu hread' hadmits' => .pure ⟨?_, hadmits'⟩
      rw [lexeme_of_symbol rfl ht hread, lexeme_of_symbol rfl hu hread']
      exact .subscripted hp ha (hmore _)
    · next hbracket =>
      refine .pure ⟨?_, atomEnd_of_admits hadmits hbracket⟩
      rw [List.append_nil]
      exact .plain hp

/-- Behind the arguments the closing bracket is ahead. -/
theorem typeArgs_traces (n : Nat) (acc : List TypeArg) (site : Site) (ahead : Option Terminal) :
    Traces site ahead (typeArgs n acc) fun ss k as => k = some .rightBracket ∧ ∃ more, as = acc.reverse ++ more ∧
      ∀ next, TypeArg.StepsMore next more (ss ++ [⟨Terminal.rightBracket.lexeme, next⟩]) := by
  cases n with
  | zero => exact .exhausted
  | succ n =>
    refine .bind_check fun hadmits => .bind_peek ?_
    split
    · refine .bind_shift fun t k ht hread hadmits => .bind_peek ?_
      rw [lexeme_of_symbol rfl ht hread]
      split
      · exact .pure ⟨rfl, [], (List.append_nil _).symm, fun _ => .comma⟩
      · next hbracket =>
        have hk : Site.typeArg.admits k = true := by
          obtain ⟨u, hu, rfl⟩ := Site.exists_of_admits hadmits rfl
          revert hbracket
          revert u
          decide
        refine .bind (typeArg_traces n _ k hk) fun site' ss k' a ha => (typeArgs_traces n _ site' k').mono ?_
        rintro us _ _ ⟨rfl, more, rfl, hmore⟩
        refine ⟨rfl, a :: more, by simp, fun next => ?_⟩
        rw [List.cons_append, List.append_assoc]
        exact .cons ha (hmore next)
    · next hcomma => exact .pure ⟨ahead_of_pair hadmits hcomma, [], (List.append_nil _).symm, fun _ => .nil⟩

theorem typeArg_traces (n : Nat) (site : Site) (ahead : Option Terminal) (hahead : Site.typeArg.admits ahead = true) :
    Traces site ahead (typeArg n) fun ss _ a => a.Steps ss := by
  cases n with
  | zero => exact .exhausted
  | succ n =>
    refine .bind_peek ?_
    split
    · refine .bind_shift fun t k ht hread hadmits => .bind_peek ?_
      rw [lexeme_of_symbol rfl ht hread]
      split
      · refine .bind_shift fun u _ hu hread' _ => .pure ?_
        rw [lexeme_of_symbol rfl hu hread']
        exact .empty
      · next hbracket =>
        have hk : Site.typeArg.admits k = true := by
          obtain ⟨u, hu, rfl⟩ := Site.exists_of_admits hadmits rfl
          revert hbracket
          revert u
          decide
        refine .bind (typeArg_traces n _ k hk) fun site' ss k' a ha => .bind (typeArgs_traces n [] site' k') ?_
        rintro _ us _ _ ⟨rfl, more, rfl, hmore⟩
        refine .bind_shift fun u _ hu hread' _ => .pure ?_
        rw [lexeme_of_symbol rfl hu hread']
        exact .list ha (hmore _)
    · refine .bind_shift fun t _ ht hread _ => .pure ?_
      rw [show t.lexeme = ⟨.string, t.text⟩ by rw [Token.lexeme, ← Option.some.inj ht]]
      exact .literal (hread.string (Option.some.inj ht).symm)
    · refine .bind_shift fun t _ ht hread _ => .pure ?_
      rw [lexeme_of_symbol rfl ht hread]
      exact .ellipsis
    · next hbracket hstring hellipsis =>
      have hname : ahead = some .name := by
        obtain ⟨u, hu, rfl⟩ := Site.exists_of_admits hahead rfl
        revert hbracket hstring hellipsis
        revert u
        decide
      subst hname
      refine .bind (typeExpr_traces n _) fun _ ss _ e ⟨he, _⟩ => .pure ?_
      rw [List.append_nil]
      exact .type he

end

/-! ### Reading again -/

theorem pathRest_retraces {parts : List String} (h : PartSteps parts ss) (hk : Site.pathEnd.admits k = true) :
    ∀ {n : Nat} {acc : List String}, ss.length + 1 ≤ n →
      Retraces (pathRest n acc) ss k (· = acc.reverse ++ parts) := by
  induction h with
  | nil =>
    rintro n acc hn
    obtain ⟨n, rfl⟩ : ∃ m, n = m + 1 := ⟨n - 1, by omega⟩
    refine .bind_peek ?_
    split
    · next hdot => exact absurd hdot (Site.ne_of_admits hk (by decide))
    · next hsep => exact absurd hsep (Site.ne_of_admits hk (by decide))
    · exact .pure (List.append_nil _).symm
  | @cons s parts ss sep hsep hs hword h ih =>
    rintro n acc hn
    obtain ⟨n, rfl⟩ : ∃ m, n = m + 1 := ⟨n - 1, by omega⟩
    simp only [List.length_cons] at hn
    refine .bind_peek ?_
    rcases hsep with rfl | rfl
    all_goals
      refine .bind_shift fun _ _ => .bind_check rfl (.bind_shift fun t ht => ?_)
      refine (ih (by omega)).mono fun _ hparts => ?_
      rw [hparts, show t.text = s from congrArg Lexeme.text ht]
      simp

theorem path_retraces {p : DottedName} (h : p.Steps ss) (hk : Site.pathEnd.admits k = true) {n : Nat}
    (hn : ss.length ≤ n) : Retraces (path n) ss k (· = p) := by
  obtain ⟨hs, h⟩ := h
  refine .bind_shift fun t ht => ?_
  refine .bind_nil (pathRest_retraces h hk hn) fun parts hparts => .pure ?_
  rw [hparts, show t.text = _ from congrArg Lexeme.text ht]
  rfl

mutual

theorem typeExpr_retraces : ∀ (n : Nat) {e : TypeExpr} {ss : List Step} {k : Option Terminal}, e.Steps ss →
    ss.length + 2 ≤ n → Site.typeEnd.admits k = true → Retraces (typeExpr n) ss k (· = e)
  | 0, _, _, _, _, hn, _ => by omega
  | n + 1, _, _, _, h, hn, hk => by
    obtain ⟨ha, hmore⟩ := h
    simp only [List.length_append] at hn
    refine .bind (typeAtom_retraces n ha (by omega) (hmore.headOf hk)) fun a hatom => ?_
    refine .bind_nil (typeMore_retraces n hmore (by omega) hk) fun as has => .pure ?_
    rw [hatom, has]
    rfl

theorem typeMore_retraces : ∀ (n : Nat) {as acc : List TypeAtom} {ss : List Step} {k : Option Terminal},
    TypeAtom.StepsMore as ss → ss.length + 1 ≤ n → Site.typeEnd.admits k = true →
      Retraces (typeMore n acc) ss k (· = acc.reverse ++ as)
  | 0, _, _, _, _, _, hn, _ => by omega
  | n + 1, _, _, _, _, h, hn, hk => by
    refine .bind_peek ?_
    cases h with
    | nil =>
      split
      · next hpipe => exact absurd hpipe (Site.ne_of_admits hk (by decide))
      · exact .pure (List.append_nil _).symm
    | cons ha hmore =>
      simp only [List.length_cons, List.length_append] at hn
      refine .bind_shift fun _ _ => .bind (typeAtom_retraces n ha (by omega) (hmore.headOf hk)) fun a hatom => ?_
      refine (typeMore_retraces n hmore (by omega) hk).mono fun as has => ?_
      rw [has, hatom]
      simp

theorem typeAtom_retraces : ∀ (n : Nat) {a : TypeAtom} {ss : List Step} {k : Option Terminal}, a.Steps ss →
    ss.length + 1 ≤ n → Site.subscriptNext.admits k = true → Retraces (typeAtom n) ss k (· = a)
  | 0, _, _, _, _, hn, _ => by omega
  | n + 1, _, _, k, h, hn, hk => by
    cases h with
    | plain hp =>
      refine .bind_nil (path_retraces hp (Site.admits_mono hk (by decide)) (by omega)) fun p hpath =>
        .bind_check (Site.admits_mono hk (by decide)) (.bind_peek ?_)
      split
      · next hbracket => exact absurd hbracket (Site.ne_of_admits hk (by decide))
      · exact .pure (by rw [hpath])
    | @subscripted p a more ss us vs hp ha hmore =>
      simp only [List.length_append, List.length_cons] at hn
      have hlen := hp.length_pos
      obtain ⟨vs, rfl, hvs⟩ := typeArgs_retraces n [] hmore (by omega)
      simp only [List.length_append, List.length_cons] at hn
      refine .bind (path_retraces hp rfl (by omega)) fun p' hpath => .bind_check rfl (.bind_peek ?_)
      refine .bind_shift fun _ _ => .bind (typeArg_retraces n ha (by omega) hmore.headOf) fun b hb => ?_
      refine .bind hvs fun bs hbs => .bind_shift fun _ _ => .pure ?_
      rw [hpath, hb, hbs]
      rfl

/-- The arguments are read up to the closing bracket. -/
theorem typeArgs_retraces : ∀ (n : Nat) (acc : List TypeArg) {next : Site} {as : List TypeArg} {ss : List Step},
    TypeArg.StepsMore next as ss → ss.length + 2 ≤ n → ∃ us, ss = us ++ [⟨Terminal.rightBracket.lexeme, next⟩] ∧
      Retraces (typeArgs n acc) us (some .rightBracket) (· = acc.reverse ++ as)
  | 0, _, _, _, _, _, hn => by omega
  | n + 1, acc, _, _, _, h, hn => by
    cases h with
    | nil => exact ⟨[], rfl, .bind_check rfl (.bind_peek (.pure (List.append_nil _).symm))⟩
    | comma =>
      refine ⟨[_], rfl, .bind_check rfl (.bind_peek (.bind_shift fun _ _ => .bind_peek (.pure ?_)))⟩
      exact (List.append_nil _).symm
    | @cons _ a more ss us ha hmore =>
      simp only [List.length_cons, List.length_append] at hn
      obtain ⟨us, rfl, hus⟩ := typeArgs_retraces n (a :: acc) hmore (by omega)
      simp only [List.length_append, List.length_cons] at hn
      refine ⟨⟨Terminal.comma.lexeme, .typeArgOrClose⟩ :: (ss ++ us), by simp,
        .bind_check rfl (.bind_peek (.bind_shift fun _ _ => .bind_peek ?_))⟩
      obtain ⟨s, vs, rfl, hs⟩ := ha.exists_first
      split
      · next hbracket =>
        rw [List.cons_append, headOf, Option.some.injEq] at hbracket
        rw [hbracket] at hs
        exact absurd hs (by decide)
      · refine .bind (typeArg_retraces n ha (by omega) ?_) fun b hb => ?_
        · have hhead := hmore.headOf (k := none)
          rwa [headOf_append] at hhead
        · rw [hb]
          exact hus.mono fun bs hbs => by rw [hbs]; simp

theorem typeArg_retraces : ∀ (n : Nat) {a : TypeArg} {ss : List Step} {k : Option Terminal}, a.Steps ss →
    ss.length + 3 ≤ n → Site.bracketList.admits k = true → Retraces (typeArg n) ss k (· = a)
  | 0, _, _, _, _, hn, _ => by omega
  | n + 1, _, ss, k, h, hn, hk => by
    refine .bind_peek ?_
    cases h with
    | type he =>
      have hname : headOf ss k = some .name := by
        obtain ⟨s, us, rfl, -⟩ := he.exists_name
        rfl
      rw [hname]
      refine .bind_nil (typeExpr_retraces n he (by omega) (Site.admits_mono hk (by decide))) fun e' he' => .pure ?_
      rw [he']
    | empty => exact .bind_shift fun _ _ => .bind_peek (.bind_shift fun _ _ => .pure rfl)
    | @list a more ss us ha hmore =>
      simp only [List.length_cons, List.length_append] at hn
      obtain ⟨us, rfl, hus⟩ := typeArgs_retraces n [] hmore (by omega)
      simp only [List.length_append, List.length_cons] at hn
      refine .bind_shift fun _ _ => .bind_peek ?_
      obtain ⟨s, vs, rfl, hs⟩ := ha.exists_first
      split
      · next hbracket =>
        rw [List.cons_append, headOf, Option.some.injEq] at hbracket
        rw [hbracket] at hs
        exact absurd hs (by decide)
      · refine .bind (typeArg_retraces n ha (by omega) hmore.headOf) fun b hb => ?_
        refine .bind hus fun bs hbs => .bind_shift fun _ _ => .pure ?_
        rw [hb, hbs]
        rfl
    | literal =>
      refine .bind_shift fun t ht => .pure ?_
      rw [show t.text = _ from congrArg Lexeme.text ht]
    | ellipsis => exact .bind_shift fun _ _ => .pure rfl

end

end Parse
end TypedErrors
