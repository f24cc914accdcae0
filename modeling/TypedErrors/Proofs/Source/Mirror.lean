import TypedErrors.Proofs.Source.Declared
import TypedErrors.Proofs.Source.Fetched

/-! # Two readings side by side

Two readings are coupled by a relation that each taking of a token keeps (`Coupling`). What a parser makes of the first
one it makes of the second one too, but for places (`Coupling.Mirrors`). There is one rule for each step a parser can
make, and every function of the grammar mirrors itself with as much fuel or more. -/

namespace TypedErrors

/-- The terminal ahead. -/
def Lookahead.head? (a : Lookahead) : Option Terminal := a.token?.map (·.terminal)

def Lookahead.lexeme? (a : Lookahead) : Option Lexeme := a.token?.map Token.lexeme

theorem Token.text_eq {t t' : Token} (h : t'.lexeme = t.lexeme) : t'.text = t.text := congrArg Lexeme.text h

/-- The terminal ahead, if there is one, may stand at the site. -/
def Site.admits (site : Site) : Option Terminal → Bool
  | some k => site.accepts.contains k
  | none => site.mayEnd

theorem Parse.check_eq_ok {site : Site} {a b : Lookahead} {u : Unit} :
    check site a = .ok (u, b) ↔ site.admits a.head? = true ∧ b = a := by
  have hrun (p : Bool) (e : SyntaxError) :
      (if p = true then pure () else throw e : Parse Unit) a = .ok (u, b) ↔ p = true ∧ b = a := by
    cases p
    · exact ⟨nofun, fun h => nomatch h.1⟩
    · exact ⟨fun h => ⟨rfl, (Prod.mk.inj (Except.ok.inj h)).2.symm⟩, fun h => h.2 ▸ rfl⟩
  obtain ⟨token?, after, last⟩ := a
  cases token? with
  | none => exact hrun site.mayEnd _
  | some t => exact hrun (site.accepts.contains t.terminal) _

/-- Two readings with the same lexeme ahead. The relation is kept by each taking of a token in the first one that leaves
it `live`. -/
structure Coupling where
  rel : Lookahead → Lookahead → Prop
  live : Lookahead → Prop
  lexeme {a a' : Lookahead} (h : rel a a') : a'.lexeme? = a.lexeme?
  back {a b : Lookahead} {t : Token} {site : Site} (ht : a.token? = some t)
    (hb : Lookahead.fetch site (some t) a.after = .ok b) (hlive : live b) : live a
  step {a a' b : Lookahead} {t : Token} {site : Site} (h : rel a a') (ht : a.token? = some t)
    (hb : Lookahead.fetch site (some t) a.after = .ok b) (hlive : live b) :
    ∃ t' b', a'.token? = some t' ∧ Lookahead.fetch site (some t') a'.after = .ok b' ∧ rel b b'

namespace Coupling

variable {C : Coupling} {α β γ δ : Type} {u : α → γ} {u' : β → δ} {x y : Parse α} {f g : α → Parse β} {v w : α}
  {site : Site} {a a' b : Lookahead}

theorem head (h : C.rel a a') : a'.head? = a.head? := by
  have hl := congrArg (Option.map Lexeme.terminal) (C.lexeme h)
  rwa [Lookahead.lexeme?, Lookahead.lexeme?, Option.map_map, Option.map_map] at hl

theorem token (h : C.rel a a') {t t' : Token} (ht : a.token? = some t) (ht' : a'.token? = some t') :
    t'.lexeme = t.lexeme := by
  have hl := C.lexeme h
  rw [Lookahead.lexeme?, Lookahead.lexeme?, ht, ht'] at hl
  exact Option.some.inj hl

/-- What `x` makes of the first reading `y` makes of the second one, the same under `u`. -/
structure Mirrors (C : Coupling) (u : α → γ) (x y : Parse α) : Prop where
  back {a b : Lookahead} {v : α} (h : x a = .ok (v, b)) (hlive : C.live b) : C.live a
  step {a a' b : Lookahead} {v : α} (hrel : C.rel a a') (h : x a = .ok (v, b)) (hlive : C.live b) :
    ∃ w b', y a' = .ok (w, b') ∧ C.rel b b' ∧ u w = u v

namespace Mirrors

theorem pure (h : u w = u v) : C.Mirrors u (Pure.pure v) (Pure.pure w) where
  back h hlive := by
    obtain ⟨-, rfl⟩ := Prod.mk.inj (Except.ok.inj h)
    exact hlive
  step hrel h' _ := by
    obtain ⟨rfl, rfl⟩ := Prod.mk.inj (Except.ok.inj h')
    exact ⟨w, _, rfl, hrel, h⟩

theorem exhausted : C.Mirrors u Parse.exhausted y where
  back h _ := by cases h
  step _ h _ := by cases h

theorem bind (hx : C.Mirrors u x y) (hf : ∀ v w, u w = u v → C.Mirrors u' (f v) (g w)) :
    C.Mirrors u' (x >>= f) (y >>= g) where
  back h hlive := by
    obtain ⟨v, c, hxv, hfv⟩ := Parse.bind_eq_ok.mp h
    exact hx.back hxv ((hf v v rfl).back hfv hlive)
  step hrel h hlive := by
    obtain ⟨v, c, hxv, hfv⟩ := Parse.bind_eq_ok.mp h
    obtain ⟨w, c', hyw, hrel, hw⟩ := hx.step hrel hxv ((hf v v rfl).back hfv hlive)
    obtain ⟨z, b', hgz, hrel, hz⟩ := (hf v w hw).step hrel hfv hlive
    exact ⟨z, b', Parse.bind_eq_ok.mpr ⟨w, c', hyw, hgz⟩, hrel, hz⟩

/-- The rule for a part without places. -/
theorem bind_same (hx : C.Mirrors id x y) (hf : ∀ v, C.Mirrors u' (f v) (g v)) : C.Mirrors u' (x >>= f) (y >>= g) :=
  hx.bind fun v w hw => by
    obtain rfl : w = v := hw
    exact hf w

/-- A step that takes nothing. -/
theorem still (hx : ∀ {a v b}, x a = .ok (v, b) → b = a)
    (hy : ∀ {a a' v b}, C.rel a a' → x a = .ok (v, b) → ∃ w, y a' = .ok (w, a') ∧ u w = u v) : C.Mirrors u x y where
  back h hlive := hx h ▸ hlive
  step hrel h _ := by
    obtain ⟨w, hyw, hw⟩ := hy hrel h
    exact ⟨w, _, hyw, (hx h) ▸ hrel, hw⟩

theorem peek : C.Mirrors id Parse.peek Parse.peek :=
  still (fun h => Parse.peek_still h) fun {a a' o b} hrel h => by
    obtain ⟨rfl, -⟩ := Prod.mk.inj (Except.ok.inj h)
    exact ⟨_, rfl, C.head hrel⟩

theorem check : C.Mirrors id (Parse.check site) (Parse.check site) :=
  still (fun h => Parse.check_still h) fun hrel h =>
    ⟨(), Parse.check_eq_ok.mpr ⟨(C.head hrel).symm ▸ (Parse.check_eq_ok.mp h).1, rfl⟩, rfl⟩

theorem here : C.Mirrors (fun _ => ()) Parse.here Parse.here :=
  still (fun h => Parse.here_still h) fun {a a' _ _} _ _ => by
    obtain ⟨token?, after, last⟩ := a'
    cases token? <;> exact ⟨_, rfl, rfl⟩

theorem there : C.Mirrors (fun _ => ()) Parse.there Parse.there :=
  still (fun h => Parse.there_still h) fun {a a' _ _} _ _ => by
    obtain ⟨token?, after, last⟩ := a'
    cases last <;> exact ⟨_, rfl, rfl⟩

theorem shift : C.Mirrors Token.lexeme (Parse.shift site) (Parse.shift site) where
  back h hlive := by
    obtain ⟨ht, hb⟩ := Parse.shift_eq_ok.mp h
    exact C.back ht hb hlive
  step hrel h hlive := by
    obtain ⟨ht, hb⟩ := Parse.shift_eq_ok.mp h
    obtain ⟨t', b', ht', hb', hrel'⟩ := C.step hrel ht hb hlive
    exact ⟨t', b', Parse.shift_eq_ok.mpr ⟨ht', hb'⟩, hrel', C.token hrel ht ht'⟩

theorem bind_peek {f g : Option Terminal → Parse β} (hf : ∀ o, C.Mirrors u' (f o) (g o)) :
    C.Mirrors u' (Parse.peek >>= f) (Parse.peek >>= g) :=
  peek.bind_same hf

theorem bind_check {f g : Unit → Parse β} (hf : C.Mirrors u' (f ()) (g ())) :
    C.Mirrors u' (Parse.check site >>= f) (Parse.check site >>= g) :=
  check.bind_same fun _ => hf

theorem bind_here {f g : Position → Parse β} (hf : ∀ p q, C.Mirrors u' (f p) (g q)) :
    C.Mirrors u' (Parse.here >>= f) (Parse.here >>= g) :=
  here.bind fun p q _ => hf p q

theorem bind_there {f g : Position → Parse β} (hf : ∀ p q, C.Mirrors u' (f p) (g q)) :
    C.Mirrors u' (Parse.there >>= f) (Parse.there >>= g) :=
  there.bind fun p q _ => hf p q

theorem bind_shift {f g : Token → Parse β} (hf : ∀ t t' : Token, t'.lexeme = t.lexeme → C.Mirrors u' (f t) (g t')) :
    C.Mirrors u' (Parse.shift site >>= f) (Parse.shift site >>= g) :=
  shift.bind hf

end Mirrors

/-! ### Types -/

open Parse

variable {file : String} {n m : Nat}

theorem pathRest_mirrors : ∀ {n m : Nat} {acc : List String}, n ≤ m → C.Mirrors id (pathRest n acc) (pathRest m acc)
  | 0, _, _, _ => .exhausted
  | n + 1, m + 1, acc, h => by
    have hmore : C.Mirrors id (do
        let _ ← shift .segment
        check .name
        let t ← shift .pathNext
        pathRest n (t.text :: acc)) (do
        let _ ← shift .segment
        check .name
        let t ← shift .pathNext
        pathRest m (t.text :: acc)) := by
      refine .bind_shift fun _ _ _ => .bind_check (.bind_shift fun t t' ht => ?_)
      rw [Token.text_eq ht]
      exact pathRest_mirrors (Nat.le_of_succ_le_succ h)
    refine .bind_peek fun o => ?_
    split
    · exact hmore
    · exact hmore
    · exact .pure rfl

theorem path_mirrors (h : n ≤ m) : C.Mirrors id (path n) (path m) := by
  refine .bind_shift fun t t' ht => .bind_same (pathRest_mirrors h) fun _ => .pure ?_
  rw [Token.text_eq ht]

mutual

theorem typeExpr_mirrors {n m : Nat} (h : n ≤ m) : C.Mirrors id (typeExpr n) (typeExpr m) := by
  match n, m, h with
  | 0, _, _ => exact .exhausted
  | n + 1, m + 1, h =>
    have h := Nat.le_of_succ_le_succ h
    exact .bind_same (typeAtom_mirrors h) fun _ => .bind_same (typeMore_mirrors h) fun _ => .pure rfl

theorem typeMore_mirrors {n m : Nat} {acc : List TypeAtom} (h : n ≤ m) :
    C.Mirrors id (typeMore n acc) (typeMore m acc) := by
  match n, m, h with
  | 0, _, _ => exact .exhausted
  | n + 1, m + 1, h =>
    have h := Nat.le_of_succ_le_succ h
    refine .bind_peek fun o => ?_
    split
    · exact .bind_shift fun _ _ _ => .bind_same (typeAtom_mirrors h) fun _ => typeMore_mirrors h
    · exact .pure rfl

theorem typeAtom_mirrors {n m : Nat} (h : n ≤ m) : C.Mirrors id (typeAtom n) (typeAtom m) := by
  match n, m, h with
  | 0, _, _ => exact .exhausted
  | n + 1, m + 1, h =>
    have h := Nat.le_of_succ_le_succ h
    refine .bind_same (path_mirrors h) fun _ => .bind_check (.bind_peek fun o => ?_)
    split
    · exact .bind_shift fun _ _ _ => .bind_same (typeArg_mirrors h) fun _ => .bind_same (typeArgs_mirrors h) fun _ =>
        .bind_shift fun _ _ _ => .pure rfl
    · exact .pure rfl

theorem typeArgs_mirrors {n m : Nat} {acc : List TypeArg} (h : n ≤ m) :
    C.Mirrors id (typeArgs n acc) (typeArgs m acc) := by
  match n, m, h with
  | 0, _, _ => exact .exhausted
  | n + 1, m + 1, h =>
    have h := Nat.le_of_succ_le_succ h
    refine .bind_check (.bind_peek fun o => ?_)
    split
    · refine .bind_shift fun _ _ _ => .bind_peek fun o => ?_
      split
      · exact .pure rfl
      · exact .bind_same (typeArg_mirrors h) fun _ => typeArgs_mirrors h
    · exact .pure rfl

theorem typeArg_mirrors {n m : Nat} (h : n ≤ m) : C.Mirrors id (typeArg n) (typeArg m) := by
  match n, m, h with
  | 0, _, _ => exact .exhausted
  | n + 1, m + 1, h =>
    have h := Nat.le_of_succ_le_succ h
    refine .bind_peek fun o => ?_
    split
    · refine .bind_shift fun _ _ _ => .bind_peek fun o => ?_
      split
      · exact .bind_shift fun _ _ _ => .pure rfl
      · exact .bind_same (typeArg_mirrors h) fun _ => .bind_same (typeArgs_mirrors h) fun _ =>
          .bind_shift fun _ _ _ => .pure rfl
    · refine .bind_shift fun t t' ht => .pure ?_
      rw [Token.text_eq ht]
    · exact .bind_shift fun _ _ _ => .pure rfl
    · exact .bind_same (typeExpr_mirrors h) fun _ => .pure rfl

end

/-! ### Attribute blocks -/

theorem attributeTokens_mirrors : ∀ {n m : Nat} {open_ : List Terminal} {acc acc' : List AttrToken}, n ≤ m →
    acc'.map AttrToken.unspanned = acc.map AttrToken.unspanned →
      C.Mirrors (List.map AttrToken.unspanned) (attributeTokens file n open_ acc) (attributeTokens file m open_ acc')
  | 0, _, _, _, _, _, _ => .exhausted
  | n + 1, m + 1, [], acc, acc', _, hacc => .pure (by rw [List.map_reverse, List.map_reverse, hacc])
  | n + 1, m + 1, k :: outer, acc, acc', h, hacc => by
    have htake {site : Site} {open_ : List Terminal} : C.Mirrors (List.map AttrToken.unspanned) (do
        let t ← shift site
        attributeTokens file n open_ (⟨t.terminal, t.text, t.span file⟩ :: acc)) (do
        let t ← shift site
        attributeTokens file m open_ (⟨t.terminal, t.text, t.span file⟩ :: acc')) := by
      refine .bind_shift fun t t' ht => attributeTokens_mirrors (Nat.le_of_succ_le_succ h) ?_
      obtain ⟨hterminal, htext⟩ := Lexeme.mk.inj ht
      rw [List.map_cons, List.map_cons, hacc, hterminal, htext]
      rfl
    refine .bind_check (.bind_peek fun ahead => ?_)
    split
    · split
      · exact .bind_shift fun _ _ _ => .pure (by rw [List.map_reverse, List.map_reverse, hacc])
      · exact htake
    · split <;> exact htake

theorem attributeBlock_mirrors (h : n ≤ m) :
    C.Mirrors RawAttribute.unspanned (attributeBlock file n) (attributeBlock file m) := by
  refine .bind_here fun _ _ => .bind_shift fun _ _ _ => .bind_shift fun _ _ _ => ?_
  refine .bind (attributeTokens_mirrors h rfl) fun ts ts' hts => .bind_there fun _ _ => .pure ?_
  rw [RawAttribute.unspanned, RawAttribute.unspanned, hts]

theorem docText_eq {t t' : Token} (h : t'.lexeme = t.lexeme) : docText t' = docText t := by
  rw [docText, docText, Token.text_eq h]

/-- Attribute blocks without places, and doc comments. -/
def headerKept (p : List RawAttribute × List String) : List RawAttribute × List String :=
  (p.1.map RawAttribute.unspanned, p.2)

theorem outer_mirrors : ∀ {n m : Nat} {attrs attrs' : List RawAttribute} {docs : List String}, n ≤ m →
    attrs'.map RawAttribute.unspanned = attrs.map RawAttribute.unspanned →
      C.Mirrors headerKept (outer file n attrs docs) (outer file m attrs' docs)
  | 0, _, _, _, _, _, _ => .exhausted
  | n + 1, m + 1, attrs, attrs', docs, h, hattrs => by
    have h := Nat.le_of_succ_le_succ h
    refine .bind_peek fun o => ?_
    split
    · refine .bind (attributeBlock_mirrors h) fun a a' ha => outer_mirrors h ?_
      rw [List.map_cons, List.map_cons, ha, hattrs]
    · refine .bind_shift fun t t' ht => ?_
      rw [docText_eq ht]
      exact outer_mirrors h hattrs
    · exact .pure (by rw [headerKept, headerKept, List.map_reverse, List.map_reverse, hattrs])

/-! ### Visibilities -/

theorem scopes_mirrors : ∀ {n m : Nat} {acc : List String}, n ≤ m → C.Mirrors id (scopes n acc) (scopes m acc)
  | 0, _, _, _ => .exhausted
  | n + 1, m + 1, acc, h => by
    have hmore : C.Mirrors id (do
        let _ ← shift .segment
        let t ← shift .segmentNext
        scopes n (t.text :: acc)) (do
        let _ ← shift .segment
        let t ← shift .segmentNext
        scopes m (t.text :: acc)) := by
      refine .bind_shift fun _ _ _ => .bind_shift fun t t' ht => ?_
      rw [Token.text_eq ht]
      exact scopes_mirrors (Nat.le_of_succ_le_succ h)
    refine .bind_peek fun o => ?_
    split
    · exact hmore
    · exact hmore
    · exact .pure rfl

theorem restriction_mirrors (h : n ≤ m) : C.Mirrors id (restriction n) (restriction m) := by
  refine .bind_peek fun o => ?_
  split
  · refine .bind_shift fun _ _ _ => .bind_shift fun t t' ht => .bind_same (scopes_mirrors h) fun _ => .pure ?_
    rw [Token.text_eq ht]
  · exact .bind_shift fun _ _ _ => .pure rfl
  · refine .bind_shift fun t t' ht => .pure ?_
    rw [Token.text_eq ht]

theorem visibility_mirrors (h : n ≤ m) (next : Site) : C.Mirrors id (visibility n next) (visibility m next) := by
  have hend (v : Visibility) : C.Mirrors id (do check next; return v) (do check next; return v) :=
    .bind_check (.pure rfl)
  refine .bind_peek fun o => ?_
  split
  · refine .bind_shift fun _ _ _ => .bind_peek fun o => ?_
    split
    · refine .bind_shift fun _ _ _ => .bind_same (restriction_mirrors h) fun v => .bind_shift fun _ _ _ => ?_
      exact .bind_same (.pure rfl) hend
    · exact .bind_same (.pure rfl) hend
  · exact .pure rfl

/-! ### Fields -/

def namedKept (p : String × Field) : String × Field := (p.1, p.2.unspanned)

theorem namedField_mirrors (h : n ≤ m) : C.Mirrors namedKept (namedField file n) (namedField file m) := by
  refine .bind_here fun _ _ => .bind (outer_mirrors h rfl) fun p p' hp => ?_
  obtain ⟨attrs, docs⟩ := p
  obtain ⟨attrs', docs'⟩ := p'
  obtain ⟨hattrs, hdocs⟩ := Prod.mk.inj hp
  refine .bind_check (.bind_same (visibility_mirrors h _) fun _ => ?_)
  refine .bind_shift fun t t' ht => .bind_shift fun _ _ _ => ?_
  refine .bind_same (typeExpr_mirrors h) fun _ => .bind_there fun _ _ => .pure ?_
  simp only at hattrs hdocs
  rw [namedKept, namedKept, Field.unspanned, Field.unspanned, hattrs, hdocs,
    Token.text_eq ht]

theorem unnamedField_mirrors (h : n ≤ m) :
    C.Mirrors Field.unspanned (unnamedField file n) (unnamedField file m) := by
  refine .bind_here fun _ _ => .bind (outer_mirrors h rfl) fun p p' hp => ?_
  obtain ⟨attrs, docs⟩ := p
  obtain ⟨attrs', docs'⟩ := p'
  obtain ⟨hattrs, hdocs⟩ := Prod.mk.inj hp
  refine .bind_check (.bind_same (visibility_mirrors h _) fun _ => ?_)
  refine .bind_same (typeExpr_mirrors h) fun _ => .bind_there fun _ _ => .pure ?_
  simp only at hattrs hdocs
  rw [Field.unspanned, Field.unspanned, hattrs, hdocs]

theorem commaList_mirrors {item item' : Parse α} {closer : Terminal} {items next : Site}
    (hitem : C.Mirrors u item item') : ∀ {n m : Nat} {acc acc' : List α}, n ≤ m → acc'.map u = acc.map u →
      C.Mirrors (List.map u) (commaList item closer items next n acc) (commaList item' closer items next m acc')
  | 0, _, _, _, _, _ => .exhausted
  | n + 1, m + 1, acc, acc', h, hacc => by
    refine .bind_peek fun o => ?_
    split
    · exact .pure (by rw [List.map_reverse, List.map_reverse, hacc])
    · refine .bind hitem fun x x' hx => .bind_check (.bind_peek fun o => ?_)
      have hcons : (x' :: acc').map u = (x :: acc).map u := by rw [List.map_cons, List.map_cons, hx, hacc]
      split
      · exact .bind_shift fun _ _ _ => commaList_mirrors hitem (Nat.le_of_succ_le_succ h) hcons
      · exact .pure (by rw [List.map_reverse, List.map_reverse, hcons])

theorem namedFields_mirrors (h : n ≤ m) :
    C.Mirrors (Fields.map Field.unspanned) (namedFields file n) (namedFields file m) := by
  refine .bind_shift fun _ _ _ => .bind (commaList_mirrors (namedField_mirrors h) h rfl) fun fs fs' hfs => ?_
  exact .bind_shift fun _ _ _ => .pure (congrArg Fields.named hfs)

theorem unnamedFields_mirrors (h : n ≤ m) :
    C.Mirrors (Fields.map Field.unspanned) (unnamedFields file n) (unnamedFields file m) := by
  refine .bind_shift fun _ _ _ => .bind (commaList_mirrors (unnamedField_mirrors h) h rfl) fun fs fs' hfs => ?_
  refine .bind_shift fun _ _ _ => .pure ?_
  rw [ofList_map, ofList_map, hfs]

/-! ### Declarations -/

theorem variant_mirrors (h : n ≤ m) : C.Mirrors Variant.unspanned (variant file n) (variant file m) := by
  refine .bind (outer_mirrors h rfl) fun p p' hp => ?_
  obtain ⟨attrs, docs⟩ := p
  obtain ⟨attrs', docs'⟩ := p'
  obtain ⟨hattrs, hdocs⟩ := Prod.mk.inj hp
  refine .bind_check (.bind_shift fun t t' ht => .bind_peek fun o => ?_)
  have hend (fs fs' : Fields Field) (hfs : fs'.map Field.unspanned = fs.map Field.unspanned) :
      C.Mirrors Variant.unspanned
        (Pure.pure { ident := t.text, fields := fs, attrs, docs, span := t.span file })
        (Pure.pure { ident := t'.text, fields := fs', attrs := attrs', docs := docs', span := t'.span file }) := by
    refine .pure ?_
    simp only at hattrs hdocs
    rw [Variant.unspanned, Variant.unspanned, hattrs, hdocs, hfs, Token.text_eq ht]
  split
  · exact .bind (namedFields_mirrors h) hend
  · exact .bind (unnamedFields_mirrors h) hend
  · exact .bind_same (.pure rfl) fun fs => hend fs fs rfl

def shapeKept (p : Token × Shape) : Lexeme × Shape := (p.1.lexeme, p.2.unspanned)

theorem shape_mirrors (h : n ≤ m) : C.Mirrors shapeKept (shape file n) (shape file m) := by
  have hkept {t t' : Token} {s s' : Shape} (ht : t'.lexeme = t.lexeme) (hs : s'.unspanned = s.unspanned) :
      shapeKept (t', s') = shapeKept (t, s) := by rw [shapeKept, shapeKept, ht, hs]
  refine .bind_peek fun o => ?_
  split
  · refine .bind_shift fun _ _ _ => .bind_shift fun t t' ht => .bind_peek fun o => ?_
    split
    · exact .bind (namedFields_mirrors h) fun _ _ hfs => .bind_check (.pure (hkept ht (congrArg Shape.struct hfs)))
    · refine .bind (unnamedFields_mirrors h) fun _ _ hfs => .bind_check (.bind_shift fun _ _ _ => ?_)
      exact .pure (hkept ht (congrArg Shape.struct hfs))
    · exact .bind_shift fun _ _ _ => .pure (hkept ht rfl)
  · refine .bind_shift fun _ _ _ => .bind_shift fun t t' ht => .bind_shift fun _ _ _ => ?_
    refine .bind (commaList_mirrors (variant_mirrors h) h rfl) fun _ _ hvs => .bind_shift fun _ _ _ => ?_
    exact .pure (hkept ht (congrArg Shape.enum hvs))
  · refine .bind_shift fun _ _ _ => .bind_shift fun t t' ht => ?_
    exact .bind (namedFields_mirrors h) fun _ _ hfs => .bind_check (.pure (hkept ht (congrArg Shape.union hfs)))

theorem declaration_mirrors (h : n ≤ m) :
    C.Mirrors Declaration.unspanned (declaration file n) (declaration file m) := by
  refine .bind (outer_mirrors h rfl) fun p p' hp => ?_
  obtain ⟨attrs, docs⟩ := p
  obtain ⟨attrs', docs'⟩ := p'
  obtain ⟨hattrs, hdocs⟩ := Prod.mk.inj hp
  refine .bind_check (.bind_same (visibility_mirrors h _) fun _ => .bind (shape_mirrors h) fun q q' hq => .pure ?_)
  obtain ⟨ht, hs⟩ := Prod.mk.inj hq
  simp only at hattrs hdocs
  rw [Declaration.unspanned, Declaration.unspanned, hattrs, hdocs, hs, Token.text_eq ht]

theorem import_mirrors (h : n ≤ m) : C.Mirrors Import.unspanned (import_ file n) (import_ file m) := by
  refine .bind_here fun start start' => .bind_shift fun _ _ _ => .bind_same (path_mirrors h) fun path => ?_
  refine .bind_check (.bind_peek fun o => ?_)
  have hend (alias? : Option String) : C.Mirrors Import.unspanned
      (do let _ ← shift .items; return { path, alias?, span := start.spanTo file (← there) })
      (do let _ ← shift .items; return { path, alias?, span := start'.spanTo file (← there) }) :=
    .bind_shift fun _ _ _ => .bind_there fun _ _ => .pure rfl
  split
  · refine .bind_shift fun _ _ _ => .bind_shift fun t t' ht => ?_
    rw [Token.text_eq ht]
    exact .bind_same (.pure rfl) hend
  · exact .bind_same (.pure rfl) hend

theorem items_mirrors : ∀ {n m : Nat} {is is' : List Import} {ds ds' : List Declaration}, n ≤ m →
    is'.map Import.unspanned = is.map Import.unspanned →
      ds'.map Declaration.unspanned = ds.map Declaration.unspanned →
        C.Mirrors SourceFile.unspanned (Parse.items file n is ds) (Parse.items file m is' ds')
  | 0, _, _, _, _, _, _, _, _ => .exhausted
  | n + 1, m + 1, is, is', ds, ds', h, his, hds => by
    have h := Nat.le_of_succ_le_succ h
    refine .bind_peek fun o => ?_
    split
    · refine .pure ?_
      rw [SourceFile.unspanned, SourceFile.unspanned, List.map_reverse, List.map_reverse, List.map_reverse,
        List.map_reverse, his, hds]
    · refine .bind (import_mirrors h) fun i i' hi => items_mirrors h ?_ hds
      rw [List.map_cons, List.map_cons, hi, his]
    · refine .bind (declaration_mirrors h) fun d d' hd => items_mirrors h his ?_
      rw [List.map_cons, List.map_cons, hd, hds]

end Coupling
end TypedErrors
