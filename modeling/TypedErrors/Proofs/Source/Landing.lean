import TypedErrors.Proofs.Source.Mirror

/-! # Readings that part

Two readings go side by side up to a token, and there the second one has an attribute block or a doc comment ahead
(`Landing`). The parsers that end in front of a declaration, variant or field do not look at what is ahead then
(`Landing.Lands`). -/

namespace TypedErrors

/-- Attribute blocks and doc comments may stand at the site. -/
def Site.IsOpen (site : Site) : Prop := .hash ∈ site.accepts ∧ .doc ∈ site.accepts

instance (site : Site) : Decidable site.IsOpen :=
  inferInstanceAs (Decidable (.hash ∈ site.accepts ∧ .doc ∈ site.accepts))

/-- The start of an attribute block or a doc comment is ahead. -/
def Lookahead.Opens (a : Lookahead) : Prop := ∃ k, a.head? = some k ∧ (k = .hash ∨ k = .doc)

theorem Site.IsOpen.admits {site : Site} {a : Lookahead} (hsite : site.IsOpen) (ha : a.Opens) :
    site.admits a.head? = true := by
  obtain ⟨k, hk, rfl | rfl⟩ := ha <;> rw [hk]
  · exact List.contains_iff_mem.mpr hsite.1
  · exact List.contains_iff_mem.mpr hsite.2

/-- A coupling of what is read before `goal`. The last token before is taken at one of the sites, and there the second
reading has something else ahead. -/
structure Landing extends Coupling where
  goal : Lookahead
  sites : Site → Prop
  lands : Lookahead → Prop
  admits {a' : Lookahead} {site : Site} (h : lands a') (hsite : sites site) : site.admits a'.head? = true
  near {a : Lookahead} {t : Token} {site : Site} (ht : a.token? = some t)
    (hb : Lookahead.fetch site (some t) a.after = .ok goal) : live a
  arrive {a a' : Lookahead} {t : Token} {site : Site} (h : rel a a') (ht : a.token? = some t)
    (hb : Lookahead.fetch site (some t) a.after = .ok goal) (hsite : sites site) :
    ∃ t' b', a'.token? = some t' ∧ Lookahead.fetch site (some t') a'.after = .ok b' ∧ lands b'

namespace Landing

variable {L : Landing} {α β γ δ : Type} {u : α → γ} {u' : β → δ} {x y : Parse α} {f g : α → Parse β} {v w : α}
  {site : Site}

/-- Where `x` takes the first reading to the goal, `y` takes the second one to what is ahead there, with the same result
under `u`. -/
structure Lands (L : Landing) (u : α → γ) (x y : Parse α) : Prop where
  back {a : Lookahead} {v : α} (h : x a = .ok (v, L.goal)) : L.live a
  step {a a' : Lookahead} {v : α} (hrel : L.rel a a') (h : x a = .ok (v, L.goal)) :
    ∃ w b', y a' = .ok (w, b') ∧ L.lands b' ∧ u w = u v

/-- The parsers take nothing, and return the same under `u` also where the readings part. -/
structure Rests (L : Landing) (u : α → γ) (x y : Parse α) : Prop where
  still {a b : Lookahead} {v : α} (h : x a = .ok (v, b)) : b = a
  step {a' b : Lookahead} {v : α} (hlands : L.lands a') (h : x L.goal = .ok (v, b)) :
    ∃ w, y a' = .ok (w, a') ∧ u w = u v

namespace Rests

theorem pure (h : u w = u v) : L.Rests u (Pure.pure v) (Pure.pure w) where
  still h := (Prod.mk.inj (Except.ok.inj h)).2.symm
  step _ h' := by
    obtain ⟨rfl, -⟩ := Prod.mk.inj (Except.ok.inj h')
    exact ⟨w, rfl, h⟩

theorem bind_there {f g : Position → Parse β} (hf : ∀ p q, L.Rests u' (f p) (g q)) :
    L.Rests u' (Parse.there >>= f) (Parse.there >>= g) where
  still h := by
    obtain ⟨p, c, hp, hfp⟩ := Parse.bind_eq_ok.mp h
    exact ((hf p p).still hfp).trans (Parse.there_still hp)
  step {a' b v} hlands h := by
    obtain ⟨p, c, hp, hfp⟩ := Parse.bind_eq_ok.mp h
    rw [Parse.there_still hp] at hfp
    obtain ⟨q, hq⟩ : ∃ q, Parse.there a' = .ok (q, a') := by
      obtain ⟨token?, after, last⟩ := a'
      cases last <;> exact ⟨_, rfl⟩
    obtain ⟨w, hgq, hw⟩ := (hf p q).step hlands hfp
    exact ⟨w, Parse.bind_eq_ok.mpr ⟨q, a', hq, hgq⟩, hw⟩

theorem bind_check {f g : Unit → Parse β} (hsite : L.sites site) (hf : L.Rests u' (f ()) (g ())) :
    L.Rests u' (Parse.check site >>= f) (Parse.check site >>= g) where
  still h := by
    obtain ⟨_, c, hc, hfp⟩ := Parse.bind_eq_ok.mp h
    exact (hf.still hfp).trans (Parse.check_still hc)
  step {a' b v} hlands h := by
    obtain ⟨_, c, hc, hfp⟩ := Parse.bind_eq_ok.mp h
    rw [Parse.check_still hc] at hfp
    obtain ⟨w, hgq, hw⟩ := hf.step hlands hfp
    exact ⟨w, Parse.bind_eq_ok.mpr ⟨(), a', Parse.check_eq_ok.mpr ⟨L.admits hlands hsite, rfl⟩, hgq⟩, hw⟩

end Rests

namespace Lands

theorem shift (hsite : L.sites site) : L.Lands Token.lexeme (Parse.shift site) (Parse.shift site) where
  back h := by
    obtain ⟨ht, hb⟩ := Parse.shift_eq_ok.mp h
    exact L.near ht hb
  step hrel h := by
    obtain ⟨ht, hb⟩ := Parse.shift_eq_ok.mp h
    obtain ⟨t', b', ht', hb', hlands⟩ := L.arrive hrel ht hb hsite
    exact ⟨t', b', Parse.shift_eq_ok.mpr ⟨ht', hb'⟩, hlands, L.token hrel ht ht'⟩

theorem exhausted : L.Lands u Parse.exhausted y where
  back h := by cases h
  step _ h := by cases h

/-- The rule for a step before the goal. -/
theorem after (hx : L.Mirrors u x y) (hf : ∀ v w, u w = u v → L.Lands u' (f v) (g w)) :
    L.Lands u' (x >>= f) (y >>= g) where
  back h := by
    obtain ⟨v, c, hxv, hfv⟩ := Parse.bind_eq_ok.mp h
    exact hx.back hxv ((hf v v rfl).back hfv)
  step hrel h := by
    obtain ⟨v, c, hxv, hfv⟩ := Parse.bind_eq_ok.mp h
    obtain ⟨w, c', hyw, hrel, hw⟩ := hx.step hrel hxv ((hf v v rfl).back hfv)
    obtain ⟨z, b', hgz, hlands, hz⟩ := (hf v w hw).step hrel hfv
    exact ⟨z, b', Parse.bind_eq_ok.mpr ⟨w, c', hyw, hgz⟩, hlands, hz⟩

/-- The rule for the step that reaches the goal. -/
theorem bind (hx : L.Lands u x y) (hf : ∀ v w, u w = u v → L.Rests u' (f v) (g w)) :
    L.Lands u' (x >>= f) (y >>= g) where
  back h := by
    obtain ⟨v, c, hxv, hfv⟩ := Parse.bind_eq_ok.mp h
    obtain rfl := (hf v v rfl).still hfv
    exact hx.back hxv
  step hrel h := by
    obtain ⟨v, c, hxv, hfv⟩ := Parse.bind_eq_ok.mp h
    obtain rfl := (hf v v rfl).still hfv
    obtain ⟨w, c', hyw, hlands, hw⟩ := hx.step hrel hxv
    obtain ⟨z, hgz, hz⟩ := (hf v w hw).step hlands hfv
    exact ⟨z, c', Parse.bind_eq_ok.mpr ⟨w, c', hyw, hgz⟩, hlands, hz⟩

theorem bind_peek {f g : Option Terminal → Parse β} (hf : ∀ o, L.Lands u' (f o) (g o)) :
    L.Lands u' (Parse.peek >>= f) (Parse.peek >>= g) where
  back h := by
    obtain ⟨o, c, ho, hfo⟩ := Parse.bind_eq_ok.mp h
    obtain rfl := Parse.peek_still ho
    exact (hf o).back hfo
  step {a a' v} hrel h := by
    have hpeek : (Parse.peek >>= g) a' = g a.head? a' := by rw [← L.head hrel]; rfl
    rw [hpeek]
    exact (hf _).step hrel h

theorem bind_check {f g : Unit → Parse β} (hf : L.Lands u' (f ()) (g ())) :
    L.Lands u' (Parse.check site >>= f) (Parse.check site >>= g) where
  back h := by
    obtain ⟨_, c, hc, hfo⟩ := Parse.bind_eq_ok.mp h
    obtain rfl := Parse.check_still hc
    exact hf.back hfo
  step {a a' v} hrel h := by
    obtain ⟨_, c, hc, hfo⟩ := Parse.bind_eq_ok.mp h
    obtain ⟨hadmits, rfl⟩ := Parse.check_eq_ok.mp hc
    obtain ⟨w, b', hgw, hlands, hw⟩ := hf.step hrel hfo
    refine ⟨w, b', Parse.bind_eq_ok.mpr ⟨(), a', Parse.check_eq_ok.mpr ⟨?_, rfl⟩, hgw⟩, hlands, hw⟩
    rwa [L.head hrel]

theorem bind_here {f g : Position → Parse β} (hf : ∀ p q, L.Lands u' (f p) (g q)) :
    L.Lands u' (Parse.here >>= f) (Parse.here >>= g) where
  back h := by
    obtain ⟨p, c, hc, hfo⟩ := Parse.bind_eq_ok.mp h
    obtain rfl := Parse.here_still hc
    exact (hf p p).back hfo
  step {a a' v} hrel h := by
    obtain ⟨p, c, hc, hfo⟩ := Parse.bind_eq_ok.mp h
    obtain rfl := Parse.here_still hc
    obtain ⟨q, hq⟩ : ∃ q, Parse.here a' = .ok (q, a') := by
      obtain ⟨token?, after, last⟩ := a'
      cases token? <;> exact ⟨_, rfl⟩
    obtain ⟨w, b', hgw, hlands, hw⟩ := (hf p q).step hrel hfo
    exact ⟨w, b', Parse.bind_eq_ok.mpr ⟨q, a', hq, hgw⟩, hlands, hw⟩

end Lands

/-! ### What ends in front of a declaration, variant or field -/

open Parse Coupling

variable {file : String} {n m : Nat}

theorem attributeTokens_lands (hsite : L.sites .outerNext) : ∀ {n m : Nat} {k : Terminal} {outer : List Terminal}
    {acc acc' : List AttrToken}, n ≤ m → acc'.map AttrToken.unspanned = acc.map AttrToken.unspanned →
      L.Lands (List.map AttrToken.unspanned) (attributeTokens file n (k :: outer) acc)
        (attributeTokens file m (k :: outer) acc')
  | 0, _, _, _, _, _, _, _ => .exhausted
  | n + 1, m + 1, k, outer, acc, acc', h, hacc => by
    have htake {site : Site} {k : Terminal} {outer : List Terminal} : L.Lands (List.map AttrToken.unspanned) (do
        let t ← shift site
        attributeTokens file n (k :: outer) (⟨t.terminal, t.text, t.span file⟩ :: acc)) (do
        let t ← shift site
        attributeTokens file m (k :: outer) (⟨t.terminal, t.text, t.span file⟩ :: acc')) := by
      refine .after .shift fun t t' ht => attributeTokens_lands hsite (Nat.le_of_succ_le_succ h) ?_
      obtain ⟨hterminal, htext⟩ := Lexeme.mk.inj ht
      rw [List.map_cons, List.map_cons, hacc, hterminal, htext]
      rfl
    refine .bind_check (.bind_peek fun ahead => ?_)
    split
    · cases outer with
      | nil => exact .bind (.shift hsite) fun _ _ _ => .pure (by rw [List.map_reverse, List.map_reverse, hacc])
      | cons k' outer => exact htake
    · split <;> exact htake

theorem attributeBlock_lands (hsite : L.sites .outerNext) (h : n ≤ m) :
    L.Lands RawAttribute.unspanned (attributeBlock file n) (attributeBlock file m) := by
  refine .bind_here fun _ _ => .after .shift fun _ _ _ => .after .shift fun _ _ _ => ?_
  refine .bind (attributeTokens_lands hsite h rfl) fun ts ts' hts => .bind_there fun _ _ => .pure ?_
  rw [RawAttribute.unspanned, RawAttribute.unspanned, hts]

variable (hsites : ∀ site : Site, site.IsOpen → L.sites site)
include hsites

theorem namedFields_lands (h : n ≤ m) :
    L.Lands (Fields.map Field.unspanned) (namedFields file n) (namedFields file m) := by
  refine .after .shift fun _ _ _ => .after (commaList_mirrors (namedField_mirrors h) h rfl) fun fs fs' hfs => ?_
  exact .bind (.shift (hsites _ (by decide))) fun _ _ _ => .pure (congrArg Fields.named hfs)

theorem shape_lands (h : n ≤ m) : L.Lands shapeKept (shape file n) (shape file m) := by
  have hkept {t t' : Token} {s s' : Shape} (ht : t'.lexeme = t.lexeme) (hs : s'.unspanned = s.unspanned) :
      shapeKept (t', s') = shapeKept (t, s) := by rw [shapeKept, shapeKept, ht, hs]
  refine .bind_peek fun o => ?_
  split
  · refine .after .shift fun _ _ _ => .after .shift fun t t' ht => .bind_peek fun o => ?_
    split
    · refine .bind (namedFields_lands hsites h) fun _ _ hfs => .bind_check (hsites _ (by decide)) (.pure ?_)
      exact hkept ht (congrArg Shape.struct hfs)
    · refine .after (unnamedFields_mirrors h) fun _ _ hfs => .bind_check ?_
      refine .bind (.shift (hsites _ (by decide))) fun _ _ _ => .pure ?_
      exact hkept ht (congrArg Shape.struct hfs)
    · exact .bind (.shift (hsites _ (by decide))) fun _ _ _ => .pure (hkept ht rfl)
  · refine .after .shift fun _ _ _ => .after .shift fun t t' ht => .after .shift fun _ _ _ => ?_
    refine .after (commaList_mirrors (variant_mirrors h) h rfl) fun _ _ hvs => ?_
    exact .bind (.shift (hsites _ (by decide))) fun _ _ _ => .pure (hkept ht (congrArg Shape.enum hvs))
  · refine .after .shift fun _ _ _ => .after .shift fun t t' ht => .bind (namedFields_lands hsites h) fun _ _ hfs => ?_
    exact .bind_check (hsites _ (by decide)) (.pure (hkept ht (congrArg Shape.union hfs)))

theorem declaration_lands (h : n ≤ m) : L.Lands Declaration.unspanned (declaration file n) (declaration file m) := by
  refine .after (outer_mirrors h rfl) fun p p' hp => ?_
  obtain ⟨attrs, docs⟩ := p
  obtain ⟨attrs', docs'⟩ := p'
  obtain ⟨hattrs, hdocs⟩ := Prod.mk.inj hp
  refine .bind_check (.after (visibility_mirrors h _) fun v v' hv => ?_)
  refine .bind (shape_lands hsites h) fun q q' hq => .pure ?_
  obtain rfl : v' = v := hv
  obtain ⟨ht, hs⟩ := Prod.mk.inj hq
  simp only at hattrs hdocs
  rw [Declaration.unspanned, Declaration.unspanned, hattrs, hdocs, hs, Token.text_eq ht]

theorem import_lands (h : n ≤ m) : L.Lands Import.unspanned (import_ file n) (import_ file m) := by
  refine .bind_here fun start start' => .after .shift fun _ _ _ => .after (path_mirrors h) fun path path' hpath => ?_
  obtain rfl : path' = path := hpath
  refine .bind_check (.bind_peek fun o => ?_)
  have hend (alias? : Option String) : L.Lands Import.unspanned
      (do let _ ← shift .items; return { path := path', alias?, span := start.spanTo file (← there) })
      (do let _ ← shift .items; return { path := path', alias?, span := start'.spanTo file (← there) }) :=
    .bind (.shift (hsites _ (by decide))) fun _ _ _ => .bind_there fun _ _ => .pure rfl
  split
  · refine .after .shift fun _ _ _ => .after .shift fun t t' ht => ?_
    rw [Token.text_eq ht]
    exact hend _
  · exact hend _

end Landing
end TypedErrors
