import TypedErrors.Proofs.Source.Items
import TypedErrors.Proofs.Source.Resumed

/-! # What is around a place

In front of a declaration, variant or field, or an attribute block or doc comment of it, comes a bracket, a comma, a
semicolon or a doc comment, or nothing at all. What comes at such a place is one of the terminals that come after an
attribute block (`PlaceTo.bounded`). -/

namespace TypedErrors

/-- What a declaration, variant or field stands behind. -/
def Terminal.bounds : List Terminal :=
  [.semicolon, .leftBrace, .rightBrace, .leftParen, .rightParen, .rightBracket, .comma, .doc]

/-- The token ahead fits the site, and the token before it is a bound. -/
structure Lookahead.Bounded (site : Site) (a : Lookahead) : Prop where
  admits : site.admits a.head? = true
  last : ∀ t, a.last = some t → t.terminal ∈ Terminal.bounds

namespace Lookahead

variable {site : Site} {a : Lookahead} {closer : Terminal}

/-- What fits a site and is not the closing bracket there comes after attribute blocks, too. -/
theorem Bounded.narrow (h : a.Bounded site) (hclose : a.head? ≠ some closer)
    (hend : site.mayEnd = true → a.head? ≠ none)
    (hsite : ∀ k ∈ site.accepts, k = closer ∨ k ∈ Site.outerNext.accepts) : a.Bounded .outerNext where
  admits := by
    have hadmits := h.admits
    cases hhead : a.head? with
    | none =>
      rw [hhead] at hadmits
      exact absurd hhead (hend hadmits)
    | some k =>
      rw [hhead] at hadmits
      obtain rfl | hk := hsite k (List.contains_iff_mem.mp hadmits)
      · exact absurd hhead hclose
      · exact List.contains_iff_mem.mpr hk
  last := h.last

theorem exists_head (h : site.admits a.head? = true) (hend : site.mayEnd = false) :
    ∃ k ∈ site.accepts, a.head? = some k := by
  cases hhead : a.head? with
  | none =>
    rw [hhead] at h
    rw [show site.mayEnd = true from h] at hend
    cases hend
  | some k =>
    rw [hhead] at h
    exact ⟨k, List.contains_iff_mem.mp h, rfl⟩

end Lookahead

namespace Parse

open Lookahead

variable {α : Type} {file : String} {n : Nat} {site : Site} {a b : Lookahead} {k : Terminal}

theorem shift_bounded {t : Token} (ha : a.head? = some k) (hk : k ∈ Terminal.bounds) (h : shift site a = .ok (t, b)) :
    b.Bounded site := by
  obtain ⟨ht, hb⟩ := shift_eq_ok.mp h
  refine ⟨admits_of_fetch hb, fun u hu => ?_⟩
  obtain rfl := Option.some.inj ((last_of_fetch hb).symm.trans hu)
  rw [head?, ht] at ha
  obtain rfl := Option.some.inj ha
  exact hk

/-- Behind what is checked the token ahead fits. -/
theorem check_bounded {site' : Site} {u : Unit} (ha : a.Bounded site) (h : check site' a = .ok (u, b)) :
    b.Bounded site' := by
  obtain ⟨hadmits, rfl⟩ := check_eq_ok.mp h
  exact ⟨hadmits, ha.last⟩

/-! ### Fields -/

/-- A list ends in front of its closing bracket. -/
theorem commaList_ends {item : Parse α} {closer : Terminal} {items next : Site} (hend : next.mayEnd = false)
    (hnext : ∀ k ∈ next.accepts, k = .comma ∨ k = closer) :
    ∀ {n : Nat} {acc xs : List α} {a b : Lookahead}, commaList item closer items next n acc a = .ok (xs, b) →
      b.head? = some closer
  | 0, _, _, _, _, h => by cases h
  | n + 1, acc, xs, a, b, h => by
    by_cases ha : a.head? = some closer
    · have hdone : commaList item closer items next (n + 1) acc a = .ok (acc.reverse, a) := by
        show (if a.head? = some closer then pure acc.reverse else _ : Parse (List α)) a = _
        rw [if_pos ha]
        rfl
      obtain ⟨-, rfl⟩ := Prod.mk.inj (Except.ok.inj (hdone.symm.trans h))
      exact ha
    · obtain ⟨x, c, -, h⟩ := (commaList_eq_ok ha).mp h
      obtain ⟨hadmits, h⟩ := bind_check_eq_ok.mp h
      obtain ⟨k, hk, hhead⟩ := exists_head hadmits hend
      rw [bind_peek_eq] at h
      generalize ho : c.head? = o at h
      split at h
      · obtain ⟨t, d, -, h⟩ := bind_eq_ok.mp h
        exact commaList_ends hend hnext h
      · next hcomma =>
        obtain ⟨-, rfl⟩ := Prod.mk.inj (Except.ok.inj h)
        obtain rfl | rfl := hnext k hk
        · exact absurd (ho.symm.trans hhead) hcomma
        · exact hhead

theorem namedFields_bounded {fs : Fields Field} (h : namedFields file n a = .ok (fs, b)) :
    b.Bounded .namedFieldsNext := by
  obtain ⟨_, c, -, h⟩ := bind_eq_ok.mp h
  obtain ⟨_, d, hlist, h⟩ := bind_eq_ok.mp h
  obtain ⟨_, e, ht, h⟩ := bind_eq_ok.mp h
  obtain ⟨-, rfl⟩ := Prod.mk.inj (Except.ok.inj h)
  exact shift_bounded (commaList_ends rfl (by decide) hlist) (by decide) ht

/-! ### Declarations and imports -/

/-- A declaration ends behind a closing brace or a semicolon. -/
theorem shape_bounded {p : Token × Shape} (h : shape file n a = .ok (p, b)) : b.Bounded .items := by
  obtain ⟨o, c, -, h⟩ := bind_eq_ok.mp h
  split at h
  · obtain ⟨_, d, -, h⟩ := bind_eq_ok.mp h
    obtain ⟨_, e, he, h⟩ := bind_eq_ok.mp h
    rw [bind_peek_eq] at h
    generalize ho : e.head? = o at h
    split at h
    · obtain ⟨_, f, hf, h⟩ := bind_eq_ok.mp h
      obtain ⟨_, g, hg, h⟩ := bind_eq_ok.mp h
      obtain ⟨-, rfl⟩ := Prod.mk.inj (Except.ok.inj h)
      exact check_bounded (namedFields_bounded hf) hg
    · obtain ⟨_, f, -, h⟩ := bind_eq_ok.mp h
      obtain ⟨hadmits, h⟩ := bind_check_eq_ok.mp h
      obtain ⟨k, hk, hhead⟩ := exists_head hadmits rfl
      obtain rfl := List.mem_singleton.mp hk
      obtain ⟨_, g, hg, h⟩ := bind_eq_ok.mp h
      obtain ⟨-, rfl⟩ := Prod.mk.inj (Except.ok.inj h)
      exact shift_bounded hhead (by decide) hg
    · obtain ⟨k, hk, hhead⟩ := exists_head (admits_of_fetch (shift_eq_ok.mp he).2) rfl
      obtain ⟨_, g, hg, h⟩ := bind_eq_ok.mp h
      obtain ⟨-, rfl⟩ := Prod.mk.inj (Except.ok.inj h)
      have hbounds : ∀ k ∈ Site.structNext.accepts, k ∈ Terminal.bounds := by decide
      exact shift_bounded hhead (hbounds k hk) hg
  · obtain ⟨_, d, -, h⟩ := bind_eq_ok.mp h
    obtain ⟨_, e, -, h⟩ := bind_eq_ok.mp h
    obtain ⟨_, f, -, h⟩ := bind_eq_ok.mp h
    obtain ⟨_, g, hlist, h⟩ := bind_eq_ok.mp h
    obtain ⟨_, i, ht, h⟩ := bind_eq_ok.mp h
    obtain ⟨-, rfl⟩ := Prod.mk.inj (Except.ok.inj h)
    exact shift_bounded (commaList_ends rfl (by decide) hlist) (by decide) ht
  · obtain ⟨_, d, -, h⟩ := bind_eq_ok.mp h
    obtain ⟨_, e, -, h⟩ := bind_eq_ok.mp h
    obtain ⟨_, f, hf, h⟩ := bind_eq_ok.mp h
    obtain ⟨_, g, hg, h⟩ := bind_eq_ok.mp h
    obtain ⟨-, rfl⟩ := Prod.mk.inj (Except.ok.inj h)
    exact check_bounded (namedFields_bounded hf) hg

theorem declaration_bounded {d : Declaration} (h : declaration file n a = .ok (d, b)) : b.Bounded .items := by
  obtain ⟨_, c, -, h⟩ := bind_eq_ok.mp h
  obtain ⟨_, c, -, h⟩ := bind_eq_ok.mp h
  obtain ⟨_, c, -, h⟩ := bind_eq_ok.mp h
  obtain ⟨_, e, he, h⟩ := bind_eq_ok.mp h
  obtain ⟨-, rfl⟩ := Prod.mk.inj (Except.ok.inj h)
  exact shape_bounded he

theorem import_bounded {i : Import} (h : import_ file n a = .ok (i, b)) : b.Bounded .items := by
  obtain ⟨_, c, -, h⟩ := bind_eq_ok.mp h
  obtain ⟨_, c, -, h⟩ := bind_eq_ok.mp h
  obtain ⟨_, c, -, h⟩ := bind_eq_ok.mp h
  obtain ⟨hadmits, h⟩ := bind_check_eq_ok.mp h
  rw [bind_peek_eq] at h
  have hend {alias? : Option String} {start : Position} {path : DottedName} {c : Lookahead}
      (hhead : c.head? = some .semicolon)
      (h : (do
        let _ ← shift .items
        return { path, alias?, span := start.spanTo file (← there) } : Parse Import) c = .ok (i, b)) :
      b.Bounded .items := by
    obtain ⟨_, d, hd, h⟩ := bind_eq_ok.mp h
    obtain ⟨_, e, he, h⟩ := bind_eq_ok.mp h
    obtain ⟨-, rfl⟩ := Prod.mk.inj (Except.ok.inj h)
    rw [there_still he]
    exact shift_bounded hhead (by decide) hd
  generalize ho : c.head? = o at h
  split at h
  · obtain ⟨_, d, -, h⟩ := bind_eq_ok.mp h
    obtain ⟨_, e, he, h⟩ := bind_eq_ok.mp h
    obtain ⟨k, hk, hhead⟩ := exists_head (admits_of_fetch (shift_eq_ok.mp he).2) rfl
    obtain rfl := List.mem_singleton.mp hk
    exact hend hhead h
  · next has =>
    obtain ⟨k, hk, hhead⟩ := exists_head hadmits rfl
    have hrest : ∀ k ∈ Site.importRest.accepts, k = .asWord ∨ k = .semicolon := by decide
    obtain rfl | rfl := hrest k hk
    · exact absurd (ho.symm.trans hhead) has
    · exact hend hhead h

/-! ### Attribute blocks and doc comments -/

theorem closer?_bounds {k k' : Terminal} (h : closer? k = some k') : k' ∈ Terminal.bounds := by
  cases k <;> cases h <;> decide

/-- An attribute block ends behind the bracket that closes it. -/
theorem attributeTokens_bounded : ∀ {n : Nat} {k : Terminal} {outer : List Terminal} {acc ts : List AttrToken}
    {a b : Lookahead}, (∀ j ∈ k :: outer, j ∈ Terminal.bounds) →
      attributeTokens file n (k :: outer) acc a = .ok (ts, b) → b.Bounded .outerNext
  | 0, _, _, _, _, _, _, _, h => by cases h
  | n + 1, k, outer, acc, ts, a, b, hopen, h => by
    obtain ⟨_, h⟩ := bind_check_eq_ok.mp h
    rw [bind_peek_eq] at h
    generalize ho : a.head? = o at h
    split at h
    · next hk =>
      cases outer with
      | nil =>
        obtain ⟨_, d, hd, h⟩ := bind_eq_ok.mp h
        obtain ⟨-, rfl⟩ := Prod.mk.inj (Except.ok.inj h)
        exact shift_bounded (ho.trans hk) (hopen k (List.mem_singleton_self k)) hd
      | cons k' outer =>
        obtain ⟨_, d, -, h⟩ := bind_eq_ok.mp h
        exact attributeTokens_bounded (fun j hj => hopen j (List.mem_cons_of_mem k hj)) h
    · generalize hcloser : o.bind closer? = k? at h
      cases k? with
      | some k' =>
        obtain ⟨_, d, -, h⟩ := bind_eq_ok.mp h
        obtain ⟨j, -, hcloser⟩ := Option.bind_eq_some_iff.mp hcloser
        exact attributeTokens_bounded (List.forall_mem_cons.mpr ⟨closer?_bounds hcloser, hopen⟩) h
      | none =>
        obtain ⟨_, d, -, h⟩ := bind_eq_ok.mp h
        exact attributeTokens_bounded hopen h

theorem attributeBlock_bounded {r : RawAttribute} (h : attributeBlock file n a = .ok (r, b)) :
    b.Bounded .outerNext := by
  obtain ⟨_, c, -, h⟩ := bind_eq_ok.mp h
  obtain ⟨_, c, -, h⟩ := bind_eq_ok.mp h
  obtain ⟨_, c, -, h⟩ := bind_eq_ok.mp h
  obtain ⟨_, d, hd, h⟩ := bind_eq_ok.mp h
  obtain ⟨_, e, he, h⟩ := bind_eq_ok.mp h
  obtain ⟨-, rfl⟩ := Prod.mk.inj (Except.ok.inj h)
  rw [there_still he]
  exact attributeTokens_bounded (by decide) hd

end Parse

/-! ### Places -/

section

variable {file : String} {a b : Lookahead}

theorem HeaderPart.Read.bounded {n : Nat} {x : HeaderPart} (h : Read file n a b x) : b.Bounded .outerNext := by
  cases h with
  | block _ h => exact Parse.attributeBlock_bounded h
  | doc ha h => exact Parse.shift_bounded ha (by decide) h

theorem HeaderTo.bounded {i : HeaderIndex} (h : HeaderTo file a i b) (ha : a.Bounded .outerNext) :
    b.Bounded .outerNext := by
  induction h with
  | here => exact ha
  | part hread _ ih => exact ih hread.bounded

/-- What comes at a place in a list, and the closing bracket does not. -/
theorem ListTo.bounded {α : Type} {item : Nat → Parse α} {closer : Terminal} {items : Site} {k : Nat}
    (h : ListTo item closer items a k b) (ha : a.Bounded items) : b.Bounded items ∧ b.head? ≠ some closer := by
  induction h with
  | here hopen => exact ⟨ha, hopen⟩
  | later _ _ hcomma ht _ ih => exact ih (Parse.shift_bounded hcomma (by decide) ht)

theorem FieldsTo.bounded {k : Nat} (h : FieldsTo file a k b) : b.Bounded .outerNext := by
  cases h with
  | named ha ht hlist =>
    obtain ⟨hb, hclose⟩ := hlist.bounded (Parse.shift_bounded ha (by decide) ht)
    exact hb.narrow hclose nofun (by decide)
  | unnamed ha ht hlist =>
    obtain ⟨hb, hclose⟩ := hlist.bounded (Parse.shift_bounded ha (by decide) ht)
    exact hb.narrow hclose nofun (by decide)

theorem VariantTo.bounded {part : VariantPart} (h : VariantTo file a part b) (ha : a.Bounded .outerNext) :
    b.Bounded .outerNext := by
  cases h with
  | self => exact ha
  | field _ _ hfields => exact hfields.bounded

theorem DeclarationTo.bounded {part : DeclarationPart} (h : DeclarationTo file a part b) (ha : a.Bounded .outerNext) :
    b.Bounded .outerNext := by
  cases h with
  | self => exact ha
  | struct _ hfields => exact hfields.bounded
  | union _ hfields => exact hfields.bounded
  | enum hname ht hlist hvariant =>
    obtain ⟨_, _, _, _, hu⟩ := hname
    obtain ⟨k, hk, hhead⟩ := Lookahead.exists_head (Lookahead.admits_of_fetch (Parse.shift_eq_ok.mp hu).2) rfl
    obtain rfl := List.mem_singleton.mp hk
    obtain ⟨hb, hclose⟩ := hlist.bounded (Parse.shift_bounded hhead (by decide) ht)
    exact hvariant.bounded (hb.narrow hclose nofun (by decide))

theorem ItemsTo.bounded {k : Nat} (h : ItemsTo file a k b) (ha : a.Bounded .items) : b.Bounded .outerNext := by
  induction h with
  | here huse hne => exact ha.narrow huse (fun _ => hne) (by decide)
  | import_ _ hi _ ih => exact ih (Parse.import_bounded hi)
  | declaration _ _ hd _ ih => exact ih (Parse.declaration_bounded hd)

theorem PlaceTo.bounded {place : HeaderPlace} (h : PlaceTo file a place b) (ha : a.Bounded .items) :
    b.Bounded .outerNext := by
  obtain ⟨hk, hpart, hi⟩ := h
  exact hi.bounded (hpart.bounded (hk.bounded ha))

end

/-! ### The way to a place -/

/-- Tokens are taken from `a` to `b`. -/
def Lookahead.Leads (a b : Lookahead) : Prop := ∃ ts, Takes a ts b

section

variable {file : String} {a b c : Lookahead} {α : Type} {x : Parse α} {v : α}

theorem Lookahead.Leads.refl : a.Leads a := ⟨[], .nil⟩

theorem Lookahead.Leads.trans (h : a.Leads b) (h' : b.Leads c) : a.Leads c := by
  obtain ⟨ts, hts⟩ := h
  obtain ⟨us, hus⟩ := h'
  exact ⟨ts ++ us, hts.append hus⟩

theorem Reads.leads {Q : (Token → Prop) → α → Prop} (hx : Reads x Q) (h : x a = .ok (v, b)) : a.Leads b := by
  obtain ⟨ts, hts, -⟩ := hx a v b h
  exact ⟨ts, hts⟩

theorem HeaderPart.Read.leads {n : Nat} {x : HeaderPart} (h : Read file n a b x) : a.Leads b := by
  cases h with
  | block _ h => exact (Parse.attributeBlock_reads _).leads h
  | doc _ h => exact Reads.shift.leads h

theorem HeaderTo.leads {i : HeaderIndex} (h : HeaderTo file a i b) : a.Leads b := by
  induction h with
  | here => exact .refl
  | part hread _ ih => exact hread.leads.trans ih

theorem ListTo.leads {item : Nat → Parse α} {Q : (Token → Prop) → α → Prop} {closer : Terminal} {items : Site} {k : Nat}
    (hitem : ∀ n, Reads (item n) Q) (h : ListTo item closer items a k b) : a.Leads b := by
  induction h with
  | here => exact .refl
  | later _ hx _ ht _ ih => exact ((hitem _).leads hx).trans ((Reads.shift.leads ht).trans ih)

theorem FieldsTo.leads {k : Nat} (h : FieldsTo file a k b) : a.Leads b := by
  cases h with
  | named _ ht h => exact (Reads.shift.leads ht).trans (h.leads Parse.namedField_reads)
  | unnamed _ ht h => exact (Reads.shift.leads ht).trans (h.leads Parse.unnamedField_reads)

theorem VariantTo.leads {part : VariantPart} (h : VariantTo file a part b) : a.Leads b := by
  cases h with
  | self => exact .refl
  | field hp ht h => exact ((Parse.outer_reads _).leads hp).trans ((Reads.shift.leads ht).trans h.leads)

theorem NameTo.leads {keyword : Terminal} {next : Site} (h : NameTo file keyword next a b) : a.Leads b := by
  obtain ⟨hp, hv, -, ht, hu⟩ := h
  exact ((Parse.outer_reads _).leads hp).trans (((Parse.visibility_reads _ _).leads hv).trans
    ((Reads.shift.leads ht).trans (Reads.shift.leads hu)))

theorem DeclarationTo.leads {part : DeclarationPart} (h : DeclarationTo file a part b) : a.Leads b := by
  cases h with
  | self => exact .refl
  | struct ha h => exact ha.leads.trans h.leads
  | union ha h => exact ha.leads.trans h.leads
  | enum ha ht hj h =>
    exact ha.leads.trans ((Reads.shift.leads ht).trans ((hj.leads Parse.variant_reads).trans h.leads))

theorem ItemsTo.leads {k : Nat} (h : ItemsTo file a k b) : a.Leads b := by
  induction h with
  | here => exact .refl
  | import_ _ hi _ ih => exact ((Parse.import_reads _).leads hi).trans ih
  | declaration _ _ hd _ ih => exact ((Parse.declaration_reads _).leads hd).trans ih

/-- A place is reached by taking tokens. -/
theorem PlaceTo.leads {place : HeaderPlace} (h : PlaceTo file a place b) : a.Leads b := by
  obtain ⟨hk, hpart, hi⟩ := h
  exact hk.leads.trans (hpart.leads.trans hi.leads)

end
end TypedErrors
