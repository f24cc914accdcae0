import TypedErrors.Proofs.Source.Resumed

/-! # Readings with one more attribute block or doc comment

Two readings go side by side up to a place in front of a declaration, variant or field. There the second one has one
more attribute block or doc comment to read, and then they agree (`Splice`). What encloses the place is read to the end
in the second reading too, and returned with the part inserted. -/

namespace TypedErrors

/-- A landing where the second reading has the part ahead, and agrees with the first one behind it. With `e` more fuel
than the first reading the second one can read the part. -/
structure Splice (file : String) (x : HeaderPart) (e : Nat) extends Landing where
  sites_of_isOpen (site : Site) (h : site.IsOpen) : sites site
  opens {a' : Lookahead} (h : lands a') : a'.Opens
  apart : ¬ live goal
  more : 1 ≤ e
  read {a' : Lookahead} {n : Nat} (h : lands a') (hn : e ≤ n) :
    ∃ x' b', HeaderPart.Read file n a' b' x' ∧ x'.unspanned = x.unspanned ∧ goal.Agrees b'

theorem insertIdx_reverse {α : Type} (xs ys : List α) (z : α) :
    (xs.reverse ++ ys).insertIdx xs.length z = (z :: xs).reverse ++ ys := by
  have happend : (xs.reverse ++ ys).insertIdx xs.reverse.length z = xs.reverse ++ z :: ys :=
    List.modifyTailIdx_add (List.cons z) 0 xs.reverse ys
  rw [← List.length_reverse, happend, List.reverse_cons, List.append_assoc, List.singleton_append]

theorem modify_reverse {α : Type} (xs ys : List α) (f : α → α) (y : α) :
    (xs.reverse ++ y :: ys).modify xs.length f = xs.reverse ++ f y :: ys := by
  have happend : (xs.reverse ++ y :: ys).modify xs.reverse.length f = xs.reverse ++ f y :: ys :=
    List.modifyTailIdx_add (List.modifyHead f) 0 xs.reverse (y :: ys)
  rw [← List.length_reverse, happend]

namespace HeaderPart

variable {file : String} {n : Nat} {a b : Lookahead} {x x' : HeaderPart}

/-- On top of the blocks read before. -/
def pushAttr (attrs : List RawAttribute) : HeaderPart → List RawAttribute
  | block a => a :: attrs
  | doc _ => attrs

/-- On top of the doc comments read before. -/
def pushDoc (docs : List String) : HeaderPart → List String
  | block _ => docs
  | doc s => s :: docs

theorem Read.outer (h : Read file n a b x) (attrs : List RawAttribute) (docs : List String) :
    Parse.outer file (n + 1) attrs docs a = Parse.outer file n (x.pushAttr attrs) (x.pushDoc docs) b := by
  rw [Parse.outer, Parse.peek_bind]
  cases h with
  | block ha h =>
    rw [ha]
    exact Parse.bind_of_ok h
  | doc ha h =>
    rw [ha]
    exact Parse.bind_of_ok h

theorem pushAttr_map (h : x'.unspanned = x.unspanned) {attrs attrs' : List RawAttribute}
    (hattrs : attrs'.map RawAttribute.unspanned = attrs.map RawAttribute.unspanned) :
    (x'.pushAttr attrs').map RawAttribute.unspanned = (x.pushAttr attrs).map RawAttribute.unspanned := by
  cases x with
  | block r =>
    cases x' with
    | block r' => exact congrArg₂ List.cons (HeaderPart.block.inj h) hattrs
    | doc => cases h
  | doc =>
    cases x' with
    | block => cases h
    | doc => exact hattrs

theorem pushDoc_eq (h : x'.unspanned = x.unspanned) (docs : List String) : x'.pushDoc docs = x.pushDoc docs := by
  cases x with
  | block =>
    cases x' with
    | block => rfl
    | doc => cases h
  | doc s =>
    cases x' with
    | block => cases h
    | doc s' => exact congrArg (· :: docs) (HeaderPart.doc.inj h)

theorem reverse_pushAttr (x : HeaderPart) (attrs more : List RawAttribute) :
    (x.pushAttr attrs).reverse ++ more = x.intoAttrs attrs.length (attrs.reverse ++ more) := by
  cases x with
  | block r => exact (insertIdx_reverse attrs more r).symm
  | doc => rfl

theorem reverse_pushDoc (x : HeaderPart) (docs more : List String) :
    (x.pushDoc docs).reverse ++ more = x.intoDocs docs.length (docs.reverse ++ more) := by
  cases x with
  | block => rfl
  | doc s => exact (insertIdx_reverse docs more s).symm

/-- The blocks and doc comments in front of something with the part among them. -/
def into (x : HeaderPart) (i : HeaderIndex) (p : List RawAttribute × List String) : List RawAttribute × List String :=
  (x.intoAttrs i.attrs p.1, x.intoDocs i.docs p.2)

end HeaderPart

namespace Splice

variable {file : String} {x : HeaderPart} {e : Nat} {S : Splice file x e} {α γ : Type} {u : α → γ} {y z : Parse α}
  {a a' b c : Lookahead} {v : α} {i : HeaderIndex}

/-- The first reading is at the goal or before it. -/
def Upto (S : Splice file x e) (a : Lookahead) : Prop := a = S.goal ∨ S.live a

/-- The two readings before the goal, or at it. -/
def Meets (S : Splice file x e) (a a' : Lookahead) : Prop := a = S.goal ∧ S.lands a' ∨ S.live a ∧ S.rel a a'

theorem Meets.rel (h : S.Meets a a') (ha : S.live a) : S.rel a a' := by
  obtain ⟨rfl, -⟩ | ⟨-, h⟩ := h
  · exact absurd ha S.apart
  · exact h

theorem Meets.lands (h : S.Meets S.goal a') : S.lands a' := by
  obtain ⟨-, h⟩ | ⟨h, -⟩ := h
  · exact h
  · exact absurd h S.apart

theorem live_of (hl : S.Lands u y z) (hm : S.Mirrors u y z) (h : y a = .ok (v, b)) (hb : S.Upto b) : S.live a := by
  obtain rfl | hb := hb
  · exact hl.back h
  · exact hm.back h hb

theorem advance (hl : S.Lands u y z) (hm : S.Mirrors u y z) (hrel : S.rel a a') (h : y a = .ok (v, b)) (hb : S.Upto b) :
    ∃ w b', z a' = .ok (w, b') ∧ S.Meets b b' ∧ u w = u v := by
  obtain rfl | hb := hb
  · obtain ⟨w, b', hz, hlands, hw⟩ := hl.step hrel h
    exact ⟨w, b', hz, .inl ⟨rfl, hlands⟩, hw⟩
  · obtain ⟨w, b', hz, hrel, hw⟩ := hm.step hrel h hb
    exact ⟨w, b', hz, .inr ⟨hb, hrel⟩, hw⟩

open Parse Coupling Landing

theorem live_of_shift {site : Site} {t : Token} (hsite : site.IsOpen) (ht : shift site a = .ok (t, b)) (hb : S.Upto b) :
    S.live a :=
  live_of (.shift (S.sites_of_isOpen site hsite)) .shift ht hb

theorem advance_shift {site : Site} {t : Token} (hsite : site.IsOpen) (hrel : S.rel a a')
    (ht : shift site a = .ok (t, b)) (hb : S.Upto b) :
    ∃ t' b', shift site a' = .ok (t', b') ∧ S.Meets b b' ∧ t'.lexeme = t.lexeme :=
  advance (.shift (S.sites_of_isOpen site hsite)) .shift hrel ht hb

/-! ### Attribute blocks and doc comments -/

theorem opens_of_lands (h : S.lands a') {k : Terminal} (hhash : k ≠ .hash) (hdoc : k ≠ .doc) : a'.head? ≠ some k := by
  obtain ⟨j, hj, rfl | rfl⟩ := S.opens h <;> rw [hj] <;> intro heq <;> cases heq
  · exact hhash rfl
  · exact hdoc rfl

theorem live_of_read {n : Nat} {y : HeaderPart} (h : HeaderPart.Read file n a b y) (hb : S.Upto b) : S.live a := by
  cases h with
  | block _ h =>
    have hn := Nat.le_refl n
    exact live_of (attributeBlock_lands (S.sites_of_isOpen _ (by decide)) hn) (attributeBlock_mirrors hn) h hb
  | doc _ h => exact live_of_shift (by decide) h hb

theorem advance_read {n m : Nat} {y : HeaderPart} (h : HeaderPart.Read file n a b y) (hnm : n ≤ m) (hb : S.Upto b)
    (ha : S.rel a a') : ∃ y' b', HeaderPart.Read file m a' b' y' ∧ S.Meets b b' ∧ y'.unspanned = y.unspanned := by
  cases h with
  | block hhead h =>
    obtain ⟨r, b', hr, hmeets, heq⟩ :=
      advance (attributeBlock_lands (S.sites_of_isOpen _ (by decide)) hnm) (attributeBlock_mirrors hnm) ha h hb
    exact ⟨.block r, b', .block ((S.head ha).trans hhead) hr, hmeets, congrArg HeaderPart.block heq⟩
  | doc hhead h =>
    obtain ⟨t, b', ht, hmeets, heq⟩ := advance_shift (by decide) ha h hb
    exact ⟨.doc (docText t), b', .doc ((S.head ha).trans hhead) ht, hmeets, congrArg HeaderPart.doc (docText_eq heq)⟩

theorem upto_header (h : HeaderTo file a i S.goal) : S.Upto a := by
  generalize hgoal : S.goal = g at h
  induction h with
  | here => exact .inl hgoal.symm
  | part h _ ih => exact .inr (live_of_read h (ih hgoal))

/-- What is read of a header with other fuel. -/
theorem exists_read {n m : Nat} {y : HeaderPart} {attrs : List RawAttribute} {docs : List String}
    {p : List RawAttribute × List String} (h : HeaderPart.Read file n a b y)
    (hp : outer file (m + 1) attrs docs a = .ok (p, c)) :
    ∃ y', HeaderPart.Read file m a b y' ∧ ∀ i : HeaderIndex, i.behind y' = i.behind y := by
  cases h with
  | block hhead h =>
    have hrun : outer file (m + 1) attrs docs a =
        (attributeBlock file m >>= fun r => outer file m (r :: attrs) docs) a := by
      rw [outer, peek_bind, hhead]
    rw [hrun] at hp
    obtain ⟨r, d, hr, -⟩ := Parse.bind_eq_ok.mp hp
    obtain rfl := ends_eq (u := RawAttribute.unspanned) attributeBlock_mirrors h hr
    exact ⟨.block r, .block hhead hr, fun _ => rfl⟩
  | doc hhead h => exact ⟨_, .doc hhead h, fun _ => rfl⟩

theorem outer_inserts (h : HeaderTo file a i S.goal) (ha : S.Meets a a') :
    ∀ {n : Nat} {attrs attrs' : List RawAttribute} {docs : List String} {p : List RawAttribute × List String}
      {b : Lookahead}, outer file n attrs docs a = .ok (p, b) →
      attrs'.map RawAttribute.unspanned = attrs.map RawAttribute.unspanned →
        ∃ p' b', outer file (n + e) attrs' docs a' = .ok (p', b') ∧ b.Agrees b' ∧
          headerKept p' = headerKept (x.into ⟨attrs.length + i.attrs, docs.length + i.docs⟩ p) := by
  generalize hgoal : S.goal = g at h
  induction h generalizing a' with
  | here =>
    subst hgoal
    intro n attrs attrs' docs p b hp hattrs
    cases n with
    | zero => cases hp
    | succ n =>
      have hmore := S.more
      obtain ⟨x', b₁, hread, hx, hagrees⟩ := S.read (n := n + e) ha.lands (Nat.le_add_left ..)
      obtain ⟨q, rfl, hq⟩ := outer_acc hp
      -- behind the part the second reading reads what the first one reads here
      obtain ⟨p', b', hp', hagrees, hkept⟩ :=
        (outer_mirrors (C := afterwards) (m := n + e) (by omega) (x.pushAttr_map hx hattrs)).step hagrees
          (hq (x.pushAttr attrs) (x.pushDoc docs)) trivial
      refine ⟨p', b', ?_, hagrees, ?_⟩
      · rw [Nat.add_right_comm, hread.outer, HeaderPart.pushDoc_eq hx]
        exact hp'
      · rw [hkept, HeaderPart.reverse_pushAttr, HeaderPart.reverse_pushDoc]
        rfl
  | @part a b c _ y i h hi ih =>
    intro n attrs attrs' docs p b' hp hattrs
    cases n with
    | zero => cases hp
    | succ n =>
      obtain ⟨y', hread, hbehind⟩ := exists_read h hp
      have hupto := upto_header (S := S) (hgoal ▸ hi)
      have hrel := ha.rel (live_of_read h hupto)
      obtain ⟨z, c', hread', hmeets, hz⟩ := advance_read hread (Nat.le_add_right n e) hupto hrel
      rw [hread.outer] at hp
      obtain ⟨p', d, hp', hagrees, hkept⟩ := ih hmeets hgoal hp (HeaderPart.pushAttr_map hz hattrs)
      refine ⟨p', d, ?_, hagrees, ?_⟩
      · rw [Nat.add_right_comm, hread'.outer, HeaderPart.pushDoc_eq hz]
        exact hp'
      · rw [hkept, ← hbehind]
        cases y' <;> simp only [HeaderPart.pushAttr, HeaderPart.pushDoc, HeaderIndex.behind, List.length_cons,
          Nat.add_right_comm, Nat.add_assoc]

/-- What is made of the attribute blocks and doc comments in front of something is made of them with the part among
them. -/
theorem header_inserts {β δ : Type} {Q : β → δ → Prop} {f : List RawAttribute × List String → Parse β}
    {g : List RawAttribute × List String → Parse δ} {n : Nat} {w : β} (h : HeaderTo file a i S.goal) (ha : S.Meets a a')
    (hf : ∀ p p', p'.1.map RawAttribute.unspanned = (x.intoAttrs i.attrs p.1).map RawAttribute.unspanned →
      p'.2 = x.intoDocs i.docs p.2 → Resumes Q (f p) (g p'))
    (hw : (outer file n [] [] >>= f) a = .ok (w, b)) :
    ∃ w' b', (outer file (n + e) [] [] >>= g) a' = .ok (w', b') ∧ b.Agrees b' ∧ Q w w' := by
  obtain ⟨p, c, hp, hw⟩ := Parse.bind_eq_ok.mp hw
  obtain ⟨p', c', hp', hagrees, hkept⟩ := outer_inserts h ha hp rfl
  simp only [List.length_nil, Nat.zero_add] at hkept
  obtain ⟨hattrs, hdocs⟩ := Prod.mk.inj hkept
  obtain ⟨w', b', hw', hagrees, hQ⟩ := (hf p p' hattrs hdocs).step hagrees hw
  exact ⟨w', b', Parse.bind_eq_ok.mpr ⟨p', c', hp', hw'⟩, hagrees, hQ⟩

/-! ### Lists -/

section

variable {item : Nat → Parse α} {edit : α → α} {closer : Terminal} {items next : Site} {k : Nat}

/-- Items of the list go side by side, with more fuel for the second reading. -/
def ItemMirrors (u : α → γ) (item : Nat → Parse α) : Prop :=
  ∀ {C : Coupling} {n m : Nat}, n ≤ m → C.Mirrors u (item n) (item m)

theorem upto_list (hitem : ItemMirrors u item) (hopen : items.IsOpen) (h : ListTo item closer items a k b)
    (hb : S.Upto b) : S.Upto a := by
  induction h with
  | here => exact hb
  | later _ hx _ ht _ ih =>
    exact .inr ((hitem (Nat.le_refl _)).back hx (live_of_shift hopen ht (ih hb)))

theorem commaNext_mirrors {C : Coupling} {n m : Nat} {acc acc' : List α} {y y' : α} (hitem : ItemMirrors u item)
    {p q : Nat} (hpq : p ≤ q) (hnm : n ≤ m) (hacc : (y' :: acc').map u = (y :: acc).map u) :
    C.Mirrors (List.map u) (commaNext (item p) closer items next n acc y)
      (commaNext (item q) closer items next m acc' y') := by
  refine .bind_check (.bind_peek fun o => ?_)
  split
  · exact .bind_shift fun _ _ _ => commaList_mirrors (hitem hpq) hnm hacc
  · exact .pure (by rw [List.map_reverse, List.map_reverse, hacc])

/-- Where an item of a list is changed, the list is changed at that item. -/
theorem commaList_inserts (hitem : ItemMirrors u item) (hopen : items.IsOpen) (hhash : closer ≠ .hash)
    (hdoc : closer ≠ .doc) (hchange : ∀ {b' c : Lookahead} {n : Nat} {v : α}, S.Meets b b' → item n b = .ok (v, c) →
      ∃ w c', item (n + e) b' = .ok (w, c') ∧ c.Agrees c' ∧ u w = u (edit v))
    (h : ListTo item closer items a k b) (hb : S.Upto b) (ha : S.Meets a a') :
    ∀ {n m : Nat} {acc acc' xs : List α} {c : Lookahead}, commaList (item n) closer items next m acc a = .ok (xs, c) →
      acc'.map u = acc.map u → ∃ xs' c', commaList (item (n + e)) closer items next (m + e) acc' a' = .ok (xs', c') ∧
        c.Agrees c' ∧ xs'.map u = (xs.modify (acc.length + k) edit).map u := by
  induction h generalizing a' with
  | here hopens =>
    intro n m acc acc' xs c hxs hacc
    cases m with
    | zero => cases hxs
    | succ m =>
      obtain ⟨y, d, hy, hrest⟩ := (commaList_eq_ok hopens).mp hxs
      obtain ⟨ys, rfl, hys⟩ := accFree_commaNext (accFree_commaList m) hrest
      obtain ⟨w, d', hw, hagrees, hedit⟩ := hchange ha hy
      have hcons : (w :: acc').map u = (edit y :: acc).map u := by rw [List.map_cons, List.map_cons, hedit, hacc]
      obtain ⟨xs', c', hxs', hagrees, hmap⟩ := (commaNext_mirrors (C := afterwards) hitem (Nat.le_add_right n e)
        (Nat.le_add_right m e) hcons).step hagrees (hys (edit y) acc) trivial
      have hopens' : a'.head? ≠ some closer := by
        obtain ⟨rfl, hlands⟩ | ⟨-, hrel⟩ := ha
        · exact opens_of_lands hlands hhash hdoc
        · rwa [S.head hrel]
      refine ⟨xs', c', ?_, hagrees, ?_⟩
      · rw [Nat.add_right_comm]
        exact (commaList_eq_ok hopens').mpr ⟨w, d', hw, hxs'⟩
      · rw [hmap, Nat.add_zero, modify_reverse]
  | @later a d f b p k y t hopens hy hcomma ht h ih =>
    intro n m acc acc' xs c hxs hacc
    cases m with
    | zero => cases hxs
    | succ m =>
      obtain ⟨z, d', hz, hrest⟩ := (commaList_eq_ok hopens).mp hxs
      obtain rfl := ends_eq hitem hy hz
      have hupto := upto_list hitem hopen h hb
      have hlive := live_of_shift hopen ht hupto
      have hrel₀ := ha.rel ((hitem (Nat.le_refl _)).back hy hlive)
      obtain ⟨w, d', hw, hrel, hzw⟩ := (hitem (Nat.le_add_right n e)).step hrel₀ hz hlive
      obtain ⟨t', f', ht', hmeets, -⟩ := advance_shift hopen hrel ht hupto
      obtain ⟨hadmits, hxs⟩ := (commaNext_comma hcomma ht).mp hrest
      have hcons : (w :: acc').map u = (z :: acc).map u := by rw [List.map_cons, List.map_cons, hzw, hacc]
      obtain ⟨xs', c', hxs', hagrees, hmap⟩ := ih hchange hb hmeets hxs hcons
      refine ⟨xs', c', ?_, hagrees, ?_⟩
      · rw [Nat.add_right_comm]
        have hopens' : a'.head? ≠ some closer := by rwa [S.head hrel₀]
        have hcomma' : d'.head? = some .comma := (S.head hrel).trans hcomma
        exact (commaList_eq_ok hopens').mpr ⟨w, d', hw, (commaNext_comma hcomma' ht').mpr ⟨hadmits, hxs'⟩⟩
      · rw [hmap, List.length_cons]
        congr 2
        omega

/-- Where an item of a list in brackets is changed, what is made of the list is made of the changed one. -/
theorem bracketed_inserts {β δ : Type} {Q : β → δ → Prop} {f : List α → β} {g : List α → δ} {after : Site} {n : Nat}
    {t : Token} {w : β} {d : Lookahead} (hitem : ItemMirrors u item) (hopen : items.IsOpen) (hhash : closer ≠ .hash)
    (hdoc : closer ≠ .doc) (hchange : ∀ {b' c : Lookahead} {n : Nat} {v : α}, S.Meets b b' → item n b = .ok (v, c) →
      ∃ w c', item (n + e) b' = .ok (w, c') ∧ c.Agrees c' ∧ u w = u (edit v))
    (ht : shift items a = .ok (t, c)) (h : ListTo item closer items c k b) (hb : S.Upto b) (ha : S.rel a a')
    (hf : ∀ xs xs', xs'.map u = (xs.modify k edit).map u → Q (f xs) (g xs'))
    (hw : (do
      let _ ← shift items
      let xs ← commaList (item n) closer items next n []
      let _ ← shift after
      return f xs : Parse β) a = .ok (w, d)) :
    ∃ w' d', (do
      let _ ← shift items
      let xs ← commaList (item (n + e)) closer items next (n + e) []
      let _ ← shift after
      return g xs : Parse δ) a' = .ok (w', d') ∧ d.Agrees d' ∧ Q w w' := by
  rw [bind_of_ok ht] at hw
  obtain ⟨xs, c₁, hxs, hw⟩ := Parse.bind_eq_ok.mp hw
  obtain ⟨t', c', ht', hmeets, -⟩ := advance_shift hopen ha ht (upto_list hitem hopen h hb)
  obtain ⟨xs', c₁', hxs', hagrees, hmap⟩ := commaList_inserts hitem hopen hhash hdoc hchange h hb hmeets hxs rfl
  rw [List.length_nil, Nat.zero_add] at hmap
  have hend : Resumes Q (do let _ ← shift after; return f xs) (do let _ ← shift after; return g xs') :=
    .bind_shift fun _ _ _ => .pure (hf xs xs' hmap)
  obtain ⟨w', d', hw', hagrees, hQ⟩ := hend.step hagrees hw
  exact ⟨w', d', (bind_of_ok ht').trans (Parse.bind_eq_ok.mpr ⟨xs', c₁', hxs', hw'⟩), hagrees, hQ⟩

end

/-! ### Fields -/

theorem bind_here_eq (a : Lookahead) : ∃ p, ∀ f : Position → Parse α, (Parse.here >>= f) a = f p a := by
  obtain ⟨token?, after, last⟩ := a
  cases token? <;> exact ⟨_, fun _ => rfl⟩

theorem namedField_inserts (h : HeaderTo file a i S.goal) (ha : S.Meets a a') {n : Nat} {p : String × Field}
    (hp : namedField file n a = .ok (p, b)) :
    ∃ p' b', namedField file (n + e) a' = .ok (p', b') ∧ b.Agrees b' ∧
      namedKept p' = namedKept (p.1, p.2.insert x i) := by
  have hn := Nat.le_add_right n e
  obtain ⟨start, hstart⟩ := bind_here_eq (α := String × Field) a
  obtain ⟨start', hstart'⟩ := bind_here_eq (α := String × Field) a'
  rw [namedField, hstart] at hp
  rw [namedField, hstart']
  refine header_inserts (Q := fun p p' => namedKept p' = namedKept (p.1, p.2.insert x i)) h ha
    (fun q q' hattrs hdocs => ?_) hp
  refine .bind_check (.bind_same (visibility_mirrors hn _) fun v => ?_)
  refine .bind_shift fun t t' ht => .bind_shift fun _ _ _ => ?_
  refine .bind_same (typeExpr_mirrors hn) fun type => .bind_there fun _ _ => .pure ?_
  rw [namedKept, namedKept, Field.insert, Field.unspanned, Field.unspanned, hattrs, hdocs, Token.text_eq ht]

theorem unnamedField_inserts (h : HeaderTo file a i S.goal) (ha : S.Meets a a') {n : Nat} {f : Field}
    (hf : unnamedField file n a = .ok (f, b)) :
    ∃ f' b', unnamedField file (n + e) a' = .ok (f', b') ∧ b.Agrees b' ∧
      f'.unspanned = (f.insert x i).unspanned := by
  have hn := Nat.le_add_right n e
  obtain ⟨start, hstart⟩ := bind_here_eq (α := Field) a
  obtain ⟨start', hstart'⟩ := bind_here_eq (α := Field) a'
  rw [unnamedField, hstart] at hf
  rw [unnamedField, hstart']
  refine header_inserts (Q := fun f f' : Field => f'.unspanned = (f.insert x i).unspanned) h ha
    (fun q q' hattrs hdocs => ?_) hf
  refine .bind_check (.bind_same (visibility_mirrors hn _) fun v => ?_)
  refine .bind_same (typeExpr_mirrors hn) fun type => .bind_there fun _ _ => .pure ?_
  rw [Field.insert, Field.unspanned, Field.unspanned, hattrs, hdocs]

theorem modify_ofList (xs : List Field) (k : Nat) (f : Field → Field) :
    (Fields.ofList xs).modify k f = .ofList (xs.modify k f) := by
  refine congrArg Fields.unnamed (List.ext_getElem (by simp) fun j hj hj' => ?_)
  simp only [List.getElem_modify, List.getElem_map, List.getElem_zipIdx]
  split <;> rfl

/-- The fields are the same but for the part inserted at the field `k`, and for places. -/
def ChangesFields (x : HeaderPart) (i : HeaderIndex) (k : Nat) (fs fs' : Fields Field) : Prop :=
  fs'.map Field.unspanned = (fs.modify k (Field.insert x i)).map Field.unspanned

/-- With `e` more fuel, fields are read from `a'` as from `a`, with the part inserted at the field `k`. -/
def FieldsChange (x : HeaderPart) (i : HeaderIndex) (k e : Nat) (read : Nat → Parse (Fields Field)) (a a' : Lookahead) :
    Prop :=
  ∀ {n : Nat} {fs : Fields Field} {d : Lookahead}, read n a = .ok (fs, d) →
    ∃ fs' d', read (n + e) a' = .ok (fs', d') ∧ d.Agrees d' ∧ ChangesFields x i k fs fs'

theorem FieldsChange.bind {β δ : Type} {Q : β → δ → Prop} {k n : Nat} {read : Nat → Parse (Fields Field)}
    {f : Fields Field → Parse β} {g : Fields Field → Parse δ} {w : β} (h : FieldsChange x i k e read a a')
    (hf : ∀ fs fs', ChangesFields x i k fs fs' → Resumes Q (f fs) (g fs')) (hw : (read n >>= f) a = .ok (w, b)) :
    ∃ w' b', (read (n + e) >>= g) a' = .ok (w', b') ∧ b.Agrees b' ∧ Q w w' := by
  obtain ⟨fs, c, hfs, hw⟩ := Parse.bind_eq_ok.mp hw
  obtain ⟨fs', c', hfs', hagrees, hchange⟩ := h hfs
  obtain ⟨w', b', hw', hagrees, hQ⟩ := (hf fs fs' hchange).step hagrees hw
  exact ⟨w', b', Parse.bind_eq_ok.mpr ⟨fs', c', hfs', hw'⟩, hagrees, hQ⟩

theorem fields_inserts {k : Nat} (hk : FieldsTo file a k b) (hi : HeaderTo file b i S.goal) (ha : S.rel a a') :
    a.head? = some .leftBrace ∧ FieldsChange x i k e (namedFields file) a a' ∨
      a.head? = some .leftParen ∧ FieldsChange x i k e (unnamedFields file) a a' := by
  have hb := upto_header hi
  cases hk with
  | named hhead ht hk =>
    refine .inl ⟨hhead, fun {n fs d} hfs => ?_⟩
    refine bracketed_inserts (u := namedKept) namedField_mirrors (by decide) (by decide) (by decide)
      (fun hb hv => namedField_inserts hi hb hv) ht hk hb ha (fun xs xs' hmap => ?_) hfs
    exact congrArg Fields.named hmap
  | unnamed hhead ht hk =>
    refine .inr ⟨hhead, fun {n fs d} hfs => ?_⟩
    refine bracketed_inserts (u := Field.unspanned) unnamedField_mirrors (by decide) (by decide) (by decide)
      (fun hb hv => unnamedField_inserts hi hb hv) ht hk hb ha (fun xs xs' hmap => ?_) hfs
    rw [ChangesFields, modify_ofList, ofList_map, ofList_map, hmap]

theorem live_fields {k : Nat} (hk : FieldsTo file a k b) (hb : S.Upto b) : S.live a := by
  cases hk with
  | named _ ht hk => exact live_of_shift (by decide) ht (upto_list namedField_mirrors (by decide) hk hb)
  | unnamed _ ht hk => exact live_of_shift (by decide) ht (upto_list unnamedField_mirrors (by decide) hk hb)

/-! ### Variants -/

theorem upto_variant {part : VariantPart} (h : VariantTo file a part b) (hb : S.Upto b) : S.Upto a := by
  cases h with
  | self => exact hb
  | field hp ht hk =>
    exact .inr ((outer_mirrors (Nat.le_refl _) rfl).back hp (Mirrors.shift.back ht (live_fields hk hb)))

theorem variant_inserts {part : VariantPart} (h : VariantTo file a part b) (hi : HeaderTo file b i S.goal)
    (ha : S.Meets a a') {n : Nat} {v : Variant} {d : Lookahead} (hv : variant file n a = .ok (v, d)) :
    ∃ v' d', variant file (n + e) a' = .ok (v', d') ∧ d.Agrees d' ∧ v'.unspanned = (v.insertAt x i part).unspanned := by
  have hn := Nat.le_add_right n e
  cases h with
  | self =>
    refine header_inserts (Q := fun v v' : Variant => v'.unspanned = (v.insert x i).unspanned) hi ha
      (fun q q' hattrs hdocs => ?_) hv
    refine .bind_check (.bind_shift fun t t' ht => .bind_peek fun o => ?_)
    have hend (fs fs' : Fields Field) (hfs : fs'.map Field.unspanned = fs.map Field.unspanned) :
        Resumes (fun v v' : Variant => v'.unspanned = (v.insert x i).unspanned)
          (Pure.pure { ident := t.text, fields := fs, attrs := q.1, docs := q.2, span := t.span file })
          (Pure.pure { ident := t'.text, fields := fs', attrs := q'.1, docs := q'.2, span := t'.span file }) := by
      refine .pure ?_
      rw [Variant.insert, Variant.unspanned, Variant.unspanned, hattrs, hdocs, hfs, Token.text_eq ht]
    split
    · exact .bind (.of_mirrors (namedFields_mirrors hn)) hend
    · exact .bind (.of_mirrors (unnamedFields_mirrors hn)) hend
    · exact .bind (P := fun v w => w = v) (.pure rfl) fun fs fs' hfs => hend fs fs' (by rw [hfs])
  | @field c₁ c₂ _ _ k _ t hp₀ ht hk =>
    obtain ⟨⟨attrs, docs⟩, c, hp, hv⟩ := Parse.bind_eq_ok.mp hv
    obtain rfl := ends_eq (fun h => outer_mirrors h rfl) hp₀ hp
    have hlive := live_fields hk (upto_header hi)
    have hlive₀ := Mirrors.shift.back ht hlive
    have hrel := ha.rel ((outer_mirrors (Nat.le_refl _) rfl).back hp hlive₀)
    obtain ⟨⟨attrs', docs'⟩, c', hp', hrel, hkept⟩ := (outer_mirrors hn rfl).step hrel hp hlive₀
    obtain ⟨hattrs, hdocs⟩ := Prod.mk.inj hkept
    obtain ⟨hadmits, hv⟩ := bind_check_eq_ok.mp hv
    rw [bind_of_ok ht] at hv
    obtain ⟨t', c₂', ht', hrel₂, htext⟩ := Mirrors.shift.step hrel ht hlive
    have hend (fs fs' : Fields Field) (hfs : ChangesFields x i k fs fs') :
        Resumes (fun v v' : Variant => v'.unspanned = (v.insertAt x i (.field k)).unspanned)
          (Pure.pure { ident := t.text, fields := fs, attrs, docs, span := t.span file })
          (Pure.pure { ident := t'.text, fields := fs', attrs := attrs', docs := docs', span := t'.span file }) := by
      refine .pure ?_
      simp only at hattrs hdocs
      rw [Variant.insertAt, Variant.unspanned, Variant.unspanned, hattrs, hdocs, hfs, Token.text_eq htext]
    have hrun {v' : Variant} {d' : Lookahead} (h : _ = Except.ok (v', d')) :
        variant file (n + e) a' = .ok (v', d') :=
      Parse.bind_eq_ok.mpr ⟨_, c', hp', bind_check_eq_ok.mpr ⟨(S.head hrel) ▸ hadmits, (bind_of_ok ht').trans h⟩⟩
    rw [peek_bind] at hv hrun
    rw [S.head hrel₂] at hrun
    obtain ⟨hhead, hchange⟩ | ⟨hhead, hchange⟩ := fields_inserts hk hi hrel₂
    · rw [hhead] at hv hrun
      obtain ⟨v', d', hv', hagrees, hkept⟩ := hchange.bind hend hv
      exact ⟨v', d', hrun hv', hagrees, hkept⟩
    · rw [hhead] at hv hrun
      obtain ⟨v', d', hv', hagrees, hkept⟩ := hchange.bind hend hv
      exact ⟨v', d', hrun hv', hagrees, hkept⟩

/-! ### Declarations -/

theorem live_name {keyword : Terminal} {next : Site} (h : NameTo file keyword next a b) (hb : S.live b) : S.live a := by
  obtain ⟨hp, hv, -, ht, hu⟩ := h
  exact (outer_mirrors (Nat.le_refl _) rfl).back hp ((visibility_mirrors (Nat.le_refl _) _).back hv
    (Mirrors.shift.back ht (Mirrors.shift.back hu hb)))

theorem upto_variants {j : Nat} {part : VariantPart} {d : Lookahead}
    (hj : ListTo (variant file) .rightBrace .variants a j b) (h : VariantTo file b part d) (hd : S.Upto d) : S.Upto a :=
  upto_list variant_mirrors (by decide) hj (upto_variant h hd)

theorem upto_declaration {part : DeclarationPart} (h : DeclarationTo file a part b) (hb : S.Upto b) : S.Upto a := by
  cases h with
  | self => exact hb
  | struct hname hk => exact .inr (live_name hname (live_fields hk hb))
  | union hname hk => exact .inr (live_name hname (live_fields hk hb))
  | enum hname ht hj hv =>
    exact .inr (live_name hname (live_of_shift (by decide) ht (upto_variants hj hv hb)))

/-- The name behind the keyword is taken in both readings. -/
theorem name_steps {next : Site} {t w : Token} {d f : Lookahead} (hc : S.rel c a') (ht : shift .name c = .ok (t, d))
    (hw : shift next d = .ok (w, f)) (hf : S.live f) : ∃ t' d' w' f', shift .name a' = .ok (t', d') ∧
      shift next d' = .ok (w', f') ∧ S.rel f f' ∧ w'.lexeme = w.lexeme := by
  obtain ⟨t', d', ht', hrel, -⟩ := Mirrors.shift.step hc ht (Mirrors.shift.back hw hf)
  obtain ⟨w', f', hw', hrel, hlexeme⟩ := Mirrors.shift.step hrel hw hf
  exact ⟨t', d', w', f', ht', hw', hrel, hlexeme⟩

/-- In the second reading the shape has the part inserted. -/
def ChangesShape (x : HeaderPart) (i : HeaderIndex) (part : DeclarationPart) (p p' : Token × Shape) : Prop :=
  shapeKept p' = shapeKept (p.1, p.2.insertAt x i part)

section
variable {m : Nat} {c d f : Lookahead} {t w : Token}

theorem shape_struct_named (hhead : c.head? = some .structWord) (ht : shift .name c = .ok (t, d))
    (hw : shift .structNext d = .ok (w, f)) (hf : f.head? = some .leftBrace) : shape file m c =
      (do
        let fields ← namedFields file m
        check .items
        return (w, .struct fields) : Parse (Token × Shape)) f := by
  rw [shape, peek_bind, hhead]
  show (shift .name >>= _) c = _
  rw [bind_of_ok ht, bind_of_ok hw, peek_bind, hf]

theorem shape_struct_unnamed (hhead : c.head? = some .structWord) (ht : shift .name c = .ok (t, d))
    (hw : shift .structNext d = .ok (w, f)) (hf : f.head? = some .leftParen) : shape file m c =
      (do
        let fields ← unnamedFields file m
        check .semicolonOnly
        let _ ← shift .items
        return (w, .struct fields) : Parse (Token × Shape)) f := by
  rw [shape, peek_bind, hhead]
  show (shift .name >>= _) c = _
  rw [bind_of_ok ht, bind_of_ok hw, peek_bind, hf]

theorem shape_union (hhead : c.head? = some .unionWord) (ht : shift .name c = .ok (t, d))
    (hw : shift .leftBraceOnly d = .ok (w, f)) : shape file m c =
      (do
        let fields ← namedFields file m
        check .items
        return (w, .union fields) : Parse (Token × Shape)) f := by
  rw [shape, peek_bind, hhead]
  show (shift .name >>= _) c = _
  rw [bind_of_ok ht, bind_of_ok hw]

theorem shape_enum (hhead : c.head? = some .enumWord) (ht : shift .name c = .ok (t, d))
    (hw : shift .leftBraceOnly d = .ok (w, f)) : shape file m c =
      (do
        let _ ← shift .variants
        let variants ← commaList (variant file m) .rightBrace .variants .braceList m []
        let _ ← shift .items
        return (w, .enum variants) : Parse (Token × Shape)) f := by
  rw [shape, peek_bind, hhead]
  show (shift .name >>= _) c = _
  rw [bind_of_ok ht, bind_of_ok hw]

end

theorem struct_inserts {k n : Nat} {t w : Token} {d f g : Lookahead} {p : Token × Shape}
    (hhead : c.head? = some .structWord) (ht : shift .name c = .ok (t, d)) (hw : shift .structNext d = .ok (w, f))
    (hk : FieldsTo file f k b) (hi : HeaderTo file b i S.goal) (hc : S.rel c a') (hp : shape file n c = .ok (p, g)) :
    ∃ p' g', shape file (n + e) a' = .ok (p', g') ∧ g.Agrees g' ∧ ChangesShape x i (.field k) p p' := by
  obtain ⟨t', d', w', f', ht', hw', hrel, hlexeme⟩ := name_steps hc ht hw (live_fields hk (upto_header hi))
  have hend {fs fs' : Fields Field} (hfs : ChangesFields x i k fs fs') :
      Resumes (ChangesShape x i (.field k)) (Pure.pure (w, .struct fs)) (Pure.pure (w', .struct fs')) :=
    .pure (congrArg₂ Prod.mk hlexeme (congrArg Shape.struct hfs))
  obtain ⟨hbrace, hchange⟩ | ⟨hparen, hchange⟩ := fields_inserts hk hi hrel
  · rw [shape_struct_named hhead ht hw hbrace] at hp
    rw [shape_struct_named ((S.head hc).trans hhead) ht' hw' ((S.head hrel).trans hbrace)]
    exact hchange.bind (fun _ _ hfs => .bind_check (hend hfs)) hp
  · rw [shape_struct_unnamed hhead ht hw hparen] at hp
    rw [shape_struct_unnamed ((S.head hc).trans hhead) ht' hw' ((S.head hrel).trans hparen)]
    exact hchange.bind (fun _ _ hfs => .bind_check (.bind_shift fun _ _ _ => hend hfs)) hp

theorem union_inserts {k n : Nat} {t w : Token} {d f g : Lookahead} {p : Token × Shape}
    (hhead : c.head? = some .unionWord) (ht : shift .name c = .ok (t, d)) (hw : shift .leftBraceOnly d = .ok (w, f))
    (hk : FieldsTo file f k b) (hi : HeaderTo file b i S.goal) (hc : S.rel c a') (hp : shape file n c = .ok (p, g)) :
    ∃ p' g', shape file (n + e) a' = .ok (p', g') ∧ g.Agrees g' ∧ ChangesShape x i (.field k) p p' := by
  obtain ⟨t', d', w', f', ht', hw', hrel, hlexeme⟩ := name_steps hc ht hw (live_fields hk (upto_header hi))
  rw [shape_union hhead ht hw] at hp
  rw [shape_union ((S.head hc).trans hhead) ht' hw']
  obtain ⟨-, hchange⟩ | ⟨hparen, -⟩ := fields_inserts hk hi hrel
  · have hend {fs fs' : Fields Field} (hfs : ChangesFields x i k fs fs') :
        Resumes (ChangesShape x i (.field k)) (Pure.pure (w, .union fs)) (Pure.pure (w', .union fs')) :=
      .pure (congrArg₂ Prod.mk hlexeme (congrArg Shape.union hfs))
    exact hchange.bind (fun _ _ hfs => .bind_check (hend hfs)) hp
  · -- only a brace follows the name of a union
    have hbrace := Lookahead.admits_of_fetch (shift_eq_ok.mp hw).2
    rw [hparen] at hbrace
    cases hbrace

theorem enum_inserts {j n : Nat} {part : VariantPart} {t w s : Token} {d f f₁ f₂ g : Lookahead} {p : Token × Shape}
    (hhead : c.head? = some .enumWord) (ht : shift .name c = .ok (t, d)) (hw : shift .leftBraceOnly d = .ok (w, f))
    (hs : shift .variants f = .ok (s, f₁)) (hj : ListTo (variant file) .rightBrace .variants f₁ j f₂)
    (hv : VariantTo file f₂ part b) (hi : HeaderTo file b i S.goal) (hc : S.rel c a')
    (hp : shape file n c = .ok (p, g)) :
    ∃ p' g', shape file (n + e) a' = .ok (p', g') ∧ g.Agrees g' ∧ ChangesShape x i (.variant j part) p p' := by
  have hlive := live_of_shift (by decide) hs (upto_variants hj hv (upto_header hi))
  obtain ⟨t', d', w', f', ht', hw', hrel, hlexeme⟩ := name_steps hc ht hw hlive
  rw [shape_enum hhead ht hw] at hp
  rw [shape_enum ((S.head hc).trans hhead) ht' hw']
  have hend (vs vs' : List Variant)
      (hvs : vs'.map Variant.unspanned = (vs.modify j (·.insertAt x i part)).map Variant.unspanned) :
      ChangesShape x i (.variant j part) (w, .enum vs) (w', .enum vs') :=
    congrArg₂ Prod.mk hlexeme (congrArg Shape.enum hvs)
  exact bracketed_inserts (u := Variant.unspanned) variant_mirrors (by decide) (by decide) (by decide)
    (fun hb hw => variant_inserts hv hi hb hw) hs hj (upto_variant hv (upto_header hi)) hrel hend hp

/-- Where the part is inserted in the shape, it is inserted in the declaration. -/
theorem declaration_of_shape {keyword : Terminal} {next : Site} {part : DeclarationPart} {n : Nat} {d : Declaration}
    {g : Lookahead} (hpart : part ≠ .self) (hname : NameTo file keyword next a b) (hb : S.live b) (ha : S.Meets a a')
    (hshape : ∀ {c c' f g : Lookahead} {t w : Token} {p : Token × Shape}, S.rel c c' → c.head? = some keyword →
      shift .name c = .ok (t, f) → shift next f = .ok (w, b) → shape file n c = .ok (p, g) →
        ∃ p' g', shape file (n + e) c' = .ok (p', g') ∧ g.Agrees g' ∧ ChangesShape x i part p p')
    (hd : declaration file n a = .ok (d, g)) :
    ∃ d' g', declaration file (n + e) a' = .ok (d', g') ∧ g.Agrees g' ∧
      d'.unspanned = (d.insertAt x i part).unspanned := by
  have hn := Nat.le_add_right n e
  have hrel := ha.rel (live_name hname hb)
  obtain ⟨hp₀, hv₀, hhead, ht, hw⟩ := hname
  obtain ⟨⟨attrs, docs⟩, c₁, hp, hd⟩ := Parse.bind_eq_ok.mp hd
  obtain rfl := ends_eq (fun h => outer_mirrors h rfl) hp₀ hp
  obtain ⟨hadmits, hd⟩ := bind_check_eq_ok.mp hd
  obtain ⟨v, c₂, hv, hd⟩ := Parse.bind_eq_ok.mp hd
  obtain rfl := ends_eq (fun h => visibility_mirrors h _) hv₀ hv
  obtain ⟨⟨u, s⟩, g₁, hp₁, hd⟩ := Parse.bind_eq_ok.mp hd
  have hlive := Mirrors.shift.back ht (Mirrors.shift.back hw hb)
  obtain ⟨⟨attrs', docs'⟩, c₁', hp', hrel, hkept⟩ :=
    (outer_mirrors hn rfl).step hrel hp ((visibility_mirrors hn _).back hv hlive)
  obtain ⟨v', c₂', hv', hrel₂, hvis⟩ := (visibility_mirrors hn _).step hrel hv hlive
  obtain ⟨⟨u', s'⟩, g', hp₁', hagrees, hchange⟩ := hshape hrel₂ hhead ht hw hp₁
  obtain ⟨rfl, rfl⟩ := Prod.mk.inj (Except.ok.inj hd)
  obtain ⟨hattrs, hdocs⟩ := Prod.mk.inj hkept
  obtain ⟨hu, hs⟩ := Prod.mk.inj hchange
  obtain rfl : v' = v := hvis
  refine ⟨_, g', Parse.bind_eq_ok.mpr ⟨_, c₁', hp', bind_check_eq_ok.mpr ⟨(S.head hrel) ▸ hadmits,
    Parse.bind_eq_ok.mpr ⟨v', c₂', hv', Parse.bind_eq_ok.mpr ⟨_, g', hp₁', rfl⟩⟩⟩⟩, hagrees, ?_⟩
  simp only at hattrs hdocs hu hs
  have hinsert (d : Declaration) : d.insertAt x i part = { d with shape := d.shape.insertAt x i part } := by
    cases part with
    | self => exact absurd rfl hpart
    | field | variant => rfl
  rw [hinsert, Declaration.unspanned, Declaration.unspanned, hattrs, hdocs, hs,
    Token.text_eq hu]

theorem declaration_inserts {part : DeclarationPart} (h : DeclarationTo file a part b) (hi : HeaderTo file b i S.goal)
    (ha : S.Meets a a') {n : Nat} {d : Declaration} {g : Lookahead} (hd : declaration file n a = .ok (d, g)) :
    ∃ d' g', declaration file (n + e) a' = .ok (d', g') ∧ g.Agrees g' ∧
      d'.unspanned = (d.insertAt x i part).unspanned := by
  cases h with
  | self =>
    have hn := Nat.le_add_right n e
    refine header_inserts (Q := fun d d' : Declaration => d'.unspanned = (d.insert x i).unspanned) hi ha
      (fun q q' hattrs hdocs => ?_) hd
    refine .bind_check (.bind_same (visibility_mirrors hn _) fun v => ?_)
    refine .bind (.of_mirrors (shape_mirrors hn)) fun p p' hp => .pure ?_
    obtain ⟨ht, hs⟩ := Prod.mk.inj hp
    rw [Declaration.insert, Declaration.unspanned, Declaration.unspanned, hattrs, hdocs, hs, Token.text_eq ht]
  | struct hname hk =>
    exact declaration_of_shape (fun hself => by cases hself) hname (live_fields hk (upto_header hi)) ha
      (fun hc hhead ht hw hp => struct_inserts hhead ht hw hk hi hc hp) hd
  | union hname hk =>
    exact declaration_of_shape (fun hself => by cases hself) hname (live_fields hk (upto_header hi)) ha
      (fun hc hhead ht hw hp => union_inserts hhead ht hw hk hi hc hp) hd
  | enum hname hs hj hv =>
    have hlive := live_of_shift (by decide) hs (upto_variants hj hv (upto_header hi))
    exact declaration_of_shape (fun hself => by cases hself) hname hlive ha
      (fun hc hhead ht hw hp => enum_inserts hhead ht hw hs hj hv hi hc hp) hd

/-! ### Files -/

theorem upto_items {k : Nat} (h : ItemsTo file a k b) (hb : S.Upto b) : S.Upto a := by
  induction h with
  | here => exact hb
  | @import_ _ _ _ n _ _ _ hread _ ih =>
    have hn := Nat.le_refl n
    exact .inr (live_of (import_lands S.sites_of_isOpen hn) (import_mirrors hn) hread (ih hb))
  | @declaration _ _ _ n _ _ _ _ hread _ ih =>
    have hn := Nat.le_refl n
    exact .inr (live_of (declaration_lands S.sites_of_isOpen hn) (declaration_mirrors hn) hread (ih hb))

theorem items_inserts {k : Nat} {part : DeclarationPart} {z : Lookahead} (hk : ItemsTo file a k b)
    (h : DeclarationTo file b part z) (hi : HeaderTo file z i S.goal) (ha : S.Meets a a') :
    ∀ {n : Nat} {is is' : List Import} {ds ds' : List Declaration} {f : SourceFile} {g : Lookahead},
      Parse.items file n is ds a = .ok (f, g) → is'.map Import.unspanned = is.map Import.unspanned →
        ds'.map Declaration.unspanned = ds.map Declaration.unspanned →
          ∃ f' g', Parse.items file (n + e) is' ds' a' = .ok (f', g') ∧
            f'.unspanned = (f.insert x ⟨ds.length + k, part, i⟩).unspanned := by
  induction hk generalizing a' with
  | here huse hne =>
    intro n is is' ds ds' f g hf his hds
    cases n with
    | zero => cases hf
    | succ n =>
      rw [items_of_declaration huse hne] at hf
      obtain ⟨d, c, hd, hf⟩ := Parse.bind_eq_ok.mp hf
      obtain ⟨is₁, ds₁, rfl, hrest⟩ := items_acc hf
      obtain ⟨d', c', hd', hagrees, hinsert⟩ := declaration_inserts h hi ha hd
      obtain ⟨huse', hne'⟩ : a'.head? ≠ some .useWord ∧ a'.head? ≠ none := by
        obtain ⟨rfl, hlands⟩ | ⟨-, hrel⟩ := ha
        · refine ⟨opens_of_lands hlands (by decide) (by decide), ?_⟩
          obtain ⟨_, hhead, -⟩ := S.opens hlands
          rw [hhead]
          exact Option.some_ne_none _
        · rw [S.head hrel]
          exact ⟨huse, hne⟩
      have hcons : (d' :: ds').map Declaration.unspanned =
          (d.insertAt x i part :: ds).map Declaration.unspanned := by rw [List.map_cons, List.map_cons, hinsert, hds]
      obtain ⟨f', g', hf', -, hkept⟩ := (items_mirrors (C := afterwards) (Nat.le_add_right n e) his hcons).step hagrees
        (hrest is (d.insertAt x i part :: ds)) trivial
      refine ⟨f', g', ?_, ?_⟩
      · rw [Nat.add_right_comm, items_of_declaration huse' hne']
        exact Parse.bind_eq_ok.mpr ⟨d', c', hd', hf'⟩
      · rw [hkept, SourceFile.insert]
        simp only [List.reverse_cons, List.append_assoc, List.singleton_append, Nat.add_zero, modify_reverse]
  | @import_ a b _ _ _ _ huse hread hk ih =>
    intro n is is' ds ds' f g hf his hds
    cases n with
    | zero => cases hf
    | succ n =>
      rw [items_of_import huse] at hf
      obtain ⟨j, c, hj, hf⟩ := Parse.bind_eq_ok.mp hf
      obtain rfl := ends_eq import_mirrors hread hj
      have hupto := upto_items hk (upto_declaration h (upto_header hi))
      have hn := Nat.le_add_right n e
      have hrel := ha.rel (live_of (import_lands S.sites_of_isOpen hn) (import_mirrors hn) hj hupto)
      obtain ⟨j', c', hj', hmeets, hkept⟩ :=
        advance (import_lands S.sites_of_isOpen hn) (import_mirrors hn) hrel hj hupto
      have hcons : (j' :: is').map Import.unspanned = (j :: is).map Import.unspanned := by
        rw [List.map_cons, List.map_cons, hkept, his]
      obtain ⟨f', g', hf', hinsert⟩ := ih h hmeets hf hcons hds
      refine ⟨f', g', ?_, hinsert⟩
      rw [Nat.add_right_comm, items_of_import ((S.head hrel).trans huse)]
      exact Parse.bind_eq_ok.mpr ⟨j', c', hj', hf'⟩
  | @declaration a b _ _ k _ huse hne hread hk ih =>
    intro n is is' ds ds' f g hf his hds
    cases n with
    | zero => cases hf
    | succ n =>
      rw [items_of_declaration huse hne] at hf
      obtain ⟨d, c, hd, hf⟩ := Parse.bind_eq_ok.mp hf
      obtain rfl := ends_eq declaration_mirrors hread hd
      have hupto := upto_items hk (upto_declaration h (upto_header hi))
      have hn := Nat.le_add_right n e
      have hrel := ha.rel (live_of (declaration_lands S.sites_of_isOpen hn) (declaration_mirrors hn) hd hupto)
      obtain ⟨d', c', hd', hmeets, hkept⟩ :=
        advance (declaration_lands S.sites_of_isOpen hn) (declaration_mirrors hn) hrel hd hupto
      have hcons : (d' :: ds').map Declaration.unspanned = (d :: ds).map Declaration.unspanned := by
        rw [List.map_cons, List.map_cons, hkept, hds]
      obtain ⟨f', g', hf', hinsert⟩ := ih h hmeets hf his hcons
      refine ⟨f', g', ?_, ?_⟩
      · rw [Nat.add_right_comm, items_of_declaration ((S.head hrel) ▸ huse) ((S.head hrel) ▸ hne)]
        exact Parse.bind_eq_ok.mpr ⟨d', c', hd', hf'⟩
      · rw [hinsert, List.length_cons, Nat.add_right_comm, Nat.add_assoc]

end Splice
end TypedErrors
