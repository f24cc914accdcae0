import TypedErrors.Proofs.Source.Extents
import TypedErrors.Proofs.Source.Fields
import TypedErrors.Proofs.Source.Legs

/-! # Files read again with other steps for their types

Every function of the grammar replays itself: when it reads something in legs, it reads the same in any legs like these,
with fuel for as many tokens as are then taken. -/

namespace TypedErrors

def Shape.fields : Shape → List Field
  | .struct fs => fs.values
  | .enum vs => vs.flatMap fun v => v.fields.values
  | .union fs => fs.values

/-- The fields of the declarations, in order. -/
def SourceFile.fields (f : SourceFile) : List Field := f.declarations.flatMap fun d => d.shape.fields

namespace Replays

open Parse Coupling

variable {ι : Type} {file : String}

/-! ### Paths -/

theorem pathRest : ∀ {n : Nat} {ι : Type} {acc : List String} {acc' : ι → List String} {c : Nat}
    {A : Option Terminal → Prop}, 1 ≤ c → (∀ i, acc' i = acc) →
      Replays file c 0 A .plain [] (fun _ => []) (pathRest n acc) fun i m => pathRest m (acc' i)
  | 0, _, _, _, _, _, _, _ => .exhausted
  | n + 1, ι, acc, acc', c, A, hc, hacc => by
    have hmore {A : Option Terminal → Prop} : Replays file (c - 1) 0 A .plain [] (fun _ : ι => []) (do
        let _ ← shift .segment
        check .name
        let t ← shift .pathNext
        Parse.pathRest n (t.text :: acc)) fun i m => (do
        let _ ← shift .segment
        check .name
        let t ← shift .pathNext
        Parse.pathRest m (t.text :: acc' i)) := by
      refine .bind_shift fun _ => .bind_check (.bind_shift fun t => Replays.pathRest (by omega) fun p => ?_)
      rw [Token.text_eq p.2.2, hacc]
    refine .succ hc (.bind_peek fun o _ => ?_)
    split
    · exact hmore
    · exact hmore
    · exact .pure (fun i => by rw [hacc]) rfl fun _ => rfl

theorem path {n c : Nat} {A : Option Terminal → Prop} :
    Replays file c 0 A .plain [] (fun _ : ι => []) (path n) fun _ m => path m := by
  refine .bind_shift fun t => .bind_same (.pathRest (by omega) fun _ => rfl) fun _ => ?_
  refine .pure (fun p => ?_) rfl fun _ => rfl
  rw [Token.text_eq p.2.2]

/-! ### Attribute blocks -/

def blocksView : View (List AttrToken) (List AttrToken) := ⟨List.map AttrToken.unspanned, fun _ => []⟩

def blockView : View RawAttribute RawAttribute := ⟨RawAttribute.unspanned, fun _ => []⟩

def headerView : View (List RawAttribute × List String) (List RawAttribute × List String) := ⟨headerKept, fun _ => []⟩

theorem attributeTokens : ∀ {n : Nat} {ι : Type} {open_ : List Terminal} {acc : List AttrToken}
    {acc' : ι → List AttrToken} {c : Nat} {A : Option Terminal → Prop}, 1 ≤ c →
      (∀ i, (acc' i).map AttrToken.unspanned = acc.map AttrToken.unspanned) →
        Replays file c 0 A blocksView [] (fun _ => []) (attributeTokens file n open_ acc)
          fun i m => attributeTokens file m open_ (acc' i)
  | 0, _, _, _, _, _, _, _, _ => .exhausted
  | n + 1, _, [], acc, acc', _, _, hc, hacc => by
    refine .succ hc (.pure (fun i => ?_) rfl fun _ => rfl)
    rw [blocksView]
    simp only [List.map_reverse, hacc]
  | n + 1, ι, k :: outer, acc, acc', c, A, hc, hacc => by
    have htake {site : Site} {open_ : List Terminal} {A : Option Terminal → Prop} :
        Replays file (c - 1) 0 A blocksView [] (fun _ : ι => []) (do
          let t ← shift site
          Parse.attributeTokens file n open_ (⟨t.terminal, t.text, t.span file⟩ :: acc)) fun i m => (do
          let t ← shift site
          Parse.attributeTokens file m open_ (⟨t.terminal, t.text, t.span file⟩ :: acc' i)) := by
      refine .bind_shift fun t => Replays.attributeTokens (by omega) fun p => ?_
      obtain ⟨hterminal, htext⟩ := Lexeme.mk.inj p.2.2
      rw [List.map_cons, List.map_cons, hacc, hterminal, htext]
      rfl
    refine .succ hc (.bind_check (.bind_peek fun ahead _ => ?_))
    split
    · split
      · refine .bind_shift fun _ => .pure (fun p => ?_) rfl fun _ => rfl
        rw [blocksView]
        simp only [List.map_reverse, hacc]
      · exact htake
    · split <;> exact htake

theorem attributeBlock {n c : Nat} {A : Option Terminal → Prop} :
    Replays file c 1 A blockView [] (fun _ : ι => []) (attributeBlock file n) fun _ m => attributeBlock file m := by
  refine .bind_here fun _ => .bind_shift fun _ => .bind_shift fun _ => ?_
  refine .bind (.attributeTokens (by omega) fun _ => rfl) fun ts => .bind_there fun _ => ?_
  refine .pure (fun p => ?_) rfl fun _ => rfl
  exact congrArg (fun ts => (⟨ts, none⟩ : RawAttribute)) p.1.2.2

theorem outer : ∀ {n : Nat} {ι : Type} {attrs : List RawAttribute} {attrs' : ι → List RawAttribute} {docs : List String}
    {docs' : ι → List String} {c : Nat} {A : Option Terminal → Prop}, 1 ≤ c →
      (∀ i, (attrs' i).map RawAttribute.unspanned = attrs.map RawAttribute.unspanned) → (∀ i, docs' i = docs) →
        Replays file c 0 A headerView [] (fun _ => []) (outer file n attrs docs)
          fun i m => outer file m (attrs' i) (docs' i)
  | 0, _, _, _, _, _, _, _, _, _, _ => .exhausted
  | n + 1, ι, attrs, attrs', docs, docs', c, A, hc, hattrs, hdocs => by
    refine .succ hc (.bind_peek fun o _ => ?_)
    split
    · refine .bind .attributeBlock fun a => .outer (by omega) (fun p => ?_) fun p => hdocs p.1
      rw [List.map_cons, List.map_cons, hattrs, show p.2.1.unspanned = a.unspanned from p.2.2]
    · refine .bind_shift fun t => .outer (by omega) (fun p => hattrs p.1) fun p => ?_
      rw [docText_eq p.2.2, hdocs]
    · refine .pure (fun i => ?_) rfl fun _ => rfl
      rw [headerView]
      simp only [headerKept, List.map_reverse, hattrs, hdocs]

/-! ### Visibilities -/

theorem scopes : ∀ {n : Nat} {ι : Type} {acc : List String} {acc' : ι → List String} {c : Nat}
    {A : Option Terminal → Prop}, 1 ≤ c → (∀ i, acc' i = acc) →
      Replays file c 0 A .plain [] (fun _ => []) (scopes n acc) fun i m => scopes m (acc' i)
  | 0, _, _, _, _, _, _, _ => .exhausted
  | n + 1, ι, acc, acc', c, A, hc, hacc => by
    have hmore {A : Option Terminal → Prop} : Replays file (c - 1) 0 A .plain [] (fun _ : ι => []) (do
        let _ ← shift .segment
        let t ← shift .segmentNext
        Parse.scopes n (t.text :: acc)) fun i m => (do
        let _ ← shift .segment
        let t ← shift .segmentNext
        Parse.scopes m (t.text :: acc' i)) := by
      refine .bind_shift fun _ => .bind_shift fun t => Replays.scopes (by omega) fun p => ?_
      rw [Token.text_eq p.2.2, hacc]
    refine .succ hc (.bind_peek fun o _ => ?_)
    split
    · exact hmore
    · exact hmore
    · exact .pure (fun i => by rw [hacc]) rfl fun _ => rfl

theorem restriction {n c : Nat} {A : Option Terminal → Prop} :
    Replays file c 0 A .plain [] (fun _ : ι => []) (restriction n) fun _ m => restriction m := by
  refine .bind_peek fun o _ => ?_
  split
  · refine .bind_shift fun _ => .bind_shift fun t => .bind_same (.scopes (by omega) fun _ => rfl) fun _ => ?_
    refine .pure (fun p => ?_) rfl fun _ => rfl
    rw [Token.text_eq p.2.2]
  · exact .bind_shift fun _ => .pure (fun _ => rfl) rfl fun _ => rfl
  · refine .bind_shift fun t => .pure (fun p => ?_) rfl fun _ => rfl
    rw [Token.text_eq p.2.2]

theorem visibility {n c : Nat} {A : Option Terminal → Prop} (next : Site) :
    Replays file c 0 A .plain [] (fun _ : ι => []) (visibility n next) fun _ m => visibility m next := by
  have hend {ι : Type} {c : Nat} {A : Option Terminal → Prop} (v : Visibility) :
      Replays file c 0 A .plain [] (fun _ : ι => []) (do check next; return v) fun _ _ => do check next; return v :=
    .bind_check (.pure (fun _ => rfl) rfl fun _ => rfl)
  refine .bind_peek fun o _ => ?_
  split
  · refine .bind_shift fun _ => .bind_peek fun o _ => ?_
    split
    · refine .bind_shift fun _ => .bind_same .restriction fun v => .bind_shift fun _ => ?_
      exact .bind_same (.pure (fun _ => rfl) rfl fun _ => rfl) hend
    · exact .bind_same (.pure (fun _ => rfl) rfl fun _ => rfl) hend
  · exact .pure (fun _ => rfl) rfl fun _ => rfl

/-! ### Fields -/

def namedView : View (String × Field) (String × Field) := ⟨namedKept, fun p => [p.2.ending]⟩

def fieldView : View Field Field := ⟨Field.unspanned, fun f => [f.ending]⟩

def listView {α γ : Type} (V : View α γ) : View (List α) (List γ) := ⟨List.map V.kept, fun xs => xs.flatMap V.endings⟩

def fieldsView : View (Fields Field) (Fields Field) :=
  ⟨Fields.map Field.unspanned, fun fs => fs.values.map Field.ending⟩

/-- What is ahead behind attribute blocks and doc comments. -/
def NotOuter (k : Option Terminal) : Prop := k ≠ some .hash ∧ k ≠ some .doc

theorem notOuter_of_outer {n : Nat} {a b : Lookahead} {p : List RawAttribute × List String}
    (ha : ∃ site, a.FetchedAt site) (h : Parse.outer file n [] [] a = .ok (p, b)) : NotOuter b.head? := by
  obtain ⟨site, last, c, hfetch⟩ := ha
  obtain ⟨-, -, hk, -⟩ := header_derives [] n a.head? a a p b .nil rfl (Lookahead.spelt_of_fetch hfetch) h
  exact hk

theorem name_of_visibility {n : Nat} {a b : Lookahead} {v : Visibility} (ha : ∃ site, a.FetchedAt site)
    (hfield : NotOuter a.head? ∧ Site.fieldNext.admits a.head? = true) (h : Parse.visibility n .name a = .ok (v, b)) :
    b.head? = some .name := by
  obtain ⟨site, last, c, hfetch⟩ := ha
  obtain ⟨-, -, -, hadmits | ⟨hsame, hpub⟩⟩ :=
    visibility_derives n .name a a v b .nil rfl (Lookahead.spelt_of_fetch hfetch) h
  · exact ahead_of_only hadmits
  · obtain ⟨⟨hhash, hdoc⟩, hadmits⟩ := hfield
    rw [← hsame] at hhash hdoc hadmits
    obtain ⟨k, hk, hahead⟩ := Site.exists_of_admits hadmits rfl
    have hrest : ∀ k ∈ Site.fieldNext.accepts, some k ≠ some .hash → some k ≠ some .doc → some k ≠ some .pubWord →
        some k = some Terminal.name := by decide
    rw [hahead] at hhash hdoc hpub ⊢
    exact hrest k hk hhash hdoc hpub

theorem namedField {n c : Nat} {A : Option Terminal → Prop} (hc : 1 ≤ c) :
    Replays file c 1 A namedView [] (fun _ : ι => []) (namedField file n) fun _ m => namedField file m := by
  refine .bind_here fun _ => .bind (.outer hc (fun _ => rfl) fun _ => rfl) fun p => ?_
  obtain ⟨attrs, docs⟩ := p
  refine .bind_check (.bind_same (.visibility _) fun _ => .bind_shift fun t => .bind_shift fun _ => ?_)
  refine .bind_type (by omega) (fun k hk => ahead_of_only hk) fun e stop => .pure (fun p => ?_) rfl fun _ => rfl
  obtain ⟨⟨⟨⟨-, header⟩, t', ht⟩, -⟩, -⟩ := p
  obtain ⟨hattrs, hdocs⟩ := Prod.mk.inj header.2
  simp only at hattrs hdocs
  simp only [namedView, namedKept, Field.unspanned, hattrs, hdocs, Token.text_eq ht]

theorem unnamedField {n c : Nat} {A : Option Terminal → Prop} (hc : 2 ≤ c) :
    Replays file c 1 A fieldView [] (fun _ : ι => []) (unnamedField file n) fun _ m => unnamedField file m := by
  refine .bind_here fun _ => .bind_post (B := fun _ => NotOuter) (.outer (by omega) (fun _ => rfl) fun _ => rfl)
    (fun ha _ h => notOuter_of_outer ha h) fun p => ?_
  obtain ⟨attrs, docs⟩ := p
  refine .bind_check (.bind_same_post (B := fun _ k => k = some .name) (.visibility _)
    (fun ha hA h => name_of_visibility ha hA h) fun _ => ?_)
  refine .bind_type (by omega) (fun k hk => hk) fun e stop => .pure (fun p => ?_) rfl fun _ => rfl
  obtain ⟨⟨-, header⟩, -⟩ := p
  obtain ⟨hattrs, hdocs⟩ := Prod.mk.inj header.2
  simp only at hattrs hdocs
  simp only [fieldView, Field.unspanned, hattrs, hdocs]

theorem commaList {α γ : Type} {V : View α γ} {item : Parse α} {item' : Nat → Parse α} {closer : Terminal}
    {items next : Site} {k : Nat} (hitem : ∀ {ι : Type} {c : Nat} {A : Option Terminal → Prop}, k ≤ c →
      Replays file c 1 A V [] (fun _ : ι => []) item fun _ => item') :
    ∀ {n : Nat} {ι : Type} {acc : List α} {acc' : ι → List α} {φ : Nat → Nat} {c : Nat} {A : Option Terminal → Prop},
      k + 1 ≤ c → (∀ m, m ≤ φ m) → (∀ i, (acc' i).map V.kept = acc.map V.kept) →
        Replays file c 0 A (listView V) (acc.reverse.flatMap V.endings) (fun i => (acc' i).reverse.flatMap V.endings)
          (commaList item closer items next n acc) fun i m => commaList (item' (φ m)) closer items next m (acc' i)
  | 0, _, _, _, _, _, _, _, _, _ => .exhausted
  | n + 1, ι, acc, acc', φ, c, A, hc, hφ, hacc => by
    have hφ' (m : Nat) : m ≤ φ (m + 1) := (Nat.le_succ m).trans (hφ _)
    refine .succ (by omega) (.bind_peek fun o _ => ?_)
    split
    · refine .pure (fun i => ?_) rfl fun _ => rfl
      simp only [listView, List.map_reverse, hacc]
    · have hitem' : Replays file (c - 1) 1 (· = o) V [] (fun _ : ι => []) item _ :=
        (hitem (by omega)).later hφ'
      refine hitem'.bind fun x => .bind_check (.bind_peek fun o _ => ?_)
      have hcons (p : ι × { x' : α // V.kept x' = V.kept x }) :
          (p.2.1 :: acc' p.1).map V.kept = (x :: acc).map V.kept := by
        rw [List.map_cons, List.map_cons, p.2.2, hacc]
      split
      · refine .bind_shift fun _ => ?_
        refine .congr_endings (Replays.commaList hitem (by omega) hφ' fun p => hcons p.1) ?_ fun p => ?_
        · simp
        · simp
      · refine .pure (fun p => ?_) (by simp [listView]) fun p => by simp [listView]
        simp only [listView, List.map_reverse, hcons p]

/-- A list from its first item on. -/
theorem wholeList {α γ : Type} {V : View α γ} {item : Parse α} {item' : Nat → Parse α} {closer : Terminal}
    {items next : Site} {k n c : Nat} {A : Option Terminal → Prop}
    (hitem : ∀ {ι : Type} {c : Nat} {A : Option Terminal → Prop}, k ≤ c →
      Replays file c 1 A V [] (fun _ : ι => []) item fun _ => item') (hc : k + 1 ≤ c) :
    Replays file c 0 A (listView V) [] (fun _ : ι => []) (Parse.commaList item closer items next n [])
      fun _ m => Parse.commaList (item' m) closer items next m [] :=
  .commaList hitem (φ := id) hc (fun _ => Nat.le_refl _) fun _ => rfl

theorem namedFields {n c : Nat} {A : Option Terminal → Prop} (hc : 1 ≤ c) :
    Replays file c 1 A fieldsView [] (fun _ : ι => []) (namedFields file n) fun _ m => namedFields file m := by
  have hends (fs : List (String × Field)) :
      fieldsView.endings (.named fs) = (listView namedView).endings fs := by
    simp only [fieldsView, listView, namedView, Fields.values_named, List.map_map]
    exact List.map_eq_flatMap
  refine .bind_shift fun _ => .bind (.wholeList .namedField (Nat.add_le_add_right hc 1)) fun fs => ?_
  exact .bind_shift fun _ => .pure (fun p => congrArg Fields.named p.1.2.2) (hends fs) fun p => hends p.1.2.1

theorem unnamedFields {n c : Nat} {A : Option Terminal → Prop} (hc : 2 ≤ c) :
    Replays file c 1 A fieldsView [] (fun _ : ι => []) (unnamedFields file n) fun _ m => unnamedFields file m := by
  have hends (fs : List Field) : fieldsView.endings (.ofList fs) = (listView fieldView).endings fs := by
    simp only [fieldsView, listView, fieldView, Fields.values_ofList, List.map_eq_flatMap]
  refine .bind_shift fun _ => .bind (.wholeList .unnamedField (Nat.add_le_add_right hc 1)) fun fs => ?_
  refine .bind_shift fun _ => .pure (fun p => ?_) (hends fs) fun p => hends p.1.2.1
  simp only [fieldsView, ofList_map]
  exact congrArg Fields.ofList p.1.2.2

/-! ### Declarations -/

def variantView : View Variant Variant := ⟨Variant.unspanned, fun v => v.fields.values.map Field.ending⟩

def shapeView : View (Token × Shape) (Lexeme × Shape) := ⟨shapeKept, fun p => p.2.fields.map Field.ending⟩

def declarationView : View Declaration Declaration :=
  ⟨Declaration.unspanned, fun d => d.shape.fields.map Field.ending⟩

def importView : View Import Import := ⟨Import.unspanned, fun _ => []⟩

def fileView : View SourceFile SourceFile := ⟨SourceFile.unspanned, fun f => f.fields.map Field.ending⟩

theorem variant {n c : Nat} {A : Option Terminal → Prop} (hc : 1 ≤ c) :
    Replays file c 1 A variantView [] (fun _ : ι => []) (variant file n) fun _ m => variant file m := by
  refine .bind (.outer hc (fun _ => rfl) fun _ => rfl) fun p => ?_
  obtain ⟨attrs, docs⟩ := p
  refine .bind_check (.bind_shift fun t => .bind_peek fun o _ => ?_)
  have hend {κ : Type} {c : Nat} {fs' : κ → Fields Field} {q : κ → List RawAttribute × List String} {t' : κ → Token}
      (fs : Fields Field) (hfs : ∀ i, (fs' i).map Field.unspanned = fs.map Field.unspanned)
      (hq : ∀ i, headerKept (q i) = headerKept (attrs, docs)) (ht : ∀ i, (t' i).lexeme = t.lexeme) :
      Replays file c 0 (fun _ => True) variantView (fieldsView.endings fs) (fun i => fieldsView.endings (fs' i))
        (Pure.pure { ident := t.text, fields := fs, attrs, docs, span := t.span file }) fun i _ =>
        Pure.pure
          { ident := (t' i).text, fields := fs' i, attrs := (q i).1, docs := (q i).2, span := (t' i).span file } := by
    refine .pure (fun i => ?_) rfl fun _ => rfl
    obtain ⟨hattrs, hdocs⟩ := Prod.mk.inj (hq i)
    simp only at hattrs hdocs
    simp only [variantView, Variant.unspanned, hattrs, hdocs, hfs, Token.text_eq (ht i)]
  split
  · exact .bind (.namedFields (by omega)) fun fs => hend fs (fun p => p.2.2) (fun p => p.1.1.2.2) fun p => p.1.2.2
  · exact .bind (.unnamedFields (by omega)) fun fs => hend fs (fun p => p.2.2) (fun p => p.1.1.2.2) fun p => p.1.2.2
  · have hunit {ι : Type} {c : Nat} {A : Option Terminal → Prop} :
        Replays file c 0 A fieldsView [] (fun _ : ι => []) (Pure.pure .unit) fun _ _ => Pure.pure .unit :=
      .pure (fun _ => rfl) rfl fun _ => rfl
    exact hunit.bind fun fs => hend fs (fun p => p.2.2) (fun p => p.1.1.2.2) fun p => p.1.2.2

theorem shape {n c : Nat} {A : Option Terminal → Prop} :
    Replays file c 1 A shapeView [] (fun _ : ι => []) (shape file n) fun _ m => shape file m := by
  have hkept {t t' : Token} {s s' : Shape} (ht : t'.lexeme = t.lexeme) (hs : s'.unspanned = s.unspanned) :
      shapeKept (t', s') = shapeKept (t, s) := by rw [shapeKept, shapeKept, ht, hs]
  refine .bind_peek fun o _ => ?_
  split
  · refine .bind_shift fun _ => .bind_shift fun t => .bind_peek fun o _ => ?_
    split
    · refine .bind (.namedFields (by omega)) fun fs => .bind_check (.pure (fun p => ?_) rfl fun _ => rfl)
      exact hkept p.1.2.2 (congrArg Shape.struct p.2.2)
    · refine .bind (.unnamedFields (by omega)) fun fs => .bind_check (.bind_shift fun _ => ?_)
      exact .pure (fun p => hkept p.1.1.2.2 (congrArg Shape.struct p.1.2.2)) rfl fun _ => rfl
    · exact .bind_shift fun _ => .pure (fun p => hkept p.1.2.2 rfl) rfl fun _ => rfl
  · have hends (t : Token) (vs : List Variant) :
        shapeView.endings (t, .enum vs) = (listView variantView).endings vs := List.map_flatMap
    refine .bind_shift fun _ => .bind_shift fun t => .bind_shift fun _ => ?_
    refine .bind (.wholeList .variant (Nat.le_add_left 2 (c + 1))) fun vs => .bind_shift fun _ => ?_
    exact .pure (fun p => hkept p.1.1.1.2.2 (congrArg Shape.enum p.1.2.2)) (hends t vs) fun p => hends _ p.1.2.1
  · refine .bind_shift fun _ => .bind_shift fun t => .bind (.namedFields (by omega)) fun fs => ?_
    exact .bind_check (.pure (fun p => hkept p.1.2.2 (congrArg Shape.union p.2.2)) rfl fun _ => rfl)

theorem declaration {n c : Nat} {A : Option Terminal → Prop} (hc : 1 ≤ c) :
    Replays file c 1 A declarationView [] (fun _ : ι => []) (declaration file n) fun _ m => declaration file m := by
  refine .bind (.outer hc (fun _ => rfl) fun _ => rfl) fun p => ?_
  obtain ⟨attrs, docs⟩ := p
  refine .bind_check (.bind_same (.visibility _) fun _ => .bind .shape fun q => .pure (fun p => ?_) rfl fun _ => rfl)
  obtain ⟨⟨-, header⟩, shape⟩ := p
  obtain ⟨hattrs, hdocs⟩ := Prod.mk.inj header.2
  obtain ⟨ht, hs⟩ := Prod.mk.inj shape.2
  simp only at hattrs hdocs
  simp only [declarationView, Declaration.unspanned, hattrs, hdocs, hs, Token.text_eq ht]

theorem import_ {n c : Nat} {A : Option Terminal → Prop} :
    Replays file c 1 A importView [] (fun _ : ι => []) (import_ file n) fun _ m => import_ file m := by
  refine .bind_here fun start => .bind_shift fun _ => .bind_same .path fun path => ?_
  have hend {κ : Type} {c : Nat} (starts : κ → Position) (alias? : Option String) :
      Replays file c 0 (fun _ => True) importView [] (fun _ => [])
        (do let _ ← shift .items; return { path, alias?, span := start.spanTo file (← there) }) fun i _ =>
        (do let _ ← shift .items; return { path, alias?, span := (starts i).spanTo file (← there) }) :=
    .bind_shift fun _ => .bind_there fun _ => .pure (fun _ => rfl) rfl fun _ => rfl
  refine .bind_check (.bind_peek fun o _ => ?_)
  split
  · refine .bind_shift fun _ => .bind_shift fun t => .bind_same (.pure (fun p => ?_) rfl fun _ => rfl) (hend _)
    exact congrArg some (Token.text_eq p.2.2)
  · exact .bind_same (.pure (fun _ => rfl) rfl fun _ => rfl) (hend _)

theorem items : ∀ {n : Nat} {ι : Type} {is : List Import} {is' : ι → List Import} {ds : List Declaration}
    {ds' : ι → List Declaration} {c : Nat} {A : Option Terminal → Prop}, 2 ≤ c →
      (∀ i, (is' i).map Import.unspanned = is.map Import.unspanned) →
        (∀ i, (ds' i).map Declaration.unspanned = ds.map Declaration.unspanned) →
          Replays file c 0 A fileView (ds.reverse.flatMap declarationView.endings)
            (fun i => (ds' i).reverse.flatMap declarationView.endings) (Parse.items file n is ds)
            fun i m => Parse.items file m (is' i) (ds' i)
  | 0, _, _, _, _, _, _, _, _, _, _ => .exhausted
  | n + 1, ι, is, is', ds, ds', c, A, hc, his, hds => by
    refine .succ (by omega) (.bind_peek fun o _ => ?_)
    split
    · refine .pure (fun i => ?_) List.map_flatMap fun i => List.map_flatMap
      simp only [fileView, SourceFile.unspanned, List.map_reverse, his, hds]
    · refine .bind .import_ fun i => ?_
      refine .congr_endings (Replays.items (by omega) (fun p => ?_) fun p => hds p.1) ?_ fun p => ?_
      · rw [List.map_cons, List.map_cons, his, show p.2.1.unspanned = i.unspanned from p.2.2]
      · exact (List.append_nil _).symm
      · exact (List.append_nil _).symm
    · refine .bind (.declaration (by omega)) fun d => ?_
      refine .congr_endings (Replays.items (by omega) (fun p => his p.1) fun p => ?_) ?_ fun p => ?_
      · show (p.2.1 :: ds' p.1).map Declaration.unspanned = (d :: ds).map Declaration.unspanned
        rw [List.map_cons, List.map_cons, hds, show p.2.1.unspanned = d.unspanned from p.2.2]
      · simp
      · simp

end Replays
end TypedErrors
