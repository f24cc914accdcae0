import TypedErrors.Proofs.Source.Strings
import TypedErrors.Proofs.Source.Taken

/-! # What a declaration is made of

A parser takes tokens one after another, and what it returns is made of them (`Reads`): the tokens of attribute blocks,
the strings in types, and the places at which something starts. There is one rule for each step a parser can make, and
every function of the grammar is read with these rules (`declaration_reads`). -/

namespace TypedErrors

variable {α β : Type} {file : String}

/-! ### Parsers -/

/-- The parser takes tokens one after another, and `Q` holds of what it returns and of anything that is true of these
tokens. -/
def Reads (x : Parse α) (Q : (Token → Prop) → α → Prop) : Prop :=
  ∀ a v (b : Lookahead), x a = .ok (v, b) → ∃ ts, Takes a ts b ∧ ∀ P : Token → Prop, (∀ t ∈ ts, P t) → Q P v

namespace Reads

variable {x : Parse α} {f : α → Parse β} {Q Q' : (Token → Prop) → α → Prop} {R : (Token → Prop) → β → Prop} {v : α}

/-- A step that takes nothing. -/
theorem still (hx : ∀ a v b, x a = .ok (v, b) → b = a) : Reads x fun _ _ => True := by
  intro a v b h
  exact ⟨[], hx a v b h ▸ .nil, fun _ _ => trivial⟩

theorem pure (h : ∀ P, Q P v) : Reads (Pure.pure v) Q := by
  intro a w b hw
  obtain ⟨rfl, rfl⟩ := Prod.mk.inj (Except.ok.inj hw)
  exact ⟨[], .nil, fun P _ => h P⟩

theorem bind (hx : Reads x Q) (hf : ∀ v, Reads (f v) fun P w => Q P v → R P w) :
    Reads (x >>= f) R := by
  intro a w b hw
  obtain ⟨v, c, hv, hw⟩ := Parse.bind_eq_ok.mp hw
  obtain ⟨ts, hts, hQ⟩ := hx a v c hv
  obtain ⟨us, hus, hR⟩ := hf v c w b hw
  refine ⟨ts ++ us, hts.append hus, fun P h => ?_⟩
  obtain ⟨h, h'⟩ := List.forall_mem_append.mp h
  exact hR P h' (hQ P h)

/-- The rule for a step whose value has no place. -/
theorem andThen (hx : Reads x fun _ _ => True) (hf : ∀ v, Reads (f v) R) : Reads (x >>= f) R :=
  hx.bind fun v a w b hw => by
    obtain ⟨us, hus, hR⟩ := hf v a w b hw
    exact ⟨us, hus, fun P h _ => hR P h⟩

theorem mono (hx : Reads x Q) (h : ∀ P v, Q P v → Q' P v) : Reads x Q' := by
  intro a v b hv
  obtain ⟨ts, hts, hQ⟩ := hx a v b hv
  exact ⟨ts, hts, fun P hP => h P v (hQ P hP)⟩

theorem exhausted : Reads Parse.exhausted Q := by
  intro a v b h
  cases h

theorem shift {site : Site} : Reads (Parse.shift site) fun P t => P t := by
  intro a t b h
  obtain ⟨ht, hfetch⟩ := Parse.shift_eq_ok.mp h
  exact ⟨[t], .cons ht hfetch .nil, fun P hP => hP t (List.mem_singleton_self t)⟩

theorem skip {site : Site} : Reads (Parse.shift site) fun _ _ => True := shift.mono fun _ _ _ => trivial

theorem here : Reads Parse.here fun _ _ => True := still fun _ _ _ => Parse.here_still

theorem peek : Reads Parse.peek fun _ _ => True := still fun _ _ _ => Parse.peek_still

theorem there : Reads Parse.there fun _ _ => True := still fun _ _ _ => Parse.there_still

theorem check {site : Site} : Reads (Parse.check site) fun _ _ => True := still fun _ _ _ => Parse.check_still

/-- The rule for a look at the place of the token ahead, when a token is taken then. -/
theorem bind_here {f : Position → Parse β} (hf : ∀ p, Reads (f p) fun P w =>
    (∃ t, P t) ∧ ∀ t, P t → t.start = p → R P w) : Reads (Parse.here >>= f) R := by
  intro a w b hw
  obtain ⟨p, c, hp, hrest⟩ := Parse.bind_eq_ok.mp hw
  obtain rfl := Parse.here_still hp
  obtain ⟨ts, hts, hR⟩ := hf p c w b hrest
  have hne : ts ≠ [] := by
    -- nothing is true of some token and true of all of none
    rintro rfl
    exact (hR (fun _ => False) nofun).1.elim fun _ h => h
  obtain ⟨t, us, rfl⟩ := List.exists_cons_of_ne_nil hne
  have hstart := Parse.here_eq_ok hts.head hp
  exact ⟨_, hts, fun P hP => (hR P hP).2 t (hP t (List.mem_cons_self ..)) hstart.symm⟩

/-- The rule for a look at the token that is taken then. -/
theorem bind_peek {f : Option Terminal → Parse β} (hf : ∀ o a, a.token?.map (·.terminal) = o →
    ∀ v (b : Lookahead), f o a = .ok (v, b) →
      ∃ ts, Takes a ts b ∧ ∀ P : Token → Prop, (∀ t ∈ ts, P t) → R P v) : Reads (Parse.peek >>= f) R := by
  intro a v b h
  obtain ⟨o, c, ho, h⟩ := Parse.bind_eq_ok.mp h
  obtain ⟨rfl, rfl⟩ := Prod.mk.inj (Except.ok.inj ho)
  exact hf _ a rfl v b h

end Reads

/-! ### Parts -/

variable {P : Token → Prop}

/-- The place starts where one of the tokens does. -/
def StartsAt (file : String) (P : Token → Prop) (s : Option Span) : Prop :=
  ∃ t, P t ∧ ∃ stop, s = some (t.start.spanTo file stop)

/-- The strings are the texts of string tokens. -/
def SpelledBy (P : Token → Prop) (ss : List String) : Prop := ∀ s ∈ ss, ∃ t, P t ∧ t.terminal = .string ∧ t.text = s

theorem SpelledBy.append {ss ss' : List String} (h : SpelledBy P ss) (h' : SpelledBy P ss') : SpelledBy P (ss ++ ss') :=
  List.forall_mem_append.mpr ⟨h, h'⟩

theorem SpelledBy.flatMap {xs : List α} {strings : α → List String} (h : ∀ x ∈ xs, SpelledBy P (strings x)) :
    SpelledBy P (xs.flatMap strings) := by
  intro s hs
  obtain ⟨x, hx, hs⟩ := List.mem_flatMap.mp hs
  exact h x hx s hs

theorem TypeAtom.stringsMore_eq (as : List TypeAtom) : TypeAtom.stringsMore as = as.flatMap TypeAtom.strings := by
  induction as with
  | nil => rfl
  | cons a as ih => rw [stringsMore, ih, List.flatMap_cons]

theorem TypeArg.stringsMore_eq (as : List TypeArg) : TypeArg.stringsMore as = as.flatMap TypeArg.strings := by
  induction as with
  | nil => rfl
  | cons a as ih => rw [stringsMore, ih, List.flatMap_cons]

/-- The token as it is kept in a block. -/
def Token.kept (file : String) (t : Token) : AttrToken := ⟨t.terminal, t.text, t.span file⟩

structure RawAttribute.MadeOf (file : String) (P : Token → Prop) (a : RawAttribute) : Prop where
  tokens : ∀ t ∈ a.tokens, ∃ u, P u ∧ u.kept file = t
  span : StartsAt file P a.span

structure Field.MadeOf (file : String) (P : Token → Prop) (f : Field) : Prop where
  attrs : ∀ a ∈ f.attrs, a.MadeOf file P
  type : SpelledBy P f.type.strings
  span : StartsAt file P f.span

structure Variant.MadeOf (file : String) (P : Token → Prop) (v : Variant) : Prop where
  attrs : ∀ a ∈ v.attrs, a.MadeOf file P
  fields : ∀ f ∈ v.fields.values, f.MadeOf file P
  span : StartsAt file P v.span

def Shape.MadeOf (file : String) (P : Token → Prop) : Shape → Prop
  | .struct fields | .union fields => ∀ f ∈ fields.values, f.MadeOf file P
  | .enum variants => ∀ v ∈ variants, v.MadeOf file P

/-- The blocks, the strings and the places of the declaration come from the tokens. -/
structure Declaration.MadeOf (file : String) (P : Token → Prop) (d : Declaration) : Prop where
  attrs : ∀ a ∈ d.attrs, a.MadeOf file P
  shape : d.shape.MadeOf file P
  span : StartsAt file P d.span

namespace Parse

/-! ### Types -/

theorem pathRest_reads : ∀ (n : Nat) (acc : List String), Reads (pathRest n acc) fun _ _ => True
  | 0, _ => .exhausted
  | n + 1, acc => by
    refine .andThen .peek fun _ => ?_
    split
    · exact .andThen .skip fun _ => .andThen .check fun _ => .andThen .skip fun _ => pathRest_reads n _
    · exact .andThen .skip fun _ => .andThen .check fun _ => .andThen .skip fun _ => pathRest_reads n _
    · exact .pure fun _ => trivial

/-- A path takes its first token at least. -/
theorem path_reads (n : Nat) : Reads (path n) fun P _ => ∃ t, P t :=
  .bind .shift fun t => .andThen (pathRest_reads n _) fun _ => .pure fun _ ht => ⟨t, ht⟩

mutual

theorem typeExpr_reads (n : Nat) : Reads (typeExpr n) fun P e => (∃ t, P t) ∧ SpelledBy P e.strings := by
  cases n with
  | zero => exact .exhausted
  | succ n =>
    refine .bind (typeAtom_reads n) fun _ => .bind (typeMore_reads n) fun as => .pure fun _ has ha => ⟨ha.1, ?_⟩
    rw [TypeExpr.strings, TypeAtom.stringsMore_eq]
    exact ha.2.append (.flatMap (has (List.forall_mem_nil _)))

theorem typeMore_reads (n : Nat) {acc : List TypeAtom} : Reads (typeMore n acc) fun P as =>
    (∀ a ∈ acc, SpelledBy P a.strings) → ∀ a ∈ as, SpelledBy P a.strings := by
  cases n with
  | zero => exact .exhausted
  | succ n =>
    refine .andThen .peek fun _ => ?_
    split
    · exact .andThen .skip fun _ => .bind (typeAtom_reads n) fun _ => (typeMore_reads n).mono fun _ _ h ha hacc =>
        h (List.forall_mem_cons.mpr ⟨ha.2, hacc⟩)
    · exact .pure fun _ hacc a ha => hacc a (List.mem_reverse.mp ha)

theorem typeAtom_reads (n : Nat) : Reads (typeAtom n) fun P a => (∃ t, P t) ∧ SpelledBy P a.strings := by
  cases n with
  | zero => exact .exhausted
  | succ n =>
    refine .bind (path_reads n) fun _ => .andThen .check fun _ => .andThen .peek fun _ => ?_
    split
    · refine .andThen .skip fun _ => .bind (typeArg_reads n) fun _ => .bind (typeArgs_reads n) fun as => ?_
      refine .andThen .skip fun _ => .pure fun _ has ha ht => ⟨ht, ?_⟩
      rw [TypeAtom.strings, TypeArg.stringsMore_eq]
      exact ha.append (.flatMap (has (List.forall_mem_nil _)))
    · exact .pure fun _ ht => ⟨ht, List.forall_mem_nil _⟩

theorem typeArgs_reads (n : Nat) {acc : List TypeArg} : Reads (typeArgs n acc) fun P as =>
    (∀ a ∈ acc, SpelledBy P a.strings) → ∀ a ∈ as, SpelledBy P a.strings := by
  cases n with
  | zero => exact .exhausted
  | succ n =>
    refine .andThen .check fun _ => .andThen .peek fun _ => ?_
    split
    · refine .andThen .skip fun _ => .andThen .peek fun _ => ?_
      split
      · exact .pure fun _ hacc a ha => hacc a (List.mem_reverse.mp ha)
      · exact .bind (typeArg_reads n) fun _ => (typeArgs_reads n).mono fun _ _ h ha hacc =>
          h (List.forall_mem_cons.mpr ⟨ha, hacc⟩)
    · exact .pure fun _ hacc a ha => hacc a (List.mem_reverse.mp ha)

theorem typeArg_reads (n : Nat) : Reads (typeArg n) fun P a => SpelledBy P a.strings := by
  cases n with
  | zero => exact .exhausted
  | succ n =>
    refine .bind_peek fun o a ho => ?_
    split
    · refine Reads.andThen .skip (fun _ => .andThen .peek fun _ => ?_) a
      split
      · exact .andThen .skip fun _ => .pure fun _ => List.forall_mem_nil _
      · refine .bind (typeArg_reads n) fun _ => .bind (typeArgs_reads n) fun as => .andThen .skip fun _ => ?_
        refine .pure fun _ has ha => ?_
        rw [TypeArg.strings, TypeArg.stringsMore, TypeArg.stringsMore_eq]
        exact ha.append (.flatMap (has (List.forall_mem_nil _)))
    · intro v b h
      obtain ⟨t, c, ht, h⟩ := bind_eq_ok.mp h
      obtain ⟨rfl, rfl⟩ := Prod.mk.inj (Except.ok.inj h)
      obtain ⟨htoken, hfetch⟩ := shift_eq_ok.mp ht
      rw [htoken] at ho
      have hterminal : t.terminal = .string := Option.some.inj ho
      refine ⟨[t], .cons htoken hfetch .nil, fun P hP => List.forall_mem_singleton.mpr ⟨t, ?_, hterminal, rfl⟩⟩
      exact hP t (List.mem_singleton_self t)
    · exact Reads.andThen .skip (fun _ => .pure fun _ => List.forall_mem_nil _) a
    · have htype : Reads (do return .type (← typeExpr n)) fun P (b : TypeArg) => SpelledBy P b.strings :=
        .bind (typeExpr_reads n) fun _ => .pure fun _ he => he.2
      exact htype a

end

/-! ### Attribute blocks -/

theorem attributeTokens_reads : ∀ (n : Nat) {open_ : List Terminal} {acc : List AttrToken},
    Reads (attributeTokens file n open_ acc) fun P ts =>
      (∀ t ∈ acc, ∃ u, P u ∧ u.kept file = t) → ∀ t ∈ ts, ∃ u, P u ∧ u.kept file = t
  | 0, _, _ => .exhausted
  | _ + 1, [], _ => .pure fun _ hacc t ht => hacc t (List.mem_reverse.mp ht)
  | n + 1, k :: outer, acc => by
    have htake : ∀ {site : Site} {open_ : List Terminal}, Reads (do
        let t ← shift site
        attributeTokens file n open_ (⟨t.terminal, t.text, t.span file⟩ :: acc)) fun P ts =>
          (∀ t ∈ acc, ∃ u, P u ∧ u.kept file = t) → ∀ t ∈ ts, ∃ u, P u ∧ u.kept file = t := fun {_ _} =>
      .bind .shift fun t => (attributeTokens_reads n).mono fun _ _ h ht hacc =>
        h (List.forall_mem_cons.mpr ⟨⟨t, ht, rfl⟩, hacc⟩)
    refine .andThen .check fun _ => .andThen .peek fun ahead => ?_
    split
    · split
      · exact .andThen .skip fun _ => .pure fun _ hacc t ht => hacc t (List.mem_reverse.mp ht)
      · exact htake
    · split <;> exact htake

theorem attributeBlock_reads (n : Nat) : Reads (attributeBlock file n) fun P a => a.MadeOf file P := by
  refine .bind_here fun start => .bind .shift fun t => .andThen .skip fun _ => .bind (attributeTokens_reads n) fun ts => ?_
  refine .andThen .there fun stop => .pure fun P hts ht => ⟨⟨t, ht⟩, ?_⟩
  rintro u hu rfl
  exact ⟨hts (List.forall_mem_nil _), u, hu, stop, rfl⟩

theorem outer_reads : ∀ (n : Nat) {attrs : List RawAttribute} {docs : List String},
    Reads (outer file n attrs docs) fun P p => (∀ a ∈ attrs, a.MadeOf file P) → ∀ a ∈ p.1, a.MadeOf file P
  | 0, _, _ => .exhausted
  | n + 1, attrs, docs => by
    refine .andThen .peek fun _ => ?_
    split
    · exact .bind (attributeBlock_reads n) fun _ => (outer_reads n).mono fun _ _ h ha hattrs =>
        h (List.forall_mem_cons.mpr ⟨ha, hattrs⟩)
    · exact .andThen .skip fun _ => outer_reads n
    · exact .pure fun _ hattrs a ha => hattrs a (List.mem_reverse.mp ha)

/-- All blocks in front of something. -/
theorem attrs_reads (n : Nat) : Reads (outer file n [] []) fun P p => ∀ a ∈ p.1, a.MadeOf file P :=
  (outer_reads n).mono fun _ _ h => h (List.forall_mem_nil _)

/-! ### Declarations -/

theorem scopes_reads : ∀ (n : Nat) (acc : List String), Reads (scopes n acc) fun _ _ => True
  | 0, _ => .exhausted
  | n + 1, acc => by
    refine .andThen .peek fun _ => ?_
    split
    · exact .andThen .skip fun _ => .andThen .skip fun _ => scopes_reads n _
    · exact .andThen .skip fun _ => .andThen .skip fun _ => scopes_reads n _
    · exact .pure fun _ => trivial

theorem restriction_reads (n : Nat) : Reads (restriction n) fun _ _ => True := by
  refine .andThen .peek fun _ => ?_
  split
  · exact .andThen .skip fun _ => .andThen .skip fun _ => .andThen (scopes_reads n _) fun _ => .pure fun _ => trivial
  · exact .andThen .skip fun _ => .pure fun _ => trivial
  · exact .andThen .skip fun _ => .pure fun _ => trivial

theorem visibility_reads (n : Nat) (next : Site) : Reads (visibility n next) fun _ _ => True := by
  have hend : ∀ v : Visibility, Reads (do check next; return v) fun _ _ => True := fun v =>
    .andThen .check fun _ => .pure fun _ => trivial
  refine .andThen .peek fun _ => ?_
  split
  · refine .andThen .skip fun _ => .andThen .peek fun _ => ?_
    split
    · exact .andThen .skip fun _ => .andThen (restriction_reads n) fun v => .andThen .skip fun _ =>
        .andThen (.pure fun _ => trivial) hend
    · exact .andThen (.pure fun _ => trivial) hend
  · exact .pure fun _ => trivial

theorem namedField_reads (n : Nat) : Reads (namedField file n) fun P p => p.2.MadeOf file P := by
  refine .bind_here fun start => .bind (attrs_reads n) fun p => ?_
  obtain ⟨attrs, docs⟩ := p
  refine .andThen .check fun _ => .andThen (visibility_reads n _) fun _ => .andThen .skip fun _ => .andThen .skip fun _ => ?_
  refine .bind (typeExpr_reads n) fun type => .andThen .there fun stop => .pure fun P htype hattrs => ⟨htype.1, ?_⟩
  rintro u hu rfl
  exact ⟨hattrs, htype.2, u, hu, stop, rfl⟩

theorem unnamedField_reads (n : Nat) : Reads (unnamedField file n) fun P f => f.MadeOf file P := by
  refine .bind_here fun start => .bind (attrs_reads n) fun p => ?_
  obtain ⟨attrs, docs⟩ := p
  refine .andThen .check fun _ => .andThen (visibility_reads n _) fun _ => ?_
  refine .bind (typeExpr_reads n) fun type => .andThen .there fun stop => .pure fun P htype hattrs => ⟨htype.1, ?_⟩
  rintro u hu rfl
  exact ⟨hattrs, htype.2, u, hu, stop, rfl⟩

theorem commaList_reads {item : Parse α} {closer : Terminal} {items next : Site} {Q : (Token → Prop) → α → Prop}
    (hitem : Reads item Q) : ∀ (n : Nat) {acc : List α},
      Reads (commaList item closer items next n acc) fun P xs => (∀ x ∈ acc, Q P x) → ∀ x ∈ xs, Q P x
  | 0, _ => .exhausted
  | n + 1, acc => by
    refine .andThen .peek fun _ => ?_
    split
    · exact .pure fun _ hacc x hx => hacc x (List.mem_reverse.mp hx)
    · refine .bind hitem fun x => .andThen .check fun _ => .andThen .peek fun _ => ?_
      split
      · exact .andThen .skip fun _ => (commaList_reads hitem n).mono fun _ _ h hx hacc =>
          h (List.forall_mem_cons.mpr ⟨hx, hacc⟩)
      · exact .pure fun _ hx hacc y hy => List.forall_mem_cons.mpr ⟨hx, hacc⟩ y (List.mem_reverse.mp hy)

theorem namedFields_reads (n : Nat) :
    Reads (namedFields file n) fun P fs => ∀ f ∈ fs.values, f.MadeOf file P := by
  refine .andThen .skip fun _ => .bind (commaList_reads (namedField_reads n) n) fun fs => ?_
  refine .andThen .skip fun _ => .pure fun P hfs f hf => ?_
  obtain ⟨p, hp, rfl⟩ : ∃ p ∈ fs, p.2 = f := by simpa [Fields.values, Fields.entries] using hf
  exact hfs (List.forall_mem_nil _) p hp

theorem unnamedFields_reads (n : Nat) :
    Reads (unnamedFields file n) fun P fs => ∀ f ∈ fs.values, f.MadeOf file P := by
  refine .andThen .skip fun _ => .bind (commaList_reads (unnamedField_reads n) n) fun fs => ?_
  refine .andThen .skip fun _ => .pure fun P hfs => ?_
  rw [Fields.values_ofList]
  exact hfs (List.forall_mem_nil _)

theorem variant_reads (n : Nat) : Reads (variant file n) fun P v => v.MadeOf file P := by
  refine .bind (attrs_reads n) fun p => ?_
  obtain ⟨attrs, docs⟩ := p
  refine .andThen .check fun _ => .bind .shift fun t => .andThen .peek fun _ => ?_
  have hend : ∀ fields : Fields Field, Reads
      (pure ({ ident := t.text, fields, attrs, docs, span := t.span file } : Variant)) fun P v =>
        (∀ f ∈ fields.values, f.MadeOf file P) → P t → (∀ a ∈ attrs, a.MadeOf file P) → v.MadeOf file P :=
    fun _ => .pure fun _ hfields ht hattrs => ⟨hattrs, hfields, t, ht, t.stop, rfl⟩
  split
  · exact .bind (namedFields_reads n) hend
  · exact .bind (unnamedFields_reads n) hend
  · exact .bind (.pure fun P => List.forall_mem_nil _) hend

theorem shape_reads (n : Nat) : Reads (shape file n) fun P p => P p.1 ∧ p.2.MadeOf file P := by
  refine .andThen .peek fun _ => ?_
  split
  · refine .andThen .skip fun _ => .bind .shift fun t => .andThen .peek fun _ => ?_
    split
    · exact .bind (namedFields_reads n) fun _ => .andThen .check fun _ => .pure fun _ hfields ht => ⟨ht, hfields⟩
    · exact .bind (unnamedFields_reads n) fun _ => .andThen .check fun _ => .andThen .skip fun _ =>
        .pure fun _ hfields ht => ⟨ht, hfields⟩
    · exact .andThen .skip fun _ => .pure fun _ ht => ⟨ht, List.forall_mem_nil _⟩
  · refine .andThen .skip fun _ => .bind .shift fun t => .andThen .skip fun _ => ?_
    refine .bind (commaList_reads (variant_reads n) n) fun vs => .andThen .skip fun _ => .pure fun _ hvs ht => ?_
    exact ⟨ht, hvs (List.forall_mem_nil _)⟩
  · exact .andThen .skip fun _ => .bind .shift fun _ => .bind (namedFields_reads n) fun _ =>
      .andThen .check fun _ => .pure fun _ hfields ht => ⟨ht, hfields⟩

/-- A declaration is made of the tokens that it is read from. -/
theorem declaration_reads (n : Nat) : Reads (declaration file n) fun P d => d.MadeOf file P := by
  refine .bind (attrs_reads n) fun p => ?_
  obtain ⟨attrs, docs⟩ := p
  refine .andThen .check fun _ => .andThen (visibility_reads n _) fun _ => .bind (shape_reads n) fun q => ?_
  exact .pure fun _ hq hattrs => ⟨hattrs, hq.2, q.1, hq.1, q.1.stop, rfl⟩

/-- An import has a place. -/
theorem import_reads (n : Nat) : Reads (import_ file n) fun _ i => i.span.isSome = true := by
  have hend : ∀ (path : DottedName) (start : Position) (alias? : Option String), Reads (do
      let _ ← shift .items
      return { path, alias?, span := start.spanTo file (← there) } : Parse Import) fun _ i => i.span.isSome = true :=
    fun _ _ _ => .andThen .skip fun _ => .andThen .there fun _ => .pure fun _ => rfl
  refine .andThen .here fun start => .andThen .skip fun _ => ?_
  refine .andThen ((path_reads n).mono fun _ _ _ => trivial) fun path => .andThen .check fun _ => .andThen .peek fun _ => ?_
  split
  · exact .andThen .skip fun _ => .andThen .skip fun _ => .andThen (.pure fun _ => trivial) (hend path start)
  · exact .andThen (.pure fun _ => trivial) (hend path start)

end Parse
end TypedErrors
