import TypedErrors.Proofs.Attribute.Agree

/-! # Blocks that say the same

Tokens are alike when they are the same but for their places. What is read from blocks with alike tokens is alike, or
neither can be read, and then what is reported has its place among those of the tokens (`ofAttributes_agrees`). This
takes that the places go on: what starts at one of them and ends later is one of them too, as a path does that starts
with its first name. -/

namespace TypedErrors

variable {P : Span → Prop}

structure AttrToken.Alike (P : Span → Prop) (t u : AttrToken) : Prop where
  terminal : t.terminal = u.terminal
  text : t.text = u.text
  left : Placed P t.span
  right : Placed P u.span

structure RawAttribute.Alike (P : Span → Prop) (a b : RawAttribute) : Prop where
  tokens : List.Forall₂ (AttrToken.Alike P) a.tokens b.tokens
  left : Placed P a.span
  right : Placed P b.span

/-- A stretch that starts at one of the places is one of them, wherever it ends. -/
def GoesOn (P : Span → Prop) : Prop := ∀ a b, P a → P (a.join b)

theorem GoesOn.placed_join (hP : GoesOn P) {s : Option Span} (hs : Placed P s) (stop : Option Span) :
    Placed P (s.map (·.join stop)) := by
  rintro x hx
  obtain ⟨a, ha, rfl⟩ := Option.map_eq_some_iff.mp hx
  exact hP a stop (hs a ha)

namespace AttrParse

variable {α β : Type} {R : α → β → Prop} {t u : AttrToken} {ts us : List AttrToken} {eof eof' : Option Span}

/-- What is read is related, and what is left is alike. -/
def ReadAlike (P : Span → Prop) (R : α → β → Prop) (p : α × List AttrToken) (q : β × List AttrToken) : Prop :=
  R p.1 q.1 ∧ List.Forall₂ (AttrToken.Alike P) p.2 q.2

theorem placed_joinSpans (hP : GoesOn P) {s s' : Option Span} (hs : Placed P s) (hs' : Placed P s') :
    Placed P (joinSpans s s') := by
  cases s with
  | none => exact hs'
  | some a =>
    rintro x ⟨⟩
    exact hP a s' (hs a rfl)

theorem misfit_agrees {what : String} (heof : Placed P eof) (heof' : Placed P eof')
    (h : List.Forall₂ (AttrToken.Alike P) ts us) :
    Agree P R (.error (misfit eof what ts)) (.error (misfit eof' what us)) := by
  cases h with
  | nil => exact .error ⟨heof, rfl⟩ ⟨heof', rfl⟩
  | cons ht _ => exact .error ⟨ht.left, rfl⟩ ⟨ht.right, rfl⟩

/-! ### Literals -/

theorem boolWord?_congr (h : t.Alike P u) : boolWord? t = boolWord? u := by
  rw [boolWord?, boolWord?, h.terminal, h.text]

theorem isLiteral_congr (h : t.Alike P u) : isLiteral t = isLiteral u := by
  rw [isLiteral, isLiteral, h.terminal, boolWord?_congr h]

theorem startsWith_congr {k : Terminal} (h : List.Forall₂ (AttrToken.Alike P) ts us) :
    startsWith k ts = startsWith k us := by
  cases h with
  | nil => rfl
  | cons ht _ => rw [startsWith, startsWith, ht.terminal]

theorem decodeQuoted_agrees (h : t.Alike P u) : Agree P Eq (decodeQuoted t) (decodeQuoted u) := by
  rw [decodeQuoted, decodeQuoted, h.text]
  split
  · split
    · exact .ok rfl
    · exact .error ⟨h.left, rfl⟩ ⟨h.right, rfl⟩
  · split
    · exact .ok rfl
    · exact .error ⟨h.left, rfl⟩ ⟨h.right, rfl⟩

theorem literal_agrees (h : t.Alike P u) : Agree P (Literal.Alike P) (literal t) (literal u) := by
  rw [literal, literal, boolWord?_congr h, h.terminal, h.text]
  split
  · exact .ok (.bool h.left h.right)
  · split
    · refine (decodeQuoted_agrees h).bind fun v w hvw => .ok (.string ⟨hvw, h.left, h.right⟩)
    · refine (decodeQuoted_agrees h).bind fun v w hvw => ?_
      subst hvw
      split
      · exact .ok (.char h.left h.right)
      · exact .error ⟨h.left, rfl⟩ ⟨h.right, rfl⟩
    · split
      · exact .ok (.int h.left h.right)
      · exact .error trivial trivial
    · split
      · exact .ok (.float h.left h.right)
      · exact .error trivial trivial
    · exact .error ⟨h.left, rfl⟩ ⟨h.right, rfl⟩

/-! ### Paths -/

theorem pathRest_agrees (heof : Placed P eof) (heof' : Placed P eof') : ∀ {ts us : List AttrToken} {acc acc' : List Ident},
    List.Forall₂ (AttrToken.Alike P) ts us → List.Forall₂ (Ident.Alike P) acc acc' →
      Agree P (ReadAlike P (List.Forall₂ (Ident.Alike P))) (pathRest eof acc ts) (pathRest eof' acc' us)
  | _, _, _, _, .nil, hacc => .ok ⟨List.rel_reverse hacc, .nil⟩
  | _, _, acc, acc', @List.Forall₂.cons _ _ _ t u ts us ht hts, hacc => by
    rw [pathRest.eq_def, pathRest.eq_def]
    dsimp only
    rw [ht.terminal]
    split_ifs
    · cases hts with
      | nil => exact misfit_agrees heof heof' .nil
      | @cons s v ts us hs hts =>
        dsimp only
        rw [hs.terminal]
        split_ifs
        · exact pathRest_agrees heof heof' hts (.cons ⟨hs.text, hs.left, hs.right⟩ hacc)
        · exact misfit_agrees heof heof' (.cons hs hts)
    · exact .ok ⟨List.rel_reverse hacc, .cons ht hts⟩

theorem path_agrees (hP : GoesOn P) (heof : Placed P eof) (heof' : Placed P eof')
    (h : List.Forall₂ (AttrToken.Alike P) ts us) :
    Agree P (ReadAlike P (SymbolPath.Alike P)) (path eof ts) (path eof' us) := by
  cases h with
  | nil => exact misfit_agrees heof heof' .nil
  | @cons t u ts us ht hts =>
    rw [path, path, ht.terminal]
    split_ifs
    · refine (pathRest_agrees heof heof' hts .nil).bind fun p q hpq => .ok ⟨?_, hpq.2⟩
      exact ⟨.cons ⟨ht.text, ht.left, ht.right⟩ hpq.1, hP.placed_join ht.left _, hP.placed_join ht.right _⟩
    · exact misfit_agrees heof heof' (.cons ht hts)

theorem value_agrees (hP : GoesOn P) (heof : Placed P eof) (heof' : Placed P eof')
    (h : List.Forall₂ (AttrToken.Alike P) ts us) :
    Agree P (ReadAlike P (AttrValue.Alike P)) (value eof ts) (value eof' us) := by
  cases h with
  | nil => exact misfit_agrees heof heof' .nil
  | @cons t u ts us ht hts =>
    rw [value, value, isLiteral_congr ht, ht.terminal]
    split_ifs
    · exact (literal_agrees ht).bind fun _ _ hl => .ok ⟨.literal hl, hts⟩
    · exact (path_agrees hP heof heof' (.cons ht hts)).bind fun _ _ hp => .ok ⟨.path hp.1, hp.2⟩
    · exact misfit_agrees heof heof' (.cons ht hts)

/-! ### Nodes -/

theorem alikeArgs_of_forall₂ {xs ys : List AttrArg} (h : List.Forall₂ (AttrArg.Alike P) xs ys) :
    AttrNode.AlikeArgs P xs ys := by
  induction h with
  | nil => exact .nil
  | cons hx _ ih => exact .cons hx ih

/-- Arguments are alike, their closing parenthesis has its place among `P`, and what is left is alike. -/
def ArgsAlike (P : Span → Prop) (p q : List AttrArg × Option Span × List AttrToken) : Prop :=
  AttrNode.AlikeArgs P p.1 q.1 ∧ Placed P p.2.1 ∧ Placed P q.2.1 ∧ List.Forall₂ (AttrToken.Alike P) p.2.2 q.2.2

mutual

theorem node_agrees (hP : GoesOn P) (heof : Placed P eof) (heof' : Placed P eof') :
    ∀ (n : Nat) {ts us : List AttrToken}, List.Forall₂ (AttrToken.Alike P) ts us →
      Agree P (ReadAlike P (AttrNode.Alike P)) (node eof n ts) (node eof' n us)
  | 0, _, _, h => misfit_agrees heof heof' h
  | n + 1, ts, us, h => by
    -- tokens that are alike have the same terminals and texts, and nothing else decides how they are read
    rw [node, node]
    refine (path_agrees hP heof heof' h).bind fun p q hpq => ?_
    obtain ⟨p, rest⟩ := p
    obtain ⟨q, rest'⟩ := q
    obtain ⟨hp, hrest⟩ := hpq
    cases hrest with
    | nil => exact .ok ⟨.word hp hp.left hp.right, .nil⟩
    | cons ht hts =>
      dsimp only
      rw [ht.terminal]
      split_ifs
      · refine (args_agrees hP heof heof' n hts .nil).bind fun a b hab => .ok ⟨?_, hab.2.2.2⟩
        exact .list hp hab.1 (placed_joinSpans hP hp.left hab.2.1) (placed_joinSpans hP hp.right hab.2.2.1)
      · refine (value_agrees hP heof heof' hts).bind fun v w hvw => .ok ⟨?_, hvw.2⟩
        obtain ⟨hleft, hright⟩ := hvw.1.placed
        exact .assign hp hvw.1 (placed_joinSpans hP hp.left hleft) (placed_joinSpans hP hp.right hright)
      · exact .ok ⟨.word hp hp.left hp.right, .cons ht hts⟩

theorem args_agrees (hP : GoesOn P) (heof : Placed P eof) (heof' : Placed P eof') :
    ∀ (n : Nat) {ts us : List AttrToken} {acc acc' : List AttrArg}, List.Forall₂ (AttrToken.Alike P) ts us →
      List.Forall₂ (AttrArg.Alike P) acc acc' →
        Agree P (ArgsAlike P) (args eof n acc ts) (args eof' n acc' us)
  | 0, _, _, _, _, h, _ => misfit_agrees heof heof' h
  | _ + 1, _, _, _, _, .nil, _ => misfit_agrees heof heof' .nil
  | n + 1, _, _, acc, acc', @List.Forall₂.cons _ _ _ t u ts us ht hts, hacc => by
    rw [args, args, ht.terminal]
    split_ifs
    · exact .ok ⟨alikeArgs_of_forall₂ (List.rel_reverse hacc), ht.left, ht.right, hts⟩
    · refine (arg_agrees hP heof heof' n (.cons ht hts)).bind fun a b hab => ?_
      obtain ⟨a, rest⟩ := a
      obtain ⟨b, rest'⟩ := b
      obtain ⟨ha, hrest⟩ := hab
      cases hrest with
      | nil => exact misfit_agrees heof heof' .nil
      | cons hc hrest =>
        dsimp only
        rw [hc.terminal]
        split_ifs
        · exact args_agrees hP heof heof' n hrest (.cons ha hacc)
        · exact args_agrees hP heof heof' n (.cons hc hrest) (.cons ha hacc)
        · exact misfit_agrees heof heof' (.cons hc hrest)

theorem arg_agrees (hP : GoesOn P) (heof : Placed P eof) (heof' : Placed P eof') :
    ∀ (n : Nat) {ts us : List AttrToken}, List.Forall₂ (AttrToken.Alike P) ts us →
      Agree P (ReadAlike P (AttrArg.Alike P)) (arg eof n ts) (arg eof' n us)
  | 0, _, _, h => misfit_agrees heof heof' h
  | _ + 1, _, _, .nil => misfit_agrees heof heof' .nil
  | n + 1, _, _, @List.Forall₂.cons _ _ _ t u ts us ht hts => by
    rw [arg, arg, isLiteral_congr ht, boolWord?_congr ht, startsWith_congr hts, ht.terminal]
    split_ifs
    · exact (literal_agrees ht).bind fun _ _ hl => .ok ⟨.literal hl, hts⟩
    · exact (node_agrees hP heof heof' n (.cons ht hts)).bind fun _ _ hm => .ok ⟨.node hm.1, hm.2⟩
    · exact misfit_agrees heof heof' (.cons ht hts)

end

end AttrParse

/-! ### Blocks -/

variable {ns : String} {a b : RawAttribute} {attrs attrs' : List RawAttribute}

theorem RawAttribute.Alike.namespace? (h : a.Alike P b) : a.namespace? = b.namespace? := by
  obtain ⟨ts, s⟩ := a
  obtain ⟨us, s'⟩ := b
  obtain ⟨htokens, -, -⟩ := h
  cases htokens with
  | nil => rfl
  | @cons t u ts us ht _ =>
    show (if t.terminal = .name then some t.text else none) = if u.terminal = .name then some u.text else none
    rw [ht.terminal, ht.text]

theorem getLast?_rel {α β : Type} {R : α → β → Prop} {xs : List α} {ys : List β} (h : List.Forall₂ R xs ys) :
    Option.Rel R xs.getLast? ys.getLast? := by
  rw [← List.head?_reverse, ← List.head?_reverse]
  generalize hxs : xs.reverse = xs', hys : ys.reverse = ys'
  have hrel : List.Forall₂ R xs' ys' := hxs ▸ hys ▸ List.rel_reverse h
  cases hrel with
  | nil => exact .none
  | cons hxy _ => exact .some hxy

theorem RawAttribute.Alike.placed_eof (h : a.Alike P b) :
    Placed P (match a.tokens.getLast? with | some t => t.span | none => a.span) ∧
      Placed P (match b.tokens.getLast? with | some t => t.span | none => b.span) := by
  have hlast := getLast?_rel h.tokens
  revert hlast
  rcases a.tokens.getLast? with _ | t <;> rcases b.tokens.getLast? with _ | u <;> rintro (ht | _)
  · exact ⟨h.left, h.right⟩
  · exact ⟨ht.left, ht.right⟩

theorem parseAttribute_agrees (hP : GoesOn P) (h : a.Alike P b) :
    Agree P (AttrNode.Alike P) (parseAttribute a) (parseAttribute b) := by
  rw [parseAttribute, parseAttribute, h.tokens.length_eq]
  obtain ⟨heof, heof'⟩ := h.placed_eof
  refine (AttrParse.node_agrees hP heof heof' _ h.tokens).bind fun p q hpq => ?_
  obtain ⟨m, rest⟩ := p
  obtain ⟨n, rest'⟩ := q
  obtain ⟨hm, hrest⟩ := hpq
  cases hrest with
  | nil => exact .ok hm
  | cons ht _ => exact .error ⟨ht.left, rfl⟩ ⟨ht.right, rfl⟩

structure Entry.Alike (P : Span → Prop) (e e' : Entry) : Prop where
  name : e.name = e'.name
  node : e.node.Alike P e'.node
  isUsed : e.isUsed = e'.isUsed

namespace Entries

theorem entryOf_agrees {x y : AttrArg} (h : AttrArg.Alike P x y) :
    Agree P (Entry.Alike P) (entryOf x) (entryOf y) := by
  cases h with
  | @literal l m h =>
    rw [entryOf, entryOf]
    exact .refuse rfl rfl h.placed.1 h.placed.2
  | @node m n h =>
    rw [entryOf, entryOf]
    have hsingle := h.path.single?
    revert hsingle
    cases m.path.single? <;> cases n.path.single? <;> rintro (hi | _)
    · exact .refuse rfl rfl h.path.left h.path.right
    · exact .ok ⟨hi.name, h, rfl⟩

theorem ofAttribute_agrees (hP : GoesOn P) (h : a.Alike P b) :
    Agree P (List.Forall₂ (Entry.Alike P)) (ofAttribute ns a) (ofAttribute ns b) := by
  rw [ofAttribute, ofAttribute, h.namespace?]
  split_ifs
  · refine (parseAttribute_agrees hP h).bind fun m n hmn => ?_
    cases hmn with
    | word => exact .refuse rfl rfl h.left h.right
    | assign => exact .refuse rfl rfl h.left h.right
    | list _ hargs => exact .mapM (hargs.forall₂.imp fun _ _ hx => entryOf_agrees hx)
  · exact .ok .nil

theorem alike_of_forall₂ {items items' : List Entry} (h : List.Forall₂ (Entry.Alike P) items items') :
    Entries.Alike P { items } { items := items' } := by
  intro name
  refine List.forall₂_map_left_iff.mpr (List.forall₂_map_right_iff.mpr ?_)
  refine (List.rel_filter (fun e e' he => ?_) h).imp fun _ _ he => ⟨he.node, he.isUsed⟩
  show decide (e.name = name) = true ↔ decide (e'.name = name) = true
  rw [he.name]

/-- Blocks that say the same have the same entries under each name, or are both refused. -/
theorem ofAttributes_agrees (hP : GoesOn P) (h : List.Forall₂ (RawAttribute.Alike P) attrs attrs') :
    AttrsAlike P ns attrs attrs' := by
  refine (Agree.mapM (h.imp fun _ _ hab => ofAttribute_agrees hP hab)).bind fun l l' hl => ?_
  exact .ok (alike_of_forall₂ (List.rel_flatten hl))

end Entries

/-! ### Places of a block -/

/-- The tokens of a block and the block itself have their places among `P`. -/
structure RawAttribute.Placed (P : Span → Prop) (a : RawAttribute) : Prop where
  tokens : ∀ t ∈ a.tokens, TypedErrors.Placed P t.span
  span : TypedErrors.Placed P a.span

theorem RawAttribute.Placed.alike (h : a.Placed P) : a.Alike P a :=
  ⟨List.forall₂_same.mpr fun t ht => ⟨rfl, rfl, h.tokens t ht, h.tokens t ht⟩, h.span, h.span⟩

theorem attrsAlike_self (hP : GoesOn P) (h : ∀ a ∈ attrs, a.Placed P) : AttrsAlike P ns attrs attrs :=
  Entries.ofAttributes_agrees hP (List.forall₂_same.mpr fun a ha => (h a ha).alike)

end TypedErrors
