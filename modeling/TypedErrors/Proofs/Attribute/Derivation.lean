import TypedErrors.Proofs.Attribute.Grammar

/-! # Derivations of attribute blocks

A derivation of a block keeps what the node it spells forgets: the separators in paths, the brackets, and whether
a comma stands after the last argument. A phrase of the grammar is what some derivation is written as
(`nodeOf_iff`), and no two derivations are written alike (`NodeTree.Derives.unique`). -/

namespace TypedErrors
namespace AttrParse

variable {ts rest rest' : List AttrToken}

/-! ### Trees of tokens -/

/-- A path as it is written: its first name, and the further ones with the separators before them. -/
structure PathTree where
  head : AttrToken
  more : List (AttrToken × AttrToken) := []

inductive ValueTree where
  | literal (t : AttrToken)
  | path (p : PathTree)

mutual

inductive NodeTree where
  | word (p : PathTree)
  | assign (p : PathTree) (equal : AttrToken) (v : ValueTree)
  | list (p : PathTree) (paren : AttrToken) (args : ArgsTree)

/-- Arguments and the closing parenthesis. -/
inductive ArgsTree where
  | close (paren : AttrToken)
  | last (a : ArgTree) (paren : AttrToken)
  | cons (a : ArgTree) (comma : AttrToken) (more : ArgsTree)

inductive ArgTree where
  | literal (t : AttrToken)
  | node (n : NodeTree)

end

def PathTree.tokens (p : PathTree) : List AttrToken := p.head :: p.more.flatMap fun q => [q.1, q.2]

def ValueTree.tokens : ValueTree → List AttrToken
  | .literal t => [t]
  | .path p => p.tokens

mutual

/-- What a derivation is written as. -/
def NodeTree.tokens : NodeTree → List AttrToken
  | .word p => p.tokens
  | .assign p e v => p.tokens ++ e :: v.tokens
  | .list p o as => p.tokens ++ o :: as.tokens

def ArgsTree.tokens : ArgsTree → List AttrToken
  | .close c => [c]
  | .last a c => a.tokens ++ [c]
  | .cons a k as => a.tokens ++ k :: as.tokens

def ArgTree.tokens : ArgTree → List AttrToken
  | .literal t => [t]
  | .node n => n.tokens

end

/-! ### Derivations -/

/-- The path that the tokens spell. -/
def PathTree.path (p : PathTree) : SymbolPath where
  segments := segment p.head :: p.more.map (segment ·.2)
  span := p.head.span.map (·.join ((p.more.map (segment ·.2)).getLast?.getD (segment p.head)).span)

/-- Names, with separators between them. -/
structure PathTree.Derives (p : PathTree) : Prop where
  head : p.head.terminal = .name
  more : ∀ q ∈ p.more, (q.1.terminal = .dot ∨ q.1.terminal = .pathSep) ∧ q.2.terminal = .name

/-- The tree is a derivation of a value. -/
inductive ValueTree.Derives : ValueTree → AttrValue → Prop
  | literal {t : AttrToken} {l : Literal} (ht : isLiteral t = true) (h : AttrParse.literal t = .ok l) :
    Derives (.literal t) (.literal l)
  | path {p : PathTree} (ht : isLiteral p.head = false) (h : p.Derives) : Derives (.path p) (.path p.path)

mutual

/-- The tree is a derivation of a node: `meta := path ( '(' args ')' | '=' value )?`. -/
inductive NodeTree.Derives : NodeTree → AttrNode → Prop
  | word {p : PathTree} (hp : p.Derives) : NodeTree.Derives (.word p) (.word p.path p.path.span)
  | assign {p : PathTree} {e : AttrToken} {w : ValueTree} {v : AttrValue} (hp : p.Derives)
      (he : e.terminal = .equal) (hv : w.Derives v) :
    NodeTree.Derives (.assign p e w) (.assign p.path v (joinSpans p.path.span v.span))
  | list {p : PathTree} {o : AttrToken} {w : ArgsTree} {args : List AttrArg} {close : Option Span}
      (hp : p.Derives) (ho : o.terminal = .leftParen) (h : ArgsTree.Derives w args close) :
    NodeTree.Derives (.list p o w) (.list p.path args (joinSpans p.path.span close))

/-- Arguments with commas between them, and perhaps one after the last. -/
inductive ArgsTree.Derives : ArgsTree → List AttrArg → Option Span → Prop
  | close {c : AttrToken} (hc : c.terminal = .rightParen) : ArgsTree.Derives (.close c) [] c.span
  | last {w : ArgTree} {a : AttrArg} {c : AttrToken} (ha : ArgTree.Derives w a) (hc : c.terminal = .rightParen) :
    ArgsTree.Derives (.last w c) [a] c.span
  | cons {w : ArgTree} {a : AttrArg} {k : AttrToken} {more : ArgsTree} {args : List AttrArg} {close : Option Span}
      (ha : ArgTree.Derives w a) (hk : k.terminal = .comma) (h : ArgsTree.Derives more args close) :
    ArgsTree.Derives (.cons w k more) (a :: args) close

/-- A literal, or a node that does not start with one. -/
inductive ArgTree.Derives : ArgTree → AttrArg → Prop
  | literal {t : AttrToken} {l : Literal} (ht : isLiteral t = true) (h : AttrParse.literal t = .ok l) :
    ArgTree.Derives (.literal t) (.literal l)
  | node {w : NodeTree} {m : AttrNode} (hs : ¬ StartsLiteral w.tokens) (h : NodeTree.Derives w m) :
    ArgTree.Derives (.node w) (.node m)

end

/-! ### Phrases -/

theorem segments_of_more {ms : List (AttrToken × AttrToken)}
    (h : ∀ q ∈ ms, (q.1.terminal = .dot ∨ q.1.terminal = .pathSep) ∧ q.2.terminal = .name) :
    Segments (ms.flatMap fun q => [q.1, q.2]) (ms.map (segment ·.2)) := by
  induction ms with
  | nil => exact .nil
  | cons q ms ih =>
    obtain ⟨⟨hd, ht⟩, hms⟩ := List.forall_mem_cons.mp h
    rw [List.flatMap_cons, List.map_cons]
    exact .cons hd ht (ih hms)

theorem exists_more_of_segments {is : List Ident} (h : Segments ts is) :
    ∃ ms : List (AttrToken × AttrToken), ms.flatMap (fun q => [q.1, q.2]) = ts ∧ ms.map (segment ·.2) = is ∧
      ∀ q ∈ ms, (q.1.terminal = .dot ∨ q.1.terminal = .pathSep) ∧ q.2.terminal = .name := by
  induction h with
  | nil => exact ⟨[], rfl, rfl, List.forall_mem_nil _⟩
  | @cons d t ts is hd ht _ ih =>
    obtain ⟨ms, hts, his, hms⟩ := ih
    refine ⟨(d, t) :: ms, ?_, ?_, List.forall_mem_cons.mpr ⟨⟨hd, ht⟩, hms⟩⟩
    · rw [List.flatMap_cons, hts]
      rfl
    · rw [List.map_cons, his]

theorem PathTree.Derives.pathOf {p : PathTree} (h : p.Derives) : PathOf p.tokens p.path :=
  .mk h.head (segments_of_more h.more)

theorem PathOf.exists_tree {p : SymbolPath} (h : PathOf ts p) :
    ∃ w : PathTree, w.Derives ∧ w.tokens = ts ∧ w.path = p := by
  cases h with
  | @mk t ts is ht hs =>
    obtain ⟨ms, rfl, rfl, hms⟩ := exists_more_of_segments hs
    exact ⟨⟨t, ms⟩, ⟨ht, hms⟩, rfl, rfl⟩

theorem ValueTree.Derives.valueOf {w : ValueTree} {v : AttrValue} (h : w.Derives v) : ValueOf w.tokens v := by
  cases h with
  | literal ht hl => exact .literal ht hl
  | path ht hp => exact .path ht hp.pathOf

theorem ValueOf.exists_tree {v : AttrValue} (h : ValueOf ts v) : ∃ w : ValueTree, w.Derives v ∧ w.tokens = ts := by
  cases h with
  | @literal t l ht hl => exact ⟨.literal t, .literal ht hl, rfl⟩
  | @path t ts p ht hp =>
    obtain ⟨w, hw, htokens, rfl⟩ := hp.exists_tree
    obtain ⟨hhead, -⟩ := List.cons.inj htokens
    exact ⟨.path w, .path (hhead ▸ ht) hw, htokens⟩

mutual

theorem NodeTree.Derives.nodeOf {w : NodeTree} {m : AttrNode} : w.Derives m → NodeOf w.tokens m
  | .word hp => .word hp.pathOf
  | .assign hp he hv => .assign hp.pathOf he hv.valueOf
  | .list hp ho h => .list hp.pathOf ho h.argsOf

theorem ArgsTree.Derives.argsOf {w : ArgsTree} {as : List AttrArg} {c : Option Span} :
    w.Derives as c → ArgsOf w.tokens as c
  | .close hc => .close hc
  | .last ha hc => .last ha.argOf hc
  | .cons ha hk h => .cons ha.argOf hk h.argsOf

theorem ArgTree.Derives.argOf {w : ArgTree} {a : AttrArg} : w.Derives a → ArgOf w.tokens a
  | .literal ht h => .literal ht h
  | .node hs h => .node hs h.nodeOf

end

mutual

theorem NodeOf.exists_tree {m : AttrNode} : ∀ {ts}, NodeOf ts m → ∃ w : NodeTree, w.Derives m ∧ w.tokens = ts
  | _, .word hp => by
    obtain ⟨w, hw, rfl, rfl⟩ := hp.exists_tree
    exact ⟨.word w, .word hw, rfl⟩
  | _, .assign (e := e) hp he hv => by
    obtain ⟨w, hw, rfl, rfl⟩ := hp.exists_tree
    obtain ⟨u, hu, rfl⟩ := hv.exists_tree
    exact ⟨.assign w e u, .assign hw he hu, rfl⟩
  | _, .list (o := o) hp ho h => by
    obtain ⟨w, hw, rfl, rfl⟩ := hp.exists_tree
    obtain ⟨u, hu, rfl⟩ := ArgsOf.exists_tree h
    exact ⟨.list w o u, .list hw ho hu, rfl⟩

theorem ArgsOf.exists_tree {as : List AttrArg} {c : Option Span} : ∀ {ts}, ArgsOf ts as c →
    ∃ w : ArgsTree, w.Derives as c ∧ w.tokens = ts
  | _, .close (c := c) hc => ⟨.close c, .close hc, rfl⟩
  | _, .last (c := c) ha hc => by
    obtain ⟨w, hw, rfl⟩ := ArgOf.exists_tree ha
    exact ⟨.last w c, .last hw hc, rfl⟩
  | _, .cons (k := k) ha hk h => by
    obtain ⟨w, hw, rfl⟩ := ArgOf.exists_tree ha
    obtain ⟨u, hu, rfl⟩ := ArgsOf.exists_tree h
    exact ⟨.cons w k u, .cons hw hk hu, rfl⟩

theorem ArgOf.exists_tree {a : AttrArg} : ∀ {ts}, ArgOf ts a → ∃ w : ArgTree, w.Derives a ∧ w.tokens = ts
  | _, .literal (t := t) ht h => ⟨.literal t, .literal ht h, rfl⟩
  | _, .node hs h => by
    obtain ⟨w, hw, rfl⟩ := NodeOf.exists_tree h
    exact ⟨.node w, .node hs hw, rfl⟩

end

theorem nodeOf_iff {m : AttrNode} : NodeOf ts m ↔ ∃ w : NodeTree, w.Derives m ∧ w.tokens = ts := by
  refine ⟨NodeOf.exists_tree, ?_⟩
  rintro ⟨w, hw, rfl⟩
  exact hw.nodeOf

/-! ### One derivation

Two derivations are compared together with what follows them, which neither goes on with. -/

theorem PathTree.Derives.unique {p p' : PathTree} (h : p.Derives) (h' : p'.Derives) (hr : EndsPath rest)
    (hr' : EndsPath rest') (heq : p.tokens ++ rest = p'.tokens ++ rest') : p = p' ∧ rest = rest' := by
  obtain ⟨t, ms⟩ := p
  obtain ⟨t', ms'⟩ := p'
  obtain ⟨rfl, htail⟩ := List.cons.inj heq
  have hms := h.more
  have hms' := h'.more
  suffices hsuff : ms = ms' ∧ rest = rest' from ⟨by rw [hsuff.1], hsuff.2⟩
  clear heq h h'
  simp only at htail hms hms'
  induction ms generalizing ms' with
  | nil =>
    cases ms' with
    | nil => exact ⟨rfl, htail⟩
    | cons q ms' =>
      have hd := (List.forall_mem_cons.mp hms').1.1
      obtain rfl : rest = q.1 :: q.2 :: _ := htail
      have hends := hr q.1 rfl
      rcases hd with hd | hd
      · exact absurd hd hends.1
      · exact absurd hd hends.2
  | cons q ms ih =>
    obtain ⟨hq, hms⟩ := List.forall_mem_cons.mp hms
    cases ms' with
    | nil =>
      obtain rfl : q.1 :: q.2 :: _ = rest' := htail
      have hends := hr' q.1 rfl
      rcases hq.1 with hd | hd
      · exact absurd hd hends.1
      · exact absurd hd hends.2
    | cons q' ms' =>
      obtain ⟨-, hms'⟩ := List.forall_mem_cons.mp hms'
      obtain ⟨hfirst, htail⟩ := List.cons.inj htail
      obtain ⟨hsecond, htail⟩ := List.cons.inj htail
      obtain ⟨rfl, rfl⟩ := ih ms' htail hms hms'
      exact ⟨by rw [Prod.ext hfirst hsecond], rfl⟩

theorem ValueTree.Derives.unique {w w' : ValueTree} {v v' : AttrValue} (h : w.Derives v) (h' : w'.Derives v')
    (hr : EndsPath rest) (hr' : EndsPath rest') (heq : w.tokens ++ rest = w'.tokens ++ rest') :
    w = w' ∧ rest = rest' := by
  cases h with
  | literal ht _ =>
    cases h' with
    | literal _ _ =>
      obtain ⟨rfl, rfl⟩ := List.cons.inj heq
      exact ⟨rfl, rfl⟩
    | path ht' _ =>
      obtain ⟨rfl, -⟩ := List.cons.inj heq
      rw [ht] at ht'
      cases ht'
  | path ht hp =>
    cases h' with
    | literal ht' _ =>
      obtain ⟨rfl, -⟩ := List.cons.inj heq
      rw [ht] at ht'
      cases ht'
    | path _ hp' =>
      obtain ⟨rfl, rfl⟩ := hp.unique hp' hr hr' heq
      exact ⟨rfl, rfl⟩

theorem PathTree.Derives.unique_before {p p' : PathTree} {e e' : AttrToken} (h : p.Derives) (h' : p'.Derives)
    (he : e.terminal = .equal ∨ e.terminal = .leftParen) (he' : e'.terminal = .equal ∨ e'.terminal = .leftParen)
    (heq : p.tokens ++ e :: rest = p'.tokens ++ e' :: rest') : p = p' ∧ e = e' ∧ rest = rest' := by
  have hends : EndsPath (e :: rest) := .of_terminal (by rcases he with he | he <;> simp [he])
  have hends' : EndsPath (e' :: rest') := .of_terminal (by rcases he' with he | he <;> simp [he])
  obtain ⟨hp, htail⟩ := h.unique h' hends hends' heq
  exact ⟨hp, List.cons.inj htail⟩

/-- A path that ends is no path with an operator after it. -/
theorem PathTree.Derives.ne_before {p p' : PathTree} {e : AttrToken} (h : p.Derives) (h' : p'.Derives)
    (hr : EndsNode rest) (he : e.terminal = .equal ∨ e.terminal = .leftParen) :
    p.tokens ++ rest ≠ p'.tokens ++ e :: rest' := by
  intro heq
  have hends : EndsPath (e :: rest') := .of_terminal (by rcases he with he | he <;> simp [he])
  obtain ⟨-, rfl⟩ := h.unique h' hr.path hends heq
  rcases he with he | he
  · exact absurd hr.equal (by simp [startsWith, he])
  · exact absurd hr.paren (by simp [startsWith, he])

theorem ArgTree.Derives.ne_close {w : ArgTree} {a : AttrArg} {c : AttrToken} (h : w.Derives a)
    (hc : c.terminal = .rightParen) : c :: rest ≠ w.tokens ++ rest' := by
  intro heq
  obtain ⟨t, ts, htokens, ht⟩ := h.argOf.exists_cons
  rw [htokens] at heq
  obtain ⟨rfl, -⟩ := List.cons.inj heq
  exact ht hc

/-- A literal in front of what does not go on with a node is no start of a node. -/
theorem NodeTree.Derives.ne_literal {t : AttrToken} {w : NodeTree} {m : AttrNode} (h : w.Derives m)
    (ht : isLiteral t = true) (hs : ¬ StartsLiteral w.tokens) (hr : EndsNode rest) :
    t :: rest ≠ w.tokens ++ rest' := by
  intro heq
  obtain ⟨t', ts, htokens, -⟩ := h.nodeOf.exists_cons
  have hne : w.tokens ≠ [] := by rw [htokens]; exact List.cons_ne_nil t' ts
  have hsome : StartsLiteral (t :: rest) := ⟨ht, fun _ => hr.equal⟩
  rw [heq] at hsome
  exact not_startsLiteral_append hne hs hsome

mutual

theorem NodeTree.Derives.unique {m m' : AttrNode} : ∀ {w w' : NodeTree} {rest rest'}, w.Derives m → w'.Derives m' →
    EndsNode rest → EndsNode rest' → w.tokens ++ rest = w'.tokens ++ rest' → w = w' ∧ rest = rest'
  | _, _, rest, rest', .word hp, h', hr, hr', heq => by
    cases h' with
    | word hp' =>
      obtain ⟨rfl, rfl⟩ := hp.unique hp' hr.path hr'.path heq
      exact ⟨rfl, rfl⟩
    | assign hp' he' _ =>
      simp only [NodeTree.tokens, List.append_assoc, List.cons_append] at heq
      exact absurd heq (hp.ne_before hp' hr (.inl he'))
    | list hp' ho' _ =>
      simp only [NodeTree.tokens, List.append_assoc, List.cons_append] at heq
      exact absurd heq (hp.ne_before hp' hr (.inr ho'))
  | _, _, rest, rest', .assign hp he hv, h', hr, hr', heq => by
    simp only [NodeTree.tokens, List.append_assoc, List.cons_append] at heq
    cases h' with
    | word hp' => exact absurd heq.symm (hp'.ne_before hp hr' (.inl he))
    | assign hp' he' hv' =>
      simp only [NodeTree.tokens, List.append_assoc, List.cons_append] at heq
      obtain ⟨rfl, rfl, hvalue⟩ := hp.unique_before hp' (.inl he) (.inl he') heq
      obtain ⟨rfl, rfl⟩ := hv.unique hv' hr.path hr'.path hvalue
      exact ⟨rfl, rfl⟩
    | list hp' ho' _ =>
      simp only [NodeTree.tokens, List.append_assoc, List.cons_append] at heq
      obtain ⟨-, rfl, -⟩ := hp.unique_before hp' (.inl he) (.inr ho') heq
      rw [he] at ho'
      cases ho'
  | _, _, rest, rest', .list hp ho h, h', hr, hr', heq => by
    simp only [NodeTree.tokens, List.append_assoc, List.cons_append] at heq
    cases h' with
    | word hp' => exact absurd heq.symm (hp'.ne_before hp hr' (.inr ho))
    | assign hp' he' _ =>
      simp only [NodeTree.tokens, List.append_assoc, List.cons_append] at heq
      obtain ⟨-, rfl, -⟩ := hp.unique_before hp' (.inr ho) (.inl he') heq
      rw [ho] at he'
      cases he'
    | list hp' ho' hargs' =>
      simp only [NodeTree.tokens, List.append_assoc, List.cons_append] at heq
      obtain ⟨rfl, rfl, hargs⟩ := hp.unique_before hp' (.inr ho) (.inr ho') heq
      obtain ⟨rfl, rfl⟩ := ArgsTree.Derives.unique h hargs' hargs
      exact ⟨rfl, rfl⟩

/-- Arguments need no condition on what follows: their parenthesis ends them. -/
theorem ArgsTree.Derives.unique {as as' : List AttrArg} {c c' : Option Span} : ∀ {w w' : ArgsTree} {rest rest'},
    w.Derives as c → w'.Derives as' c' → w.tokens ++ rest = w'.tokens ++ rest' → w = w' ∧ rest = rest'
  | _, _, rest, rest', .close hc, h', heq => by
    cases h' with
    | close hc' =>
      obtain ⟨rfl, rfl⟩ := List.cons.inj heq
      exact ⟨rfl, rfl⟩
    | last ha' _ =>
      simp only [ArgsTree.tokens, List.append_assoc] at heq
      exact absurd heq (ha'.ne_close hc)
    | cons ha' _ _ =>
      simp only [ArgsTree.tokens, List.append_assoc] at heq
      exact absurd heq (ha'.ne_close hc)
  | _, _, rest, rest', .last ha hc, h', heq => by
    simp only [ArgsTree.tokens, List.append_assoc, List.singleton_append] at heq
    cases h' with
    | close hc' => exact absurd heq.symm (ha.ne_close hc')
    | last ha' hc' =>
      simp only [ArgsTree.tokens, List.append_assoc, List.singleton_append] at heq
      obtain ⟨rfl, htail⟩ := ArgTree.Derives.unique ha ha' (.of_terminal (.inr hc)) (.of_terminal (.inr hc')) heq
      obtain ⟨rfl, rfl⟩ := List.cons.inj htail
      exact ⟨rfl, rfl⟩
    | cons ha' hk' _ =>
      simp only [ArgsTree.tokens, List.append_assoc, List.cons_append] at heq
      obtain ⟨-, htail⟩ := ArgTree.Derives.unique ha ha' (.of_terminal (.inr hc)) (.of_terminal (.inl hk')) heq
      obtain ⟨rfl, -⟩ := List.cons.inj htail
      rw [hc] at hk'
      cases hk'
  | _, _, rest, rest', .cons ha hk h, h', heq => by
    simp only [ArgsTree.tokens, List.append_assoc, List.cons_append] at heq
    cases h' with
    | close hc' => exact absurd heq.symm (ha.ne_close hc')
    | last ha' hc' =>
      simp only [ArgsTree.tokens, List.append_assoc, List.singleton_append] at heq
      obtain ⟨-, htail⟩ := ArgTree.Derives.unique ha ha' (.of_terminal (.inl hk)) (.of_terminal (.inr hc')) heq
      obtain ⟨rfl, -⟩ := List.cons.inj htail
      rw [hk] at hc'
      cases hc'
    | cons ha' hk' hmore' =>
      simp only [ArgsTree.tokens, List.append_assoc, List.cons_append] at heq
      obtain ⟨rfl, htail⟩ := ArgTree.Derives.unique ha ha' (.of_terminal (.inl hk)) (.of_terminal (.inl hk')) heq
      obtain ⟨rfl, hmore⟩ := List.cons.inj htail
      obtain ⟨rfl, rfl⟩ := ArgsTree.Derives.unique h hmore' hmore
      exact ⟨rfl, rfl⟩

theorem ArgTree.Derives.unique {a a' : AttrArg} : ∀ {w w' : ArgTree} {rest rest'}, w.Derives a → w'.Derives a' →
    EndsNode rest → EndsNode rest' → w.tokens ++ rest = w'.tokens ++ rest' → w = w' ∧ rest = rest'
  | _, _, rest, rest', .literal ht _, h', hr, hr', heq => by
    cases h' with
    | literal _ _ =>
      obtain ⟨rfl, rfl⟩ := List.cons.inj heq
      exact ⟨rfl, rfl⟩
    | node hs' hm' => exact absurd heq (hm'.ne_literal ht hs' hr)
  | _, _, rest, rest', .node hs hm, h', hr, hr', heq => by
    cases h' with
    | literal ht' _ => exact absurd heq.symm (hm.ne_literal ht' hs hr')
    | node _ hm' =>
      obtain ⟨rfl, rfl⟩ := NodeTree.Derives.unique hm hm' hr hr' heq
      exact ⟨rfl, rfl⟩

end

end AttrParse
end TypedErrors
