import TypedErrors.Proofs.Attribute.Derivation

/-! # Writing nodes as attribute blocks

`AttrNode.Renders` relates a node to every token sequence that writes it, whatever separators stand in its paths
and wherever a comma stands after the last argument. Not every node can be written: an argument or a value that
starts with `true` or `false` reads as that literal (`AttrNode.Proper`). Nodes are compared without their spans,
which tell where a block stands and not what it says. -/

namespace TypedErrors

open AttrParse

variable {ts : List AttrToken}

/-! ### Nodes without spans -/

def SymbolPath.bare (p : SymbolPath) : SymbolPath := ⟨p.segments.map fun i => ⟨i.name, none⟩, none⟩

def Literal.bare : Literal → Literal
  | .string l => .string ⟨l.value, none⟩
  | .bool b _ => .bool b none
  | .char c _ => .char c none
  | .int n digits _ => .int n digits none
  | .float x digits _ => .float x digits none

def AttrValue.bare : AttrValue → AttrValue
  | .path p => .path p.bare
  | .literal l => .literal l.bare

mutual

/-- The node with its spans forgotten. -/
def AttrNode.bare : AttrNode → AttrNode
  | .word p _ => .word p.bare none
  | .assign p v _ => .assign p.bare v.bare none
  | .list p as _ => .list p.bare (AttrNode.bareArgs as) none

def AttrNode.bareArgs : List AttrArg → List AttrArg
  | [] => []
  | a :: as => a.bare :: AttrNode.bareArgs as

def AttrArg.bare : AttrArg → AttrArg
  | .literal l => .literal l.bare
  | .node m => .node m.bare

end

theorem SymbolPath.bare_eq_iff {p q : SymbolPath} : p.bare = q.bare ↔ p.parts = q.parts := by
  have hinj : Function.Injective fun name : String => (⟨name, none⟩ : Ident) := by
    intro a b h
    exact congrArg Ident.name h
  have hbare : ∀ r : SymbolPath, r.bare = ⟨r.parts.map fun name => ⟨name, none⟩, none⟩ := by
    intro r
    simp [SymbolPath.bare, SymbolPath.parts]
  rw [hbare, hbare]
  constructor
  · intro h
    exact List.map_injective_iff.mpr hinj (congrArg SymbolPath.segments h)
  · intro h
    rw [h]

/-! ### Nodes that can be written -/

/-- The path starts with the word of a literal. -/
def SymbolPath.StartsBool (p : SymbolPath) : Prop := ∃ name ∈ p.parts.head?, name = "true" ∨ name = "false"

/-- As an argument, the node would be read as a literal: it starts with the word of one, and no `=` comes next. -/
def AttrNode.StartsBool : AttrNode → Prop
  | .word p _ | .list p _ _ => p.StartsBool
  | .assign p _ _ => p.StartsBool ∧ p.parts.tail ≠ []

def AttrValue.Proper : AttrValue → Prop
  | .path p => ¬ p.StartsBool
  | .literal _ => True

mutual

/-- No value and no argument in the node would be read as a literal instead. -/
def AttrNode.Proper : AttrNode → Prop
  | .word _ _ => True
  | .assign _ v _ => v.Proper
  | .list _ as _ => AttrNode.ProperArgs as

def AttrNode.ProperArgs : List AttrArg → Prop
  | [] => True
  | a :: as => a.Proper ∧ AttrNode.ProperArgs as

def AttrArg.Proper : AttrArg → Prop
  | .literal _ => True
  | .node m => ¬ m.StartsBool ∧ m.Proper

end

/-! ### Writing -/

/-- The names of the path, with any separators. -/
def SymbolPath.Renders (p : SymbolPath) (ts : List AttrToken) : Prop :=
  ∃ w : PathTree, w.Derives ∧ w.tokens = ts ∧ w.path.parts = p.parts

/-- A token that denotes the literal. -/
def Literal.Renders (l : Literal) (t : AttrToken) : Prop :=
  isLiteral t = true ∧ ∃ l', literal t = .ok l' ∧ l'.bare = l.bare

inductive AttrValue.Renders : AttrValue → List AttrToken → Prop
  | path {p : SymbolPath} {ts : List AttrToken} (h : p.Renders ts) : Renders (.path p) ts
  | literal {l : Literal} {t : AttrToken} (h : l.Renders t) : Renders (.literal l) [t]

mutual

inductive AttrNode.Renders : AttrNode → List AttrToken → Prop
  | word {p : SymbolPath} {s : Option Span} {ps : List AttrToken} (hp : p.Renders ps) :
    AttrNode.Renders (.word p s) ps
  | assign {p : SymbolPath} {v : AttrValue} {s : Option Span} {ps vs : List AttrToken} {e : AttrToken}
      (hp : p.Renders ps) (he : e.terminal = .equal) (hv : v.Renders vs) :
    AttrNode.Renders (.assign p v s) (ps ++ e :: vs)
  | list {p : SymbolPath} {as : List AttrArg} {s : Option Span} {ps us : List AttrToken} {o : AttrToken}
      (hp : p.Renders ps) (ho : o.terminal = .leftParen) (h : AttrNode.RendersArgs as us) :
    AttrNode.Renders (.list p as s) (ps ++ o :: us)

/-- The arguments with commas between them, perhaps one after the last, and the closing parenthesis. -/
inductive AttrNode.RendersArgs : List AttrArg → List AttrToken → Prop
  | close {c : AttrToken} (hc : c.terminal = .rightParen) : AttrNode.RendersArgs [] [c]
  | last {a : AttrArg} {us : List AttrToken} {c : AttrToken} (ha : AttrArg.Renders a us)
      (hc : c.terminal = .rightParen) : AttrNode.RendersArgs [a] (us ++ [c])
  | cons {a : AttrArg} {as : List AttrArg} {us vs : List AttrToken} {k : AttrToken} (ha : AttrArg.Renders a us)
      (hk : k.terminal = .comma) (h : AttrNode.RendersArgs as vs) : AttrNode.RendersArgs (a :: as) (us ++ k :: vs)

inductive AttrArg.Renders : AttrArg → List AttrToken → Prop
  | literal {l : Literal} {t : AttrToken} (h : l.Renders t) : AttrArg.Renders (.literal l) [t]
  | node {m : AttrNode} {us : List AttrToken} (h : AttrNode.Renders m us) : AttrArg.Renders (.node m) us

end

/-! ### What is written starts with a literal as the node does -/

theorem isLiteral_iff_of_name {t : AttrToken} (ht : t.terminal = .name) :
    isLiteral t = true ↔ t.text = "true" ∨ t.text = "false" := by
  simp only [isLiteral, boolWord?, ht, if_true]
  split_ifs with htrue hfalse
  · simp [htrue]
  · simp [hfalse]
  · simp [htrue, hfalse]

theorem SymbolPath.Renders.exists_cons {p : SymbolPath} (h : p.Renders ts) :
    ∃ t us, ts = t :: us ∧ t.terminal = .name ∧ (isLiteral t = true ↔ p.StartsBool) ∧
      (us = [] ↔ p.parts.tail = []) ∧ startsWith .equal us = false := by
  obtain ⟨⟨t, ms⟩, hw, rfl, hparts⟩ := h
  have hfirst : p.parts.head? = some t.text := by rw [← hparts]; rfl
  have hrest : p.parts.tail = ms.map (·.2.text) := by
    rw [← hparts]
    simp [PathTree.path, SymbolPath.parts, AttrParse.segment, Function.comp_def]
  refine ⟨t, _, rfl, hw.head, ?_, ?_, ?_⟩
  · rw [isLiteral_iff_of_name hw.head, SymbolPath.StartsBool, hfirst]
    simp
  · rw [hrest]
    cases ms <;> simp
  · cases ms with
    | nil => rfl
    | cons q ms =>
      have hq := (List.forall_mem_cons.mp hw.more).1.1
      rcases hq with hq | hq <;> simp [startsWith, hq]

theorem isSome_boolWord?_of_isLiteral {t : AttrToken} (ht : t.terminal = .name) (h : isLiteral t = true) :
    (boolWord? t).isSome = true := by
  simpa [isLiteral, ht] using h

/-- The tokens start with a literal only by a word of one, since nodes start with names. -/
theorem AttrNode.Renders.startsLiteral_iff {m : AttrNode} (h : m.Renders ts) :
    StartsLiteral ts ↔ m.StartsBool := by
  cases h with
  | word hp =>
    obtain ⟨t, us, rfl, -, hbool, -, hequal⟩ := hp.exists_cons
    rw [StartsLiteral, AttrNode.StartsBool, hbool]
    exact and_iff_left fun _ => hequal
  | @assign p v s ps vs e hp he _ =>
    obtain ⟨t, us, rfl, ht, hbool, htail, hequal⟩ := hp.exists_cons
    rw [List.cons_append, StartsLiteral, AttrNode.StartsBool, ← hbool]
    refine and_congr_right fun hlit => ?_
    rw [ne_eq, ← htail]
    simp only [isSome_boolWord?_of_isLiteral ht hlit, forall_const]
    cases us with
    | nil => simp [startsWith, he]
    | cons u us => simpa [startsWith] using hequal
  | @list p as s ps us o hp ho _ =>
    obtain ⟨t, us, rfl, -, hbool, -, hequal⟩ := hp.exists_cons
    rw [List.cons_append, StartsLiteral, AttrNode.StartsBool, hbool]
    refine and_iff_left fun _ => ?_
    cases us with
    | nil => simp [startsWith, ho]
    | cons u us => exact hequal

/-! ### Phrases are what proper nodes are written as -/

theorem AttrParse.PathOf.renders {p : SymbolPath} (h : PathOf ts p) : p.Renders ts := by
  obtain ⟨w, hw, htokens, rfl⟩ := h.exists_tree
  exact ⟨w, hw, htokens, rfl⟩

theorem AttrParse.ValueOf.renders {v : AttrValue} (h : ValueOf ts v) : v.Renders ts ∧ v.Proper := by
  cases h with
  | literal ht hl => exact ⟨.literal ⟨ht, _, hl, rfl⟩, trivial⟩
  | @path t ts p ht hp =>
    refine ⟨.path hp.renders, ?_⟩
    obtain ⟨t', us, heq, -, hbool, -⟩ := hp.renders.exists_cons
    obtain ⟨rfl, rfl⟩ := List.cons.inj heq
    rw [AttrValue.Proper, ← hbool, ht]
    exact Bool.false_ne_true

mutual

theorem AttrParse.NodeOf.renders {m : AttrNode} : ∀ {ts}, NodeOf ts m → m.Renders ts ∧ m.Proper
  | _, .word hp => ⟨.word hp.renders, trivial⟩
  | _, .assign hp he hv => ⟨.assign hp.renders he hv.renders.1, hv.renders.2⟩
  | _, .list hp ho h => ⟨.list hp.renders ho (ArgsOf.renders h).1, (ArgsOf.renders h).2⟩

theorem AttrParse.ArgsOf.renders {as : List AttrArg} {c : Option Span} :
    ∀ {ts}, ArgsOf ts as c → AttrNode.RendersArgs as ts ∧ AttrNode.ProperArgs as
  | _, .close hc => ⟨.close hc, trivial⟩
  | _, .last ha hc => ⟨.last (ArgOf.renders ha).1 hc, (ArgOf.renders ha).2, trivial⟩
  | _, .cons ha hk h =>
    ⟨.cons (ArgOf.renders ha).1 hk (ArgsOf.renders h).1, (ArgOf.renders ha).2, (ArgsOf.renders h).2⟩

theorem AttrParse.ArgOf.renders {a : AttrArg} : ∀ {ts}, ArgOf ts a → a.Renders ts ∧ a.Proper
  | _, .literal ht hl => ⟨.literal ⟨ht, _, hl, rfl⟩, trivial⟩
  | _, .node hs h => by
    obtain ⟨hm, hproper⟩ := NodeOf.renders h
    exact ⟨.node hm, hm.startsLiteral_iff.not.mp hs, hproper⟩

end

theorem SymbolPath.Renders.pathOf {p : SymbolPath} (h : p.Renders ts) :
    ∃ q, PathOf ts q ∧ q.bare = p.bare := by
  obtain ⟨w, hw, rfl, hparts⟩ := h
  exact ⟨w.path, hw.pathOf, SymbolPath.bare_eq_iff.mpr hparts⟩

theorem AttrValue.Renders.valueOf {v : AttrValue} (h : v.Renders ts) (hproper : v.Proper) :
    ∃ v', ValueOf ts v' ∧ v'.bare = v.bare := by
  cases h with
  | literal hl =>
    obtain ⟨ht, l', hl', hbare⟩ := hl
    exact ⟨.literal l', .literal ht hl', by rw [AttrValue.bare, AttrValue.bare, hbare]⟩
  | path hp =>
    obtain ⟨q, hq, hbare⟩ := hp.pathOf
    obtain ⟨t, us, rfl, -, hbool, -⟩ := hp.exists_cons
    have ht : isLiteral t = false := Bool.eq_false_iff.mpr (hbool.not.mpr hproper)
    exact ⟨.path q, .path ht hq, by rw [AttrValue.bare, AttrValue.bare, hbare]⟩

mutual

/-- What a proper node is written as spells the node, by induction on the writing. -/
theorem AttrNode.Renders.nodeOf {m : AttrNode} : ∀ {ts}, m.Renders ts → m.Proper →
    ∃ m', NodeOf ts m' ∧ m'.bare = m.bare
  | _, .word hp, _ => by
    obtain ⟨q, hq, hbare⟩ := hp.pathOf
    exact ⟨.word q q.span, .word hq, by rw [AttrNode.bare, AttrNode.bare, hbare]⟩
  | _, .assign hp he hv, hproper => by
    obtain ⟨q, hq, hpath⟩ := hp.pathOf
    obtain ⟨v', hv', hvalue⟩ := hv.valueOf hproper
    exact ⟨.assign q v' _, .assign hq he hv', by rw [AttrNode.bare, AttrNode.bare, hpath, hvalue]⟩
  | _, .list hp ho h, hproper => by
    obtain ⟨q, hq, hpath⟩ := hp.pathOf
    obtain ⟨as', close, has', hargs⟩ := AttrNode.RendersArgs.argsOf h hproper
    exact ⟨.list q as' _, .list hq ho has', by rw [AttrNode.bare, AttrNode.bare, hpath, hargs]⟩

theorem AttrNode.RendersArgs.argsOf {as : List AttrArg} : ∀ {ts}, AttrNode.RendersArgs as ts →
    AttrNode.ProperArgs as → ∃ as' close, ArgsOf ts as' close ∧ AttrNode.bareArgs as' = AttrNode.bareArgs as
  | _, .close hc, _ => ⟨[], _, .close hc, rfl⟩
  | _, .last ha hc, hproper => by
    obtain ⟨a', ha', hbare⟩ := AttrArg.Renders.argOf ha hproper.1
    exact ⟨[a'], _, .last ha' hc, by simp only [AttrNode.bareArgs, hbare]⟩
  | _, .cons ha hk h, hproper => by
    obtain ⟨a', ha', hbare⟩ := AttrArg.Renders.argOf ha hproper.1
    obtain ⟨as', close, has', hargs⟩ := AttrNode.RendersArgs.argsOf h hproper.2
    exact ⟨a' :: as', close, .cons ha' hk has', by rw [AttrNode.bareArgs, AttrNode.bareArgs, hbare, hargs]⟩

theorem AttrArg.Renders.argOf {a : AttrArg} : ∀ {ts}, a.Renders ts → a.Proper →
    ∃ a', ArgOf ts a' ∧ a'.bare = a.bare
  | _, .literal hl, _ => by
    obtain ⟨ht, l', hl', hbare⟩ := hl
    exact ⟨.literal l', .literal ht hl', by rw [AttrArg.bare, AttrArg.bare, hbare]⟩
  | _, .node h, hproper => by
    obtain ⟨m', hm', hbare⟩ := AttrNode.Renders.nodeOf h hproper.2
    have hs := h.startsLiteral_iff.not.mpr hproper.1
    exact ⟨.node m', .node hs hm', by rw [AttrArg.bare, AttrArg.bare, hbare]⟩

end

/-! ### Blocks -/

theorem AttrParse.NodeTree.Derives.eq_of_tokens_eq {w w' : NodeTree} {m m' : AttrNode} (h : w.Derives m)
    (h' : w'.Derives m') (heq : w.tokens = w'.tokens) : w = w' := by
  have happend : w.tokens ++ [] = w'.tokens ++ [] := by rw [heq]
  exact (h.unique h' .nil .nil happend).1

/-- A block is read just when its tokens have a derivation, of which there is one at most, and the node is its
tree. The node is proper and the block writes it; and every block that writes a proper node reads as that node. -/
theorem parseAttribute_derives (a : RawAttribute) :
    (∀ m, parseAttribute a = .ok m ↔ ∃ w : NodeTree, w.Derives m ∧ w.tokens = a.tokens) ∧
      (∀ (w w' : NodeTree) m m', w.Derives m → w'.Derives m' → w.tokens = a.tokens → w'.tokens = a.tokens →
        w = w' ∧ m = m') ∧
      (∀ m, parseAttribute a = .ok m → m.Proper ∧ m.Renders a.tokens) ∧
      ∀ m : AttrNode, m.Proper → m.Renders a.tokens → ∃ m', parseAttribute a = .ok m' ∧ m'.bare = m.bare := by
  have hread : ∀ m, parseAttribute a = .ok m ↔ ∃ w : NodeTree, w.Derives m ∧ w.tokens = a.tokens :=
    fun m => parseAttribute_eq_ok_iff.trans nodeOf_iff
  refine ⟨hread, ?_, ?_, ?_⟩
  · intro w w' m m' hw hw' htokens htokens'
    have hm := (hread m).mpr ⟨w, hw, htokens⟩
    have hm' := (hread m').mpr ⟨w', hw', htokens'⟩
    exact ⟨hw.eq_of_tokens_eq hw' (htokens.trans htokens'.symm), Except.ok.inj (hm.symm.trans hm')⟩
  · intro m hm
    exact (NodeOf.renders (parseAttribute_eq_ok_iff.mp hm)).symm
  · intro m hproper hm
    obtain ⟨m', hm', hbare⟩ := hm.nodeOf hproper
    exact ⟨m', parseAttribute_eq_ok_iff.mpr hm', hbare⟩

/-- A block of one-character marks and names, as they are written. -/
def blockOf (marks : List (Terminal × String)) : RawAttribute := ⟨marks.map fun q => ⟨q.1, q.2, none⟩, none⟩

/-- The node `a(true, true = b.c)`. -/
def boolWordNode : AttrNode :=
  .list ⟨[⟨"a", none⟩], none⟩
    [.literal (.bool true none), .node (.assign ⟨[⟨"true", none⟩], none⟩ (.path ⟨[⟨"b", none⟩, ⟨"c", none⟩], none⟩) none)]
    none

/-- Both `a(true, true = b.c,)` and `a(true, true = b::c)` are read as the node. -/
theorem boolWordNode_read :
    (∃ w : NodeTree, w.Derives boolWordNode ∧ w.tokens =
      (blockOf [(.name, "a"), (.leftParen, "("), (.name, "true"), (.comma, ","), (.name, "true"), (.equal, "="),
        (.name, "b"), (.dot, "."), (.name, "c"), (.comma, ","), (.rightParen, ")")]).tokens) ∧
      ∃ m', parseAttribute (blockOf [(.name, "a"), (.leftParen, "("), (.name, "true"), (.comma, ","),
        (.name, "true"), (.equal, "="), (.name, "b"), (.pathSep, "::"), (.name, "c"), (.rightParen, ")")]) = .ok m' ∧
        m'.bare = boolWordNode.bare := by
  have hread : parseAttribute (blockOf [(.name, "a"), (.leftParen, "("), (.name, "true"), (.comma, ","),
      (.name, "true"), (.equal, "="), (.name, "b"), (.dot, "."), (.name, "c"), (.comma, ","), (.rightParen, ")")]) =
      .ok boolWordNode := rfl
  refine ⟨((parseAttribute_derives _).1 _).mp hread, ?_⟩
  have hproper := ((parseAttribute_derives _).2.2.1 _ hread).1
  have ha : SymbolPath.Renders ⟨[⟨"a", none⟩], none⟩ [⟨.name, "a", none⟩] :=
    ⟨⟨⟨.name, "a", none⟩, []⟩, ⟨rfl, List.forall_mem_nil _⟩, rfl, rfl⟩
  have htrue : SymbolPath.Renders ⟨[⟨"true", none⟩], none⟩ [⟨.name, "true", none⟩] :=
    ⟨⟨⟨.name, "true", none⟩, []⟩, ⟨rfl, List.forall_mem_nil _⟩, rfl, rfl⟩
  have hpath : SymbolPath.Renders ⟨[⟨"b", none⟩, ⟨"c", none⟩], none⟩
      [⟨.name, "b", none⟩, ⟨.pathSep, "::", none⟩, ⟨.name, "c", none⟩] :=
    ⟨⟨⟨.name, "b", none⟩, [(⟨.pathSep, "::", none⟩, ⟨.name, "c", none⟩)]⟩, ⟨rfl, by simp⟩, rfl, rfl⟩
  have hbool : Literal.Renders (.bool true none) ⟨.name, "true", none⟩ := ⟨rfl, _, rfl, rfl⟩
  have hassign : AttrArg.Renders (.node (.assign _ _ none)) (_ ++ (⟨.equal, "=", none⟩ : AttrToken) :: _) :=
    .node (.assign htrue rfl (.path hpath))
  have hargs : AttrNode.RendersArgs _ (_ ++ (⟨.comma, ",", none⟩ : AttrToken) :: (_ ++ [⟨.rightParen, ")", none⟩])) :=
    .cons (.literal hbool) rfl (.last hassign rfl)
  have hnode : boolWordNode.Renders (_ ++ (⟨.leftParen, "(", none⟩ : AttrToken) :: _) := .list ha rfl hargs
  exact (parseAttribute_derives _).2.2.2 _ hproper hnode

end TypedErrors
