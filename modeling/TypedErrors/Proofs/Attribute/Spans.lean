import Mathlib.Data.List.Flatten
import Mathlib.Data.Prod.Lex
import Mathlib.Logic.Relation
import TypedErrors.Proofs.Attribute.Literal
import TypedErrors.Proofs.Attribute.Rendering

/-! # Spans of nodes

A node, and each part of it, stands where the tokens stand that it was read from: it starts with the first of them and
ends with the last (`ItemTree.Derives.covers`). So when the tokens follow one another in a file, the parts of a node lie
within it one after another (`parseAttribute_spans`). -/

namespace TypedErrors

namespace Span

/-- The line and the column where the span starts. -/
def start (s : Span) : Nat ×ₗ Nat := toLex (s.line, s.column)

/-- Where the span ends; one without an end does so where it starts. -/
def stop (s : Span) : Nat ×ₗ Nat := toLex (s.endLine.getD s.line, s.endColumn.getD s.column)

end Span

namespace AttrParse

/-! ### Parts -/

/-- A node, or what stands in one. -/
inductive Item where
  | ident (i : Ident)
  | path (p : SymbolPath)
  | literal (l : Literal)
  | node (m : AttrNode)

namespace Item

def span : Item → Option Span
  | .ident i => i.span
  | .path p => p.span
  | .literal l => l.span
  | .node m => m.span

def ofValue : AttrValue → Item
  | .path p => .path p
  | .literal l => .literal l

def ofArg : AttrArg → Item
  | .literal l => .literal l
  | .node m => .node m

/-- What stands directly in the item, in order. -/
def parts : Item → List Item
  | .ident _ | .literal _ => []
  | .path p => p.segments.map .ident
  | .node (.word p _) => [.path p]
  | .node (.assign p v _) => [.path p, ofValue v]
  | .node (.list p args _) => .path p :: args.map ofArg

/-- The second item stands in the first at some depth, or is the same. -/
def Within : Item → Item → Prop := Relation.ReflTransGen fun x y => y ∈ x.parts

end Item

/-- A derivation of an item. -/
inductive ItemTree where
  | ident (t : AttrToken)
  | path (p : PathTree)
  | literal (t : AttrToken)
  | node (w : NodeTree)

def ArgsTree.list : ArgsTree → List ArgTree
  | .close _ => []
  | .last a _ => [a]
  | .cons a _ more => a :: more.list

namespace ItemTree

def ofValue : ValueTree → ItemTree
  | .path p => .path p
  | .literal t => .literal t

def ofArg : ArgTree → ItemTree
  | .literal t => .literal t
  | .node w => .node w

def tokens : ItemTree → List AttrToken
  | .ident t | .literal t => [t]
  | .path p => p.tokens
  | .node w => w.tokens

def parts : ItemTree → List ItemTree
  | .ident _ | .literal _ => []
  | .path p => .ident p.head :: p.more.map fun q => .ident q.2
  | .node (.word p) => [.path p]
  | .node (.assign p _ v) => [.path p, ofValue v]
  | .node (.list p _ args) => .path p :: args.list.map ofArg

/-- The tree is a derivation of the item. -/
inductive Derives : ItemTree → Item → Prop
  | ident (t : AttrToken) : Derives (.ident t) (.ident (segment t))
  | path {p : PathTree} (h : p.Derives) : Derives (.path p) (.path p.path)
  | literal {t : AttrToken} {l : Literal} (h : AttrParse.literal t = .ok l) : Derives (.literal t) (.literal l)
  | node {w : NodeTree} {m : AttrNode} (h : w.Derives m) : Derives (.node w) (.node m)

variable {u : ItemTree} {x : Item}

theorem derives_ofValue {w : ValueTree} {v : AttrValue} (h : w.Derives v) : Derives (ofValue w) (.ofValue v) := by
  cases h with
  | literal _ hl => exact .literal hl
  | path _ hp => exact .path hp

theorem derives_ofArg {w : ArgTree} {a : AttrArg} (h : w.Derives a) : Derives (ofArg w) (.ofArg a) := by
  cases h with
  | literal _ hl => exact .literal hl
  | node _ hm => exact .node hm

theorem derives_list {close : Option Span} : ∀ {w : ArgsTree} {as : List AttrArg}, w.Derives as close →
    List.Forall₂ Derives (w.list.map ofArg) (as.map .ofArg)
  | .close _, _, h => by
    cases h
    exact .nil
  | .last _ _, _, h => by
    cases h with
    | last ha _ => exact .cons (derives_ofArg ha) .nil
  | .cons _ _ _, _, h => by
    cases h with
    | cons ha _ hmore => exact .cons (derives_ofArg ha) (derives_list hmore)

/-- The parts of a derivation are derivations of the parts. -/
theorem Derives.parts (h : u.Derives x) : List.Forall₂ Derives u.parts x.parts := by
  cases h with
  | ident => exact .nil
  | literal => exact .nil
  | @path p hp =>
    refine .cons (.ident p.head) ?_
    rw [List.map_map, List.forall₂_map_left_iff, List.forall₂_map_right_iff, List.forall₂_same]
    exact fun q _ => .ident q.2
  | node hm =>
    cases hm with
    | word hp => exact .cons (.path hp) .nil
    | assign hp _ hv => exact .cons (.path hp) (.cons (derives_ofValue hv) .nil)
    | list hp _ hargs => exact .cons (.path hp) (derives_list hargs)

end ItemTree

/-! ### Stretches of tokens -/

variable {ts us vs : List AttrToken} {t : AttrToken} {a : Span} {s s' : Option Span}

/-- The span starts with the first of the tokens. -/
def StartsAt (a : Span) (ts : List AttrToken) : Prop :=
  ∃ t ∈ ts.head?, ∃ b ∈ t.span, a.file = b.file ∧ a.start = b.start

/-- The span ends with the last of the tokens. -/
def StopsAt (a : Span) (ts : List AttrToken) : Prop := ∃ t ∈ ts.getLast?, ∃ b ∈ t.span, a.stop = b.stop

def Covers (s : Option Span) (ts : List AttrToken) : Prop := ∃ a ∈ s, StartsAt a ts ∧ StopsAt a ts

theorem StartsAt.append (h : StartsAt a ts) (us : List AttrToken) : StartsAt a (ts ++ us) := by
  obtain ⟨t, ht, hspan⟩ := h
  exact ⟨t, List.mem_head?_append_of_mem_head? ht, hspan⟩

theorem StopsAt.append (h : StopsAt a us) (ts : List AttrToken) : StopsAt a (ts ++ us) := by
  obtain ⟨t, ht, hspan⟩ := h
  exact ⟨t, List.mem_getLast?_append_of_mem_getLast? ht, hspan⟩

theorem covers_singleton (h : t.span.isSome = true) : Covers t.span [t] := by
  obtain ⟨a, ha⟩ := Option.isSome_iff_exists.mp h
  exact ⟨a, ha, ⟨t, rfl, a, ha, rfl, rfl⟩, ⟨t, rfl, a, ha, rfl⟩⟩

theorem Covers.join {b : Span} (h : Covers s ts) (hb : StopsAt b us) : Covers (joinSpans s (some b)) (ts ++ us) := by
  obtain ⟨a, rfl, hstart, -⟩ := h
  refine ⟨a.join b, rfl, ?_, ?_⟩
  · exact StartsAt.append hstart us
  · exact StopsAt.append hb ts

/-- The last name of a path as it is written. -/
def PathTree.last (p : PathTree) : AttrToken := (p.more.map (·.2)).getLast?.getD p.head

theorem PathTree.getLast?_tokens (p : PathTree) : p.tokens.getLast? = some p.last := by
  obtain ⟨t, ms⟩ := p
  rcases List.eq_nil_or_concat ms with rfl | ⟨init, q, rfl⟩
  · rfl
  · simp only [tokens, last, List.concat_eq_append, List.map_append, List.flatMap_append, List.map_singleton,
      List.flatMap_singleton, List.getLast?_concat, Option.getD_some]
    rw [← List.cons_append]
    exact List.mem_getLast?_append_of_mem_getLast? (show q.2 ∈ [q.1, q.2].getLast? from rfl)

theorem PathTree.span_path (p : PathTree) : p.path.span = p.head.span.map (·.join p.last.span) := by
  rw [PathTree.path, PathTree.last, ← Function.comp_def segment, ← List.map_map, List.getLast?_map, Option.getD_map]
  rfl

theorem PathTree.covers (p : PathTree) (h : ∀ t ∈ p.tokens, t.span.isSome = true) : Covers p.path.span p.tokens := by
  have hlast := List.mem_of_getLast? p.getLast?_tokens
  obtain ⟨a, ha⟩ := Option.isSome_iff_exists.mp (h p.head (List.mem_cons_self ..))
  obtain ⟨b, hb⟩ := Option.isSome_iff_exists.mp (h p.last hlast)
  rw [p.span_path, ha, hb]
  exact ⟨a.join b, rfl, ⟨p.head, rfl, a, ha, rfl, rfl⟩, ⟨p.last, p.getLast?_tokens, b, hb, rfl⟩⟩

theorem ValueTree.Derives.covers {w : ValueTree} {v : AttrValue} (h : w.Derives v)
    (hw : ∀ t ∈ w.tokens, t.span.isSome = true) : Covers v.span w.tokens := by
  cases h with
  | @literal t l _ hl =>
    rw [AttrValue.span, literal_span hl]
    exact covers_singleton (hw t (List.mem_singleton_self t))
  | @path p _ _ => exact p.covers hw

/-- Arguments end with the closing parenthesis. -/
theorem ArgsTree.Derives.stopsAt {as : List AttrArg} {close : Option Span} : ∀ {w : ArgsTree}, w.Derives as close →
    (∀ t ∈ w.tokens, t.span.isSome = true) → ∃ b ∈ close, StopsAt b w.tokens
  | .close c, .close _, hw => by
    obtain ⟨b, hb⟩ := Option.isSome_iff_exists.mp (hw c (List.mem_singleton_self c))
    exact ⟨b, hb, c, rfl, b, hb, rfl⟩
  | .last w c, .last _ _, hw => by
    obtain ⟨b, hb⟩ := Option.isSome_iff_exists.mp (hw c (List.mem_append_right _ (List.mem_singleton_self c)))
    exact ⟨b, hb, .append ⟨c, rfl, b, hb, rfl⟩ w.tokens⟩
  | .cons w k more, .cons _ _ h, hw => by
    have hmore : ∀ t ∈ more.tokens, t.span.isSome = true := fun t ht =>
      hw t (List.mem_append_right _ (List.mem_cons_of_mem k ht))
    obtain ⟨b, hb, hstop⟩ := ArgsTree.Derives.stopsAt h hmore
    exact ⟨b, hb, StopsAt.append (hstop.append [k]) w.tokens⟩

theorem NodeTree.Derives.covers {w : NodeTree} {m : AttrNode} (h : w.Derives m)
    (hw : ∀ t ∈ w.tokens, t.span.isSome = true) : Covers m.span w.tokens := by
  cases h with
  | @word p _ => exact p.covers hw
  | @assign p e v' v _ _ hv =>
    obtain ⟨hpath, hrest⟩ := List.forall_mem_append.mp hw
    obtain ⟨b, hb, -, hstop⟩ := hv.covers (List.forall_mem_cons.mp hrest).2
    rw [AttrNode.span, hb]
    exact (p.covers hpath).join (hstop.append [e])
  | @list p o args _ close _ _ hargs =>
    obtain ⟨hpath, hrest⟩ := List.forall_mem_append.mp hw
    obtain ⟨b, hb, hstop⟩ := hargs.stopsAt (List.forall_mem_cons.mp hrest).2
    rw [AttrNode.span, hb]
    exact (p.covers hpath).join (hstop.append [o])

/-- An item stands where its tokens do. -/
theorem ItemTree.Derives.covers {u : ItemTree} {x : Item} (h : u.Derives x)
    (hu : ∀ t ∈ u.tokens, t.span.isSome = true) : Covers x.span u.tokens := by
  cases h with
  | ident t => exact covers_singleton (hu t (List.mem_singleton_self t))
  | @path p _ => exact p.covers hu
  | @literal t l hl =>
    rw [Item.span, literal_span hl]
    exact covers_singleton (hu t (List.mem_singleton_self t))
  | node hm => exact hm.covers hu

/-! ### Tokens of parts -/

theorem ItemTree.tokens_ofValue (w : ValueTree) : (ItemTree.ofValue w).tokens = w.tokens := by cases w <;> rfl

theorem ItemTree.tokens_ofArg (w : ArgTree) : (ItemTree.ofArg w).tokens = w.tokens := by cases w <;> rfl

theorem ArgsTree.flatMap_tokens_sublist : ∀ w : ArgsTree,
    ((w.list.map ItemTree.ofArg).flatMap ItemTree.tokens).Sublist w.tokens
  | .close c => List.nil_sublist _
  | .last a c => by
    rw [ArgsTree.list, List.map_singleton, List.flatMap_singleton, ItemTree.tokens_ofArg]
    exact List.sublist_append_left a.tokens [c]
  | .cons a k more => by
    rw [ArgsTree.list, List.map_cons, List.flatMap_cons, ItemTree.tokens_ofArg]
    exact (List.Sublist.refl a.tokens).append ((flatMap_tokens_sublist more).cons k)

/-- The tokens of the parts stand one after another among those of the whole. -/
theorem ItemTree.flatMap_tokens_sublist (u : ItemTree) : (u.parts.flatMap ItemTree.tokens).Sublist u.tokens := by
  cases u with
  | ident t => exact List.nil_sublist _
  | literal t => exact List.nil_sublist _
  | path p =>
    obtain ⟨t, ms⟩ := p
    refine List.Sublist.cons_cons t ?_
    induction ms with
    | nil => exact List.Sublist.refl []
    | cons q ms ih => exact (ih.cons_cons q.2).cons q.1
  | node w =>
    cases w with
    | word p =>
      rw [parts, List.flatMap_singleton]
      exact List.Sublist.refl p.tokens
    | assign p e v =>
      rw [parts, List.flatMap_cons, List.flatMap_singleton, tokens_ofValue]
      exact (List.Sublist.refl p.tokens).append (List.sublist_cons_self e v.tokens)
    | list p o args =>
      rw [parts, List.flatMap_cons]
      exact (List.Sublist.refl p.tokens).append (args.flatMap_tokens_sublist.cons o)

/-! ### Tokens in order -/

/-- The tokens follow one another in a file. -/
structure Increasing (ts : List AttrToken) : Prop where
  file : ∀ t ∈ ts, ∀ u ∈ ts, ∀ a ∈ t.span, ∀ b ∈ u.span, a.file = b.file
  forward : ∀ t ∈ ts, ∀ a ∈ t.span, a.start ≤ a.stop
  ordered : ts.Pairwise fun t u => ∀ a ∈ t.span, ∀ b ∈ u.span, a.stop ≤ b.start

/-- The second span lies within the first. -/
def Contains (s s' : Option Span) : Prop := ∃ a ∈ s, ∃ b ∈ s', a.file = b.file ∧ a.start ≤ b.start ∧ b.stop ≤ a.stop

/-- The first span ends before the second starts, or there. -/
def Precedes (s s' : Option Span) : Prop := ∃ a ∈ s, ∃ b ∈ s', a.stop ≤ b.start

namespace Increasing

theorem sublist (h : Increasing ts) (hus : us.Sublist ts) : Increasing us where
  file t ht u hu := h.file t (hus.subset ht) u (hus.subset hu)
  forward t ht := h.forward t (hus.subset ht)
  ordered := h.ordered.sublist hus

/-- What starts with the first token starts first. -/
theorem startsAt (h : Increasing ts) (ha : StartsAt a ts) (ht : t ∈ ts) {b : Span} (hb : b ∈ t.span) :
    a.file = b.file ∧ a.start ≤ b.start := by
  obtain ⟨u, hu, c, hc, hfile, hstart⟩ := ha
  rw [hfile, hstart]
  refine ⟨h.file u (List.mem_of_mem_head? hu) t ht c hc b hb, ?_⟩
  obtain ⟨more, rfl⟩ := List.head?_eq_some_iff.mp hu
  rcases List.mem_cons.mp ht with rfl | hmore
  · rw [Option.mem_unique hc hb]
  · have hforward := h.forward u (List.mem_cons_self ..) c hc
    exact hforward.trans ((List.pairwise_cons.mp h.ordered).1 t hmore c hc b hb)

/-- What ends with the last token ends last. -/
theorem stopsAt (h : Increasing ts) (ha : StopsAt a ts) (ht : t ∈ ts) {b : Span} (hb : b ∈ t.span) :
    b.stop ≤ a.stop := by
  obtain ⟨u, hu, c, hc, hstop⟩ := ha
  rw [hstop]
  obtain ⟨init, rfl⟩ := List.getLast?_eq_some_iff.mp hu
  have hlast := List.mem_singleton_self u
  rcases List.mem_append.mp ht with hinit | heq
  · have hordered := (List.pairwise_append.mp h.ordered).2.2 t hinit u hlast b hb c hc
    exact hordered.trans (h.forward u (List.mem_append_right init hlast) c hc)
  · obtain rfl := List.mem_singleton.mp heq
    rw [Option.mem_unique hc hb]

theorem contains (h : Increasing ts) (hs : Covers s ts) (hs' : Covers s' us) (hus : us.Sublist ts) : Contains s s' := by
  obtain ⟨a, ha, hstart, hstop⟩ := hs
  obtain ⟨b, hb, ⟨t, ht, c, hc, hfile, hbstart⟩, ⟨u, hu, d, hd, hbstop⟩⟩ := hs'
  have hfirst := h.startsAt hstart (hus.subset (List.mem_of_mem_head? ht)) hc
  have hlast := h.stopsAt hstop (hus.subset (List.mem_of_getLast? hu)) hd
  exact ⟨a, ha, b, hb, hfirst.1.trans hfile.symm, hbstart ▸ hfirst.2, hbstop ▸ hlast⟩

theorem precedes (h : Increasing ts) (hs : Covers s us) (hs' : Covers s' vs) (hsub : (us ++ vs).Sublist ts) :
    Precedes s s' := by
  obtain ⟨a, ha, -, ⟨t, ht, c, hc, hstop⟩⟩ := hs
  obtain ⟨b, hb, ⟨u, hu, d, hd, -, hstart⟩, -⟩ := hs'
  have hordered := (List.pairwise_append.mp (h.sublist hsub).ordered).2.2 t (List.mem_of_getLast? ht) u
    (List.mem_of_mem_head? hu) c hc d hd
  exact ⟨a, ha, b, hb, by rwa [hstop, hstart]⟩

end Increasing

/-! ### Every depth -/

/-- The pairs of a part of a derivation and the part that it derives, at every depth. -/
inductive Matched (w : ItemTree) (y : Item) : ItemTree → Item → Prop
  | root : Matched w y w y
  | part {u v : ItemTree} {x z : Item} (h : Matched w y u x) (hpart : (v, z) ∈ u.parts.zip x.parts) : Matched w y v z

namespace Matched

variable {w u : ItemTree} {x y z : Item}

theorem derives (h : Matched w y u x) (hw : w.Derives y) : u.Derives x := by
  induction h with
  | root => exact hw
  | part _ hpart ih => exact List.forall₂_zip ih.parts hpart

theorem tokens_sublist (h : Matched w y u x) : u.tokens.Sublist w.tokens := by
  induction h with
  | root => exact List.Sublist.refl w.tokens
  | @part u v x z _ hpart ih =>
    refine List.Sublist.trans ?_ ih
    refine List.Sublist.trans ?_ u.flatMap_tokens_sublist
    rw [List.flatMap_def]
    exact List.sublist_flatten_of_mem (List.mem_map_of_mem (List.of_mem_zip hpart).1)

theorem trans (h : Matched w y u x) {v : ItemTree} (hv : Matched u x v z) : Matched w y v z := by
  induction hv with
  | root => exact h
  | part _ hpart ih => exact .part ih hpart

/-- Whatever is in an item has its derivation. -/
theorem exists_of_within (hw : w.Derives y) (hx : y.Within x) : ∃ u, Matched w y u x := by
  induction hx with
  | refl => exact ⟨w, .root⟩
  | @tail x z _ hpart ih =>
    obtain ⟨u, hu⟩ := ih
    have hlength : x.parts.length ≤ u.parts.length := (hu.derives hw).parts.length_eq.ge
    have hsnd : z ∈ (u.parts.zip x.parts).map Prod.snd := by rwa [List.map_snd_zip hlength]
    obtain ⟨⟨v, z'⟩, hzip, rfl⟩ := List.mem_map.mp hsnd
    exact ⟨v, .part hu hzip⟩

end Matched

/-- The parts of an item stand one after another where the tokens do. -/
theorem ItemTree.Derives.pairwise_precedes {u : ItemTree} {x : Item} (h : u.Derives x)
    (hu : ∀ t ∈ u.tokens, t.span.isSome = true) (hinc : Increasing u.tokens) :
    x.parts.Pairwise fun y z => Precedes y.span z.span := by
  have hparts := h.parts
  have hsub := u.flatMap_tokens_sublist
  generalize u.parts = us, x.parts = xs at hparts hsub
  induction hparts with
  | nil => exact .nil
  | @cons v y us xs hv hall ih =>
    rw [List.flatMap_cons] at hsub
    refine .cons (fun z hz => ?_) (ih ((List.sublist_append_right _ _).trans hsub))
    obtain ⟨v', hv', hz⟩ := exists_left_of_forall₂ hall z hz
    have hlater : v'.tokens.Sublist (us.flatMap ItemTree.tokens) := by
      rw [List.flatMap_def]
      exact List.sublist_flatten_of_mem (List.mem_map_of_mem hv')
    have hpair : (v.tokens ++ v'.tokens).Sublist u.tokens := (hlater.append_left v.tokens).trans hsub
    obtain ⟨hfirst, hsecond⟩ := List.forall_mem_append.mp fun t ht => hu t (hpair.subset ht)
    exact hinc.precedes (hv.covers hfirst) (hz.covers hsecond) hpair

end AttrParse

open AttrParse

/-- A block whose tokens have places is read as a node that has a derivation. What stands in the node at any depth covers
the tokens of its part of the derivation. If the tokens follow one another in a file, whatever is in a part lies within
its span, and what stands directly in it lies there in order. -/
theorem parseAttribute_spans {a : RawAttribute} {m : AttrNode} (ha : ∀ t ∈ a.tokens, t.span.isSome = true)
    (h : parseAttribute a = .ok m) :
    ∃ w : NodeTree, w.Derives m ∧ w.tokens = a.tokens ∧
      (∀ x, (Item.node m).Within x → ∃ u, Matched (.node w) (.node m) u x) ∧
      (∀ u x, Matched (.node w) (.node m) u x → u.Derives x ∧ Covers x.span u.tokens) ∧
      (Increasing a.tokens → ∀ x, (Item.node m).Within x →
        (∀ y, x.Within y → Contains x.span y.span) ∧ x.parts.Pairwise fun y z => Precedes y.span z.span) := by
  obtain ⟨w, hw, htokens⟩ := nodeOf_iff.mp (parseAttribute_eq_ok_iff.mp h)
  have hroot : ItemTree.Derives (.node w) (.node m) := .node hw
  have hplaced {u : ItemTree} {x : Item} (hu : Matched (.node w) (.node m) u x) :
      ∀ t ∈ u.tokens, t.span.isSome = true := fun t ht => ha t (htokens ▸ hu.tokens_sublist.subset ht)
  refine ⟨w, hw, htokens, fun x hx => Matched.exists_of_within hroot hx, fun u x hu => ?_, fun hinc x hx => ?_⟩
  · exact ⟨hu.derives hroot, (hu.derives hroot).covers (hplaced hu)⟩
  · obtain ⟨u, hu⟩ := Matched.exists_of_within hroot hx
    have hx := hu.derives hroot
    have hincreasing : Increasing u.tokens := Increasing.sublist hinc (htokens ▸ hu.tokens_sublist)
    refine ⟨fun y hy => ?_, hx.pairwise_precedes (hplaced hu) hincreasing⟩
    obtain ⟨v, hv⟩ := Matched.exists_of_within hx hy
    have hpart := (hv.derives hx).covers (hplaced (hu.trans hv))
    exact hincreasing.contains (hx.covers (hplaced hu)) hpart hv.tokens_sublist

/-- The block `a(b.c, d = e)` as it stands in a file. -/
def placedBlock : RawAttribute where
  tokens := [(Terminal.name, "a", 1), (.leftParen, "(", 2), (.name, "b", 3), (.dot, ".", 4), (.name, "c", 5),
    (.comma, ",", 6), (.name, "d", 8), (.equal, "=", 10), (.name, "e", 12), (.rightParen, ")", 13)].map fun q =>
      ⟨q.1, q.2.1, some ⟨"f", 1, q.2.2, some 1, some (q.2.2 + 1)⟩⟩

/-- The node of the block ends with its parenthesis, and all that is in it lies in order. -/
theorem placedBlock_spans : ∃ m, parseAttribute placedBlock = .ok m ∧ m.span = some ⟨"f", 1, 1, some 1, some 14⟩ ∧
    ∀ x, (Item.node m).Within x →
      (∀ y, x.Within y → Contains x.span y.span) ∧ x.parts.Pairwise fun y z => Precedes y.span z.span := by
  have hinc : Increasing placedBlock.tokens := ⟨by decide, by decide, by decide⟩
  obtain ⟨w, -, -, -, -, hcontains⟩ := parseAttribute_spans (a := placedBlock) (by decide) rfl
  exact ⟨_, rfl, rfl, hcontains hinc⟩

end TypedErrors
