import TypedErrors.Proofs.Attribute.Places
import TypedErrors.Proofs.Attribute.Rendering
import TypedErrors.Proofs.ErrorType.Alike
import TypedErrors.Proofs.Source.Print

/-! # Rearranged attributes

The entries of a namespace may stand in any number of blocks and in any order, as long as entries of one name keep
theirs, and blocks of other namespaces may stand among them, readable or not. None of it has an influence on the type
that is built (`build_rearranged`). -/

namespace TypedErrors

/-! ### Blocks -/

def AttrNode.IsList : AttrNode → Prop
  | .list .. => True
  | _ => False

/-- The arguments of a list. -/
def AttrNode.args : AttrNode → List AttrArg
  | .list _ args _ => args
  | _ => []

/-- The bare name of an argument, if it has one. -/
def AttrArg.name? : AttrArg → Option String
  | .node n => n.path.single?.map (·.name)
  | .literal _ => none

/-- What the blocks of a namespace say, one node for each. No other block is looked at. -/
def Parsed (ns : String) (attrs : List RawAttribute) (nodes : List AttrNode) : Prop :=
  List.Forall₂ (fun b n => parseAttribute b = .ok n) (attrs.filter (·.namespace? = some ns)) nodes

/-- The arguments are the same but for their places and their order, which those of one name keep. -/
structure Permuted (xs ys : List AttrArg) : Prop where
  perm : (xs.map AttrArg.bare).Perm (ys.map AttrArg.bare)
  order : ∀ name, (xs.filter (·.name? = some name)).map AttrArg.bare = (ys.filter (·.name? = some name)).map AttrArg.bare

/-- The blocks of a namespace are read, and hold permuted entries in any groups, or in both cases one of them is no
list of entries. -/
inductive Rearranged (ns : String) (attrs attrs' : List RawAttribute) : Prop
  | intro {nodes nodes' : List AttrNode} (hparsed : Parsed ns attrs nodes) (hparsed' : Parsed ns attrs' nodes')
      (hlists : (∀ n ∈ nodes, n.IsList) ↔ ∀ n ∈ nodes', n.IsList)
      (hargs : (∀ n ∈ nodes, n.IsList) → Permuted (nodes.flatMap AttrNode.args) (nodes'.flatMap AttrNode.args))

/-! ### Places do not count -/

/-- Any place. -/
abbrev Anywhere : Span → Prop := fun _ => True

theorem placed_anywhere {s : Option Span} : Placed Anywhere s := fun _ _ => trivial

theorem SymbolPath.alike_of_bare {p q : SymbolPath} (h : p.bare = q.bare) : p.Alike Anywhere q := by
  refine ⟨?_, placed_anywhere, placed_anywhere⟩
  have hparts : p.segments.map (·.name) = q.segments.map (·.name) := SymbolPath.bare_eq_iff.mp h
  rw [← List.forall₂_eq_eq_eq, List.forall₂_map_left_iff, List.forall₂_map_right_iff] at hparts
  exact hparts.imp fun _ _ hname => ⟨hname, placed_anywhere, placed_anywhere⟩

theorem Literal.alike_of_bare {l m : Literal} (h : l.bare = m.bare) : l.Alike Anywhere m := by
  match l, m with
  | .string l, .string m =>
    injection h with h
    injection h with hvalue
    exact .string ⟨hvalue, placed_anywhere, placed_anywhere⟩
  | .bool .., .bool .. => cases h; exact .bool placed_anywhere placed_anywhere
  | .char .., .char .. => cases h; exact .char placed_anywhere placed_anywhere
  | .int .., .int .. => cases h; exact .int placed_anywhere placed_anywhere
  | .float .., .float .. => cases h; exact .float placed_anywhere placed_anywhere

theorem AttrValue.alike_of_bare {v w : AttrValue} (h : v.bare = w.bare) : v.Alike Anywhere w := by
  match v, w with
  | .path p, .path q =>
    injection h with h
    exact .path (SymbolPath.alike_of_bare h)
  | .literal l, .literal m =>
    injection h with h
    exact .literal (Literal.alike_of_bare h)

mutual

/-- Nodes that are the same but for places are alike, wherever they stand. -/
theorem AttrNode.alike_of_bare : ∀ {m n : AttrNode}, m.bare = n.bare → m.Alike Anywhere n
  | .word p s, n, h => by
    cases n with
    | word q s' =>
      injection h with hp
      exact .word (SymbolPath.alike_of_bare hp) placed_anywhere placed_anywhere
    | assign => injection h
    | list => injection h
  | .assign p v s, n, h => by
    cases n with
    | assign q w s' =>
      injection h with hp hv
      exact .assign (SymbolPath.alike_of_bare hp) (AttrValue.alike_of_bare hv) placed_anywhere placed_anywhere
    | word => injection h
    | list => injection h
  | .list p xs s, n, h => by
    cases n with
    | list q ys s' =>
      injection h with hp hargs
      exact .list (SymbolPath.alike_of_bare hp) (AttrNode.alikeArgs_of_bare hargs) placed_anywhere placed_anywhere
    | word => injection h
    | assign => injection h

theorem AttrNode.alikeArgs_of_bare : ∀ {xs ys : List AttrArg}, AttrNode.bareArgs xs = AttrNode.bareArgs ys →
    AttrNode.AlikeArgs Anywhere xs ys
  | [], [], _ => .nil
  | x :: xs, y :: ys, h => by
    injection h with hx hxs
    exact .cons (AttrArg.alike_of_bare hx) (AttrNode.alikeArgs_of_bare hxs)

theorem AttrArg.alike_of_bare : ∀ {x y : AttrArg}, x.bare = y.bare → x.Alike Anywhere y
  | .literal l, y, h => by
    cases y with
    | literal m =>
      injection h with h
      exact .literal (Literal.alike_of_bare h)
    | node => injection h
  | .node m, y, h => by
    cases y with
    | node n =>
      injection h with h
      exact .node (AttrNode.alike_of_bare h)
    | literal => injection h

end

theorem SymbolPath.single?_bare (p : SymbolPath) : p.bare.single?.map (·.name) = p.single?.map (·.name) := by
  obtain ⟨segments, s⟩ := p
  match segments with
  | [] | [_] | _ :: _ :: _ => rfl

theorem AttrArg.name?_bare (x : AttrArg) : x.bare.name? = x.name? := by
  cases x with
  | literal => rfl
  | node n => cases n <;> exact SymbolPath.single?_bare _

/-! ### Entries -/

namespace Entries

variable {ns : String} {attrs attrs' : List RawAttribute} {nodes nodes' : List AttrNode} {xs ys : List AttrArg}
  {x : AttrArg} {e : Entry} {items : List Entry}

theorem entryOf_eq_ok_iff : entryOf x = .ok e ↔
    x.name? = some e.name ∧ x = .node e.node ∧ e.isUsed = false := by
  cases x with
  | literal l => exact ⟨nofun, nofun⟩
  | node n =>
    rw [entryOf, AttrArg.name?]
    cases n.path.single? with
    | none =>
      constructor
      · rintro ⟨⟩
      · rintro ⟨⟨⟩, -⟩
    | some i =>
      obtain ⟨name, node, isUsed⟩ := e
      constructor
      · rintro ⟨⟩
        exact ⟨rfl, rfl, rfl⟩
      · rintro ⟨⟨⟩, ⟨⟩, ⟨⟩⟩
        rfl

/-- The entries under a name are the arguments with that name, none of them read. -/
theorem under_of_mapM (h : xs.mapM entryOf = .ok items) (name : String) :
    (under items name).map (fun p => (AttrArg.node p.1, p.2)) =
      (xs.filter (·.name? = some name)).map fun x => (x, false) := by
  have hitems := mapM_eq_ok.mp h
  clear h
  induction hitems with
  | nil => rfl
  | @cons x e xs items hx _ ih =>
    obtain ⟨hname, rfl, hused⟩ := entryOf_eq_ok_iff.mp hx
    by_cases heq : e.name = name
    · subst heq
      rw [under_cons, List.filter_cons_of_pos (by simpa using hname), List.map_cons, List.map_cons, ih, hused]
    · rw [under_cons_of_ne heq, List.filter_cons_of_neg (by rw [hname]; simpa using heq), ih]

theorem ofAttribute_of_isList {b : RawAttribute} {n : AttrNode} (hb : b.namespace? = some ns)
    (hn : parseAttribute b = .ok n) (hlist : n.IsList) : ofAttribute ns b = n.args.mapM entryOf := by
  rw [ofAttribute, if_pos hb, hn]
  cases n with
  | list => rfl
  | word => cases hlist
  | assign => cases hlist

/-- The entries of all blocks are those of their arguments, one after another. -/
theorem mapM_ofAttribute (h : Parsed ns attrs nodes) (hlists : ∀ n ∈ nodes, n.IsList) :
    List.flatten <$> attrs.mapM (ofAttribute ns) = (nodes.flatMap AttrNode.args).mapM entryOf := by
  induction attrs generalizing nodes with
  | nil =>
    cases h
    rfl
  | cons b attrs ih =>
    rw [Parsed] at h
    rw [List.mapM_cons]
    by_cases hb : b.namespace? = some ns
    · rw [List.filter_cons_of_pos (by simpa using hb)] at h
      obtain ⟨n, nodes, hn, hrest, rfl⟩ := List.forall₂_cons_left_iff.mp h
      obtain ⟨hlist, hlists⟩ := List.forall_mem_cons.mp hlists
      rw [ofAttribute_of_isList hb hn hlist, List.flatMap_cons, List.mapM_append, ← ih hrest hlists]
      cases n.args.mapM entryOf with
      | error f => rfl
      | ok items => cases attrs.mapM (ofAttribute ns) <;> rfl
    · rw [List.filter_cons_of_neg (by simpa using hb)] at h
      rw [ofAttribute, if_neg hb, ← ih h hlists]
      cases attrs.mapM (ofAttribute ns) <;> rfl

/-- A block that is no list of entries is refused. -/
theorem exists_error_of_not_isList (h : Parsed ns attrs nodes) {n : AttrNode} (hn : n ∈ nodes) (hlist : ¬ n.IsList) :
    ∃ f, ofAttributes ns attrs = .error f := by
  cases hes : ofAttributes ns attrs with
  | error f => exact ⟨f, rfl⟩
  | ok es =>
    obtain ⟨lists, hlists, -⟩ := bind_eq_ok.mp hes
    obtain ⟨b, hb, hparse⟩ := exists_left_of_forall₂ h n hn
    obtain ⟨hb, hns⟩ := List.mem_filter.mp hb
    obtain ⟨l, -, hl⟩ := exists_left_of_forall₂ (mapM_eq_ok.mp hlists).flip b hb
    rw [ofAttribute, if_pos (of_decide_eq_true hns), hparse] at hl
    cases n with
    | list => exact absurd trivial hlist
    | word => cases hl
    | assign => cases hl

theorem isSome_name?_of_mapM (h : xs.mapM entryOf = .ok items) : ∀ x ∈ xs, x.name?.isSome = true := by
  intro x hx
  obtain ⟨e, -, he⟩ := exists_left_of_forall₂ (mapM_eq_ok.mp h).flip x hx
  rw [(entryOf_eq_ok_iff.mp he).1]
  rfl

theorem exists_mapM_of_isSome (h : ∀ x ∈ xs, x.name?.isSome = true) : ∃ items, xs.mapM entryOf = .ok items := by
  cases hitems : xs.mapM entryOf with
  | ok items => exact ⟨items, rfl⟩
  | error f =>
    obtain ⟨pre, x, post, rfl, -, hx⟩ := mapM_eq_error.mp hitems
    obtain ⟨name, hname⟩ := Option.isSome_iff_exists.mp (h x (by simp))
    cases x with
    | literal => cases hname
    | node n =>
      have he : entryOf (.node n) = .ok ⟨name, n, false⟩ := entryOf_eq_ok_iff.mpr ⟨hname, rfl, rfl⟩
      cases he.symm.trans hx

end Entries

namespace Permuted

open Entries

variable {xs ys : List AttrArg} {items items' : List Entry}

theorem symm (h : Permuted xs ys) : Permuted ys xs := ⟨h.perm.symm, fun name => (h.order name).symm⟩

theorem trans {zs : List AttrArg} (h : Permuted xs ys) (h' : Permuted ys zs) : Permuted xs zs :=
  ⟨h.perm.trans h'.perm, fun name => (h.order name).trans (h'.order name)⟩

theorem cons (x : AttrArg) (h : Permuted xs ys) : Permuted (x :: xs) (x :: ys) := by
  refine ⟨h.perm.cons _, fun name => ?_⟩
  rw [List.filter_cons, List.filter_cons]
  split_ifs
  · exact congrArg (x.bare :: ·) (h.order name)
  · exact h.order name

/-- Two neighbours of different names may change places. -/
theorem swap {x y : AttrArg} (h : x.name? ≠ y.name?) (xs : List AttrArg) :
    Permuted (x :: y :: xs) (y :: x :: xs) := by
  refine ⟨.swap _ _ _, fun name => ?_⟩
  by_cases hx : x.name? = some name
  · have hy : y.name? ≠ some name := fun hy => h (hx.trans hy.symm)
    simp [hx, hy]
  · simp [List.filter_cons, hx]

theorem exists_mapM (h : Permuted xs ys) (hx : xs.mapM entryOf = .ok items) :
    ∃ items', ys.mapM entryOf = .ok items' := by
  refine exists_mapM_of_isSome fun y hy => ?_
  obtain ⟨x, hmem, hbare⟩ := List.mem_map.mp (h.perm.mem_iff.mpr (List.mem_map_of_mem hy))
  rw [← AttrArg.name?_bare, ← hbare, AttrArg.name?_bare]
  exact isSome_name?_of_mapM hx x hmem

/-- Under each name stand the same entries in the same order. -/
theorem alike (h : Permuted xs ys) (hx : xs.mapM entryOf = .ok items) (hy : ys.mapM entryOf = .ok items') :
    Entries.Alike Anywhere { items } { items := items' } := by
  intro name
  -- without their places the entries under the name are the arguments that have it
  have hunder := congrArg (List.map fun q : AttrArg × Bool => (q.1.bare, q.2)) (under_of_mapM hx name)
  have hunder' := congrArg (List.map fun q : AttrArg × Bool => (q.1.bare, q.2)) (under_of_mapM hy name)
  have horder := congrArg (List.map fun x => (x, false)) (h.order name)
  simp only [List.map_map, Function.comp_def] at hunder hunder' horder
  have hsame := hunder.trans (horder.trans hunder'.symm)
  rw [← List.forall₂_eq_eq_eq, List.forall₂_map_left_iff, List.forall₂_map_right_iff] at hsame
  refine hsame.imp fun p q hpq => ?_
  obtain ⟨hbare, hmark⟩ := Prod.mk.inj hpq
  injection hbare with hbare
  exact ⟨AttrNode.alike_of_bare hbare, hmark⟩

end Permuted

/-- Blocks that are refused, wherever they stand. -/
theorem placed_of_ofAttributes {ns : String} {attrs : List RawAttribute} {f : Fault}
    (h : Entries.ofAttributes ns attrs = .error f) : f.Placed Anywhere := by
  have hself : AttrsAlike Anywhere ns attrs attrs :=
    attrsAlike_self (fun _ _ _ => trivial) fun _ _ => ⟨fun _ _ => placed_anywhere, placed_anywhere⟩
  rw [AttrsAlike, h] at hself
  cases hself with
  | error hf _ => exact hf

theorem ofAttributes_of_parsed {ns : String} {attrs : List RawAttribute} {nodes : List AttrNode}
    (h : Parsed ns attrs nodes) (hlists : ∀ n ∈ nodes, n.IsList) : Entries.ofAttributes ns attrs =
      (fun items => { items }) <$> (nodes.flatMap AttrNode.args).mapM Entries.entryOf := by
  rw [← Entries.mapM_ofAttribute h hlists, Entries.ofAttributes]
  cases attrs.mapM (Entries.ofAttribute ns) <;> rfl

/-- Rearranged blocks give the same entries under each name, or are both refused. -/
theorem Rearranged.attrsAlike {ns : String} {attrs attrs' : List RawAttribute} (h : Rearranged ns attrs attrs') :
    AttrsAlike Anywhere ns attrs attrs' := by
  rw [AttrsAlike]
  obtain @⟨nodes, nodes', hparsed, hparsed', hlists, hargs⟩ := h
  by_cases hall : ∀ n ∈ nodes, n.IsList
  · have hpermuted := hargs hall
    have heq := ofAttributes_of_parsed hparsed hall
    have heq' := ofAttributes_of_parsed hparsed' (hlists.mp hall)
    cases hx : (nodes.flatMap AttrNode.args).mapM Entries.entryOf with
    | ok items =>
      obtain ⟨items', hy⟩ := hpermuted.exists_mapM hx
      rw [heq, heq', hx, hy]
      exact .ok (hpermuted.alike hx hy)
    | error f =>
      cases hy : (nodes'.flatMap AttrNode.args).mapM Entries.entryOf with
      | ok items' =>
        obtain ⟨items, hok⟩ := hpermuted.symm.exists_mapM hy
        cases hx.symm.trans hok
      | error g =>
        rw [hx] at heq
        rw [hy] at heq'
        rw [heq, heq']
        exact .error (placed_of_ofAttributes heq) (placed_of_ofAttributes heq')
  · have hall' : ¬ ∀ n ∈ nodes', n.IsList := fun h => hall (hlists.mpr h)
    push Not at hall hall'
    obtain ⟨n, hn, hlist⟩ := hall
    obtain ⟨n', hn', hlist'⟩ := hall'
    obtain ⟨f, hf⟩ := Entries.exists_error_of_not_isList hparsed hn hlist
    obtain ⟨g, hg⟩ := Entries.exists_error_of_not_isList hparsed' hn' hlist'
    rw [hf, hg]
    exact .error (placed_of_ofAttributes hf) (placed_of_ofAttributes hg)

/-! ### Declarations -/

structure Field.Rearranged (ns : String) (f g : Field) : Prop where
  name : f.name = g.name
  type : f.type = g.type
  visibility : f.visibility = g.visibility
  docs : f.docs = g.docs
  attrs : TypedErrors.Rearranged ns f.attrs g.attrs

structure Variant.Rearranged (ns : String) (v w : Variant) : Prop where
  ident : v.ident = w.ident
  fields : Fields.Rel (Field.Rearranged ns) v.fields w.fields
  docs : v.docs = w.docs
  attrs : TypedErrors.Rearranged ns v.attrs w.attrs

inductive Shape.Rearranged (ns : String) : Shape → Shape → Prop
  | struct {fs gs : Fields Field} (h : Fields.Rel (Field.Rearranged ns) fs gs) : Rearranged ns (.struct fs) (.struct gs)
  | enum {vs ws : List Variant} (h : List.Forall₂ (Variant.Rearranged ns) vs ws) : Rearranged ns (.enum vs) (.enum ws)
  | union {fs gs : Fields Field} (h : Fields.Rel (Field.Rearranged ns) fs gs) : Rearranged ns (.union fs) (.union gs)

/-- The declarations are the same but for places, and for the blocks on them, their variants and their fields, which
are rearranged. -/
structure Declaration.Rearranged (ns : String) (d e : Declaration) : Prop where
  ident : d.ident = e.ident
  visibility : d.visibility = e.visibility
  shape : d.shape.Rearranged ns e.shape
  docs : d.docs = e.docs
  attrs : TypedErrors.Rearranged ns d.attrs e.attrs

variable {ns : String}

theorem Field.Rearranged.alike {f g : Field} (h : f.Rearranged ns g) : f.Alike Anywhere ns g :=
  ⟨h.type, h.attrs.attrsAlike, placed_anywhere, placed_anywhere⟩

theorem Variant.Rearranged.alike {v w : Variant} (h : v.Rearranged ns w) : v.Alike Anywhere ns w :=
  ⟨h.ident, h.fields.imp fun _ _ hf => hf.alike, h.attrs.attrsAlike, h.docs, placed_anywhere, placed_anywhere⟩

theorem Shape.Rearranged.alike {a b : Shape} (h : a.Rearranged ns b) : a.Alike Anywhere ns b := by
  cases h with
  | struct h => exact .struct (h.imp fun _ _ hf => hf.alike)
  | enum h => exact .enum (h.imp fun _ _ hv => hv.alike)
  | union _ => exact .union

theorem Declaration.Rearranged.alike {d e : Declaration} (h : d.Rearranged ns e) : d.Alike Anywhere ns e :=
  ⟨h.ident, h.visibility, h.shape.alike, h.attrs.attrsAlike, h.docs, placed_anywhere, placed_anywhere⟩

/-! ### Types without places -/

def ErrorField.unspanned (f : ErrorField) : ErrorField := { f with span := none }

def ErrorVariant.unspanned (v : ErrorVariant) : ErrorVariant :=
  { v with fields := v.fields.map ErrorField.unspanned, sources := v.sources.map SymbolPath.bare, span := none }

def ErrorShape.unspanned : ErrorShape → ErrorShape
  | .struct fields description sources =>
    .struct (fields.map ErrorField.unspanned) description (sources.map SymbolPath.bare)
  | .enum variants => .enum (variants.map ErrorVariant.unspanned)

def Conversion.unspanned (c : Conversion) : Conversion := { c with source := c.source.bare }

def ErrorType.unspanned (t : ErrorType) : ErrorType :=
  { t with shape := t.shape.unspanned, conversions := t.conversions.map Conversion.unspanned, span := none }

variable {P : Span → Prop}

theorem SymbolPath.Alike.bare_eq {p q : SymbolPath} (h : p.Alike P q) : p.bare = q.bare :=
  SymbolPath.bare_eq_iff.mpr h.parts

theorem ErrorField.Alike.unspanned {f g : ErrorField} (h : f.Alike g) : f.unspanned = g.unspanned := by
  rw [ErrorField.unspanned, ErrorField.unspanned, h.type, h.isIncluded, h.method]

theorem Fields.Rel.map_eq {α β γ : Type} {R : α → β → Prop} {f : α → γ} {g : β → γ} {fs : Fields α} {gs : Fields β}
    (h : Fields.Rel R fs gs) (hR : ∀ x y, R x y → f x = g y) : fs.map f = gs.map g := by
  cases h with
  | unit => rfl
  | named h => exact congrArg Fields.named (map_eq_of_forall₂ h fun x y hxy => Prod.ext hxy.1 (hR _ _ hxy.2))
  | unnamed h => exact congrArg Fields.unnamed (map_eq_of_forall₂ h fun x y hxy => Prod.ext hxy.1 (hR _ _ hxy.2))

theorem ErrorVariant.Alike.unspanned {v w : ErrorVariant} (h : v.Alike P w) : v.unspanned = w.unspanned := by
  rw [ErrorVariant.unspanned, ErrorVariant.unspanned, h.ident, h.description, h.docs,
    h.fields.map_eq fun _ _ hf => hf.unspanned, map_eq_of_forall₂ h.sources fun _ _ hp => hp.bare_eq]

theorem ErrorShape.Alike.unspanned {a b : ErrorShape} (h : a.Alike P b) : a.unspanned = b.unspanned := by
  cases h with
  | struct hf hs =>
    rw [ErrorShape.unspanned, ErrorShape.unspanned, hf.map_eq fun _ _ h => h.unspanned,
      map_eq_of_forall₂ hs fun _ _ hp => hp.bare_eq]
  | enum h => exact congrArg ErrorShape.enum (map_eq_of_forall₂ h fun _ _ hv => hv.unspanned)

theorem Conversion.Alike.unspanned {c c' : Conversion} (h : c.Alike P c') : c.unspanned = c'.unspanned := by
  rw [Conversion.unspanned, Conversion.unspanned, h.source.bare_eq, h.function, h.variant]

theorem ErrorType.Alike.unspanned {t u : ErrorType} (h : t.Alike P u) : t.unspanned = u.unspanned := by
  rw [ErrorType.unspanned, ErrorType.unspanned, h.ident, h.visibility, h.shape.unspanned, h.aliases, h.namespaceName,
    h.namespaceVisibility, map_eq_of_forall₂ h.conversions fun _ _ hc => hc.unspanned, h.docs]

/-- Rearranged declarations are built into the same type but for places, or are both refused. -/
theorem ErrorType.build_rearranged {s : Settings} {d e : Declaration} (h : d.Rearranged s.attributeNamespace e) :
    (build s d).toOption.map ErrorType.unspanned = (build s e).toOption.map ErrorType.unspanned := by
  have hbuilt := build_agrees h.alike
  revert hbuilt
  rcases build s d with _ | t <;> rcases build s e with _ | u <;> rintro (ht | _)
  · rfl
  · exact congrArg some ht.unspanned

/-- A struct whose entries stand in one block. -/
def groupedStruct : Declaration :=
  { ident := "Failure"
    visibility := .pub
    shape := .struct .unit
    attrs := [{ tokens := [⟨.name, "faultline", none⟩, ⟨.leftParen, "(", none⟩, ⟨.name, "description", none⟩,
      ⟨.equal, "=", none⟩, ⟨.string, "\"io\"", none⟩, ⟨.comma, ",", none⟩, ⟨.name, "from", none⟩, ⟨.equal, "=", none⟩,
      ⟨.name, "OSError", none⟩, ⟨.comma, ",", none⟩, ⟨.name, "from", none⟩, ⟨.equal, "=", none⟩,
      ⟨.name, "EOFError", none⟩, ⟨.rightParen, ")", none⟩] }] }

/-- The same struct with its entries in two blocks, the description last, and a block of another namespace that nobody
can read between them. -/
def scatteredStruct : Declaration :=
  { groupedStruct with
    attrs := [{ tokens := [⟨.name, "faultline", none⟩, ⟨.leftParen, "(", none⟩, ⟨.name, "from", none⟩,
        ⟨.equal, "=", none⟩, ⟨.name, "OSError", none⟩, ⟨.rightParen, ")", none⟩] },
      { tokens := [⟨.name, "serde", none⟩, ⟨.equal, "=", none⟩, ⟨.equal, "=", none⟩] },
      { tokens := [⟨.name, "faultline", none⟩, ⟨.leftParen, "(", none⟩, ⟨.name, "from", none⟩, ⟨.equal, "=", none⟩,
        ⟨.name, "EOFError", none⟩, ⟨.comma, ",", none⟩, ⟨.name, "description", none⟩, ⟨.equal, "=", none⟩,
        ⟨.string, "\"io\"", none⟩, ⟨.rightParen, ")", none⟩] }] }

theorem groupedStruct_rearranged : groupedStruct.Rearranged "faultline" scatteredStruct := by
  have hgrouped : Parsed "faultline" groupedStruct.attrs _ := .cons rfl .nil
  have hscattered : Parsed "faultline" scatteredStruct.attrs _ := .cons rfl (.cons rfl .nil)
  refine ⟨rfl, rfl, .struct .unit, rfl, .intro hgrouped hscattered (iff_of_true ?_ ?_) fun _ => ?_⟩
  · simp [AttrNode.IsList]
  · simp [AttrNode.IsList]
  · exact (Permuted.swap (by decide) _).trans (.cons _ (.swap (by decide) _))

theorem build_groupedStruct : ∃ t, (ErrorType.build {} groupedStruct).toOption = some t ∧
    (ErrorType.build {} scatteredStruct).toOption.map ErrorType.unspanned = some t.unspanned := by
  have h : (ErrorType.build {} groupedStruct).toOption.isSome = true := by decide +kernel
  obtain ⟨t, ht⟩ := Option.isSome_iff_exists.mp h
  refine ⟨t, ht, ?_⟩
  rw [← ErrorType.build_rearranged groupedStruct_rearranged, ht]
  rfl

end TypedErrors
