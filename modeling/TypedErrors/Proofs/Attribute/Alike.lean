import TypedErrors.Proofs.Attribute.Extract
import TypedErrors.Proofs.Source.Fields

/-! # Readings that agree

Two nodes are alike when they say the same, wherever they stand, as long as all their places are among the places
`P`. What is read from nodes that are alike is alike again, or neither can be read, and then what is reported has its
place among `P`, if it has one. With any place for `P` this says that places have no influence on what is read; with
the places of a stretch of text, that a report points nowhere else. -/

namespace TypedErrors

variable {α β γ δ : Type} {P : Span → Prop}

/-- Places, where they are known, are among `P`. -/
def Placed (P : Span → Prop) (s : Option Span) : Prop := ∀ x ∈ s, P x

theorem Placed.none : Placed P none := nofun

theorem Placed.some {s : Span} (h : P s) : Placed P (some s) := by
  rintro x ⟨⟩
  exact h

/-- A report has its place among `P`, if it has one, and belongs to no declaration yet. -/
def Fault.Placed (P : Span → Prop) : Fault → Prop
  | .report d => TypedErrors.Placed P d.span ∧ d.path = none
  | .abort _ => True

theorem Placed.orElse {s s' : Option Span} (h : Placed P s) (h' : Placed P s') : Placed P (s <|> s') := by
  cases s with
  | none => exact h'
  | some x => exact h

theorem Fault.Placed.withSpan {f : Fault} {s : Option Span} (hf : f.Placed P) (hs : TypedErrors.Placed P s) :
    (f.withSpan s).Placed P := by
  cases f with
  | report d => exact ⟨hf.1.orElse hs, hf.2⟩
  | abort a => trivial

theorem Fault.placed_report {d : Diagnostic} {s : Option Span} (hd : (d.span, d.path) = (none, none))
    (hs : TypedErrors.Placed P s) : (Fault.report (d.withSpan s)).Placed P := by
  obtain ⟨hspan, hpath⟩ := Prod.mk.inj hd
  exact ⟨TypedErrors.Placed.orElse (by rw [hspan]; exact .none) hs, hpath⟩

/-- Two computations succeed with related results, or fail with reports that are placed among `P`. -/
inductive Agree (P : Span → Prop) (R : α → β → Prop) : Except Fault α → Except Fault β → Prop
  | ok {a : α} {b : β} (h : R a b) : Agree P R (.ok a) (.ok b)
  | error {f g : Fault} (hf : f.Placed P) (hg : g.Placed P) : Agree P R (.error f) (.error g)

namespace Agree

variable {R : α → β → Prop} {Q : γ → δ → Prop} {x : Except Fault α} {y : Except Fault β}

theorem refuse {d d' : Diagnostic} {s s' : Option Span} (hd : (d.span, d.path) = (none, none))
    (hd' : (d'.span, d'.path) = (none, none)) (hs : Placed P s) (hs' : Placed P s') : Agree P R (TypedErrors.refuse d s) (TypedErrors.refuse d' s') :=
  .error (Fault.placed_report hd hs) (Fault.placed_report hd' hs')

theorem anchored {s s' : Option Span} (h : Agree P R x y) (hs : Placed P s) (hs' : Placed P s') :
    Agree P R (TypedErrors.anchored s x) (TypedErrors.anchored s' y) := by
  cases h with
  | ok h => exact .ok h
  | error hf hg => exact .error (hf.withSpan hs) (hg.withSpan hs')

theorem bind {f : α → Except Fault γ} {g : β → Except Fault δ} (h : Agree P R x y)
    (hf : ∀ a b, R a b → Agree P Q (f a) (g b)) : Agree P Q (x >>= f) (y >>= g) := by
  cases h with
  | ok h => exact hf _ _ h
  | error hf hg => exact .error hf hg

theorem map {f : α → γ} {g : β → δ} (h : Agree P R x y) (hf : ∀ a b, R a b → Q (f a) (g b)) :
    Agree P Q (f <$> x) (g <$> y) := by
  cases h with
  | ok h => exact .ok (hf _ _ h)
  | error hf hg => exact .error hf hg

theorem mapM {f : α → Except Fault γ} {g : β → Except Fault δ} {xs : List α} {ys : List β}
    (h : List.Forall₂ (fun a b => Agree P Q (f a) (g b)) xs ys) :
    Agree P (List.Forall₂ Q) (xs.mapM f) (ys.mapM g) := by
  induction h with
  | nil => exact .ok .nil
  | cons hxy _ ih =>
    rw [List.mapM_cons, List.mapM_cons]
    exact hxy.bind fun _ _ hab => ih.bind fun _ _ hl => .ok (.cons hab hl)

end Agree

/-! ### Nodes -/

structure Ident.Alike (P : Span → Prop) (i j : Ident) : Prop where
  name : i.name = j.name
  left : Placed P i.span
  right : Placed P j.span

structure SymbolPath.Alike (P : Span → Prop) (p q : SymbolPath) : Prop where
  segments : List.Forall₂ (Ident.Alike P) p.segments q.segments
  left : Placed P p.span
  right : Placed P q.span

structure TextLiteral.Alike (P : Span → Prop) (l m : TextLiteral) : Prop where
  value : l.value = m.value
  left : Placed P l.span
  right : Placed P m.span

inductive Literal.Alike (P : Span → Prop) : Literal → Literal → Prop
  | string {l m : TextLiteral} (h : l.Alike P m) : Alike P (.string l) (.string m)
  | bool {b : Bool} {s s' : Option Span} (hs : Placed P s) (hs' : Placed P s') : Alike P (.bool b s) (.bool b s')
  | char {c : CodePoint} {s s' : Option Span} (hs : Placed P s) (hs' : Placed P s') :
      Alike P (.char c s) (.char c s')
  | int {n : Int} {digits : String} {s s' : Option Span} (hs : Placed P s) (hs' : Placed P s') :
      Alike P (.int n digits s) (.int n digits s')
  | float {x : Binary64} {digits : String} {s s' : Option Span} (hs : Placed P s) (hs' : Placed P s') :
      Alike P (.float x digits s) (.float x digits s')

inductive AttrValue.Alike (P : Span → Prop) : AttrValue → AttrValue → Prop
  | path {p q : SymbolPath} (h : p.Alike P q) : Alike P (.path p) (.path q)
  | literal {l m : Literal} (h : l.Alike P m) : Alike P (.literal l) (.literal m)

mutual

/-- The nodes say the same, and all their places are among `P`. -/
inductive AttrNode.Alike (P : Span → Prop) : AttrNode → AttrNode → Prop
  | word {p q : SymbolPath} {s s' : Option Span} (hp : p.Alike P q) (hs : Placed P s) (hs' : Placed P s') :
      AttrNode.Alike P (.word p s) (.word q s')
  | assign {p q : SymbolPath} {v w : AttrValue} {s s' : Option Span} (hp : p.Alike P q) (hv : v.Alike P w)
      (hs : Placed P s) (hs' : Placed P s') : AttrNode.Alike P (.assign p v s) (.assign q w s')
  | list {p q : SymbolPath} {xs ys : List AttrArg} {s s' : Option Span} (hp : p.Alike P q)
      (h : AttrNode.AlikeArgs P xs ys) (hs : Placed P s) (hs' : Placed P s') :
      AttrNode.Alike P (.list p xs s) (.list q ys s')

inductive AttrNode.AlikeArgs (P : Span → Prop) : List AttrArg → List AttrArg → Prop
  | nil : AttrNode.AlikeArgs P [] []
  | cons {x y : AttrArg} {xs ys : List AttrArg} (hx : AttrArg.Alike P x y) (h : AttrNode.AlikeArgs P xs ys) :
      AttrNode.AlikeArgs P (x :: xs) (y :: ys)

inductive AttrArg.Alike (P : Span → Prop) : AttrArg → AttrArg → Prop
  | literal {l m : Literal} (h : l.Alike P m) : AttrArg.Alike P (.literal l) (.literal m)
  | node {m n : AttrNode} (h : AttrNode.Alike P m n) : AttrArg.Alike P (.node m) (.node n)

end

theorem AttrNode.AlikeArgs.forall₂ : ∀ {xs ys : List AttrArg}, AttrNode.AlikeArgs P xs ys →
    List.Forall₂ (AttrArg.Alike P) xs ys
  | _, _, .nil => .nil
  | _, _, .cons hx h => .cons hx h.forall₂

theorem SymbolPath.Alike.parts {p q : SymbolPath} (h : p.Alike P q) : p.parts = q.parts :=
  map_eq_of_forall₂ h.segments fun _ _ hi => hi.name

theorem SymbolPath.Alike.single? {p q : SymbolPath} (h : p.Alike P q) :
    Option.Rel (Ident.Alike P) p.single? q.single? := by
  obtain ⟨is, s⟩ := p
  obtain ⟨js, s'⟩ := q
  cases h.segments with
  | nil => exact .none
  | cons hi hrest =>
    cases hrest with
    | nil => exact .some hi
    | cons => exact .none

theorem Literal.Alike.placed {l m : Literal} (h : l.Alike P m) : Placed P l.span ∧ Placed P m.span := by
  cases h with
  | string h => exact ⟨h.left, h.right⟩
  | bool hs hs' => exact ⟨hs, hs'⟩
  | char hs hs' => exact ⟨hs, hs'⟩
  | int hs hs' => exact ⟨hs, hs'⟩
  | float hs hs' => exact ⟨hs, hs'⟩

theorem AttrValue.Alike.placed {v w : AttrValue} (h : v.Alike P w) : Placed P v.span ∧ Placed P w.span := by
  cases h with
  | path h => exact ⟨h.left, h.right⟩
  | literal h => exact h.placed

namespace AttrNode.Alike

variable {m n : AttrNode}

theorem path (h : AttrNode.Alike P m n) : m.path.Alike P n.path := by
  cases h with
  | word hp => exact hp
  | assign hp => exact hp
  | list hp => exact hp

theorem placed (h : AttrNode.Alike P m n) : Placed P m.span ∧ Placed P n.span := by
  cases h with
  | word _ hs hs' => exact ⟨hs, hs'⟩
  | assign _ _ hs hs' => exact ⟨hs, hs'⟩
  | list _ _ hs hs' => exact ⟨hs, hs'⟩

end AttrNode.Alike

theorem AttrArg.Alike.placed {x y : AttrArg} (h : AttrArg.Alike P x y) : Placed P x.span ∧ Placed P y.span := by
  cases h with
  | literal h => exact h.placed
  | node h => exact h.placed

/-! ### Adapters -/

namespace Adapter

variable {R : α → α → Prop} {a : Adapter α}

/-- The handlers of an adapter agree where they are given what is alike. -/
structure Agrees (P : Span → Prop) (R : α → α → Prop) (a : Adapter α) : Prop where
  empty : Agree P R a.empty a.empty
  string : ∀ l m, l.Alike P m → Agree P R (a.string l) (a.string m)
  bool : ∀ b s s', Placed P s → Placed P s' → Agree P R (a.bool b s) (a.bool b s')
  char : ∀ c s s', Placed P s → Placed P s' → Agree P R (a.char c s) (a.char c s')
  int : ∀ n digits s s', Placed P s → Placed P s' → Agree P R (a.int n digits s) (a.int n digits s')
  float : ∀ x s s', Placed P s → Placed P s' → Agree P R (a.float x s) (a.float x s')
  path : ∀ p q, p.Alike P q → Agree P R (a.path p) (a.path q)

theorem literal_agrees (hp : a.PassesOn) (h : a.Agrees P R) {l m : Literal} (hl : l.Alike P m) :
    Agree P R (a.literal l) (a.literal m) := by
  rw [hp]
  refine Agree.anchored ?_ hl.placed.1 hl.placed.2
  cases hl with
  | string hl => exact h.string _ _ hl
  | bool hs hs' => exact h.bool _ _ _ hs hs'
  | char hs hs' => exact h.char _ _ _ hs hs'
  | int hs hs' => exact h.int _ _ _ _ hs hs'
  | float hs hs' => exact h.float _ _ _ hs hs'

theorem value_agrees (hp : a.PassesOn) (h : a.Agrees P R) {v w : AttrValue} (hv : v.Alike P w) :
    Agree P R (a.value v) (a.value w) := by
  have hl {l m : Literal} := literal_agrees hp h (l := l) (m := m)
  rw [hp] at hl ⊢
  refine Agree.anchored ?_ hv.placed.1 hv.placed.2
  cases hv with
  | path hv => exact h.path _ _ hv
  | literal hv => exact hl hv

theorem arg_agrees (hp : a.PassesOn) (h : a.Agrees P R) {x y : AttrArg} (hx : AttrArg.Alike P x y) :
    Agree P R (a.arg x) (a.arg y) := by
  have hl {l m : Literal} := literal_agrees hp h (l := l) (m := m)
  rw [hp] at hl ⊢
  refine Agree.anchored ?_ hx.placed.1 hx.placed.2
  cases hx with
  | literal hx => exact hl hx
  | node hn =>
    cases hn with
    | word hp => exact h.path _ _ hp
    | assign => exact .refuse rfl rfl .none .none
    | list => exact .refuse rfl rfl .none .none

theorem unwrapped_agrees {empty : Except Fault α} {arg : AttrArg → Except Fault α} (he : Agree P R empty empty)
    (ha : ∀ {x y}, AttrArg.Alike P x y → Agree P R (arg x) (arg y)) {xs ys : List AttrArg}
    (h : AttrNode.AlikeArgs P xs ys) : Agree P R (unwrapped empty arg xs) (unwrapped empty arg ys) := by
  cases h with
  | nil => exact he
  | cons hx h =>
    cases h with
    | nil => exact ha hx
    | cons => exact .refuse rfl rfl .none .none

theorem node_agrees (hp : a.PassesOn) (h : a.Agrees P R)
    (hl : ∀ {xs ys}, AttrNode.AlikeArgs P xs ys → Agree P R (a.list xs) (a.list ys)) {m n : AttrNode}
    (hn : m.Alike P n) : Agree P R (a.node m) (a.node n) := by
  have hv {v w : AttrValue} := value_agrees hp h (v := v) (w := w)
  rw [hp] at hv ⊢
  refine Agree.anchored ?_ hn.placed.1 hn.placed.2
  cases hn with
  | word => exact h.empty
  | assign _ hvw => exact hv hvw
  | list _ hxs => exact hl hxs

theorem path_agrees (h : ∀ {i j}, i.Alike P j → Agree P R (a.ident i) (a.ident j)) {p q : SymbolPath}
    (hpq : p.Alike P q) : Agree P R
      (match p.single? with
      | some i => a.ident i
      | none => TypedErrors.refuse (.unexpectedType "path") p.span)
      (match q.single? with
      | some i => a.ident i
      | none => TypedErrors.refuse (.unexpectedType "path") q.span) := by
  have hsingle := hpq.single?
  revert hsingle
  cases p.single? <;> cases q.single? <;> rintro (hi | _)
  · exact .refuse rfl rfl hpq.left hpq.right
  · exact h hi

variable {m n : AttrNode} {x y : AttrArg}

theorem flag_agrees (h : m.Alike P n) : Agree P Eq (flag.node m) (flag.node n) := by
  have hh : flag.Agrees P Eq := by
    refine ⟨.ok rfl, fun l m hl => ?_, fun _ _ _ _ _ => .ok rfl, fun _ _ _ => .refuse rfl rfl,
      fun _ _ _ _ => .refuse rfl rfl, fun _ _ _ => .refuse rfl rfl,
      fun _ _ => path_agrees (a := flag) fun hi => .refuse rfl rfl hi.left hi.right⟩
    show Agree P Eq (if _ then _ else _) (if _ then _ else _)
    rw [hl.value]
    split_ifs
    · exact .ok rfl
    · exact .ok rfl
    · exact .refuse rfl rfl hl.left hl.right
  exact node_agrees (a := flag) rfl hh (unwrapped_agrees hh.empty (arg_agrees (a := flag) rfl hh)) h

theorem copyMethodNamed_agrees {t : Text} {s s' : Option Span} (hs : Placed P s) (hs' : Placed P s') :
    Agree P Eq (copyMethodNamed t s) (copyMethodNamed t s') := by
  rw [copyMethodNamed, copyMethodNamed]
  split
  · exact .ok rfl
  · exact .refuse rfl rfl hs hs'

theorem copyMethod_agrees (h : m.Alike P n) : Agree P Eq (copyMethod.node m) (copyMethod.node n) := by
  have hh : copyMethod.Agrees P Eq := by
    refine ⟨.refuse rfl rfl .none .none, fun l m hl => ?_, fun _ _ _ => .refuse rfl rfl, fun _ _ _ => .refuse rfl rfl,
      fun _ _ _ _ => .refuse rfl rfl, fun _ _ _ => .refuse rfl rfl,
      fun _ _ => path_agrees (a := copyMethod) fun {i j} hi => ?_⟩
    · show Agree P Eq (copyMethodNamed l.value l.span) (copyMethodNamed m.value m.span)
      rw [hl.value]
      exact copyMethodNamed_agrees hl.left hl.right
    · show Agree P Eq (copyMethodNamed (Text.ofString i.name) i.span) (copyMethodNamed (Text.ofString j.name) j.span)
      rw [hi.name]
      exact copyMethodNamed_agrees hi.left hi.right
  exact node_agrees (a := copyMethod) rfl hh (unwrapped_agrees hh.empty (arg_agrees (a := copyMethod) rfl hh)) h

theorem aliasSetting_agrees (h : m.Alike P n) : Agree P Eq (aliasSetting.node m) (aliasSetting.node n) := by
  have hh : aliasSetting.Agrees P Eq := by
    refine ⟨.ok rfl, fun l m hl => ?_, fun _ _ _ _ _ => .ok rfl, fun _ _ _ => .refuse rfl rfl,
      fun _ _ _ _ => .refuse rfl rfl, fun _ _ _ => .refuse rfl rfl,
      fun _ _ => path_agrees (a := aliasSetting) fun hi => .ok (congrArg _ hi.name)⟩
    dsimp only [aliasSetting]
    rw [hl.value]
    split
    · exact .ok rfl
    · exact .refuse rfl rfl hl.left hl.right
  exact node_agrees (a := aliasSetting) rfl hh (unwrapped_agrees hh.empty (arg_agrees (a := aliasSetting) rfl hh)) h

theorem symbolPath_agrees : symbolPath.Agrees P (SymbolPath.Alike P) := by
  refine ⟨.refuse rfl rfl .none .none, fun l m hl => ?_, fun _ _ _ => .refuse rfl rfl, fun _ _ _ => .refuse rfl rfl,
    fun _ _ _ _ => .refuse rfl rfl, fun _ _ _ => .refuse rfl rfl, fun _ _ hp => .ok hp⟩
  dsimp only [symbolPath]
  rw [hl.value]
  split
  · next parts _ =>
    refine .ok ⟨?_, hl.left, hl.right⟩
    exact List.forall₂_map_left_iff.mpr (List.forall₂_map_right_iff.mpr
      (List.forall₂_same.mpr fun name _ => ⟨rfl, hl.left, hl.right⟩))
  · exact .refuse rfl rfl hl.left hl.right

theorem symbolPaths_agrees (h : m.Alike P n) :
    Agree P (List.Forall₂ (SymbolPath.Alike P)) (symbolPath.listOf.node m) (symbolPath.listOf.node n) := by
  refine Agree.anchored ?_ h.placed.1 h.placed.2
  cases h with
  | word => exact .ok .nil
  | assign _ hv => exact (value_agrees (a := symbolPath) rfl symbolPath_agrees hv).bind fun _ _ hp => .ok (.cons hp .nil)
  | list _ hxs =>
    exact .mapM (hxs.forall₂.imp fun _ _ hx => arg_agrees (a := symbolPath) rfl symbolPath_agrees hx)

end Adapter

/-! ### Descriptions -/

inductive FieldRef.Alike (P : Span → Prop) : FieldRef → FieldRef → Prop
  | name {n : Text} {s s' : Option Span} (hs : Placed P s) (hs' : Placed P s') : Alike P (.name n s) (.name n s')
  | index {i : Int} {digits : String} {s s' : Option Span} (hs : Placed P s) (hs' : Placed P s') :
      Alike P (.index i digits s) (.index i digits s')

inductive Description.Alike (P : Span → Prop) : Description → Description → Prop
  | plain {t t' : TextLiteral} (ht : t.Alike P t') : Alike P (.plain t) (.plain t')
  | format {t t' : TextLiteral} {refs refs' : List FieldRef} (ht : t.Alike P t')
      (hrefs : List.Forall₂ (FieldRef.Alike P) refs refs') : Alike P (.format t refs) (.format t' refs')

namespace Adapter

variable {m n : AttrNode} {x y : AttrArg}

theorem templateLiteral_arg_agrees (h : AttrArg.Alike P x y) :
    Agree P (TextLiteral.Alike P) (templateLiteral.arg x) (templateLiteral.arg y) :=
  arg_agrees (a := templateLiteral) rfl
    ⟨.refuse rfl rfl .none .none, fun _ _ hl => .ok hl, fun _ _ _ => .refuse rfl rfl, fun _ _ _ => .refuse rfl rfl,
      fun _ _ _ _ => .refuse rfl rfl, fun _ _ _ => .refuse rfl rfl,
      fun _ _ => path_agrees (a := templateLiteral) fun hi => .refuse rfl rfl hi.left hi.right⟩ h

theorem fieldRef_arg_agrees (h : AttrArg.Alike P x y) :
    Agree P (FieldRef.Alike P) (fieldRef.arg x) (fieldRef.arg y) := by
  refine arg_agrees (a := fieldRef) rfl
    ⟨.refuse rfl rfl .none .none, fun l m hl => ?_, fun _ _ _ => .refuse rfl rfl, fun _ _ _ => .refuse rfl rfl,
      fun _ _ _ _ hs hs' => .ok (.index hs hs'), fun _ _ _ => .refuse rfl rfl,
      fun _ _ => path_agrees (a := fieldRef) fun {i j} hi => ?_⟩ h
  · show Agree P (FieldRef.Alike P) (.ok (.name l.value l.span)) (.ok (.name m.value m.span))
    rw [hl.value]
    exact .ok (.name hl.left hl.right)
  · show Agree P (FieldRef.Alike P) (.ok (.name (Text.ofString i.name) i.span))
      (.ok (.name (Text.ofString j.name) j.span))
    rw [hi.name]
    exact .ok (.name hi.left hi.right)

theorem plainDescription_agrees : plainDescription.Agrees P (Description.Alike P) :=
  ⟨.refuse rfl rfl .none .none, fun _ _ hl => .ok (.plain hl), fun _ _ _ => .refuse rfl rfl, fun _ _ _ => .refuse rfl rfl,
    fun _ _ _ _ => .refuse rfl rfl, fun _ _ _ => .refuse rfl rfl,
    fun _ _ => path_agrees (a := plainDescription) fun hi => .refuse rfl rfl hi.left hi.right⟩

theorem description_agrees (h : m.Alike P n) :
    Agree P (Description.Alike P) (description.node m) (description.node n) := by
  have hplain {xs ys : List AttrArg} (h : AttrNode.AlikeArgs P xs ys) :
      Agree P (Description.Alike P) (plainDescription.list xs) (plainDescription.list ys) :=
    unwrapped_agrees plainDescription_agrees.empty (arg_agrees (a := plainDescription) rfl plainDescription_agrees) h
  refine node_agrees (a := description) rfl
    ⟨.refuse rfl rfl .none .none, fun _ _ hl => .ok (.plain hl), fun _ _ _ => .refuse rfl rfl, fun _ _ _ => .refuse rfl rfl,
      fun _ _ _ _ => .refuse rfl rfl, fun _ _ _ => .refuse rfl rfl,
      fun _ _ => path_agrees (a := description) fun hi => .refuse rfl rfl hi.left hi.right⟩ (fun {xs ys} hxs => ?_) h
  cases hxs with
  | nil => exact hplain .nil
  | cons ht hxs =>
    cases hxs with
    | nil => exact hplain (.cons ht .nil)
    | cons hx hxs =>
      refine (templateLiteral_arg_agrees ht).bind fun _ _ ht => ?_
      have hrefs := (AttrNode.AlikeArgs.cons hx hxs).forall₂.imp fun _ _ hx => fieldRef_arg_agrees hx
      exact (Agree.mapM hrefs).bind fun _ _ hrefs => .ok (.format ht hrefs)

end Adapter
end TypedErrors
