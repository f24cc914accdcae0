import TypedErrors.Proofs.Attribute.Extract
import TypedErrors.Proofs.Attribute.Forms

/-! # Required entries

A required value is what the adapter makes of the first entry of its name, and without such an entry it is reported
missing. No adapter reports a missing field by itself, but the adapter of the bare word extracts nothing that counts as
given, so an entry that is there is reported missing with it (`required_outcome`). -/

namespace TypedErrors

variable {α β : Type}

/-! ### Reports of a missing field -/

/-- The report that a field is missing. -/
def Fault.IsMissing (f : Fault) : Prop := ∃ d, f = .report d ∧ d.code = .missingField

theorem Fault.isMissing_withSpan_iff {f : Fault} {s : Option Span} : (f.withSpan s).IsMissing ↔ f.IsMissing := by
  cases f with
  | report d =>
    constructor <;>
    · rintro ⟨_, ⟨⟩, hd⟩
      exact ⟨_, rfl, hd⟩
  | abort a =>
    constructor <;>
    · rintro ⟨_, ⟨⟩, -⟩

/-- A computation that fails with the report that a field is missing. -/
def ReportsMissing (x : Except Fault α) : Prop := ∃ f, x = .error f ∧ f.IsMissing

namespace ReportsMissing

variable {x : Except Fault α}

theorem not_ok (v : α) : ¬ ReportsMissing (.ok v) := by
  rintro ⟨f, ⟨⟩, -⟩

theorem not_refuse {d : Diagnostic} (h : d.code ≠ .missingField) (s : Option Span) :
    ¬ ReportsMissing (refuse d s : Except Fault α) := by
  rintro ⟨_, ⟨⟩, _, ⟨⟩, hd⟩
  exact h hd

theorem not_unexpected (type : String) (s : Option Span) :
    ¬ ReportsMissing (refuse (.unexpectedType type) s : Except Fault α) :=
  not_refuse (by rintro ⟨⟩) s

theorem not_abort (a : Abort) : ¬ ReportsMissing (.error (.abort a) : Except Fault α) := by
  rintro ⟨_, ⟨⟩, _, ⟨⟩, -⟩

theorem of_anchored {s : Option Span} (h : ReportsMissing (anchored s x)) : ReportsMissing x := by
  obtain ⟨f, hf, hmissing⟩ := h
  cases x with
  | ok v => cases hf
  | error f' =>
    obtain rfl := Except.error.inj hf
    exact ⟨f', rfl, Fault.isMissing_withSpan_iff.mp hmissing⟩

theorem bind_cases {f : α → Except Fault β} (h : ReportsMissing (x >>= f)) :
    ReportsMissing x ∨ ∃ v, ReportsMissing (f v) := by
  obtain ⟨e, he, hmissing⟩ := h
  rcases bind_eq_error.mp he with he | ⟨v, -, he⟩
  · exact .inl ⟨e, he, hmissing⟩
  · exact .inr ⟨v, e, he, hmissing⟩

theorem mapM_cases {f : α → Except Fault β} {vs : List α} (h : ReportsMissing (vs.mapM f)) :
    ∃ v, ReportsMissing (f v) := by
  obtain ⟨e, he, hmissing⟩ := h
  obtain ⟨_, v, _, -, -, hv⟩ := mapM_eq_error.mp he
  exact ⟨v, e, hv, hmissing⟩

end ReportsMissing

/-! ### Adapters -/

namespace Adapter

variable {a : Adapter α}

/-- The adapters that a value can be asked for with: those of one value, those that take a node or a string as it is,
and those of lists of any of them. -/
inductive Target : {α : Type} → Adapter α → Prop
  | single {α : Type} {a : Adapter α} (h : Single a) : Target a
  | anyNode : Target anyNode
  | templateLiteral : Target templateLiteral
  | listOf {α : Type} {a : Adapter α} (h : Target a) : Target a.listOf

/-- The adapter whose values never count as given. -/
inductive Valueless : {α : Type} → Adapter α → Prop
  | unit : Valueless unit

/-- What an adapter makes of nodes, of values and of arguments never reports a missing field. -/
structure Silent (a : Adapter α) : Prop where
  node : ∀ m, ¬ ReportsMissing (a.node m)
  value : ∀ v, ¬ ReportsMissing (a.value v)
  arg : ∀ x, ¬ ReportsMissing (a.arg x)

/-- The same of the handlers for the bare word, for literals and for paths. -/
structure SilentHandlers (a : Adapter α) : Prop where
  empty : ¬ ReportsMissing a.empty
  literal : ∀ l, ¬ ReportsMissing (a.literal l)
  path : ∀ p, ¬ ReportsMissing (a.path p)

/-- A value as the handlers for literals and for paths see it. -/
def valueByKind (a : Adapter α) (v : AttrValue) : Except Fault α :=
  anchored v.span <|
    match v with
    | .path p => a.path p
    | .literal l => a.literal l

/-- An argument as the handlers for literals and for paths see it. -/
def argByKind (a : Adapter α) (x : AttrArg) : Except Fault α :=
  anchored x.span <|
    match x with
    | .literal l => a.literal l
    | .node (.word p _) => a.path p
    | .node (.assign ..) => refuse (.unexpectedType "name value")
    | .node (.list ..) => refuse (.unexpectedType "list")

/-- A node as the bare word, as its value or as its arguments. -/
def nodeByForm (a : Adapter α) (m : AttrNode) : Except Fault α :=
  anchored m.span <|
    match m with
    | .word .. => a.empty
    | .assign _ v _ => a.value v
    | .list _ args _ => a.list args

theorem SilentHandlers.value (h : a.SilentHandlers) (v : AttrValue) : ¬ ReportsMissing (a.valueByKind v) := by
  intro hv
  cases v with
  | path p => exact h.path p hv.of_anchored
  | literal l => exact h.literal l hv.of_anchored

theorem SilentHandlers.arg (h : a.SilentHandlers) (x : AttrArg) : ¬ ReportsMissing (a.argByKind x) := by
  intro hx
  have hx := ReportsMissing.of_anchored hx
  cases x with
  | literal l => exact h.literal l hx
  | node m =>
    cases m with
    | word p s => exact h.path p hx
    | assign => exact ReportsMissing.not_unexpected _ _ hx
    | list => exact ReportsMissing.not_unexpected _ _ hx

theorem SilentHandlers.node (h : a.SilentHandlers) (hvalue : ∀ v, ¬ ReportsMissing (a.value v))
    (hlist : ∀ xs, ¬ ReportsMissing (a.list xs)) (m : AttrNode) : ¬ ReportsMissing (a.nodeByForm m) := by
  intro hm
  have hm := ReportsMissing.of_anchored hm
  cases m with
  | word => exact h.empty hm
  | assign p v s => exact hvalue v hm
  | list p xs s => exact hlist xs hm

theorem unwrapped_silent {empty : Except Fault α} {arg : AttrArg → Except Fault α} (he : ¬ ReportsMissing empty)
    (ha : ∀ x, ¬ ReportsMissing (arg x)) (xs : List AttrArg) : ¬ ReportsMissing (unwrapped empty arg xs) := by
  match xs with
  | [] => exact he
  | [x] => exact ha x
  | _ :: _ :: _ => exact ReportsMissing.not_refuse (by rintro ⟨⟩) _

/-- An adapter that tells literals by their kind. -/
theorem literal_silent (hstring : ∀ l, ¬ ReportsMissing (a.string l))
    (hbool : ∀ b s, ¬ ReportsMissing (a.bool b s)) (hchar : ∀ c s, ¬ ReportsMissing (a.char c s))
    (hint : ∀ n digits s, ¬ ReportsMissing (a.int n digits s))
    (hfloat : ∀ x s, ¬ ReportsMissing (a.float x s)) (l : Literal) :
    ¬ ReportsMissing (anchored l.span (match l with
      | .string t => a.string t
      | .bool b s => a.bool b s
      | .char c s => a.char c s
      | .int n digits s => a.int n digits s
      | .float x _ s => a.float x s)) := by
  intro h
  cases l with
  | string t => exact hstring t h.of_anchored
  | bool b s => exact hbool b s h.of_anchored
  | char c s => exact hchar c s h.of_anchored
  | int n digits s => exact hint n digits s h.of_anchored
  | float x _ s => exact hfloat x s h.of_anchored

/-- A path that is a single symbol is handled as that symbol, any other is refused. -/
theorem path_silent (h : ∀ i, ¬ ReportsMissing (a.ident i)) (p : SymbolPath) :
    ¬ ReportsMissing (match p.single? with
      | some i => a.ident i
      | none => refuse (.unexpectedType "path") p.span) := by
  cases p.single? with
  | some i => exact h i
  | none => exact ReportsMissing.not_unexpected _ _

/-- A number out of bounds is an unknown value. -/
theorem bounded_silent (minimum maximum : Option Int) (n : Int) (s : Option Span) :
    ¬ ReportsMissing (bounded minimum maximum n s) := by
  rw [bounded]
  split_ifs
  · cases Numeral.write n with
    | ok digits => exact ReportsMissing.not_refuse (by rintro ⟨⟩) _
    | error e => exact ReportsMissing.not_abort _
  · exact ReportsMissing.not_ok _

theorem copyMethodNamed_silent (value : Text) (s : Option Span) : ¬ ReportsMissing (copyMethodNamed value s) := by
  rw [copyMethodNamed]
  split
  · exact ReportsMissing.not_ok _
  · exact ReportsMissing.not_refuse (by rintro ⟨⟩) _

/-! ### The handlers of each adapter -/

namespace Single

open ReportsMissing

theorem empty_silent (h : Single a) : ¬ ReportsMissing a.empty := by
  cases h with
  | unit => exact not_ok _
  | flag => exact not_ok _
  | aliasSetting => exact not_ok _
  | _ => exact not_refuse (by rintro ⟨⟩) _

theorem string_silent (h : Single a) (l : TextLiteral) : ¬ ReportsMissing (a.string l) := by
  have hunknown {α : Type} : ¬ ReportsMissing (refuse (.unknownValue l.value) l.span : Except Fault α) :=
    not_refuse (by rintro ⟨⟩) _
  cases h with
  | flag =>
    dsimp only [Adapter.flag]
    split_ifs
    · exact not_ok _
    · exact not_ok _
    · exact hunknown
  | text => exact not_ok _
  | integer minimum maximum =>
    dsimp only [Adapter.integer]
    split
    · exact bounded_silent _ _ _ _
    · exact hunknown
  | number =>
    dsimp only [Adapter.number]
    split
    · exact not_ok _
    · exact hunknown
  | symbol =>
    dsimp only [Adapter.symbol]
    split
    · exact not_ok _
    · exact hunknown
  | symbolPath =>
    dsimp only [Adapter.symbolPath]
    split
    · exact not_ok _
    · exact hunknown
  | fieldRef => exact not_ok _
  | description => exact not_ok _
  | copyMethod => exact copyMethodNamed_silent _ _
  | aliasSetting =>
    dsimp only [Adapter.aliasSetting]
    split
    · exact not_ok _
    · exact hunknown
  | _ => exact not_unexpected _ _

theorem bool_silent (h : Single a) (b : Bool) (s : Option Span) : ¬ ReportsMissing (a.bool b s) := by
  cases h with
  | flag => exact not_ok _
  | aliasSetting => exact not_ok _
  | _ => exact not_unexpected _ _

theorem char_silent (h : Single a) (c : CodePoint) (s : Option Span) : ¬ ReportsMissing (a.char c s) := by
  cases h <;> exact not_unexpected _ _

theorem int_silent (h : Single a) (n : Int) (digits : String) (s : Option Span) :
    ¬ ReportsMissing (a.int n digits s) := by
  cases h with
  | integer minimum maximum => exact bounded_silent minimum maximum n s
  | fieldRef => exact not_ok _
  | _ => exact not_unexpected _ _

theorem float_silent (h : Single a) (x : Binary64) (s : Option Span) : ¬ ReportsMissing (a.float x s) := by
  cases h with
  | number => exact not_ok _
  | _ => exact not_unexpected _ _

theorem ident_silent (h : Single a) (i : Ident) : ¬ ReportsMissing (a.ident i) := by
  cases h with
  | symbol => exact not_ok _
  | fieldRef => exact not_ok _
  | copyMethod => exact copyMethodNamed_silent _ _
  | aliasSetting => exact not_ok _
  | _ => exact not_unexpected _ _

theorem path_silent (h : Single a) (p : SymbolPath) : ¬ ReportsMissing (a.path p) := by
  have hident := h.ident_silent
  cases h with
  | text => exact not_ok _
  | symbolPath => exact not_ok _
  | _ => exact Adapter.path_silent hident p

theorem literal_silent (h : Single a) (l : Literal) : ¬ ReportsMissing (a.literal l) := by
  have hkinds := Adapter.literal_silent h.string_silent h.bool_silent h.char_silent h.int_silent h.float_silent l
  cases h with
  | anyLiteral => exact not_ok _
  | _ => exact hkinds

theorem handlers (h : Single a) : a.SilentHandlers := ⟨h.empty_silent, h.literal_silent, h.path_silent⟩

theorem value_eq (h : Single a) (v : AttrValue) : a.value v = a.valueByKind v := by
  cases h <;> cases v <;> rfl

theorem arg_eq (h : Single a) (x : AttrArg) : a.arg x = a.argByKind x := by
  cases h <;> rcases x with l | (_ | _ | _) <;> rfl

theorem node_eq (h : Single a) (m : AttrNode) : a.node m = a.nodeByForm m := by
  cases h <;> cases m <;> rfl

theorem value_silent (h : Single a) (v : AttrValue) : ¬ ReportsMissing (a.value v) :=
  h.value_eq v ▸ h.handlers.value v

theorem arg_silent (h : Single a) (x : AttrArg) : ¬ ReportsMissing (a.arg x) := h.arg_eq x ▸ h.handlers.arg x

end Single

open ReportsMissing

theorem templateLiteral_handlers : templateLiteral.SilentHandlers :=
  ⟨not_refuse (by rintro ⟨⟩) _, literal_silent (a := templateLiteral) (fun _ => not_ok _)
    (fun _ _ => not_unexpected _ _) (fun _ _ => not_unexpected _ _) (fun _ _ _ => not_unexpected _ _)
    (fun _ _ => not_unexpected _ _), path_silent (a := templateLiteral) fun _ => not_unexpected _ _⟩

theorem templateLiteral_arg_silent (x : AttrArg) : ¬ ReportsMissing (templateLiteral.arg x) := by
  have harg : templateLiteral.arg x = templateLiteral.argByKind x := by rcases x with l | (_ | _ | _) <;> rfl
  exact harg ▸ templateLiteral_handlers.arg x

/-- A template with references is read piece by piece, any other list like one value. -/
theorem description_list_silent (xs : List AttrArg) : ¬ ReportsMissing (description.list xs) := by
  have hfew (xs : List AttrArg) : ¬ ReportsMissing (plainDescription.list xs) :=
    unwrapped_silent Single.description.empty_silent Single.description.arg_silent xs
  match xs with
  | [] => exact hfew []
  | [x] => exact hfew [x]
  | template :: first :: more =>
    intro h
    rcases h.bind_cases with h | ⟨t, h⟩
    · exact templateLiteral_arg_silent template h
    · rcases h.bind_cases with h | ⟨refs, h⟩
      · obtain ⟨x, hx⟩ := h.mapM_cases
        exact Single.fieldRef.arg_silent x hx
      · exact not_ok _ h

theorem Single.list_silent (h : Single a) (xs : List AttrArg) : ¬ ReportsMissing (a.list xs) := by
  have hunwrapped := unwrapped_silent h.empty_silent h.arg_silent xs
  cases h with
  | description => exact description_list_silent xs
  | _ => exact hunwrapped

theorem Single.silent (h : Single a) : a.Silent :=
  ⟨fun m => h.node_eq m ▸ h.handlers.node h.value_silent h.list_silent m, h.value_silent, h.arg_silent⟩

theorem templateLiteral_silent : templateLiteral.Silent := by
  have hvalue : ∀ v, ¬ ReportsMissing (templateLiteral.value v) := by
    intro v
    have hv : templateLiteral.value v = templateLiteral.valueByKind v := by cases v <;> rfl
    exact hv ▸ templateLiteral_handlers.value v
  refine ⟨fun m => ?_, hvalue, templateLiteral_arg_silent⟩
  have hm : templateLiteral.node m = templateLiteral.nodeByForm m := by cases m <;> rfl
  exact hm ▸ templateLiteral_handlers.node hvalue
    (unwrapped_silent templateLiteral_handlers.empty templateLiteral_arg_silent) m

theorem anyNode_silent : anyNode.Silent := by
  have hhandlers : anyNode.SilentHandlers :=
    ⟨not_refuse (by rintro ⟨⟩) _, literal_silent (a := anyNode) (fun _ => not_unexpected _ _)
      (fun _ _ => not_unexpected _ _) (fun _ _ => not_unexpected _ _) (fun _ _ _ => not_unexpected _ _)
      (fun _ _ => not_unexpected _ _), path_silent (a := anyNode) fun _ => not_unexpected _ _⟩
  refine ⟨fun m => not_ok _, fun v => ?_, fun x => ?_⟩
  · have hv : anyNode.value v = anyNode.valueByKind v := by cases v <;> rfl
    exact hv ▸ hhandlers.value v
  · have hx : anyNode.arg x = anyNode.argByKind x := by rcases x with l | (_ | _ | _) <;> rfl
    exact hx ▸ hhandlers.arg x

/-- A list of values is read value by value. -/
theorem Silent.listOf (h : a.Silent) : a.listOf.Silent := by
  have hhandlers : a.listOf.SilentHandlers :=
    ⟨not_ok _, literal_silent (a := a.listOf) (fun _ => not_unexpected _ _) (fun _ _ => not_unexpected _ _)
      (fun _ _ => not_unexpected _ _) (fun _ _ _ => not_unexpected _ _) (fun _ _ => not_unexpected _ _),
      path_silent (a := a.listOf) fun _ => not_unexpected _ _⟩
  have hvalue : ∀ v, ¬ ReportsMissing (a.listOf.value v) := by
    intro v hv
    rcases ReportsMissing.bind_cases hv with hv | ⟨x, hx⟩
    · exact h.value v hv
    · exact not_ok _ hx
  have hlist : ∀ xs, ¬ ReportsMissing (a.listOf.list xs) := by
    intro xs hxs
    obtain ⟨x, hx⟩ := ReportsMissing.mapM_cases hxs
    exact h.arg x hx
  refine ⟨fun m => ?_, hvalue, fun x => ?_⟩
  · have hm : a.listOf.node m = a.listOf.nodeByForm m := by cases m <;> rfl
    exact hm ▸ hhandlers.node hvalue hlist m
  · have hx : a.listOf.arg x = a.listOf.argByKind x := by rcases x with l | (_ | _ | _) <;> rfl
    exact hx ▸ hhandlers.arg x

theorem Target.silent (h : Target a) : a.Silent := by
  induction h with
  | single h => exact h.silent
  | anyNode => exact anyNode_silent
  | templateLiteral => exact templateLiteral_silent
  | listOf _ ih => exact ih.listOf

theorem Valueless.isGiven_eq (h : Valueless a) (x : α) : a.isGiven x = false := by
  cases h
  rfl

/-- All values count as given but that of the bare word. -/
theorem Target.isGiven_eq (h : Target a) (hvalue : ¬ Valueless a) (x : α) : a.isGiven x = true := by
  cases h with
  | single h =>
    cases h with
    | unit => exact absurd .unit hvalue
    | _ => rfl
  | _ => rfl

end Adapter

/-! ### Required values -/

namespace Extract

open Entries

variable {name : String} {items : List Entry} {e : Entry}

theorem find?_eq_none_iff : items.find? (·.name = name) = none ↔ ∀ e ∈ items, e.name ≠ name := by
  simp only [List.find?_eq_none, decide_eq_true_eq]

theorem exists_takeFirst (h : items.find? (·.name = name) = some e) :
    ∃ items', takeFirst name items = some (e.node, items') := by
  induction items with
  | nil => cases h
  | cons e' items ih =>
    by_cases hname : e'.name = name
    · rw [List.find?_cons_of_pos (by simpa using hname)] at h
      obtain rfl := Option.some.inj h
      exact ⟨_, by rw [takeFirst, if_pos hname]⟩
    · rw [List.find?_cons_of_neg (by simpa using hname)] at h
      obtain ⟨items', hitems⟩ := ih h
      exact ⟨e' :: items', by rw [takeFirst, if_neg hname, hitems]; rfl⟩

/-- The report of a missing field. -/
def missing (name : String) (anchor : Option Span) : Fault :=
  .report ((Diagnostic.missingField name).withSpan anchor)

variable {a : Adapter α} {anchor : Option Span} {es : Entries}

theorem required_run_of_absent (h : ∀ e ∈ es.items, e.name ≠ name) :
    ((required name a anchor).run es).1 = .error (missing name anchor) := by
  rw [required, run_bind, optional_run_of_none (takeFirst_eq_none_iff.mpr h)]
  rfl

theorem required_run_of_first (h : es.items.find? (·.name = name) = some e) :
    ((required name a anchor).run es).1 =
      a.node e.node >>= fun x => if a.isGiven x then .ok x else .error (missing name anchor) := by
  obtain ⟨items', hitems⟩ := exists_takeFirst h
  rw [required, run_bind, optional_run_of_some hitems]
  cases a.node e.node with
  | error f => rfl
  | ok x =>
    show _ = if a.isGiven x then _ else _
    cases hgiven : a.isGiven x <;> simp only [Except.map, hgiven] <;> rfl

/-- A required value that is there is what the adapter makes of the first entry of its name, and if there is none it is
reported missing. Of all adapters only that of the bare word, which extracts nothing that counts as given, has entries
reported missing that are there. -/
theorem required_outcome (es : Entries) (name : String) (a : Adapter α) (anchor : Option Span) :
    ((∀ e ∈ es.items, e.name ≠ name) → ((required name a anchor).run es).1 = .error (missing name anchor)) ∧
      (∀ e, es.items.find? (·.name = name) = some e → ((required name a anchor).run es).1 =
        a.node e.node >>= fun x => if a.isGiven x then .ok x else .error (missing name anchor)) ∧
      (a.Target → ¬ a.Valueless →
        (ReportsMissing ((required name a anchor).run es).1 ↔ ∀ e ∈ es.items, e.name ≠ name) ∧
          ∀ e, es.items.find? (·.name = name) = some e → ((required name a anchor).run es).1 = a.node e.node) ∧
      (a.Target → a.Valueless →
        (ReportsMissing ((required name a anchor).run es).1 ↔ (∀ e ∈ es.items, e.name ≠ name) ∨
          ∃ e x, es.items.find? (·.name = name) = some e ∧ a.node e.node = .ok x)) := by
  have habsent : (∀ e ∈ es.items, e.name ≠ name) → ReportsMissing ((required name a anchor).run es).1 := by
    intro h
    rw [required_run_of_absent h]
    exact ⟨_, rfl, _, rfl, rfl⟩
  refine ⟨required_run_of_absent, fun e he => required_run_of_first he, fun ht hv => ?_, fun ht hv => ?_⟩
  · have hfirst : ∀ e, es.items.find? (·.name = name) = some e →
        ((required name a anchor).run es).1 = a.node e.node := by
      intro e he
      rw [required_run_of_first he]
      cases a.node e.node with
      | error f => rfl
      | ok x => exact if_pos (ht.isGiven_eq hv x)
    refine ⟨⟨fun hmissing => ?_, habsent⟩, hfirst⟩
    rw [← find?_eq_none_iff, Option.eq_none_iff_forall_ne_some]
    intro e he
    rw [hfirst e he] at hmissing
    exact ht.silent.node e.node hmissing
  · constructor
    · intro hmissing
      cases hfind : es.items.find? (·.name = name) with
      | none => exact .inl (find?_eq_none_iff.mp hfind)
      | some e =>
        rw [required_run_of_first hfind] at hmissing
        cases hnode : a.node e.node with
        | error f =>
          rw [hnode] at hmissing
          exact absurd (hnode ▸ hmissing) (ht.silent.node e.node)
        | ok x => exact .inr ⟨e, x, rfl, hnode⟩
    · rintro (h | ⟨e, x, he, hx⟩)
      · exact habsent h
      · rw [required_run_of_first he, hx]
        show ReportsMissing (if a.isGiven x then _ else _)
        rw [hv.isGiven_eq x, if_neg Bool.false_ne_true]
        exact ⟨_, rfl, _, rfl, rfl⟩

/-- The block `a(u)`. -/
def wordBlock : RawAttribute := blockOf [(.name, "a"), (.leftParen, "("), (.name, "u"), (.rightParen, ")")]

/-- Its entries, as nobody has read them. -/
def wordEntries : Entries := { items := [{ name := "u", node := .word ⟨[⟨"u", none⟩], none⟩ none }] }

theorem ofAttributes_wordBlock : Entries.ofAttributes "a" [wordBlock] = .ok wordEntries := rfl

/-- Asked for as a flag the entry `u` is read. -/
theorem required_flag_wordBlock : Adapter.flag.Target ∧ ¬ Adapter.flag.Valueless ∧
    ((required "u" .flag none).run wordEntries).1 = .ok true := by
  have htarget : Adapter.flag.Target := .single .flag
  have hvalue : ¬ Adapter.flag.Valueless := fun h => Bool.noConfusion (h.isGiven_eq true)
  obtain ⟨-, -, houtcome, -⟩ := required_outcome wordEntries "u" .flag none
  exact ⟨htarget, hvalue, (houtcome htarget hvalue).2 _ rfl⟩

/-- Asked for as a bare word it is reported missing, although it is there and is a bare word. -/
theorem required_unit_wordBlock : ∃ es e, Entries.ofAttributes "a" [wordBlock] = .ok es ∧
    es.items.find? (·.name = "u") = some e ∧ Adapter.unit.node e.node = .ok () ∧
      ReportsMissing ((required "u" .unit none).run es).1 :=
  ⟨wordEntries, _, ofAttributes_wordBlock, rfl, rfl, _, rfl, _, rfl, rfl⟩

end Extract
end TypedErrors
