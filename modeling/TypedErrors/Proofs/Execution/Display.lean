import TypedErrors.Proofs.Description.Reference
import TypedErrors.Proofs.Execution.Dispatch

/-! # The text of a context

The function of a context class that gives the text of a context, called with the value of a case: what its
description evaluates to (`eval_description_iff`), and what the pattern of a variant captures
(`Stands.bindPattern_variant_iff`). -/

namespace TypedErrors

namespace Fields
variable {α β : Type} {fs : Fields α} {vals : List β} {key : FieldKey}

/-- The value of a field, when the fields have these values in their order. -/
def valueOf (fs : Fields α) (vals : List β) (key : FieldKey) : Option β :=
  ((fs.entries.map (·.1)).zip vals).lookup key

theorem zip_keys (fs : Fields α) (vals : List β) :
    (fs.entries.map (·.1)).zip vals = (fs.entries.zip vals).map fun p => (p.1.1, p.2) := by
  rw [List.zip_map_left]
  rfl

theorem exists_entry (hlen : vals.length = fs.size) (hkey : key ∈ fs.entries.map (·.1)) :
    ∃ p ∈ fs.entries.zip vals, p.1.1 = key := by
  have hzip : (fs.entries.zip vals).map (·.1) = fs.entries := List.map_fst_zip (Nat.le_of_eq hlen.symm)
  rw [← hzip, List.map_map] at hkey
  exact List.mem_map.mp hkey

theorem valueOf_entry (hfs : fs.Apart) (hlen : vals.length = fs.size) {p : (FieldKey × α) × β}
    (hp : p ∈ fs.entries.zip vals) : fs.valueOf vals p.1.1 = some p.2 := by
  have hkeys : (fs.entries.map (·.1)).Nodup := by
    refine List.Nodup.of_map FieldKey.attribute ?_
    rw [List.map_map]
    exact hfs
  refine Execution.lookup_of_mem ?_ ?_
  · rw [List.map_fst_zip (by rw [List.length_map]; exact Nat.le_of_eq hlen.symm)]
    exact hkeys
  · rw [zip_keys]
    exact List.mem_map.mpr ⟨p, hp, rfl⟩

theorem exists_valueOf (hfs : fs.Apart) (hlen : vals.length = fs.size) (hkey : key ∈ fs.entries.map (·.1)) :
    ∃ v ∈ vals, fs.valueOf vals key = some v := by
  obtain ⟨p, hp, rfl⟩ := exists_entry hlen hkey
  exact ⟨p.2, (List.of_mem_zip hp).2, valueOf_entry hfs hlen hp⟩

end Fields

namespace Execution

open Code Generated Generation

variable {g : GeneratedType} {t : ErrorType} {m : Frame} {i : Nat} {c : KindCase} {vals : List Value} {s : Scope}
  {access : FieldAccess} {fields : Fields ErrorField} {desc : Description} {b : BoundDescription}

/-! ### Descriptions -/

/-- The value of the field that a reference means. -/
def refValue (fields : Fields ErrorField) (vals : List Value) (ref : FieldRef) : Option Value :=
  ref.means.bind (fields.valueOf vals)

/-- What a description says of fields with these values: its text when it has no arguments, and else a call that
formats the values of the fields it refers to into its template, in the order of the references. -/
def described (desc : Description) (fields : Fields ErrorField) (vals : List Value) : Option Value :=
  if desc.refs.isEmpty then some (.text desc.template)
  else (desc.refs.mapM (refValue fields vals)).map (.formatted desc.template)

theorem eval_descriptionExpr (s : Scope) (b : BoundDescription) : eval s (descriptionExpr b) =
    if b.args.isEmpty then some (.text b.template) else (evalAll s b.args).map (.formatted b.template) := by
  unfold descriptionExpr
  split
  · rfl
  · have hformat : eval s (.attribute (.constant (.text b.template)) "format") = some (.format b.template) := by
      have hkey : Key.within s.owner "format" = .plain "format" := Key.within_eq_plain (by decide)
      simp [eval, Value.attr?, hkey]
    rw [Expr.apply, eval, hformat]
    cases evalAll s b.args <;> rfl

/-- The arguments have the values of the references when each accesses its field. -/
theorem evalAll_accesses_iff {refs : List FieldRef} {args : List Expr} (hfields : fields.Apart)
    (hlen : vals.length = fields.size) (h : List.Forall₂ (Accesses access fields) refs args) :
    ∃ ws, refs.mapM (refValue fields vals) = some ws ∧ (evalAll s args = some ws ↔
      ∀ key ∈ refs.filterMap FieldRef.means, eval s (access.expr key.attribute) = fields.valueOf vals key) := by
  induction h with
  | nil => exact ⟨[], rfl, fun _ => List.forall_mem_nil _, fun _ => rfl⟩
  | @cons ref x refs args hx _ ih =>
    obtain ⟨key, hkey, rfl⟩ := hx
    obtain ⟨hmeans, hmem⟩ := means_of_key? hkey
    obtain ⟨v, -, hv⟩ := Fields.exists_valueOf hfields hlen hmem
    obtain ⟨ws, hws, hiff⟩ := ih
    refine ⟨v :: ws, ?_, ?_⟩
    · rw [List.mapM_cons, refValue, hmeans, hws]
      show (fields.valueOf vals key).bind _ = _
      rw [hv]
      rfl
    · rw [List.filterMap_cons_some hmeans, List.forall_mem_cons, ← hiff, hv, evalAll]
      cases eval s (access.expr key.attribute) with
      | none => simp
      | some w => cases evalAll s args <;> simp

/-- A bound description evaluates to what it says exactly when each field that it refers to is read. -/
theorem eval_description_iff (hfields : fields.Apart) (hlen : vals.length = fields.size)
    (hb : desc.bind access fields = .ok b) :
    ∃ x, described desc fields vals = some x ∧ (eval s (descriptionExpr b) = some x ↔
      ∀ key ∈ desc.keys, eval s (access.expr key.attribute) = fields.valueOf vals key) := by
  obtain ⟨ht, hargs⟩ := accesses_of_bind hb
  obtain ⟨ws, hws, hiff⟩ := evalAll_accesses_iff (s := s) hfields hlen hargs
  rw [eval_descriptionExpr, described, Description.keys, ← hiff, hws, ht]
  generalize desc.refs = refs, b.args = args at hargs hws
  cases hargs with
  | nil =>
    obtain rfl := Option.some.inj hws
    exact ⟨.text desc.template, rfl, fun _ => rfl, fun _ => rfl⟩
  | @cons ref x refs args =>
    refine ⟨.formatted desc.template ws, rfl, ?_⟩
    show (evalAll s (x :: args)).map _ = _ ↔ _
    cases evalAll s (x :: args) <;> simp

/-! ### The function -/

/-- A method of a class. -/
def method? (name : String) : Stmt → Option Stmt
  | .cls _ _ body _ _ => body.find? fun
    | .function n .. => n = name
    | _ => false
  | _ => none

/-- The value of the function that gives the text, called with the value of a case. -/
def describe (m : Frame) (t : ErrorType) (i : Nat) (vals : List Value) : Option Value := do
  let x ← m.heap.construct (contextClass t i) vals []
  let base ← (contexts t).head?
  m.call t.ident (← method? "__str__" base) [x]

/-- The function with its body. -/
def textMethod (body : List Stmt) : Stmt :=
  .function "__str__" [.ofText "self"] body (some (.raw "str")) [] none

theorem method?_context (entries : List (FieldKey × ErrorField)) {name : String} {bases decorators : List Expr}
    {body : List Stmt} {doc : Option String} :
    method? "__str__" (.cls name bases (entries.map fieldStmt ++ contextMethods t body) decorators doc) =
      some (textMethod body) := by
  induction entries with
  | nil => rfl
  | cons e entries ih => exact ih

/-- What the function sees in the branch of a case. -/
abbrev textScope (m : Frame) (t : ErrorType) (i : Nat) (c : KindCase) (vals : List Value) (names : List String)
    (bound : Env) : Scope :=
  (caseCall m t.ident "self" names).scope (bound ++ caseEnv t.ident "self" (contextValue t i c vals))

/-- Calling the function runs its body, with the value as `self`. -/
theorem Stands.describe_eq_some (h : Stands g m) (hc : g.type.kindCases[i]? = some c)
    (hlen : vals.length = c.allFields.size) {base : Stmt} {body : List Stmt}
    (hhead : (contexts g.type).head? = some base) (hbase : method? "__str__" base = some (textMethod body))
    {r : Value} : describe m g.type i vals = some r ↔
      execAll (caseCall m g.type.ident "self" (Stmt.capturesAll body))
        (caseEnv g.type.ident "self" (contextValue g.type i c vals)) body = some (.value r) := by
  have hcall : describe m g.type i vals = m.call g.type.ident (textMethod body) [contextValue g.type i c vals] := by
    simp only [describe, h.construct_context hc hlen, hhead, hbase, Option.bind_eq_bind, Option.bind_some]
  rw [hcall, textMethod]
  exact call_eq_some

theorem Stands.describe_struct (h : Stands g m) {d : BoundDescription} {sources : List SymbolPath}
    (hshape : g.type.shape = .struct fields d sources) (hc : g.type.kindCases[i]? = some c)
    (hlen : vals.length = c.allFields.size) {r : Value} : describe m g.type i vals = some r ↔
      eval (textScope m g.type i c vals [] []) (descriptionExpr d) = some r := by
  obtain ⟨doc, hdoc⟩ := structContext_eq (t := g.type) fields d
  have hhead : (contexts g.type).head? = some (structContext g.type fields d) := by rw [contexts, hshape]; rfl
  rw [hdoc] at hhead
  rw [h.describe_eq_some hc hlen hhead (method?_context _)]
  exact execAll_ret

/-- The names that the patterns of the cases capture. -/
def textCaptures (t : ErrorType) : List String :=
  t.kindCases.flatMap fun c => (attributes c.allFields.entries).filter (· ≠ "_")

/-- The pattern of a variant, by the shape of its fields. -/
inductive VariantPattern (t : ErrorType) (v : ErrorVariant) : Pattern → Prop
  | keywords {items : List (String × ErrorField)} (hv : v.fields = .named items) : VariantPattern t v
      (.cls (caseType t v.ident) [] ((attributes v.fields.entries).map fun n => .mk n (.capture (some n))))
  | positions {items : List (Nat × ErrorField)} (hv : v.fields = .unnamed items) : VariantPattern t v
      (.cls (caseType t v.ident) ((attributes v.fields.entries).map fun n => .capture (some n)) [])
  | bare (hv : v.fields = .unit) : VariantPattern t v (.cls (caseType t v.ident) [] [])

theorem variantPattern_eq (t : ErrorType) (v : ErrorVariant) : VariantPattern t v (variantPattern t v) := by
  unfold variantPattern
  split
  · next items hv =>
    have h := VariantPattern.keywords (t := t) hv
    rw [hv, attributes, Fields.entries, List.map_map, List.map_map] at h
    exact h
  · next items hv =>
    have h := VariantPattern.positions (t := t) hv
    rw [hv, attributes, Fields.entries, List.map_map, List.map_map] at h
    exact h
  · next hv => exact .bare hv

theorem variantPattern_names (t : ErrorType) : Names t (·.ident) (variantPattern t) := by
  intro v
  generalize variantPattern t v = pattern, variantPattern_eq t v = hpattern
  cases hpattern <;> exact ⟨_, _, rfl⟩

theorem patternNames_variantPattern (t : ErrorType) (v : ErrorVariant) :
    patternNames (variantPattern t v) = (attributes v.fields.entries).filter (· ≠ "_") := by
  generalize variantPattern t v = pattern, variantPattern_eq t v = hpattern
  cases hpattern with
  | keywords hv => exact keywordPatternNames_captures _
  | positions hv =>
    have h := patternNamesAll_captures ((attributes v.fields.entries).map some)
    rw [List.map_map, List.filterMap_map] at h
    rw [patternNames, keywordPatternNames, List.append_nil]
    refine h.trans ?_
    show (List.filterMap some _).filter _ = _
    rw [List.filterMap_some]
  | bare hv =>
    rw [hv]
    rfl

theorem Stands.describe_enum (h : Stands g m) {variants : List ErrorVariant}
    (hshape : g.type.shape = .enum variants) (hc : g.type.kindCases[i]? = some c)
    (hlen : vals.length = c.allFields.size) {r : Value} : describe m g.type i vals = some r ↔
      FirstMatch (caseCall m g.type.ident "self" (textCaptures g.type))
        (caseEnv g.type.ident "self" (contextValue g.type i c vals)) (variantPattern g.type)
        (fun v => descriptionExpr v.description) (contextValue g.type i c vals) r variants := by
  have hcaptures : Stmt.capturesAll (selectOrRaise "self" (variants.map
      (returning (variantPattern g.type) fun v => descriptionExpr v.description))) = textCaptures g.type := by
    rw [capturesAll_selectOrRaise, textCaptures, ErrorType.kindCases_enum hshape, List.flatMap_map]
    exact List.flatMap_congr fun v _ => patternNames_variantPattern _ v
  obtain ⟨doc, hdoc⟩ := enumBase_eq (t := g.type) variants
  have hhead : (contexts g.type).head? = some (enumBase g.type variants) := by rw [contexts, hshape]; rfl
  rw [hdoc] at hhead
  rw [h.describe_eq_some hc hlen hhead (method?_context [])]
  show execAll (caseCall _ _ _ (Stmt.capturesAll (selectOrRaise "self" (variants.map
      (returning (variantPattern g.type) fun v => descriptionExpr v.description))))) _ _ = _ ↔ _
  rw [hcaptures]
  exact execAll_selectOrRaise (look_local (.inl rfl) |>.trans List.lookup_cons_self)

/-! ### Captured fields -/

theorem exists_cells {ns : List String} {P : String → Value → Prop} (h : ∀ n ∈ ns, ∃ w, P n w) :
    ∃ cells : List (String × Value), cells.map (·.1) = ns ∧ ∀ p ∈ cells, P p.1 p.2 := by
  induction ns with
  | nil => exact ⟨[], rfl, List.forall_mem_nil _⟩
  | cons n ns ih =>
    obtain ⟨⟨w, hw⟩, h⟩ := List.forall_mem_cons.mp h
    obtain ⟨cells, hcells, hP⟩ := ih h
    exact ⟨(n, w) :: cells, congrArg (n :: ·) hcells, List.forall_mem_cons.mpr ⟨hw, hP⟩⟩

/-- The fields of a case, as its pattern reads them: under the names that are written in it. -/
def Cells (h : Heap) (x : Value) (ns : List String) (cells : List (String × Value)) : Prop :=
  cells.map (·.1) = ns ∧ ∀ p ∈ cells, x.attr? h (.plain p.1) = some p.2

/-- The attribute of a field has the value of the field. -/
theorem Stands.attr?_valueOf (h : Stands g m) (hc : g.type.kindCases[i]? = some c)
    (hlen : vals.length = c.allFields.size) {key : FieldKey} (hkey : key ∈ c.allFields.entries.map (·.1)) :
    (contextValue g.type i c vals).attr? m.heap (.within (contextName g.type c) key.attribute) =
      c.allFields.valueOf vals key := by
  obtain ⟨p, hp, rfl⟩ := Fields.exists_entry hlen hkey
  rw [h.attr?_field hc hlen hp]
  exact (Fields.valueOf_entry (h.apart.fields c (List.mem_of_getElem? hc)) hlen hp).symm

theorem mem_attributes {entries : List (FieldKey × ErrorField)} {n : String} :
    n ∈ attributes entries ↔ ∃ key ∈ entries.map (·.1), key.attribute = n := by
  simp [attributes]

theorem isPrivate_of_unnamed {items : List (Nat × ErrorField)} :
    ∀ n ∈ attributes (Fields.unnamed items).entries, isPrivate n = false := by
  intro n hn
  obtain ⟨key, hkey, rfl⟩ := mem_attributes.mp hn
  obtain ⟨e, he, rfl⟩ := List.mem_map.mp hkey
  obtain ⟨q, -, rfl⟩ := List.mem_map.mp he
  exact isPrivate_positionalName q.1

section
variable {v : ErrorVariant} {cells : List (String × Value)}

/-- The pattern of a case whose class it finds captures the fields that it reads. -/
theorem Stands.bindPattern_cells (h : Stands g m) (hs : g.type.isStruct = false)
    (hc : g.type.kindCases[i]? = some c) (hv : c = .ofFields v.ident v.fields) (hheap : s.heap = m.heap)
    (htype : eval s (caseType g.type c.ident) = some (.cls (i + 1)))
    (hcells : Cells m.heap (contextValue g.type i c vals) (attributes c.allFields.entries) cells) :
    bindPattern s (contextValue g.type i c vals) (variantPattern g.type v) =
      some (some (captured s.owner cells)) := by
  obtain ⟨hnames, hattrs⟩ := hcells
  have hnames : cells.map (·.1) = attributes v.fields.entries := by rw [hnames, hv]; rfl
  have htype : eval s (caseType g.type v.ident) = some (.cls (i + 1)) := by rw [← htype, hv]; rfl
  have hinstance : s.heap.isInstance (contextValue g.type i c vals) (i + 1) = true := by
    rw [hheap]
    exact (h.isInstance_contextValue hs hc).mpr (.inl rfl)
  rw [← hheap] at hattrs
  generalize variantPattern g.type v = pattern, variantPattern_eq g.type v = hpattern
  cases hpattern with
  | keywords hfields =>
    rw [bindPattern_cls htype hinstance, ← hnames, List.map_map]
    show both (some (some [])) (bindKeywords s _ (cells.map fun p => .mk p.1 (.capture (some p.1)))) = _
    rw [bindKeywords_captures hattrs]
    rfl
  | positions hfields =>
    have hkeys : s.heap.matchArgs (i + 1) = cells.map fun p => .plain p.1 := by
      have hpublic : ∀ n ∈ attributes v.fields.entries, isPrivate n = false := by
        rw [hfields]
        exact isPrivate_of_unnamed
      have hclass : contextClass g.type i = i + 1 := by rw [contextClass, hs]; rfl
      rw [hheap, ← hclass, h.matchArgs_context hc, contextKeys, hv]
      show (attributes v.fields.entries).map _ = _
      rw [List.map_congr_left fun n hn => Key.within_eq_plain (hpublic n hn), ← hnames, List.map_map]
      rfl
    have hargs : List.Forall₂ (fun k p => (contextValue g.type i c vals).attr? s.heap k = some p.2)
        (cells.map fun p => Key.plain p.1) (cells.map fun p => (some p.1, p.2)) := by
      rw [List.forall₂_map_left_iff, List.forall₂_map_right_iff]
      exact List.forall₂_same.mpr hattrs
    have hbind := bindArgs_captures hargs
    rw [List.map_map, List.flatMap_map] at hbind
    rw [bindPattern_cls htype hinstance, hkeys, ← hnames, List.map_map]
    show both (bindArgs s _ _ (cells.map fun p => .capture (some p.1))) (some (some [])) = _
    refine (congrArg (both · _) hbind).trans ?_
    show some (some (captured s.owner (cells.flatMap fun p => [p]) ++ [])) = _
    rw [List.append_nil, List.flatMap_singleton']
  | bare hfields =>
    have hnil : cells = [] := by
      rw [hfields] at hnames
      exact List.map_eq_nil_iff.mp hnames
    rw [bindPattern_cls htype hinstance, hnil]
    rfl

/-- When the pattern of a case matches, it reads all fields. -/
theorem Stands.cells_of_bindPattern (h : Stands g m) (hs : g.type.isStruct = false)
    (hc : g.type.kindCases[i]? = some c) (hlen : vals.length = c.allFields.size)
    (hv : c = .ofFields v.ident v.fields) (hheap : s.heap = m.heap)
    (htype : eval s (caseType g.type c.ident) = some (.cls (i + 1))) {bound : Env}
    (hbound : bindPattern s (contextValue g.type i c vals) (variantPattern g.type v) = some (some bound)) :
    ∃ cells, Cells m.heap (contextValue g.type i c vals) (attributes c.allFields.entries) cells ∧
      bound = captured s.owner cells := by
  have hfields : c.allFields = v.fields := by rw [hv]; rfl
  have hreads : ∀ n ∈ attributes c.allFields.entries, ∃ w,
      (contextValue g.type i c vals).attr? m.heap (.plain n) = some w := by
    have htype : eval s (caseType g.type v.ident) = some (.cls (i + 1)) := by rw [← htype, hv]; rfl
    rw [hfields]
    generalize variantPattern g.type v = pattern, variantPattern_eq g.type v = hpattern at hbound
    cases hpattern with
    | keywords hnamed =>
      obtain ⟨-, hboth⟩ := isInstance_of_bindPattern htype hbound
      have hkeywords : ∃ b, bindKeywords s (contextValue g.type i c vals)
          ((attributes v.fields.entries).map fun n => .mk n (.capture (some n))) = some (some b) := by
        obtain ⟨b, hb, heq⟩ := Option.bind_eq_some_iff.mp hboth
        obtain ⟨e, rfl, -⟩ := Option.map_eq_some_iff.mp (Option.some.inj heq)
        exact ⟨e, hb⟩
      obtain ⟨b, hb⟩ := hkeywords
      intro n hn
      rw [← hheap]
      exact exists_attr_of_bindKeywords hb n _ (List.mem_map_of_mem hn)
    | positions hunnamed =>
      intro n hn
      have hpublic : isPrivate n = false := by
        rw [hunnamed] at hn
        exact isPrivate_of_unnamed n hn
      obtain ⟨key, hkey, rfl⟩ := mem_attributes.mp hn
      rw [← hfields] at hkey
      obtain ⟨w, -, hw⟩ := Fields.exists_valueOf (h.apart.fields c (List.mem_of_getElem? hc)) hlen hkey
      refine ⟨w, ?_⟩
      rw [← Key.within_eq_plain hpublic (c := contextName g.type c), h.attr?_valueOf hc hlen hkey]
      exact hw
    | bare hunit =>
      rw [hunit]
      exact List.forall_mem_nil _
  obtain ⟨cells, hnames, hattrs⟩ := exists_cells hreads
  have hcells : Cells m.heap (contextValue g.type i c vals) (attributes c.allFields.entries) cells := ⟨hnames, hattrs⟩
  have hcaptured := h.bindPattern_cells hs hc hv hheap htype hcells
  exact ⟨cells, hcells, Option.some.inj (Option.some.inj (hbound.symm.trans hcaptured))⟩

end

end Execution
end TypedErrors
