import TypedErrors.Code.Names
import TypedErrors.Proofs.Execution.Display

/-! # The texts of contexts

When the text of a context is what its description says: for a struct always, and for a case of an enum exactly
when its class and its fields are found under the names that are written for them (`describe_iff`). -/

namespace TypedErrors

/-- The attributes of the cases of a declaration: its own, or those of each variant. -/
def Declaration.caseAttrs (d : Declaration) : List (List RawAttribute) :=
  match d.shape with
  | .struct _ | .union _ => [d.attrs]
  | .enum variants => variants.map (·.attrs)

namespace Execution

open Code Generated Generation

variable {g : GeneratedType} {t : ErrorType} {m : Frame} {i : Nat} {c : KindCase} {vals : List Value}
  {desc : Description} {cells : List (String × Value)} {n : String}

/-! ### Descriptions of cases -/

/-- How the description of a case is bound. -/
inductive BoundCase (t : ErrorType) (i : Nat) (c : KindCase) (desc : Description) : Prop
  | struct {b : BoundDescription} {sources : List SymbolPath} (hshape : t.shape = .struct c.allFields b sources)
      (hi : i = 0) (hb : desc.bind .attribute c.allFields = .ok b)
  | enum {variants : List ErrorVariant} {v : ErrorVariant} (hshape : t.shape = .enum variants)
      (hv : variants[i]? = some v) (hc : c = .ofFields v.ident v.fields)
      (hb : desc.bind .capture c.allFields = .ok v.description)

theorem exists_boundCase {s : Settings} {d : Declaration} (ht : ErrorType.build s d = .ok t)
    (hc : t.kindCases[i]? = some c) : ∃ attrs desc, d.caseAttrs[i]? = some attrs ∧
      ErrorType.declaredDescription s.attributeNamespace attrs = some desc ∧ BoundCase t i c desc := by
  cases ErrorType.build_shaped ht with
  | @struct fields built b sources hd _ hdesc hshape =>
    obtain ⟨desc, hdeclared, hb⟩ := hdesc
    rw [ErrorType.kindCases_struct hshape, List.getElem?_singleton] at hc
    split at hc
    · next hi =>
      obtain rfl := Option.some.inj hc
      refine ⟨d.attrs, desc, ?_, hdeclared, .struct hshape hi hb⟩
      rw [Declaration.caseAttrs, hd, hi]
      rfl
    · cases hc
  | @enum variants built hd hv _ hshape =>
    rw [ErrorType.kindCases_enum hshape, List.getElem?_map] at hc
    obtain ⟨b, hb, rfl⟩ := Option.map_eq_some_iff.mp hc
    obtain ⟨hi, rfl⟩ := List.getElem?_eq_some_iff.mp hb
    have hlt : i < variants.length := hv.length_eq ▸ hi
    obtain ⟨-, -, desc, hdeclared, hbind⟩ := ErrorType.buildVariant_eq_ok (hv.get hlt hi)
    refine ⟨(variants[i]).attrs, desc, ?_, hdeclared, .enum hshape hb rfl hbind⟩
    rw [Declaration.caseAttrs, hd, List.getElem?_map, List.getElem?_eq_getElem hlt]
    rfl

/-- The fields that a bound description refers to are there. -/
theorem mem_of_mem_keys {access : FieldAccess} {fields : Fields ErrorField} {b : BoundDescription}
    (hb : desc.bind access fields = .ok b) : ∀ key ∈ desc.keys, key ∈ fields.entries.map (·.1) := by
  intro key hkey
  obtain ⟨ref, href, hmeans⟩ := List.mem_filterMap.mp hkey
  obtain ⟨x, -, key', hkey', -⟩ := exists_left_of_forall₂ (R := flip (Accesses access fields))
    (accesses_of_bind hb).2.flip ref href
  obtain ⟨hmeans', hmem⟩ := means_of_key? hkey'
  obtain rfl := Option.some.inj (hmeans.symm.trans hmeans')
  exact hmem

/-! ### Names -/

/-- The function that gives the text comes to the case of a value of an enum, and reads there what its
description refers to. -/
structure Renders (t : ErrorType) (i : Nat) (c : KindCase) (desc : Description) : Prop where
  ident : t.ident ∉ textCaptures t
  reaches : ∀ n ∈ namesUpTo t i, Reaches t.ident "self" t (contextKeys t c) n
  ne_error_type : c.ident ≠ "error_type"
  /-- A private name is not one of the value, but may be that of a case. -/
  matched : ∀ n ∈ attributes c.allFields.entries,
    Key.within (contextName t c) n = .plain n ∨ n ∈ t.kindCases.map (·.ident)
  reads : ∀ key ∈ desc.keys,
    key.attribute ≠ "_" ∧ Key.within (contextName t c) key.attribute = .plain key.attribute

instance (t : ErrorType) (i : Nat) (c : KindCase) (desc : Description) : Decidable (Renders t i c desc) :=
  decidable_of_iff (t.ident ∉ textCaptures t ∧
    (∀ n ∈ namesUpTo t i, Reaches t.ident "self" t (contextKeys t c) n) ∧ c.ident ≠ "error_type" ∧
    (∀ n ∈ attributes c.allFields.entries,
      Key.within (contextName t c) n = .plain n ∨ n ∈ t.kindCases.map (·.ident)) ∧
    ∀ key ∈ desc.keys, key.attribute ≠ "_" ∧
      Key.within (contextName t c) key.attribute = .plain key.attribute)
    ⟨fun h => ⟨h.1, h.2.1, h.2.2.1, h.2.2.2.1, h.2.2.2.2⟩,
      fun h => ⟨h.ident, h.reaches, h.ne_error_type, h.matched, h.reads⟩⟩

/-- A name without a class leads to a field of the value or to an attribute of its class. -/
theorem Stands.within_of_attr? (h : Stands g m) (hc : g.type.kindCases[i]? = some c)
    {w : Value} (hw : (contextValue g.type i c vals).attr? m.heap (.plain n) = some w) :
    Key.within (contextName g.type c) n = .plain n ∨ (contextAttrs g.type).lookup (.plain n) = some w := by
  rw [h.attr?_contextValue hc] at hw
  cases hfield : ((contextKeys g.type c).zip vals).lookup (.plain n) with
  | none =>
    rw [hfield] at hw
    exact .inr hw
  | some v =>
    have hmem := (List.of_mem_zip (mem_of_lookup hfield)).1
    obtain ⟨a, -, ha⟩ := List.mem_map.mp hmem
    obtain rfl : a = n := congrArg Key.name ha
    exact .inl ha

theorem Stands.exists_attr_iff (h : Stands g m) (hs : g.type.isStruct = false)
    (hc : g.type.kindCases[i]? = some c) (hlen : vals.length = c.allFields.size)
    (hn : n ∈ attributes c.allFields.entries) :
    (∃ w, (contextValue g.type i c vals).attr? m.heap (.plain n) = some w) ↔
      Key.within (contextName g.type c) n = .plain n ∨ n ∈ g.type.kindCases.map (·.ident) := by
  constructor
  · rintro ⟨w, hw⟩
    rcases h.within_of_attr? hc hw with hwithin | hattr
    · exact .inl hwithin
    · generalize hkey : Key.plain n = key at hattr
      cases contextAttr_of_lookup hattr with
      | wrapper =>
        obtain rfl := Key.plain_inj.mp hkey
        exact .inl (Key.within_eq_plain (by decide))
      | attached ha =>
        obtain rfl := Key.plain_inj.mp hkey
        rw [← contextCases_names hs]
        exact .inr (List.mem_map_of_mem (List.mem_of_getElem? ha))
      | function hp =>
        obtain rfl := Key.plain_inj.mp hkey
        exact .inl (Key.within_eq_plain hp)
  · rintro (hwithin | hcase)
    · obtain ⟨key, hkey, rfl⟩ := mem_attributes.mp hn
      obtain ⟨w, -, hw⟩ := Fields.exists_valueOf (h.apart.fields c (List.mem_of_getElem? hc)) hlen hkey
      rw [← hwithin, h.attr?_valueOf hc hlen hkey]
      exact ⟨w, hw⟩
    · obtain ⟨id, hid⟩ := h.exists_class_of_name hs hcase
      rw [h.attr?_contextValue hc, hid]
      cases ((contextKeys g.type c).zip vals).lookup (.plain n) <;> exact ⟨_, rfl⟩

/-- A field whose name is not that of a class is read from what the pattern captured. -/
theorem Stands.eval_captured (h : Stands g m) (hc : g.type.kindCases[i]? = some c)
    (hcells : Cells m.heap (contextValue g.type i c vals) (attributes c.allFields.entries) cells)
    (hn : n ∈ attributes c.allFields.entries) (hne : n ≠ "_") :
    eval (textScope m g.type i c vals (textCaptures g.type) (captured g.type.ident cells)) (.name n) =
      (contextValue g.type i c vals).attr? m.heap (.plain n) := by
  obtain ⟨hnames, hattrs⟩ := hcells
  have hcapture : n ∈ textCaptures g.type :=
    List.mem_flatMap.mpr ⟨c, List.mem_of_getElem? hc, List.mem_filter.mpr ⟨hn, by simpa using hne⟩⟩
  rw [← hnames] at hn
  obtain ⟨p, hp, rfl⟩ := List.mem_map.mp hn
  have hnodup : (cells.map (·.1)).Nodup := by
    rw [hnames]
    exact h.attributes_nodup hc
  rw [hattrs p hp, eval]
  exact (look_local (.inr hcapture)).trans (lookup_captured hnodup hp hne)

/-- The wildcard is not captured. -/
theorem wildcard_not_mem_textCaptures (t : ErrorType) : "_" ∉ textCaptures t := by
  intro hmem
  obtain ⟨c, -, hmem⟩ := List.mem_flatMap.mp hmem
  simpa using (List.mem_filter.mp hmem).2

/-! ### Texts -/

/-- The text of a struct is what its description says. -/
theorem Stands.describe_of_struct (h : Stands g m) {b : BoundDescription} {sources : List SymbolPath}
    (hshape : g.type.shape = .struct c.allFields b sources) (hc : g.type.kindCases[i]? = some c)
    (hlen : vals.length = c.allFields.size) (hb : desc.bind .attribute c.allFields = .ok b) :
    ∃ x, described desc c.allFields vals = some x ∧ describe m g.type i vals = some x := by
  have hstruct : g.type.isStruct = true := by rw [ErrorType.isStruct, hshape]
  have hfields := h.apart.fields c (List.mem_of_getElem? hc)
  obtain ⟨x, hx, hiff⟩ := eval_description_iff (s := textScope m g.type i c vals [] []) hfields hlen hb
  refine ⟨x, hx, (h.describe_struct hshape hc hlen).mpr (hiff.mpr fun key hkey => ?_)⟩
  have hself : eval (textScope m g.type i c vals [] []) (.name "self") = some (contextValue g.type i c vals) := by
    rw [eval]
    exact (look_local (.inl rfl)).trans List.lookup_cons_self
  have hvalue := h.attr?_valueOf hc hlen (mem_of_mem_keys hb key hkey)
  rw [contextName, if_pos hstruct] at hvalue
  rw [← hvalue, FieldAccess.expr, eval, hself]
  rfl

variable {variants : List ErrorVariant} {v : ErrorVariant}

theorem variants_idents (hshape : t.shape = .enum variants) :
    variants.map (·.ident) = t.kindCases.map (·.ident) := by
  rw [ErrorType.kindCases_enum hshape, List.map_map]
  rfl

theorem isStruct_of_enum (hshape : t.shape = .enum variants) : t.isStruct = false := by
  rw [ErrorType.isStruct, hshape]

/-- The class that the pattern of a case names. -/
theorem Stands.eval_variantType (h : Stands g m) (hs : g.type.isStruct = false)
    (hc : g.type.kindCases[i]? = some c) (hlen : vals.length = c.allFields.size)
    (hident : g.type.ident ∉ textCaptures g.type) (herror : c.ident ≠ "error_type")
    (hr : Reaches g.type.ident "self" g.type (contextKeys g.type c) c.ident) :
    eval (textScope m g.type i c vals (textCaptures g.type) []) (caseType g.type c.ident) = some (.cls (i + 1)) := by
  rw [← h.lookup_case hs hc herror]
  exact h.eval_of_reaches hc (h.loaded.undotted_cases c (List.mem_of_getElem? hc)) hlen hident hr

theorem Stands.describe_of_renders (h : Stands g m) (hshape : g.type.shape = .enum variants)
    (hv : variants[i]? = some v) (hcase : c = .ofFields v.ident v.fields) (hc : g.type.kindCases[i]? = some c)
    (hlen : vals.length = c.allFields.size) (hb : desc.bind .capture c.allFields = .ok v.description)
    (hrenders : Renders g.type i c desc) :
    ∃ x, described desc c.allFields vals = some x ∧ describe m g.type i vals = some x := by
  have hs := isStruct_of_enum hshape
  have hmem := List.mem_of_getElem? hc
  have htype := h.eval_variantType hs hc hlen hrenders.ident hrenders.ne_error_type
    (hrenders.reaches c.ident (mem_namesUpTo hc))
  have hreads : ∀ n ∈ attributes c.allFields.entries, ∃ w,
      (contextValue g.type i c vals).attr? m.heap (.plain n) = some w := fun n hn =>
    (h.exists_attr_iff hs hc hlen hn).mpr (hrenders.matched n hn)
  obtain ⟨cells, hcells⟩ := exists_cells hreads
  have hbound := h.bindPattern_cells (v := v) (s := textScope m g.type i c vals (textCaptures g.type) []) hs hc hcase
    rfl htype hcells
  obtain ⟨x, hx, hiff⟩ := eval_description_iff (h.apart.fields c hmem) hlen hb
    (s := textScope m g.type i c vals (textCaptures g.type) (captured g.type.ident cells))
  refine ⟨x, hx, (h.describe_enum hshape hc hlen).mpr ?_⟩
  refine h.firstMatch_of_reaches hs hc (variants_idents hshape) hv (variantPattern_names g.type) hrenders.ident hlen
    hrenders.reaches hbound (hiff.mpr fun key hkey => ?_)
  obtain ⟨hne, hwithin⟩ := hrenders.reads key hkey
  have hfield := mem_of_mem_keys hb key hkey
  rw [← h.attr?_valueOf hc hlen hfield, hwithin]
  exact h.eval_captured hc hcells (mem_attributes.mpr ⟨key, hfield, rfl⟩) hne

/-! ### When the text is given -/

/-- The fields do not have the name of the type. -/
def NotFields (t : ErrorType) : Prop := ∀ c ∈ t.kindCases, t.ident ∉ c.allFields.names

instance (t : ErrorType) : Decidable (NotFields t) := inferInstanceAs (Decidable (∀ _ ∈ _, _))

/-- Only the number of an unnamed field may be the name of the type, and that is not the parameter. -/
theorem NotFields.ident_ne (h : NotFields t) (hmem : t.ident ∈ textCaptures t) : t.ident ≠ "self" := by
  obtain ⟨c, hc, hn⟩ := List.mem_flatMap.mp hmem
  rcases attribute_cases (List.mem_filter.mp hn).1 with hname | ⟨j, hj⟩
  · exact absurd hname (h c hc)
  · rw [hj]
    exact positionalName_ne (by decide) j

/-- No attribute of a context class is a value from outside. -/
theorem contextAttrs_ne_given {k : Key} {j : Nat} : (contextAttrs g.type).lookup k ≠ some (.given j) := by
  intro hk
  generalize hv : Value.given j = v at hk
  cases contextAttr_of_lookup hk <;> cases hv

/-- A field that is read right from values from outside, other than what the module has for `_`, has a name of
its own. -/
theorem Stands.reads_of_eval (h : Stands g m) (hc : g.type.kindCases[i]? = some c)
    (hcells : Cells m.heap (contextValue g.type i c vals) (attributes c.allFields.entries) cells) {j : Nat}
    (hj : m.bindings.lookup (.within g.type.ident "_") ≠ some (.given j))
    (hn : n ∈ attributes c.allFields.entries)
    (he : eval (textScope m g.type i c vals (textCaptures g.type) (captured g.type.ident cells)) (.name n) =
      some (.given j)) : n ≠ "_" ∧ Key.within (contextName g.type c) n = .plain n := by
  have hne : n ≠ "_" := by
    rintro rfl
    rw [eval] at he
    exact hj ((look_global (by decide) (wildcard_not_mem_textCaptures _)).symm.trans he)
  refine ⟨hne, ?_⟩
  rw [h.eval_captured hc hcells hn hne] at he
  exact (h.within_of_attr? hc he).resolve_right contextAttrs_ne_given

theorem Stands.renders_of_describe (h : Stands g m) (hshape : g.type.shape = .enum variants)
    (hv : variants[i]? = some v) (hcase : c = .ofFields v.ident v.fields) (hc : g.type.kindCases[i]? = some c)
    (hb : desc.bind .capture c.allFields = .ok v.description) (hfields : NotFields g.type)
    (hall : ∀ vals, vals.length = c.allFields.size →
      ∃ x, described desc c.allFields vals = some x ∧ describe m g.type i vals = some x) :
    Renders g.type i c desc := by
  have hs := isStruct_of_enum hshape
  have hapart := h.apart.fields c (List.mem_of_getElem? hc)
  -- values that are not that of the name `_` in the module
  obtain ⟨j, hj⟩ := exists_ne_given (m.bindings.lookup (.within g.type.ident "_"))
  obtain ⟨vals, hvals⟩ : ∃ vals, vals = List.replicate c.allFields.size (Value.given j) := ⟨_, rfl⟩
  have hlen : vals.length = c.allFields.size := by rw [hvals, List.length_replicate]
  have hgiven : ∀ v ∈ vals, v = .given j := by
    rw [hvals]
    exact fun v hv => List.eq_of_mem_replicate hv
  have hclasses : NoClasses vals := by
    intro w hw id he
    rw [hgiven w hw] at he
    cases he
  obtain ⟨x, hx, he⟩ := hall vals hlen
  have hfirst := (h.describe_enum hshape hc hlen).mp he
  have hident := h.ident_not_mem_of_firstMatch (variants_idents hshape) (variantPattern_names g.type)
    hfields.ident_ne hfirst
  obtain ⟨hr, herror, y, bound, hy, hbound, hvalue⟩ := h.reaches_of_firstMatch hs hc (variants_idents hshape)
    (variantPattern_names g.type) hident (by decide) hlen hclasses hfirst
  obtain rfl : v = y := Option.some.inj (hv.symm.trans hy)
  have htype := h.eval_variantType hs hc hlen hident herror (hr c.ident (mem_namesUpTo hc))
  obtain ⟨cells, hcells, rfl⟩ := h.cells_of_bindPattern hs hc hlen hcase rfl htype hbound
  refine ⟨hident, hr, herror, fun n hn => ?_, fun key hkey => ?_⟩
  · rw [← h.exists_attr_iff (c := c) hs hc hlen hn]
    rw [← hcells.1] at hn
    obtain ⟨p, hp, rfl⟩ := List.mem_map.mp hn
    exact ⟨p.2, hcells.2 p hp⟩
  · obtain ⟨x', hx', hiff⟩ := eval_description_iff hapart hlen hb
      (s := textScope m g.type i c vals (textCaptures g.type) (captured g.type.ident cells))
    obtain rfl := Option.some.inj (hx.symm.trans hx')
    have hkeyfield := mem_of_mem_keys hb key hkey
    obtain ⟨w, hw, hvalueOf⟩ := Fields.exists_valueOf hapart hlen hkeyfield
    have hread := (hiff.mp hvalue key hkey).trans hvalueOf
    rw [hgiven w hw] at hread
    exact h.reads_of_eval hc hcells hj (mem_attributes.mpr ⟨key, hkeyfield, rfl⟩) hread

/-! ### Names in descriptions -/

/-- The description of a case, as it is bound. -/
def boundDescription? (t : ErrorType) (i : Nat) : Option BoundDescription :=
  match t.shape with
  | .struct _ b _ => some b
  | .enum variants => variants[i]?.map (·.description)

/-- The names that are bound where the text of a case is built: the parameter, and what its pattern captures. -/
def boundNames (t : ErrorType) (i : Nat) : List String :=
  match t.shape with
  | .struct .. => ["self"]
  | .enum variants => "self" :: (variants[i]?.map fun v => patternNames (variantPattern t v)).getD []

theorem mem_namesAll {n : String} {xs : List Expr} : n ∈ Expr.namesAll xs ↔ ∃ x ∈ xs, n ∈ x.names := by
  induction xs with
  | nil => simp [Expr.namesAll]
  | cons x xs ih => simp only [Expr.namesAll, List.mem_append, ih, List.mem_cons, exists_eq_or_imp]

theorem names_descriptionExpr (b : BoundDescription) : (descriptionExpr b).names = Expr.namesAll b.args := by
  unfold descriptionExpr
  split
  · next hargs =>
    rw [List.isEmpty_iff.mp hargs]
    rfl
  · simp [Expr.apply, Expr.names, Keyword.namesAll]

/-- A name in a description is that of the parameter, or of a field of the case. -/
theorem exists_key_of_mem_names {access : FieldAccess} {fields : Fields ErrorField} {b : BoundDescription}
    (hb : desc.bind access fields = .ok b) (hn : n ∈ (descriptionExpr b).names) :
    ∃ key ∈ fields.entries.map (·.1), n ∈ (access.expr key.attribute).names := by
  rw [names_descriptionExpr, mem_namesAll] at hn
  obtain ⟨x, hx, hn⟩ := hn
  obtain ⟨ref, -, key, hkey, rfl⟩ := exists_left_of_forall₂ (accesses_of_bind hb).2 x hx
  exact ⟨key, (means_of_key? hkey).2, hn⟩

/-- Every name in the description of a case is bound there, apart from `_`. -/
theorem BoundCase.mem_boundNames (h : BoundCase t i c desc) {b : BoundDescription}
    (hbound : boundDescription? t i = some b) (hn : n ∈ (descriptionExpr b).names) :
    n ∈ boundNames t i ∨ n = "_" := by
  cases h with
  | struct hshape _ hb =>
    rw [boundDescription?, hshape] at hbound
    obtain rfl := Option.some.inj hbound
    obtain ⟨key, -, hn⟩ := exists_key_of_mem_names hb hn
    rw [boundNames, hshape]
    exact .inl hn
  | enum hshape hv hc hb =>
    rw [boundDescription?, hshape] at hbound
    dsimp only at hbound
    rw [hv] at hbound
    obtain rfl := Option.some.inj hbound
    obtain ⟨key, hkey, hn⟩ := exists_key_of_mem_names hb hn
    obtain rfl : n = key.attribute := List.mem_singleton.mp hn
    by_cases hne : key.attribute = "_"
    · exact .inr hne
    · rw [boundNames, hshape]
      dsimp only
      rw [hv, Option.map_some, Option.getD_some, patternNames_variantPattern]
      rw [hc] at hkey
      refine .inl (List.mem_cons_of_mem _ (List.mem_filter.mpr ⟨mem_attributes.mpr ⟨key, hkey, rfl⟩, ?_⟩))
      simpa using hne

/-! ### Declarations -/

/-- The text of a case of a declaration that is generated and whose module runs, no field of which has the name of
the type. Whatever the values of the fields are, it is what the declared description says of them, exactly when
the names of the case and its fields lead where they are written: for a struct always. And the description
mentions no names but those that are bound there, and `_`. -/
theorem describe_iff {s : Settings} {d : Declaration} {owners : Owners} (hd : d.Numbered) (hg : generate s d = .ok g)
    (hclaim : claim preludeOwners g = .ok owners) (hm : moduleOf g = some m) (hfields : NotFields g.type)
    (hc : g.type.kindCases[i]? = some c) : ∃ attrs desc, d.caseAttrs[i]? = some attrs ∧
      ErrorType.declaredDescription s.attributeNamespace attrs = some desc ∧
      ((∀ vals, vals.length = c.allFields.size →
          ∃ x, described desc c.allFields vals = some x ∧ describe m g.type i vals = some x) ↔
        g.type.isStruct = true ∨ Renders g.type i c desc) ∧
      ∀ b, boundDescription? g.type i = some b →
        ∀ n ∈ (descriptionExpr b).names, n ∈ boundNames g.type i ∨ n = "_" := by
  have h := stands hd hg hclaim hm
  obtain ⟨t, ht, hg⟩ := bind_eq_ok.mp hg
  obtain rfl := ErrorType.ofErrorType_type hg
  obtain ⟨attrs, desc, hattrs, hdesc, hcase⟩ := exists_boundCase ht hc
  refine ⟨attrs, desc, hattrs, hdesc, ?_, fun b hb n hn => hcase.mem_boundNames hb hn⟩
  cases hcase with
  | struct hshape _ hb =>
    have hs : g.type.isStruct = true := by rw [ErrorType.isStruct, hshape]
    exact ⟨fun _ => .inl hs, fun _ vals hlen => h.describe_of_struct hshape hc hlen hb⟩
  | enum hshape hv hof hb =>
    have hs := isStruct_of_enum hshape
    constructor
    · exact fun hall => .inr (h.renders_of_describe hshape hv hof hc hb hfields hall)
    · rintro (hs' | hrenders) vals hlen
      · rw [hs] at hs'
        cases hs'
      · exact h.describe_of_renders hshape hv hof hc hlen hb hrenders

/-- An enum of two cases with a field of their own. The first one calls it `_`, and the second one formats its
field twice. -/
def underscoreEnum : Declaration :=
  let description (tokens : List AttrToken) : RawAttribute :=
    { tokens := [⟨.name, "faultline", none⟩, ⟨.leftParen, "(", none⟩, ⟨.name, "description", none⟩,
        ⟨.leftParen, "(", none⟩] ++ tokens ++ [⟨.rightParen, ")", none⟩, ⟨.rightParen, ")", none⟩] }
  let field (n : String) : String × Field := (n, { name := some n, type := .union (.plain ⟨"int", []⟩) [] })
  { ident := "E"
    visibility := .pub
    shape := .enum
      [{ ident := "A", fields := .named [field "_"]
         attrs := [description [⟨.string, "\"\x7b\x7d\"", none⟩, ⟨.comma, ",", none⟩, ⟨.name, "_", none⟩]] },
        { ident := "B", fields := .named [field "x"]
          attrs := [description [⟨.string, "\"\x7b\x7d \x7b\x7d\"", none⟩, ⟨.comma, ",", none⟩, ⟨.name, "x", none⟩,
            ⟨.comma, ",", none⟩, ⟨.name, "x", none⟩]] }] }

def underscoreType : GeneratedType :=
  let variant (ident n : String) (description : BoundDescription) : ErrorVariant :=
    { ident, fields := .named [(n, { type := .union (.plain ⟨"int", []⟩) [] })], description }
  { type :=
      { ident := "E", visibility := .pub, aliases := {}, namespaceName := "faultline_e", namespaceVisibility := .pub
        shape := .enum [variant "A" "_" ⟨Text.ofString "\x7b\x7d", [.name "_"]⟩,
          variant "B" "x" ⟨Text.ofString "\x7b\x7d \x7b\x7d", [.name "x", .name "x"]⟩] }
    aliases := [("Error", "Error"), ("Result", "Result"), ("ErrorKind", "ErrorKind")] }

theorem generate_underscoreEnum : generate {} underscoreEnum = .ok underscoreType := by
  rfl

theorem underscoreEnum_numbered : underscoreEnum.Numbered := by
  show ∀ v ∈ _, _
  simp [Fields.Numbered]

theorem exists_moduleOf_underscoreType : ∃ m, moduleOf underscoreType = some m := by
  have h : (moduleOf underscoreType).isSome = true := by decide +kernel
  exact Option.isSome_iff_exists.mp h

theorem claim_underscoreType :
    claim preludeOwners underscoreType = .ok (preludeOwners ++ ownedBy underscoreType) := by
  rfl

/-- The values of the second case have the text of their description. -/
theorem underscoreEnum_describe : ∃ m, moduleOf underscoreType = some m ∧ ∀ v, describe m underscoreType.type 1 [v] =
    some (.formatted (Text.ofString "\x7b\x7d \x7b\x7d") [v, v]) := by
  obtain ⟨m, hm⟩ := exists_moduleOf_underscoreType
  refine ⟨m, hm, fun v => ?_⟩
  obtain ⟨attrs, desc, hattrs, hdesc, htexts, -⟩ := describe_iff (i := 1) underscoreEnum_numbered
    generate_underscoreEnum claim_underscoreType hm (by decide) rfl
  obtain rfl := Option.some.inj hattrs
  obtain rfl := Option.some.inj hdesc
  obtain ⟨x, hx, hdescribe⟩ := htexts.mpr (.inr (by decide)) [v] rfl
  rw [hdescribe, ← hx]
  rfl

/-- The value of the first case has none: its pattern binds nothing, and then `_` is not defined. -/
theorem not_describe_underscoreEnum : generate {} underscoreEnum = .ok underscoreType ∧
    NotFields underscoreType.type ∧ ∃ m, moduleOf underscoreType = some m ∧
      describe m underscoreType.type 0 [.given 0] = none := by
  refine ⟨generate_underscoreEnum, by decide, ?_⟩
  obtain ⟨m, hm⟩ := exists_moduleOf_underscoreType
  have h : ((moduleOf underscoreType).bind fun m => describe m underscoreType.type 0 [.given 0]).isNone = true := by
    decide +kernel
  rw [hm] at h
  exact ⟨m, hm, Option.isNone_iff_eq_none.mp h⟩

end Execution
end TypedErrors
