import TypedErrors.Proofs.Execution.Classify

/-! # The kinds of values

When classification returns the kind of a value: for every choice of values for the fields, exactly when the names
in it are found where they are looked up (`classify_iff`). -/

namespace TypedErrors
namespace Execution

open Code Generated Generation

variable {g : GeneratedType} {t : ErrorType} {m : Frame} {i : Nat} {c : KindCase} {vals : List Value}
  {names : List String} {env : Env}

/-! ### Names -/

/-- The included fields do not have names that classification uses, nor private ones. -/
def OwnNames (t : ErrorType) : Prop :=
  ∀ c ∈ t.kindCases, ∀ n ∈ c.included.names, n ∉ ["copy", t.ident, t.namespaceName] ∧ isPrivate n = false

instance (t : ErrorType) : Decidable (OwnNames t) := inferInstanceAs (Decidable (∀ _ ∈ _, _))

/-- Classification comes to the case of a value of an enum, and finds there what it names. -/
structure MatchesKind (t : ErrorType) (i : Nat) (c : KindCase) : Prop where
  ident : t.ident ∉ captures t
  namespaceName : t.namespaceName ∉ captures t
  reaches : ∀ n ∈ namesUpTo t i, Reaches "ErrorKind" "context" t (contextKeys t c) n
  ne_error_type : c.ident ≠ "error_type"
  ne_wildcard : "_" ∉ attributes c.included.entries

/-- Classification gives the values of a case their kind. -/
structure Classifies (t : ErrorType) (i : Nat) (c : KindCase) : Prop where
  kind : FindsKind t c
  pattern : t.isStruct = false → MatchesKind t i c

instance (t : ErrorType) (i : Nat) (c : KindCase) : Decidable (Classifies t i c) :=
  decidable_of_iff (FindsKind t c ∧ (t.isStruct = false → t.ident ∉ captures t ∧ t.namespaceName ∉ captures t ∧
    (∀ n ∈ namesUpTo t i, Reaches "ErrorKind" "context" t (contextKeys t c) n) ∧ c.ident ≠ "error_type" ∧
    "_" ∉ attributes c.included.entries)) (by
      constructor
      · rintro ⟨hk, hp⟩
        exact ⟨hk, fun hs => ⟨(hp hs).1, (hp hs).2.1, (hp hs).2.2.1, (hp hs).2.2.2.1, (hp hs).2.2.2.2⟩⟩
      · rintro ⟨hk, hp⟩
        exact ⟨hk, fun hs => ⟨(hp hs).ident, (hp hs).namespaceName, (hp hs).reaches, (hp hs).ne_error_type,
          (hp hs).ne_wildcard⟩⟩)

theorem OwnNames.public (h : OwnNames t) (hc : c ∈ t.kindCases) :
    ∀ n ∈ attributes c.included.entries, isPrivate n = false := by
  intro n hn
  rcases attribute_cases hn with hmem | ⟨j, rfl⟩
  · exact (h c hc n hmem).2
  · exact isPrivate_positionalName j

/-- The names of the function's own are captured nowhere, apart from those of unnamed fields. -/
theorem OwnNames.of_mem_captures (h : OwnNames t) {n : String} (hn : n ∈ captures t) :
    n ∉ ["copy", t.ident, t.namespaceName] ∨ ∃ j : Nat, n = positionalName j := by
  obtain ⟨c, hc, hn⟩ := List.mem_flatMap.mp hn
  rcases attribute_cases (List.mem_filter.mp hn).1 with hmem | hj
  · exact .inl (h c hc n hmem).1
  · exact .inr hj

theorem OwnNames.copy_not_mem (h : OwnNames t) : "copy" ∉ captures t := by
  intro hn
  rcases h.of_mem_captures hn with hn | ⟨j, hj⟩
  · simp at hn
  · exact positionalName_ne (by decide) j hj.symm

theorem Stands.eval_copy (h : Stands g m) (hnames : "copy" ∉ names) :
    eval ((caseCall m "ErrorKind" "context" names).scope env) (.dotted "copy.copy") = some .copyFunction := by
  rw [dotted_pair (a := "copy") (b := "copy") (by decide) (by decide) (by decide), eval, eval]
  show (((caseCall m "ErrorKind" "context" names).scope env).look (.within "ErrorKind" "copy")).bind _ = _
  rw [look_global (by decide) hnames, Key.within_eq_plain (by decide), h.lookup_copy]
  rfl

/-- A value of a struct is read field by field. -/
theorem Stands.eval_struct_field (h : Stands g m) (hc : g.type.kindCases[i]? = some c)
    (hlen : vals.length = c.allFields.size) (hown : OwnNames g.type) :
    ∀ p ∈ included c vals, eval (kindScope m g.type i c vals [] [])
      (.attribute (.name "context") p.1.1.attribute) = some p.2 := by
  intro p hp
  have hmem := List.mem_of_getElem? hc
  have hn : p.1.1.attribute ∈ attributes c.included.entries := by
    rw [← included_fst hmem hlen, attributes, List.map_map]
    exact List.mem_map_of_mem hp
  have hfield := h.attr?_field hc hlen (List.mem_filter.mp hp).1
  have hpublic := hown.public hmem _ hn
  rw [Key.within_eq_plain hpublic] at hfield
  rw [eval, eval]
  show ((Call.scope _ _).look (.within "ErrorKind" "context")).bind (·.attr? m.heap (.within "ErrorKind" _)) = _
  rw [look_local (.inl rfl), List.nil_append, caseEnv, List.lookup_cons_self, Key.within_eq_plain hpublic]
  exact hfield

/-! ### The kind of a value -/

/-- The pattern of a case of an enum that is reached matches its values. -/
theorem Stands.bindPattern_reached (h : Stands g m) (hs : g.type.isStruct = false)
    (hc : g.type.kindCases[i]? = some c) (hlen : vals.length = c.allFields.size) (hown : OwnNames g.type)
    (hident : g.type.ident ∉ captures g.type) (herror : c.ident ≠ "error_type")
    (hr : Reaches "ErrorKind" "context" g.type (contextKeys g.type c) c.ident) :
    bindPattern (kindScope m g.type i c vals (captures g.type) []) (contextValue g.type i c vals)
      (kindPattern g.type c) = some (some (captured "ErrorKind" (includedCells c vals))) := by
  have hmem := List.mem_of_getElem? hc
  have htype : eval (kindScope m g.type i c vals (captures g.type) []) (caseType g.type c.ident) =
      some (.cls (i + 1)) := by
    show eval ((caseCall m "ErrorKind" "context" (captures g.type)).scope (caseEnv _ _ _)) _ = _
    rw [h.eval_of_reaches hc (h.loaded.undotted_cases c hmem) hlen hident hr]
    exact h.lookup_case hs hc herror
  exact h.bindPattern_kind hs hc hlen (hown.public hmem) rfl htype

theorem includedCells_names (hc : c ∈ t.kindCases) (hlen : vals.length = c.allFields.size) :
    (includedCells c vals).map (·.1) = attributes c.included.entries := by
  rw [← included_fst hc hlen, includedCells, attributes, List.map_map, List.map_map]
  rfl

theorem Stands.included_nodup (h : Stands g m) (hc : g.type.kindCases[i]? = some c) :
    (attributes c.included.entries).Nodup := by
  have hsub : (attributes c.included.entries).Sublist (attributes c.allFields.entries) := by
    rw [kindCases_included (List.mem_of_getElem? hc)]
    exact List.filter_sublist.map _
  exact hsub.nodup (h.attributes_nodup hc)

/-- An included field of an enum is read from what the pattern captured. -/
theorem Stands.eval_enum_field (h : Stands g m) (hc : g.type.kindCases[i]? = some c)
    (hlen : vals.length = c.allFields.size) (hwildcard : "_" ∉ attributes c.included.entries) :
    ∀ p ∈ included c vals, eval (kindScope m g.type i c vals (captures g.type)
      (captured "ErrorKind" (includedCells c vals))) (.name p.1.1.attribute) = some p.2 := by
  intro p hp
  have hmem := List.mem_of_getElem? hc
  have hcell : (p.1.1.attribute, p.2) ∈ includedCells c vals := List.mem_map.mpr ⟨p, hp, rfl⟩
  have hn : p.1.1.attribute ∈ attributes c.included.entries := by
    rw [← includedCells_names hmem hlen]
    exact List.mem_map_of_mem hcell
  have hne : p.1.1.attribute ≠ "_" := fun he => hwildcard (he ▸ hn)
  have hcapture : p.1.1.attribute ∈ captures g.type :=
    List.mem_flatMap.mpr ⟨c, hmem, List.mem_filter.mpr ⟨hn, by simpa using hne⟩⟩
  rw [eval]
  show (Call.scope _ _).look (.within "ErrorKind" _) = _
  rw [look_local (.inr hcapture)]
  refine lookup_captured ?_ hcell hne
  rw [includedCells_names hmem hlen]
  exact h.included_nodup hc

theorem Stands.classify_of_classifies (h : Stands g m) (hc : g.type.kindCases[i]? = some c)
    (hlen : vals.length = c.allFields.size) (hown : OwnNames g.type) (hclassifies : Classifies g.type i c) :
    classify m g.type i vals = some (.object (kindClass g.type i) (kindFields c vals)) := by
  have hpublic := hown.public (List.mem_of_getElem? hc)
  cases hs : g.type.isStruct with
  | true =>
    rw [h.classify_struct hs hc hlen]
    exact h.eval_kindValue hc hlen hpublic rfl (h.kindType_of_findsKind hc List.not_mem_nil hclassifies.kind)
      (h.eval_copy List.not_mem_nil) (h.eval_struct_field hc hlen hown)
  | false =>
    have hmatch := hclassifies.pattern hs
    have hr := hmatch.reaches c.ident (mem_namesUpTo hc)
    rw [h.classify_enum hs hc hlen]
    refine h.firstMatch_of_reaches hs hc rfl hc (kindPattern_names g.type) hmatch.ident hlen hmatch.reaches
      (h.bindPattern_reached hs hc hlen hown hmatch.ident hmatch.ne_error_type hr) ?_
    exact h.eval_kindValue hc hlen hpublic rfl (h.kindType_of_findsKind hc hmatch.namespaceName hclassifies.kind)
      (h.eval_copy hown.copy_not_mem) (h.eval_enum_field hc hlen hmatch.ne_wildcard)

/-! ### When a kind is returned -/

/-- The class of an object that a call gives is the value of its function. -/
theorem eval_kindType_of_eval {s : Scope} {access : String → Expr} {id : ClassId} {attrs : Env}
    (he : eval s (kindValue t c access) = some (.object id attrs)) : eval s (kindType t c) = some (.cls id) := by
  rcases kindValue_eq t c access with hvalue | hvalue
  · rw [hvalue, eval_call_eq_some] at he
    obtain ⟨fv, vs, kws, hf, -, -, happly⟩ := he
    rw [hf, apply_eq_object happly]
  · rw [hvalue, eval_call_eq_some] at he
    obtain ⟨fv, vs, kws, hf, -, -, happly⟩ := he
    rw [hf, apply_eq_object happly]

/-- A field that is duplicated right is read right. -/
theorem eval_of_duplicated {s : Scope} {f : ErrorField} {x : Expr} {v : Value}
    (he : eval s (duplicated f x) = some (duplicate f v)) : eval s x = some v := by
  unfold duplicated duplicate at he
  cases hm : f.method with
  | copy =>
    rw [hm] at he
    exact he
  | clone =>
    rw [hm] at he
    obtain ⟨fv, vs, kws, -, hvs, hkws, happly⟩ := eval_call_eq_some.mp he
    rw [evalAll] at hvs
    obtain ⟨w, hw, hvs⟩ := Option.bind_eq_some_iff.mp hvs
    obtain rfl : [w] = vs := Option.some.inj hvs
    obtain rfl : [] = kws := Option.some.inj hkws
    rw [hw, apply_eq_copied happly]

/-- When a kind holds a field that is read from the name `_`, this name has the value of the field. -/
theorem Stands.eval_wildcard (h : Stands g m) (hc : g.type.kindCases[i]? = some c)
    (hlen : vals.length = c.allFields.size) {s : Scope} {id : ClassId}
    (he : eval s (kindValue g.type c .name) = some (.object id (kindFields c vals)))
    (hwildcard : "_" ∈ attributes c.included.entries) : ∃ v ∈ vals, eval s (.name "_") = some v := by
  have hmem := List.mem_of_getElem? hc
  have hnodup := h.included_nodup hc
  have hfst := included_fst hmem hlen
  obtain ⟨e, hentry, hname⟩ := List.mem_map.mp hwildcard
  obtain ⟨p, hp, rfl⟩ := List.mem_map.mp (hfst ▸ hentry)
  have hnamed : ∃ items, c.included = .named items := by
    rcases attribute_cases hwildcard with hmem | ⟨j, hj⟩
    · exact Fields.exists_named_of_mem hmem
    · exact absurd hj.symm (positionalName_ne_wildcard j)
  obtain ⟨items, hitems⟩ := hnamed
  rw [kindValue_named hitems, eval_call_eq_some] at he
  obtain ⟨fv, vs, kws, -, hvs, hkws, happly⟩ := he
  obtain rfl : [] = vs := Option.some.inj hvs
  rw [apply_eq_object happly] at happly
  have hfield : (Key.plain p.1.1.attribute, duplicate p.1.2 p.2) ∈ kindFields c vals := List.mem_map.mpr ⟨p, hp, rfl⟩
  obtain ⟨n, x, hk, hkey, hx⟩ := exists_keyword_of_mem hkws (mem_of_lookup (Heap.lookup_of_construct happly _ hfield))
  obtain ⟨e, he, hkeyword⟩ := List.mem_map.mp hk
  obtain ⟨rfl, rfl⟩ := Keyword.mk.inj hkeyword
  have hsame : e = p.1 := by
    have hattr : e.1.attribute = p.1.1.attribute := (Key.plain_inj.mp hkey).symm
    exact List.inj_on_of_nodup_map hnodup he hentry hattr
  subst hsame
  refine ⟨p.2, (List.of_mem_zip (List.mem_filter.mp hp).1).2, ?_⟩
  rw [← hname]
  exact eval_of_duplicated hx

/-- What a pattern captures is a value of the included fields. -/
theorem mem_captured {o : String} {cells : List (String × Value)} {q : Key × Value} (hq : q ∈ captured o cells) :
    ∃ n, (n, q.2) ∈ cells ∧ n ≠ "_" ∧ q.1 = .within o n := by
  obtain ⟨p, hp, rfl⟩ := List.mem_map.mp hq
  obtain ⟨hp, hne⟩ := List.mem_filter.mp hp
  exact ⟨p.1, hp, by simpa using hne, rfl⟩

theorem mem_captures_of_captured (hc : c ∈ t.kindCases) (hlen : vals.length = c.allFields.size) {q : Key × Value}
    (hq : q ∈ captured "ErrorKind" (includedCells c vals)) :
    ∃ n ∈ captures t, q.1 = .within "ErrorKind" n ∧ q.2 ∈ vals := by
  obtain ⟨n, hn, hne, hkey⟩ := mem_captured hq
  obtain ⟨p, hp, hpn⟩ := List.mem_map.mp hn
  obtain ⟨rfl, hval⟩ := Prod.mk.inj hpn
  have hmem : p.1.1.attribute ∈ attributes c.included.entries := by
    rw [← includedCells_names hc hlen]
    exact List.mem_map_of_mem hn
  refine ⟨_, List.mem_flatMap.mpr ⟨c, hc, List.mem_filter.mpr ⟨hmem, by simpa using hne⟩⟩, hkey, ?_⟩
  rw [← hval]
  exact (List.of_mem_zip (List.mem_filter.mp hp).1).2

/-- The parameter keeps its value under captures of other names. -/
theorem lookup_context (hc : c ∈ t.kindCases) (hlen : vals.length = c.allFields.size) {x : Value}
    (hn : "context" ∉ captures t) : (captured "ErrorKind" (includedCells c vals) ++
      caseEnv "ErrorKind" "context" x).lookup (.within "ErrorKind" "context") = some x := by
  rw [List.lookup_append, lookup_eq_none_of_forall, Option.none_or]
  · exact List.lookup_cons_self
  · intro q hq hkey
    obtain ⟨n, hmem, hq', -⟩ := mem_captures_of_captured hc hlen hq
    exact hn (Key.within_inj (hq'.symm.trans hkey) ▸ hmem)

/-- From the namespace on, no class is found when its name is captured. -/
theorem Stands.namespace_not_mem (h : Stands g m) (hc : g.type.kindCases[i]? = some c)
    (hlen : vals.length = c.allFields.size) (hown : OwnNames g.type) (hvals : Given vals) {id : ClassId}
    (he : eval (kindScope m g.type i c vals (captures g.type) (captured "ErrorKind" (includedCells c vals)))
      (kindType g.type c) = some (.cls id)) : g.type.namespaceName ∉ captures g.type := by
  intro hmem
  have hne : g.type.namespaceName ≠ "context" := by
    rcases hown.of_mem_captures hmem with hn | ⟨j, hj⟩
    · simp at hn
    · exact hj ▸ positionalName_ne (by decide) j
  rw [h.eval_kindType hc, look_local (.inr hmem)] at he
  obtain ⟨w, hw, -⟩ := Option.bind_eq_some_iff.mp he
  obtain ⟨v, hv, hattr⟩ := Option.bind_eq_some_iff.mp hw
  rcases List.mem_append.mp (mem_of_lookup hv) with hq | hq
  · obtain ⟨n, -, -, hval⟩ := mem_captures_of_captured (List.mem_of_getElem? hc) hlen hq
    obtain ⟨k, rfl⟩ := hvals v hval
    cases hattr
  · have hkey := congrArg Prod.fst (List.mem_singleton.mp hq)
    exact hne (Key.within_inj hkey)

theorem Stands.classifies_of_classify (h : Stands g m) (hc : g.type.kindCases[i]? = some c) (hown : OwnNames g.type)
    (hall : ∀ vals, vals.length = c.allFields.size →
      classify m g.type i vals = some (.object (kindClass g.type i) (kindFields c vals))) :
    Classifies g.type i c := by
  have hmem := List.mem_of_getElem? hc
  -- values that are not that of the name `_` in the module
  obtain ⟨n, hn⟩ := exists_ne_given (m.bindings.lookup (.within "ErrorKind" "_"))
  obtain ⟨vals, hvals⟩ : ∃ vals, vals = List.replicate c.allFields.size (Value.given n) := ⟨_, rfl⟩
  have hlen : vals.length = c.allFields.size := by rw [hvals, List.length_replicate]
  have hgiven : ∀ v ∈ vals, v = .given n := by
    rw [hvals]
    exact fun v hv => List.eq_of_mem_replicate hv
  have hg : Given vals := fun v hv => ⟨n, hgiven v hv⟩
  have he := hall vals hlen
  cases hs : g.type.isStruct with
  | true =>
    rw [h.classify_struct hs hc hlen] at he
    refine ⟨h.findsKind_of_kindType hc List.not_mem_nil hg ?_ (eval_kindType_of_eval he), ?_⟩
    · exact fun _ => List.lookup_cons_self
    · intro hs'
      rw [hs] at hs'
      cases hs'
  | false =>
    have hfirst := (h.classify_enum hs hc hlen).mp he
    have hident := h.ident_not_mem_of_firstMatch rfl (kindPattern_names g.type) (fun hmem => by
      rcases hown.of_mem_captures hmem with hn | ⟨j, hj⟩
      · simp at hn
      · exact hj ▸ positionalName_ne (by decide) j) hfirst
    obtain ⟨hr, herror, y, bound, hy, hbound, hvalue⟩ := h.reaches_of_firstMatch hs hc rfl
      (kindPattern_names g.type) hident (by decide) hlen hg.noClasses hfirst
    obtain rfl : c = y := Option.some.inj (hc.symm.trans hy)
    have hreached := h.bindPattern_reached hs hc hlen hown hident herror (hr _ (mem_namesUpTo hc))
    obtain rfl := Option.some.inj (Option.some.inj (hreached.symm.trans hbound))
    have htype := eval_kindType_of_eval hvalue
    have hnamespace := h.namespace_not_mem hc hlen hown hg htype
    refine ⟨h.findsKind_of_kindType hc hnamespace hg (lookup_context hmem hlen) htype, fun _ =>
      ⟨hident, hnamespace, hr, herror, fun hwildcard => ?_⟩⟩
    obtain ⟨v, hv, hlook⟩ := h.eval_wildcard hc hlen hvalue hwildcard
    have hcaptures : "_" ∉ captures g.type := by
      intro hmem
      obtain ⟨c', -, hmem⟩ := List.mem_flatMap.mp hmem
      simpa using (List.mem_filter.mp hmem).2
    rw [eval] at hlook
    have hlook' := (look_global (by decide) hcaptures).symm.trans hlook
    rw [hgiven v hv] at hlook'
    exact hn hlook'

/-! ### Calls and classes -/

/-- The fields of the class that is made for a kind. -/
def kindClassFields (t : ErrorType) (c : KindCase) : List String :=
  (kindCase t c).flatMap fun
    | .cls _ _ body _ _ => annotated body
    | _ => []

theorem kindClassFields_eq : kindClassFields t c = attributes c.included.entries := by
  have h : annotated (c.included.entries.map fieldStmt ++ []) = attributes c.included.entries ++ annotated [] :=
    annotated_fields _
  rw [List.append_nil] at h
  show annotated (c.included.entries.map fieldStmt) ++ ([] ++ ([] ++ [])) = _
  rw [h]
  simp [annotated]

/-- The argument for a field reads this field. -/
def Reads (access : String → Expr) (n : String) (x : Expr) : Prop := ∃ f : ErrorField, x = duplicated f (access n)

/-- A call has one argument for each field, in their order: all by name or all by position. -/
inductive Agrees (access : String → Expr) (fields : List String) : Expr → Prop
  | keywords {f : Expr} {ks : List Keyword}
      (h : List.Forall₂ (fun n k => ∃ x, k = Keyword.mk n x ∧ Reads access n x) fields ks) :
      Agrees access fields (.call f [] ks)
  | positions {f : Expr} {xs : List Expr} (h : List.Forall₂ (Reads access) fields xs) :
      Agrees access fields (.call f xs [])

theorem kindValue_agrees (t : ErrorType) (c : KindCase) (access : String → Expr) :
    Agrees access (kindClassFields t c) (kindValue t c access) := by
  rw [kindClassFields_eq]
  rcases kindValue_eq t c access with hvalue | hvalue
  · rw [hvalue]
    refine .keywords ?_
    rw [attributes, List.forall₂_map_left_iff, List.forall₂_map_right_iff]
    exact List.forall₂_same.mpr fun e _ => ⟨_, rfl, e.2, rfl⟩
  · rw [hvalue]
    refine .positions ?_
    rw [attributes, List.forall₂_map_left_iff, List.forall₂_map_right_iff]
    exact List.forall₂_same.mpr fun e _ => ⟨e.2, rfl⟩

/-! ### Declarations -/

/-- The kinds of a declaration that is generated and whose module runs. Each kind has a class of its own under the
name of its case, which agrees with the call that builds it; and the values of a case have their kind, whatever the
values of the fields are, exactly when the names in classification are found. -/
theorem classify_iff {s : Settings} {d : Declaration} {owners : Owners} (hd : d.Numbered) (hg : generate s d = .ok g)
    (hclaim : claim preludeOwners g = .ok owners) (hm : moduleOf g = some m) (hown : OwnNames g.type) :
    (∀ c ∈ g.type.kindCases, ∀ access, Agrees access (kindClassFields g.type c) (kindValue g.type c access)) ∧
    ∀ i c, g.type.kindCases[i]? = some c →
      m.heap.attr? (kindsClass g.type) (.within g.type.namespaceName c.ident) = some (.cls (kindClass g.type i)) ∧
      ((∀ vals, vals.length = c.allFields.size →
          classify m g.type i vals = some (.object (kindClass g.type i) (kindFields c vals))) ↔
        Classifies g.type i c) := by
  have h := stands hd hg hclaim hm
  refine ⟨fun c _ access => kindValue_agrees _ c access, fun i c hc => ⟨?_, fun hall => ?_, fun hc' vals hlen => ?_⟩⟩
  · rw [h.attr?_kinds]
    exact h.lookup_kind hc
  · exact h.classifies_of_classify hc hown hall
  · exact h.classify_of_classifies hc hlen hown hc'

/-- An enum of two cases, the first of which has a field `_`. Its kind includes the fields of both. -/
def wildcardEnum : Declaration :=
  let block (tokens : List AttrToken) : RawAttribute :=
    { tokens := [⟨.name, "faultline", none⟩, ⟨.leftParen, "(", none⟩] ++ tokens ++ [⟨.rightParen, ")", none⟩] }
  let description := block [⟨.name, "description", none⟩, ⟨.equal, "=", none⟩, ⟨.string, "\"a\"", none⟩]
  let field (n : String) : String × Field :=
    (n, { name := some n, type := .union (.plain ⟨"int", []⟩) [], attrs := [block [⟨.name, "include_in_kind", none⟩]] })
  { ident := "E"
    visibility := .pub
    shape := .enum
      [{ ident := "A", fields := .named [field "_"], attrs := [description] },
        { ident := "B", fields := .named [field "x"], attrs := [description] }] }

def wildcardType : GeneratedType :=
  let variant (ident n : String) : ErrorVariant :=
    { ident, fields := .named [(n, { type := .union (.plain ⟨"int", []⟩) [], isIncluded := true })]
      description := { template := [.char 'a'] } }
  { type :=
      { ident := "E", visibility := .pub, shape := .enum [variant "A" "_", variant "B" "x"], aliases := {}
        namespaceName := "faultline_e", namespaceVisibility := .pub }
    aliases := [("Error", "Error"), ("Result", "Result"), ("ErrorKind", "ErrorKind")] }

theorem generate_wildcardEnum : generate {} wildcardEnum = .ok wildcardType := by
  rfl

theorem wildcardEnum_numbered : wildcardEnum.Numbered := by
  show ∀ v ∈ _, _
  simp [Fields.Numbered]

theorem ownNames_wildcardType : OwnNames wildcardType.type := by
  decide

theorem exists_moduleOf_wildcardType : ∃ m, moduleOf wildcardType = some m := by
  have h : (moduleOf wildcardType).isSome = true := by decide +kernel
  exact Option.isSome_iff_exists.mp h

theorem claim_wildcardType : claim preludeOwners wildcardType = .ok (preludeOwners ++ ownedBy wildcardType) := by
  rfl

/-- The values of the second case have their kind. -/
theorem wildcardEnum_classify : ∃ m, moduleOf wildcardType = some m ∧ ∀ v,
    classify m wildcardType.type 1 [v] = some (.object (kindClass wildcardType.type 1) [(.plain "x", v)]) := by
  obtain ⟨m, hm⟩ := exists_moduleOf_wildcardType
  refine ⟨m, hm, fun v => ?_⟩
  obtain ⟨-, hkinds⟩ := classify_iff wildcardEnum_numbered generate_wildcardEnum claim_wildcardType hm
    ownNames_wildcardType
  exact ((hkinds 1 _ rfl).2.mpr (by decide)) [v] rfl

/-- The value of the first case has none: its pattern binds nothing, and then `_` is not defined. -/
theorem not_classify_wildcardEnum : ∃ m, moduleOf wildcardType = some m ∧
    classify m wildcardType.type 0 [.given 0] = none := by
  obtain ⟨m, hm⟩ := exists_moduleOf_wildcardType
  have h : ((moduleOf wildcardType).bind fun m => classify m wildcardType.type 0 [.given 0]).isNone = true := by
    decide +kernel
  rw [hm] at h
  exact ⟨m, hm, Option.isNone_iff_eq_none.mp h⟩

end Execution
end TypedErrors
