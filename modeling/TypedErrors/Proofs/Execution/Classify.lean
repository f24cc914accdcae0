import TypedErrors.Proofs.Execution.Dispatch

/-! # Classification

What the function from a context to its kind returns, for the value of a case. -/

namespace TypedErrors

namespace Fields
variable {α : Type}

theorem entries_filter (fs : Fields α) (q : α → Bool) : (fs.filter q).entries = fs.entries.filter (q ·.2) := by
  cases fs with
  | unit => rfl
  | named items => simp [filter, entries, List.filter_map, Function.comp_def]
  | unnamed items => simp [filter, entries, List.filter_map, Function.comp_def]

end Fields

namespace Execution

open Code Generated Generation

variable {g : GeneratedType} {t : ErrorType} {m : Frame} {i : Nat} {c : KindCase} {vals : List Value} {s : Scope}
  {access : String → Expr} {names : List String} {env : Env}

/-! ### What a kind holds -/

/-- The included fields of a case, with their values. -/
def included (c : KindCase) (vals : List Value) : List ((FieldKey × ErrorField) × Value) :=
  (c.allFields.entries.zip vals).filter (·.1.2.isIncluded)

/-- The value of a field as its kind holds it. -/
def duplicate (f : ErrorField) (v : Value) : Value :=
  match f.method with
  | .copy => v
  | .clone => .copied v

/-- The fields of the kind of a value. -/
def kindFields (c : KindCase) (vals : List Value) : Env :=
  (included c vals).map fun p => (.plain p.1.1.attribute, duplicate p.1.2 p.2)

theorem kindCases_included (hc : c ∈ t.kindCases) : c.included.entries = c.allFields.entries.filter (·.2.isIncluded) := by
  have h : c.included = c.allFields.filter (·.isIncluded) := by
    unfold ErrorType.kindCases at hc
    split at hc
    · obtain rfl := List.mem_singleton.mp hc
      rfl
    · obtain ⟨v, -, rfl⟩ := List.mem_map.mp hc
      rfl
  rw [h, Fields.entries_filter]

theorem included_fst (hc : c ∈ t.kindCases) (hlen : vals.length = c.allFields.size) :
    (included c vals).map (·.1) = c.included.entries := by
  have hzip : (c.allFields.entries.zip vals).map (·.1) = c.allFields.entries :=
    List.map_fst_zip (Nat.le_of_eq hlen.symm)
  rw [kindCases_included hc, included]
  conv_rhs => rw [← hzip, List.filter_map]
  rfl

theorem kindFields_keys (hc : c ∈ t.kindCases) (hlen : vals.length = c.allFields.size) :
    (kindFields c vals).map (·.1) = (attributes c.included.entries).map .plain := by
  rw [← included_fst hc hlen]
  simp [kindFields, attributes]

/-! ### Arguments -/

/-- The class that a kind is built from, as classification names it. -/
def kindType (t : ErrorType) (c : KindCase) : Expr := .dotted (kindPath t ++ "." ++ c.ident)

/-- The argument for an included field. -/
def kindArg (access : String → Expr) (e : FieldKey × ErrorField) : Expr := duplicated e.2 (access e.1.attribute)

theorem kindValue_named {items : List (String × ErrorField)} (h : c.included = .named items) :
    kindValue t c access =
      .call (kindType t c) [] (c.included.entries.map fun e => .mk e.1.attribute (kindArg access e)) := by
  simp [kindValue, h, kindType, kindArg, Fields.entries, FieldKey.attribute]

theorem kindValue_eq (t : ErrorType) (c : KindCase) (access : String → Expr) : kindValue t c access =
      .call (kindType t c) [] (c.included.entries.map fun e => .mk e.1.attribute (kindArg access e)) ∨
    kindValue t c access = .call (kindType t c) (c.included.entries.map (kindArg access)) [] := by
  cases h : c.included with
  | named items => exact .inl (h ▸ kindValue_named h)
  | unit => exact .inr (by simp only [kindValue, h]; rfl)
  | unnamed items => exact .inr (by simp only [kindValue, h]; rfl)

theorem eval_duplicated {f : ErrorField} {x : Expr} {v : Value} (hcopy : eval s (.dotted "copy.copy") = some .copyFunction)
    (hx : eval s x = some v) : eval s (duplicated f x) = some (duplicate f v) := by
  unfold duplicated duplicate
  cases f.method with
  | copy => exact hx
  | clone => simp [Expr.apply, eval, hcopy, evalAll, evalKeywords, hx, Value.apply]

/-- The included fields give their kind, when each can be read. -/
theorem Stands.eval_kindValue (h : Stands g m) (hc : g.type.kindCases[i]? = some c)
    (hlen : vals.length = c.allFields.size) (hpublic : ∀ n ∈ attributes c.included.entries, isPrivate n = false)
    (hs : s.heap = m.heap) (hkind : eval s (kindType g.type c) = some (.cls (kindClass g.type i)))
    (hcopy : eval s (.dotted "copy.copy") = some .copyFunction)
    (haccess : ∀ p ∈ included c vals, eval s (access p.1.1.attribute) = some p.2) :
    eval s (kindValue g.type c access) = some (.object (kindClass g.type i) (kindFields c vals)) := by
  have hmem := List.mem_of_getElem? hc
  have hkeys : (kindFields c vals).map (·.1) = (attributes c.included.entries).map .plain := kindFields_keys hmem hlen
  have hnodup : (attributes c.included.entries).Nodup := by
    have hsub : (attributes c.included.entries).Sublist (attributes c.allFields.entries) := by
      rw [kindCases_included hmem]
      exact List.filter_sublist.map _
    exact hsub.nodup (h.attributes_nodup hc)
  have hfields : (caseClass [kindsClass g.type] (kindClass g.type i) (kindAttachment c)).fields =
      some ((kindFields c vals).map (·.1)) := by
    rw [hkeys]
    show some (dataKeys ("_ErrorKind_" ++ c.ident) (attributes c.included.entries)) = _
    rw [dataKeys_eq_map hnodup]
    exact congrArg some (List.map_congr_left fun n hn => Key.within_eq_plain (hpublic n hn))
  obtain ⟨hpositions, hkeywords⟩ := Heap.construct_eq_some _ (h.kindClass_class hc) hfields (by
    rw [hkeys]
    exact List.Nodup.map (fun _ _ => Key.plain_inj.mp) hnodup)
  have harg : ∀ p ∈ included c vals, eval s (kindArg access p.1) = some (duplicate p.1.2 p.2) := fun p hp =>
    eval_duplicated hcopy (haccess p hp)
  have hentries : c.included.entries = (included c vals).map (·.1) := (included_fst hmem hlen).symm
  rcases kindValue_eq g.type c access with hvalue | hvalue
  · rw [hvalue, eval_call_eq_some]
    refine ⟨_, [], kindFields c vals, hkind, rfl, ?_, ?_⟩
    · rw [hentries, List.map_map]
      exact evalKeywords_map harg
    · rw [hs]
      exact hkeywords
  · rw [hvalue, eval_call_eq_some]
    refine ⟨_, (kindFields c vals).map (·.2), [], hkind, ?_, rfl, ?_⟩
    · rw [hentries, List.map_map, kindFields, List.map_map]
      exact evalAll_map harg
    · rw [hs]
      exact hpositions

/-! ### The class of a kind -/

/-- Values from outside. -/
def Given (vals : List Value) : Prop := ∀ v ∈ vals, ∃ n, v = .given n

theorem Given.noClasses (h : Given vals) : NoClasses vals := by
  rintro v hv id rfl
  obtain ⟨n, hn⟩ := h _ hv
  cases hn

/-- Code in the base class of the kinds finds the class of a kind. -/
structure FindsKind (t : ErrorType) (c : KindCase) : Prop where
  namespace_public : Key.within "ErrorKind" t.namespaceName = .plain t.namespaceName
  namespace_ne : t.namespaceName ≠ "context"
  name : Key.within "ErrorKind" c.ident = .within t.namespaceName c.ident

instance (t : ErrorType) (c : KindCase) : Decidable (FindsKind t c) :=
  decidable_of_iff (Key.within "ErrorKind" t.namespaceName = .plain t.namespaceName ∧ t.namespaceName ≠ "context" ∧
    Key.within "ErrorKind" c.ident = .within t.namespaceName c.ident)
    ⟨fun h => ⟨h.1, h.2.1, h.2.2⟩, fun h => ⟨h.namespace_public, h.namespace_ne, h.name⟩⟩

theorem Stands.eval_kindType (h : Stands g m) (hc : g.type.kindCases[i]? = some c) :
    eval ((caseCall m "ErrorKind" "context" names).scope env) (kindType g.type c) =
      ((((caseCall m "ErrorKind" "context" names).scope env).look (.within "ErrorKind" g.type.namespaceName)).bind
        (·.attr? m.heap (.plain "ErrorKind"))).bind (·.attr? m.heap (.within "ErrorKind" c.ident)) := by
  have hu := h.loaded.undotted_cases c (List.mem_of_getElem? hc)
  have hpath : kindPath g.type ++ "." ++ c.ident = g.type.namespaceName ++ "." ++ "ErrorKind" ++ "." ++ c.ident := by
    rw [kindPath, append_dot_literal (s := ".ErrorKind") (b := "ErrorKind") (by decide)]
  rw [kindType, dotted_triple hpath h.loaded.undotted_namespace (by decide) hu, eval, eval, eval]
  rw [← Key.within_eq_plain (c := "ErrorKind") (n := "ErrorKind") (by decide)]
  rfl

/-- The kinds of a module, from the name of its namespace on. -/
theorem Stands.attr?_kind (h : Stands g m) (k : Key) :
    ((m.bindings.lookup (.plain g.type.namespaceName)).bind (·.attr? m.heap (.plain "ErrorKind"))).bind
      (·.attr? m.heap k) = (kindAttrs g.type).lookup k := by
  rw [h.lookup_namespace]
  show (m.heap.attr? _ _).bind _ = _
  rw [h.attr?_members]
  exact h.attr?_kinds k

theorem Stands.kindType_of_findsKind (h : Stands g m) (hc : g.type.kindCases[i]? = some c)
    (hnames : g.type.namespaceName ∉ names) (hf : FindsKind g.type c) :
    eval ((caseCall m "ErrorKind" "context" names).scope env) (kindType g.type c) =
      some (.cls (kindClass g.type i)) := by
  rw [h.eval_kindType hc, look_global hf.namespace_ne hnames, hf.namespace_public, h.attr?_kind, hf.name]
  exact h.lookup_kind hc

/-- The attributes of a context lead to no kind. -/
theorem contextAttrs_ne_kind (hc : g.type.kindCases[i]? = some c) {k : Key} :
    (contextAttrs g.type).lookup k ≠ some (.cls (kindClass g.type i)) := by
  intro hk
  generalize hv : Value.cls (kindClass g.type i) = v at hk
  cases contextAttr_of_lookup hk with
  | wrapper =>
    have hi := (List.getElem?_eq_some_iff.mp hc).1
    exact Nat.ne_of_lt (Nat.add_lt_add_left hi (kindsClass g.type + 1)) (Value.cls.inj hv)
  | @attached j a ha =>
    have hj := (List.getElem?_eq_some_iff.mp ha).1
    have hlt : j + 1 < kindClass g.type i :=
      Nat.lt_of_le_of_lt hj (Nat.lt_add_right _ (Nat.lt_succ_of_lt (Nat.lt_succ_self _)))
    exact Nat.ne_of_gt hlt (Value.cls.inj hv)
  | function => cases hv

/-- No kind is found from the value of a case on. -/
theorem Stands.contextValue_ne_kind (h : Stands g m) (hc : g.type.kindCases[i]? = some c) (hvals : Given vals) {k : Key} :
    (((contextValue g.type i c vals).attr? m.heap (.plain "ErrorKind")).bind (·.attr? m.heap k)) ≠
      some (.cls (kindClass g.type i)) := by
  intro he
  obtain ⟨v, hv, hk⟩ := Option.bind_eq_some_iff.mp he
  rw [h.attr?_contextValue hc] at hv
  cases hfield : ((contextKeys g.type c).zip vals).lookup (.plain "ErrorKind") with
  | some w =>
    rw [hfield] at hv
    obtain rfl : w = v := Option.some.inj hv
    obtain ⟨n, rfl⟩ := hvals w (List.of_mem_zip (mem_of_lookup hfield)).2
    cases hk
  | none =>
    rw [hfield] at hv
    have hattr : (contextAttrs g.type).lookup (.plain "ErrorKind") = some v := hv
    generalize hkey : Key.plain "ErrorKind" = key at hattr
    cases contextAttr_of_lookup hattr with
    | wrapper => exact absurd (Key.plain_inj.mp hkey) (by decide)
    | attached ha =>
      rw [Value.attr?, h.attr?_contextCase ha] at hk
      exact contextAttrs_ne_kind hc hk
    | function => cases hk

theorem Stands.findsKind_of_kindType (h : Stands g m) (hc : g.type.kindCases[i]? = some c)
    (hnames : g.type.namespaceName ∉ names) (hvals : Given vals)
    (hx : "context" ∉ names → env.lookup (.within "ErrorKind" "context") = some (contextValue g.type i c vals))
    (he : eval ((caseCall m "ErrorKind" "context" names).scope env) (kindType g.type c) =
      some (.cls (kindClass g.type i))) : FindsKind g.type c := by
  rw [h.eval_kindType hc] at he
  by_cases hcontext : g.type.namespaceName = "context"
  · rw [look_local (.inl hcontext), hcontext, hx (hcontext ▸ hnames)] at he
    exact absurd he (h.contextValue_ne_kind hc hvals)
  · obtain ⟨v, hv, -⟩ := Option.bind_eq_some_iff.mp (Option.bind_eq_some_iff.mp he).choose_spec.1
    have hpublic := (h.look_eq_some hcontext hnames hv).1
    rw [look_global hcontext hnames, hpublic, h.attr?_kind] at he
    refine ⟨hpublic, hcontext, ?_⟩
    obtain ⟨j, c', hc', hkey, hid⟩ := kind_of_lookup he
    have hj : i = j := Nat.add_left_cancel hid
    subst hj
    obtain rfl := Option.some.inj (hc.symm.trans hc')
    exact hkey

/-! ### The pattern of a kind -/

/-- The values that the pattern of a kind captures, by their names. -/
def includedCells (c : KindCase) (vals : List Value) : List (String × Value) :=
  (included c vals).map fun p => (p.1.1.attribute, p.2)

theorem kindPattern_names (t : ErrorType) : Names t (·.ident) (kindPattern t) := by
  intro c
  unfold kindPattern caseType
  split
  · exact ⟨_, _, rfl⟩
  · split
    · exact ⟨_, _, rfl⟩
    · exact ⟨_, _, rfl⟩
  · exact ⟨_, _, rfl⟩

/-- What the pattern of a kind captures of a field. -/
def capture? (e : FieldKey × ErrorField) : Option String :=
  if e.2.isIncluded then some e.1.attribute else none

theorem flatMap_capture? (cells : List ((FieldKey × ErrorField) × Value)) :
    cells.flatMap (fun p => (capture? p.1).toList.map (·, p.2)) =
      (cells.filter (·.1.2.isIncluded)).map fun p => (p.1.1.attribute, p.2) := by
  induction cells with
  | nil => rfl
  | cons p cells ih =>
    rw [List.flatMap_cons, ih, List.filter_cons, capture?]
    cases p.1.2.isIncluded <;> rfl

/-- The pattern of a kind, by the shape of its fields. -/
inductive KindPattern (t : ErrorType) (c : KindCase) : Pattern → Prop
  | keywords {items : List (String × ErrorField)} (hall : c.allFields = .named items) : KindPattern t c
      (.cls (caseType t c.ident) [] (c.included.entries.map fun e => .mk e.1.attribute (.capture (some e.1.attribute))))
  | positions {items : List (Nat × ErrorField)} (hall : c.allFields = .unnamed items) : KindPattern t c
      (.cls (caseType t c.ident) (c.allFields.entries.map fun e => .capture (capture? e)) [])
  | bare (hnone : c.included.entries = []) : KindPattern t c (.cls (caseType t c.ident) [] [])

theorem kindPattern_eq (hc : c ∈ t.kindCases) : KindPattern t c (kindPattern t c) := by
  unfold kindPattern
  split
  · next items hall => exact .keywords hall
  · next items hall =>
    split
    · next hsize => exact .bare (List.eq_nil_of_length_eq_zero hsize)
    · have hpositions := KindPattern.positions (t := t) hall
      rw [hall, Fields.entries, List.map_map] at hpositions
      exact hpositions
  · next hall =>
    refine .bare ?_
    rw [kindCases_included hc, hall]
    rfl

/-- The pattern of a kind matches the values of its case, and captures the included fields. -/
theorem Stands.bindPattern_kind (h : Stands g m) (hs : g.type.isStruct = false) (hc : g.type.kindCases[i]? = some c)
    (hlen : vals.length = c.allFields.size) (hpublic : ∀ n ∈ attributes c.included.entries, isPrivate n = false)
    (hheap : s.heap = m.heap) (htype : eval s (caseType g.type c.ident) = some (.cls (i + 1))) :
    bindPattern s (contextValue g.type i c vals) (kindPattern g.type c) =
      some (some (captured s.owner (includedCells c vals))) := by
  have hmem := List.mem_of_getElem? hc
  have hinstance : s.heap.isInstance (contextValue g.type i c vals) (i + 1) = true := by
    rw [hheap]
    exact (h.isInstance_contextValue hs hc).mpr (.inl rfl)
  have hentries : c.included.entries = (included c vals).map (·.1) := (included_fst hmem hlen).symm
  have hfield : ∀ p ∈ c.allFields.entries.zip vals, (contextValue g.type i c vals).attr? s.heap
      (.within (contextName g.type c) p.1.1.attribute) = some p.2 := by
    rw [hheap]
    exact fun p hp => h.attr?_field hc hlen hp
  generalize kindPattern g.type c = pattern, kindPattern_eq hmem = hpattern
  cases hpattern with
  | keywords hall =>
    rw [bindPattern_cls htype hinstance]
    have hkeywords : c.included.entries.map (fun e => KeywordPattern.mk e.1.attribute (.capture (some e.1.attribute))) =
        (includedCells c vals).map fun p => .mk p.1 (.capture (some p.1)) := by
      rw [hentries, includedCells, List.map_map, List.map_map]
      rfl
    have hcells : ∀ p ∈ includedCells c vals, (contextValue g.type i c vals).attr? s.heap (.plain p.1) = some p.2 := by
      intro p hp
      obtain ⟨q, hq, rfl⟩ := List.mem_map.mp hp
      have hq' := hfield q (List.mem_filter.mp hq).1
      have hn : q.1.1.attribute ∈ attributes c.included.entries := by
        rw [hentries, attributes, List.map_map]
        exact List.mem_map_of_mem hq
      rwa [Key.within_eq_plain (hpublic _ hn)] at hq'
    rw [hkeywords, bindKeywords_captures hcells]
    rfl
  | positions hall =>
    have hzip : (c.allFields.entries.zip vals).map (·.1) = c.allFields.entries :=
      List.map_fst_zip (Nat.le_of_eq hlen.symm)
    have hkeys : s.heap.matchArgs (i + 1) =
        (c.allFields.entries.zip vals).map fun p => .within (contextName g.type c) p.1.1.attribute := by
      rw [hheap, ← contextKeys_eq hlen, ← h.matchArgs_context hc, contextClass, hs]
      rfl
    have hargs : c.allFields.entries.map (fun e => Pattern.capture (capture? e)) =
        ((c.allFields.entries.zip vals).map fun p => (capture? p.1, p.2)).map fun p => .capture p.1 := by
      rw [← hzip, List.map_map, List.map_map, hzip]
      rfl
    have hfields : List.Forall₂ (fun k p => (contextValue g.type i c vals).attr? s.heap k = some p.2)
        ((c.allFields.entries.zip vals).map fun p => Key.within (contextName g.type c) p.1.1.attribute)
        ((c.allFields.entries.zip vals).map fun p => (capture? p.1, p.2)) := by
      rw [List.forall₂_map_left_iff, List.forall₂_map_right_iff]
      exact List.forall₂_same.mpr hfield
    rw [bindPattern_cls htype hinstance, hkeys, hargs, bindArgs_captures hfields, List.flatMap_map,
      flatMap_capture?]
    show some (some (captured s.owner (includedCells c vals) ++ [])) = _
    rw [List.append_nil]
  | bare hnone =>
    have hnil : includedCells c vals = [] := by
      rw [hentries] at hnone
      rw [includedCells, List.map_eq_nil_iff.mp hnone]
      rfl
    rw [bindPattern_cls htype hinstance, hnil]
    rfl

/-! ### Captured names -/

/-- The names that the patterns of classification capture. -/
def captures (t : ErrorType) : List String :=
  t.kindCases.flatMap fun c => (attributes c.included.entries).filter (· ≠ "_")

theorem patternNames_kindPattern (hc : c ∈ t.kindCases) :
    patternNames (kindPattern t c) = (attributes c.included.entries).filter (· ≠ "_") := by
  generalize kindPattern t c = pattern, kindPattern_eq hc = hpattern
  cases hpattern with
  | keywords hall =>
    have h := keywordPatternNames_captures (attributes c.included.entries)
    rw [attributes, List.map_map] at h
    exact h
  | positions hall =>
    have h := patternNamesAll_captures (c.allFields.entries.map capture?)
    have hnames : (c.allFields.entries.map capture?).filterMap id = attributes c.included.entries := by
      rw [kindCases_included hc, attributes]
      induction c.allFields.entries with
      | nil => rfl
      | cons e entries ih =>
        rw [List.map_cons, List.filter_cons, capture?]
        cases e.2.isIncluded with
        | true => exact congrArg (e.1.attribute :: ·) ih
        | false => exact ih
    rw [List.map_map, hnames] at h
    rw [patternNames, keywordPatternNames, List.append_nil]
    exact h
  | bare hnone =>
    rw [hnone]
    rfl

/-! ### Classification -/

/-- The kind that classification returns for the value of a case. -/
def classify (m : Frame) (t : ErrorType) (i : Nat) (vals : List Value) : Option Value := do
  let x ← m.heap.construct (contextClass t i) vals []
  m.call "ErrorKind" (classification t) [x]

/-- A call of classification with the value of a case. -/
abbrev kindScope (m : Frame) (t : ErrorType) (i : Nat) (c : KindCase) (vals : List Value) (names : List String)
    (bound : Env) : Scope :=
  (caseCall m "ErrorKind" "context" names).scope (bound ++ caseEnv "ErrorKind" "context" (contextValue t i c vals))

theorem Stands.classify_struct (h : Stands g m) (hs : g.type.isStruct = true) (hc : g.type.kindCases[i]? = some c)
    (hlen : vals.length = c.allFields.size) {r : Value} : classify m g.type i vals = some r ↔
      eval (kindScope m g.type i c vals [] []) (kindValue g.type c (.attribute (.name "context"))) = some r := by
  have hcases : g.type.kindCases = [c] := by
    unfold ErrorType.isStruct at hs
    split at hs
    · next hshape =>
      rw [ErrorType.kindCases_struct hshape] at hc ⊢
      rw [List.mem_singleton.mp (List.mem_of_getElem? hc)]
    · cases hs
  rw [classify, h.construct_context hc hlen]
  show m.call "ErrorKind" (classification g.type) [contextValue g.type i c vals] = some r ↔ _
  rw [classification, call_eq_some, if_pos hs, hcases]
  exact execAll_ret

theorem Stands.classify_enum (h : Stands g m) (hs : g.type.isStruct = false) (hc : g.type.kindCases[i]? = some c)
    (hlen : vals.length = c.allFields.size) {r : Value} : classify m g.type i vals = some r ↔
      FirstMatch (caseCall m "ErrorKind" "context" (captures g.type))
        (caseEnv "ErrorKind" "context" (contextValue g.type i c vals)) (kindPattern g.type)
        (fun c => kindValue g.type c .name) (contextValue g.type i c vals) r g.type.kindCases := by
  have hcaptures : Stmt.capturesAll (selectOrRaise "context" (g.type.kindCases.map
      (returning (kindPattern g.type) fun c => kindValue g.type c .name))) = captures g.type := by
    rw [capturesAll_selectOrRaise, captures]
    exact List.flatMap_congr fun c hc => patternNames_kindPattern hc
  rw [classify, h.construct_context hc hlen]
  show m.call "ErrorKind" (classification g.type) [contextValue g.type i c vals] = some r ↔ _
  rw [classification, call_eq_some, if_neg (by rw [hs]; exact Bool.false_ne_true)]
  show execAll ⟨_, _, _, _ :: (Stmt.capturesAll (selectOrRaise "context" (g.type.kindCases.map
      (returning (kindPattern g.type) fun c => kindValue g.type c .name)))).map _⟩ _ _ = _ ↔ _
  rw [hcaptures]
  exact execAll_selectOrRaise (look_local (.inl rfl) |>.trans List.lookup_cons_self)

end Execution
end TypedErrors
