import TypedErrors.Proofs.ErrorType.Names
import TypedErrors.Proofs.Execution.Loaded
import TypedErrors.Proofs.Execution.Match

/-! # What generated functions find

The names and classes of the module of a type, as the functions in it look them up: the names of the module,
the cases that are attached to the two base classes, and the values of the cases. -/

namespace TypedErrors
namespace Execution

open Code Generated Generation

/-! ### Attached classes -/

section
variable {owner : String} {above : List ClassId} {first : ClassId} {cs : List Attachment} {c : Attachment} {i : Nat}

theorem mem_attached {p : Key × Value} : p ∈ attached owner first cs ↔
    ∃ j c, cs[j]? = some c ∧ p = (.within owner c.name, .cls (first + j)) := by
  induction cs generalizing first with
  | nil => simp [attached]
  | cons c cs ih =>
    rw [attached, List.mem_append, List.mem_singleton, ih]
    constructor
    · rintro (⟨j, c', hc', rfl⟩ | rfl)
      · exact ⟨j + 1, c', hc', by rw [Nat.add_right_comm, Nat.add_assoc]⟩
      · exact ⟨0, c, rfl, rfl⟩
    · rintro ⟨_ | j, c', hc', rfl⟩
      · obtain rfl := Option.some.inj hc'
        exact .inr rfl
      · exact .inl ⟨j, c', hc', by rw [Nat.add_right_comm, Nat.add_assoc]⟩

theorem attached_keys : (attached owner first cs).map (·.1) = ((cs.map (·.name)).map (.within owner)).reverse := by
  induction cs generalizing first with
  | nil => rfl
  | cons c cs ih => simp [attached, ih]

theorem lookup_attached (h : (cs.map (·.name)).Nodup) (hc : cs[i]? = some c) (env : Env) :
    (attached owner first cs ++ env).lookup (.within owner c.name) = some (.cls (first + i)) := by
  refine lookup_append_of_mem ?_ (mem_attached.mpr ⟨i, c, hc, rfl⟩)
  rw [attached_keys, List.nodup_reverse]
  exact List.Nodup.map (fun _ _ => Key.within_inj) h

theorem getElem?_caseClasses (hc : cs[i]? = some c) :
    (caseClasses above first cs)[i]? = some (caseClass above (first + i) c) := by
  induction cs generalizing first i with
  | nil => cases hc
  | cons b cs ih =>
    cases i with
    | zero =>
      obtain rfl := Option.some.inj hc
      rfl
    | succ i =>
      have h : (caseClasses above (first + 1) cs)[i]? = some (caseClass above (first + 1 + i) c) := ih hc
      rwa [Nat.add_right_comm, Nat.add_assoc] at h

end

/-! ### Tables of names -/

/-- The names of a module, apart from its aliases. -/
def ownBindings (t : ErrorType) : Env :=
  (.plain t.namespaceName, .cls (wrapperClass t + 1)) :: (.plain t.ident, .cls 0) :: prelude

/-- The attributes of the context class. -/
def contextAttrs (t : ErrorType) : Env :=
  (.plain "error_type", .cls (wrapperClass t)) :: (attached "" 1 (contextCases t) ++ contextFunctions)

/-- The attributes of the base class of the kinds. -/
def kindAttrs (t : ErrorType) : Env :=
  attached t.namespaceName (kindsClass t + 1) (t.kindCases.map kindAttachment) ++ kindFunctions t

theorem length_contextClasses (t : ErrorType) (w : ClassId) : (contextClasses t w).length = kindsClass t := by
  rw [contextClasses, List.length_cons, length_caseClasses]
  rfl

/-- What is attached for a case of an enum. -/
def caseAttachment (t : ErrorType) (c : KindCase) : Attachment :=
  ⟨c.ident, "_" ++ t.ident ++ "_" ++ c.ident, c.allFields.entries⟩

theorem contextCases_eq {t : ErrorType} (hs : t.isStruct = false) :
    contextCases t = t.kindCases.map (caseAttachment t) := by
  unfold ErrorType.isStruct at hs
  unfold contextCases ErrorType.kindCases
  cases hshape : t.shape with
  | struct => rw [hshape] at hs; cases hs
  | enum variants => rw [List.map_map]; rfl

theorem kindCases_names {t : ErrorType} : (t.kindCases.map kindAttachment).map (·.name) = t.kindCases.map (·.ident) := by
  rw [List.map_map]
  rfl

theorem contextCases_names {t : ErrorType} (hs : t.isStruct = false) :
    (contextCases t).map (·.name) = t.kindCases.map (·.ident) := by
  rw [contextCases_eq hs, List.map_map]
  rfl

section
variable {g : GeneratedType} {i id : Nat} {c : KindCase} {k : Key}

theorem getElem?_contextCases (hs : g.type.isStruct = false) (hc : g.type.kindCases[i]? = some c) :
    (contextCases g.type)[i]? = some (caseAttachment g.type c) := by
  rw [contextCases_eq hs, List.getElem?_map, hc]
  rfl

theorem kind_of_lookup (hk : (kindAttrs g.type).lookup k = some (.cls id)) :
    ∃ j c, g.type.kindCases[j]? = some c ∧ k = .within g.type.namespaceName c.ident ∧ id = kindClass g.type j := by
  have hmem := mem_of_lookup hk
  rcases List.mem_append.mp hmem with hmem | hmem
  · obtain ⟨j, a, ha, heq⟩ := mem_attached.mp hmem
    rw [List.getElem?_map] at ha
    obtain ⟨c, hc, rfl⟩ := Option.map_eq_some_iff.mp ha
    obtain ⟨rfl, hid⟩ := Prod.mk.inj heq
    exact ⟨j, c, hc, rfl, Value.cls.inj hid⟩
  · have hfunctions : ∀ p ∈ kindFunctions g.type, p.2 = .function := by
      unfold kindFunctions
      cases g.type.isCopy <;> simp
    cases hfunctions _ hmem

theorem lookup_error_type : (contextAttrs g.type).lookup (.plain "error_type") = some (.cls (wrapperClass g.type)) :=
  List.lookup_cons_self

/-- An attribute of the context class. -/
inductive ContextAttr (t : ErrorType) : Key → Value → Prop
  | wrapper : ContextAttr t (.plain "error_type") (.cls (wrapperClass t))
  | attached {j : Nat} {a : Attachment} (ha : (contextCases t)[j]? = some a) :
      ContextAttr t (.plain a.name) (.cls (j + 1))
  | function {n : String} (hn : isPrivate n = false) : ContextAttr t (.plain n) .function

theorem contextAttr_of_lookup {v : Value} (hk : (contextAttrs g.type).lookup k = some v) : ContextAttr g.type k v := by
  rcases List.mem_cons.mp (mem_of_lookup hk) with heq | hmem
  · obtain ⟨rfl, rfl⟩ := Prod.mk.inj heq
    exact .wrapper
  rcases List.mem_append.mp hmem with hmem | hmem
  · obtain ⟨j, a, ha, heq⟩ := mem_attached.mp hmem
    rw [Key.within_empty, Nat.add_comm] at heq
    obtain ⟨rfl, rfl⟩ := Prod.mk.inj heq
    exact .attached ha
  · have hfunctions : ∀ p ∈ contextFunctions, ContextAttr g.type p.1 p.2 := by
      simp only [contextFunctions, List.forall_mem_cons]
      exact ⟨.function (by decide), .function (by decide), .function (by decide), List.forall_mem_nil _⟩
    exact hfunctions _ hmem

/-- The attributes of the context class are not names of a class. -/
theorem ContextAttr.owner {t : ErrorType} {v : Value} (h : ContextAttr t k v) : k.owner = [] := by
  cases h <;> rfl

end

/-! ### The module of a type -/

/-- The module of a type whose names are distinct. -/
structure Stands (g : GeneratedType) (m : Frame) : Prop where
  free : Free preludeOwners g
  apart : g.type.Apart
  conversions : FromFunctions g.type
  loaded : Loaded g m

theorem fromFunctions_of_fromSources {t : ErrorType} (h : ErrorType.FromSources t.conversions) : FromFunctions t := by
  intro c hc
  exact ⟨_, h c hc⟩

theorem stands {s : Settings} {d : Declaration} {g : GeneratedType} {owners : Owners} {m : Frame} (hd : d.Numbered)
    (hg : generate s d = .ok g) (hclaim : claim preludeOwners g = .ok owners) (hm : moduleOf g = some m) :
    Stands g m := by
  obtain ⟨t, ht, hg⟩ := bind_eq_ok.mp hg
  obtain rfl := ErrorType.ofErrorType_type hg
  obtain ⟨hfree, -⟩ := claim_eq_ok_iff.mp hclaim
  have hfrom := fromFunctions_of_fromSources (ErrorType.build_fromSources ht)
  exact ⟨hfree, ErrorType.build_apart ht hd, hfrom, loaded hfree hfrom hm⟩

namespace Stands
variable {g : GeneratedType} {m : Frame}

/-! ### Names of the module -/

theorem lookup_bindings (h : Stands g m) {n : String} (hn : n ∉ g.aliases.map (·.1)) :
    m.bindings.lookup (.plain n) = (ownBindings g.type).lookup (.plain n) := by
  obtain ⟨aliases, hbindings, haliases⟩ := h.loaded.bindings
  rw [hbindings, List.lookup_append, lookup_eq_none_of_forall, Option.none_or, ownBindings]
  intro p hp hpn
  obtain ⟨a, ha, hpa⟩ := haliases p hp
  rw [hpa, Key.plain_inj] at hpn
  exact hn (List.mem_map.mpr ⟨a, ha, hpn⟩)

theorem ident_not_mem (h : Stands g m) : g.type.ident ≠ g.type.namespaceName ∧ g.type.ident ∉ g.aliases.map (·.1) := by
  have hnodup := (List.nodup_cons.mp h.free.nodup).1
  exact ⟨fun he => hnodup (he ▸ List.mem_cons_self ..), fun hmem => hnodup (List.mem_cons_of_mem _ hmem)⟩

theorem lookup_ident (h : Stands g m) : m.bindings.lookup (.plain g.type.ident) = some (.cls 0) := by
  obtain ⟨hne, haliases⟩ := h.ident_not_mem
  rw [h.lookup_bindings haliases, ownBindings, lookup_cons_of_ne (by rwa [Ne, Key.plain_inj])]
  exact List.lookup_cons_self

theorem lookup_namespace (h : Stands g m) :
    m.bindings.lookup (.plain g.type.namespaceName) = some (.cls (wrapperClass g.type + 1)) := by
  have hnodup := (List.nodup_cons.mp (List.nodup_cons.mp h.free.nodup).2).1
  rw [h.lookup_bindings hnodup, ownBindings]
  exact List.lookup_cons_self

theorem ne_prelude (h : Stands g m) {n : String} (hn : n ∈ preludeNames) :
    n ≠ g.type.ident ∧ n ≠ g.type.namespaceName ∧ n ∉ g.aliases.map (·.1) := by
  have hne := fun k (hk : k ∈ g.moduleNames) => Free.ne_prelude h.free hk hn
  refine ⟨(hne _ ident_mem_moduleNames).symm, (hne _ namespaceName_mem_moduleNames).symm, fun hmem => ?_⟩
  exact hne n (List.mem_cons_of_mem _ (List.mem_cons_of_mem _ hmem)) rfl

theorem lookup_copy (h : Stands g m) : m.bindings.lookup (.plain "copy") = some .copyModule := by
  obtain ⟨hident, hnamespace, haliases⟩ := h.ne_prelude (n := "copy") (by decide)
  rw [h.lookup_bindings haliases, ownBindings, lookup_cons_of_ne (by rwa [Ne, Key.plain_inj]),
    lookup_cons_of_ne (by rwa [Ne, Key.plain_inj])]
  rfl

/-- No name of a module is a name of a class. -/
theorem lookup_of_owner (h : Stands g m) {k : Key} (hk : k.owner ≠ []) : m.bindings.lookup k = none := by
  obtain ⟨aliases, hbindings, haliases⟩ := h.loaded.bindings
  refine lookup_eq_none_of_forall fun p hp => ?_
  have howner : p.1.owner = [] := by
    rw [hbindings] at hp
    rcases List.mem_append.mp hp with hp | hp
    · obtain ⟨a, -, ha⟩ := haliases p hp
      rw [ha]
      rfl
    · have hplain : ∀ p ∈ ownBindings g.type, p.1.owner = [] := by simp [ownBindings, prelude, Key.plain]
      exact hplain p hp
  rintro rfl
  exact hk howner

/-! ### Classes of the module -/

theorem getElem?_context (h : Stands g m) {i : Nat} (hi : i < kindsClass g.type) :
    m.heap[i]? = (contextClasses g.type (wrapperClass g.type))[i]? := by
  obtain ⟨c, hheap⟩ := h.loaded.heap
  have hlen := length_contextClasses g.type (wrapperClass g.type)
  rw [hheap, List.append_assoc, List.getElem?_append_left (by omega)]

theorem getElem?_kinds (h : Stands g m) {i : Nat} (hi : i < 1 + g.type.kindCases.length) :
    m.heap[kindsClass g.type + i]? = (kindClasses g.type (kindsClass g.type))[i]? := by
  obtain ⟨c, hheap⟩ := h.loaded.heap
  have hlen := length_contextClasses g.type (wrapperClass g.type)
  have hlen' := length_kindClasses (t := g.type) (k := kindsClass g.type)
  rw [hheap, List.append_assoc, List.getElem?_append_right (by omega), List.getElem?_append_left (by omega)]
  congr 1
  omega

theorem contextClass_zero (h : Stands g m) :
    m.heap[0]? = some { contextBase g.type with attrs := contextAttrs g.type } :=
  h.getElem?_context (Nat.succ_pos _)

theorem contextCase_class (h : Stands g m) {i : Nat} {a : Attachment} (ha : (contextCases g.type)[i]? = some a) :
    m.heap[i + 1]? = some (caseClass [0] (i + 1) a) := by
  obtain ⟨hi, -⟩ := List.getElem?_eq_some_iff.mp ha
  rw [h.getElem?_context (Nat.succ_lt_succ hi), contextClasses, List.getElem?_cons_succ, getElem?_caseClasses ha,
    Nat.add_comm]

theorem kindsClass_class (h : Stands g m) : m.heap[kindsClass g.type]? =
    some { kindBaseClass g.type (kindsClass g.type) with attrs := kindAttrs g.type } :=
  h.getElem?_kinds (i := 0) (by omega)

theorem kindClass_class (h : Stands g m) {i : Nat} {c : KindCase} (hc : g.type.kindCases[i]? = some c) :
    m.heap[kindClass g.type i]? =
      some (caseClass [kindsClass g.type] (kindClass g.type i) (kindAttachment c)) := by
  obtain ⟨hi, -⟩ := List.getElem?_eq_some_iff.mp hc
  have hcase : (g.type.kindCases.map kindAttachment)[i]? = some (kindAttachment c) := by
    rw [List.getElem?_map, hc]
    rfl
  rw [kindClass, Nat.add_assoc, h.getElem?_kinds (by omega), kindClasses, Nat.add_comm 1 i, List.getElem?_cons_succ,
    getElem?_caseClasses hcase, Nat.add_assoc, Nat.add_comm 1 i]

theorem members_class (h : Stands g m) : m.heap[wrapperClass g.type + 1]? =
    some (membersClass g.type (kindsClass g.type) (wrapperClass g.type)) := by
  obtain ⟨c, hheap⟩ := h.loaded.heap
  have hlen := length_contextClasses g.type (wrapperClass g.type)
  have hlen' := length_kindClasses (t := g.type) (k := kindsClass g.type)
  have hw : (contextClasses g.type (wrapperClass g.type) ++ kindClasses g.type (kindsClass g.type)).length =
      wrapperClass g.type := by
    rw [List.length_append, hlen, hlen', wrapperClass, Nat.add_assoc]
  rw [hheap, List.getElem?_append_right (by omega), hw, Nat.add_sub_cancel_left]
  rfl

/-! ### Attributes of the classes -/

theorem attr?_context (h : Stands g m) (k : Key) : m.heap.attr? 0 k = (contextAttrs g.type).lookup k :=
  Heap.attr?_of_ancestors h.contextClass_zero rfl

theorem attr?_kinds (h : Stands g m) (k : Key) : m.heap.attr? (kindsClass g.type) k = (kindAttrs g.type).lookup k :=
  Heap.attr?_of_ancestors h.kindsClass_class rfl

theorem attr?_members (h : Stands g m) :
    m.heap.attr? (wrapperClass g.type + 1) (.plain "ErrorKind") = some (.cls (kindsClass g.type)) := by
  rw [Heap.attr?_of_ancestors h.members_class rfl]
  show (membersEnv _ _ _).lookup _ = _
  rw [membersEnv, lookup_cons_of_ne (by decide), lookup_cons_of_ne (by decide),
    lookup_conversionEnv h.conversions _ (by decide)]
  exact List.lookup_cons_self

theorem ancestors_contextCase (h : Stands g m) {i : Nat} {a : Attachment}
    (ha : (contextCases g.type)[i]? = some a) : m.heap.ancestors (i + 1) = [i + 1, 0] := by
  rw [Heap.ancestors, h.contextCase_class ha]
  rfl

/-- A case has no attributes of its own. -/
theorem attr?_contextCase (h : Stands g m) {i : Nat} {a : Attachment} (ha : (contextCases g.type)[i]? = some a)
    (k : Key) : m.heap.attr? (i + 1) k = (contextAttrs g.type).lookup k := by
  rw [Heap.attr?, h.ancestors_contextCase ha]
  simp [h.contextCase_class ha, h.contextClass_zero, caseClass]

/-! ### Cases by their names -/

variable {i : Nat} {c : KindCase}

theorem lookup_kind (h : Stands g m) (hc : g.type.kindCases[i]? = some c) :
    (kindAttrs g.type).lookup (.within g.type.namespaceName c.ident) = some (.cls (kindClass g.type i)) := by
  have hcase : (g.type.kindCases.map kindAttachment)[i]? = some (kindAttachment c) := by
    rw [List.getElem?_map, hc]
    rfl
  exact lookup_attached (kindCases_names ▸ h.apart.cases) hcase _

theorem lookup_case (h : Stands g m) (hs : g.type.isStruct = false) (hc : g.type.kindCases[i]? = some c)
    (hne : c.ident ≠ "error_type") : (contextAttrs g.type).lookup (.plain c.ident) = some (.cls (i + 1)) := by
  have hlookup : (attached "" 1 (contextCases g.type) ++ contextFunctions).lookup (.within "" c.ident) =
      some (.cls (1 + i)) :=
    lookup_attached (contextCases_names hs ▸ h.apart.cases) (getElem?_contextCases hs hc) _
  rw [Key.within_empty, Nat.add_comm] at hlookup
  rw [contextAttrs, lookup_cons_of_ne (by rwa [Ne, Key.plain_inj])]
  exact hlookup

end Stands

/-! ### Names of fields -/

theorem isPrivate_positionalName (j : Nat) : isPrivate (positionalName j) = false := by
  obtain ⟨d, l, hl, hd⟩ := exists_digit_positionalName j
  have hne : ('_' == d) = false := by
    refine beq_false_of_ne ?_
    rintro rfl
    exact absurd hd (by decide)
  simp [isPrivate, hl, List.isPrefixOf, hne]

theorem positionalName_ne {n : String} (hn : n.toList.head? ≠ some '_') (j : Nat) : positionalName j ≠ n := by
  obtain ⟨d, l, hl, -⟩ := exists_digit_positionalName j
  rintro rfl
  rw [hl] at hn
  exact hn rfl

theorem positionalName_ne_wildcard (j : Nat) : positionalName j ≠ "_" := by
  obtain ⟨d, l, hl, -⟩ := exists_digit_positionalName j
  intro h
  rw [h] at hl
  cases hl

/-- A field has a name of its own, or one that is numbered. -/
theorem attribute_cases {fields : Fields ErrorField} {n : String} (hn : n ∈ attributes fields.entries) :
    n ∈ fields.names ∨ ∃ j : Nat, n = positionalName j := by
  obtain ⟨e, he, rfl⟩ := List.mem_map.mp hn
  cases fields with
  | unit => cases he
  | named items =>
    obtain ⟨q, hq, rfl⟩ := List.mem_map.mp he
    exact .inl (List.mem_map_of_mem hq)
  | unnamed items =>
    obtain ⟨q, hq, rfl⟩ := List.mem_map.mp he
    exact .inr ⟨q.1, rfl⟩

/-! ### Values of the cases -/

/-- The name of the class in which the fields of a case are written. -/
def contextName (t : ErrorType) (c : KindCase) : String :=
  if t.isStruct then t.ident else "_" ++ t.ident ++ "_" ++ c.ident

/-- The attributes that hold the fields of a case. -/
def contextKeys (t : ErrorType) (c : KindCase) : List Key :=
  (attributes c.allFields.entries).map (.within (contextName t c))

theorem length_contextKeys {t : ErrorType} {c : KindCase} : (contextKeys t c).length = c.allFields.size := by
  rw [contextKeys, List.length_map, attributes, List.length_map]
  rfl

/-- The value of a case with these values of its fields. -/
def contextValue (t : ErrorType) (i : Nat) (c : KindCase) (vals : List Value) : Value :=
  .object (contextClass t i) ((contextKeys t c).zip vals)

theorem eraseDups_eq_self {α : Type} [BEq α] [LawfulBEq α] {l : List α} (h : l.Nodup) : l.eraseDups = l := by
  induction l with
  | nil => rfl
  | cons a l ih =>
    obtain ⟨ha, hl⟩ := List.nodup_cons.mp h
    have hfilter : l.filter (fun b => !b == a) = l :=
      List.filter_eq_self.mpr fun b hb => by
        have hne : b ≠ a := fun he => ha (he ▸ hb)
        simpa using hne
    rw [List.eraseDups_cons, hfilter, ih hl]

theorem dataKeys_eq_map {cls : String} {names : List String} (h : names.Nodup) :
    dataKeys cls names = names.map (.within cls) :=
  eraseDups_eq_self (List.Nodup.map (fun _ _ => Key.within_inj) h)

namespace Stands
variable {g : GeneratedType} {m : Frame} {i : Nat} {c : KindCase} {vals : List Value}

theorem attributes_nodup (h : Stands g m) (hc : g.type.kindCases[i]? = some c) :
    (attributes c.allFields.entries).Nodup :=
  h.apart.fields c (List.mem_of_getElem? hc)

theorem contextKeys_nodup (h : Stands g m) (hc : g.type.kindCases[i]? = some c) : (contextKeys g.type c).Nodup :=
  List.Nodup.map (fun _ _ => Key.within_inj) (h.attributes_nodup hc)

theorem context_class (h : Stands g m) (hc : g.type.kindCases[i]? = some c) :
    ∃ k, m.heap[contextClass g.type i]? = some k ∧ k.fields = some (contextKeys g.type c) := by
  have hnodup := h.attributes_nodup hc
  cases hs : g.type.isStruct with
  | true =>
    have hshape := hs
    unfold ErrorType.isStruct at hshape
    split at hshape
    · next fields description sources hstruct =>
      have hcases := ErrorType.kindCases_struct hstruct
      obtain rfl : c = .ofFields g.type.ident fields := by
        rw [hcases] at hc
        exact (List.mem_singleton.mp (List.mem_of_getElem? hc))
      refine ⟨_, by rw [contextClass, hs]; exact h.contextClass_zero, ?_⟩
      show (contextBase g.type).fields = _
      rw [contextBase, hstruct, contextKeys, contextName, hs, ← dataKeys_eq_map hnodup]
      rfl
    · cases hshape
  | false =>
    refine ⟨_, by rw [contextClass, hs]; exact h.contextCase_class (getElem?_contextCases hs hc), ?_⟩
    rw [contextKeys, contextName, hs, ← dataKeys_eq_map hnodup]
    rfl

/-- A case has a value for every choice of values for its fields. -/
theorem construct_context (h : Stands g m) (hc : g.type.kindCases[i]? = some c)
    (hvals : vals.length = c.allFields.size) :
    m.heap.construct (contextClass g.type i) vals [] = some (contextValue g.type i c vals) := by
  obtain ⟨k, hk, hfields⟩ := h.context_class hc
  have hlen : (contextKeys g.type c).length = vals.length := by rw [hvals, length_contextKeys]
  have hkeys : ((contextKeys g.type c).zip vals).map (·.1) = contextKeys g.type c :=
    List.map_fst_zip (Nat.le_of_eq hlen)
  have hvalues : ((contextKeys g.type c).zip vals).map (·.2) = vals := List.map_snd_zip (Nat.le_of_eq hlen.symm)
  have hconstruct := Heap.construct_eq_some ((contextKeys g.type c).zip vals) hk (by rw [hkeys]; exact hfields)
    (by rw [hkeys]; exact h.contextKeys_nodup hc)
  rw [hvalues] at hconstruct
  exact hconstruct.1

theorem contextKeys_eq {t : ErrorType} (hvals : vals.length = c.allFields.size) : contextKeys t c =
    (c.allFields.entries.zip vals).map fun p => .within (contextName t c) p.1.1.attribute := by
  have hzip : (c.allFields.entries.zip vals).map (·.1) = c.allFields.entries :=
    List.map_fst_zip (Nat.le_of_eq hvals.symm)
  rw [contextKeys, attributes, List.map_map, ← hzip, List.map_map, hzip]
  rfl

theorem contextKeys_zip {t : ErrorType} : (contextKeys t c).zip vals =
    (c.allFields.entries.zip vals).map fun p => (.within (contextName t c) p.1.1.attribute, p.2) := by
  rw [contextKeys, attributes, List.map_map, List.zip_map_left]
  rfl

theorem matchArgs_context (h : Stands g m) (hc : g.type.kindCases[i]? = some c) :
    m.heap.matchArgs (contextClass g.type i) = contextKeys g.type c := by
  obtain ⟨k, hk, hfields⟩ := h.context_class hc
  rw [Heap.matchArgs, hk]
  show k.fields.getD [] = _
  rw [hfields]
  rfl

/-- A field of a value has the value that was given for it. -/
theorem attr?_field (h : Stands g m) (hc : g.type.kindCases[i]? = some c)
    (hvals : vals.length = c.allFields.size) {p : (FieldKey × ErrorField) × Value}
    (hp : p ∈ c.allFields.entries.zip vals) :
    (contextValue g.type i c vals).attr? m.heap (.within (contextName g.type c) p.1.1.attribute) = some p.2 := by
  have hfield : ((contextKeys g.type c).zip vals).lookup (.within (contextName g.type c) p.1.1.attribute) =
      some p.2 := by
    refine lookup_of_mem ?_ ?_
    · rw [List.map_fst_zip (Nat.le_of_eq (length_contextKeys.trans hvals.symm))]
      exact h.contextKeys_nodup hc
    · rw [contextKeys_zip]
      exact List.mem_map.mpr ⟨p, hp, rfl⟩
  show (((contextKeys g.type c).zip vals).lookup _ <|> _) = _
  rw [hfield]
  rfl

end Stands

end Execution
end TypedErrors
