import TypedErrors.Proofs.Execution.Contexts

/-! # The namespace of a module -/

namespace TypedErrors
namespace Execution

open Code Generated

variable {t : ErrorType} {f f' : Frame}

/-! ### Kinds -/

def kindFunctions (t : ErrorType) : Env :=
  (.plain "from_context", .function) :: if t.isCopy then [(.plain "__copy__", .function)] else []

/-- The base class of the kinds, before anything is attached to it. -/
def kindBaseClass (t : ErrorType) (id : ClassId) : ClassObject where
  ancestors := [id]
  attrs := kindFunctions t

/-- A frame with the base class of the kinds. -/
def Frame.withKindBase (f : Frame) (t : ErrorType) : Frame :=
  { f with heap := f.heap ++ [kindBaseClass t f.heap.length] }.bind "ErrorKind" (.cls f.heap.length)

theorem kindBase_eq : ∃ doc, ((kindBase t).add [classification t]).build =
    .cls "ErrorKind" [.dotted "runtime.ErrorKind"]
      ((if t.isCopy then [.function "__copy__" [.ofText "self"] [.ret (some (.name "self"))] none [] none] else []) ++
        [classification t]) [] doc := by
  obtain ⟨doc, hdoc⟩ := document_eq ((ClassDraft.mk "ErrorKind" [] [] [] none).base [.dotted "runtime.ErrorKind"])
    s!"Classification of :class:\x60{t.ident}\x60 values."
  refine ⟨doc, ?_⟩
  unfold kindBase
  simp only [hdoc]
  cases t.isCopy <;> rfl

theorem load_kindBase (himports : Imports f)
    (h : load f ((kindBase t).add [classification t]).build = some f') : f' = f.withKindBase t := by
  obtain ⟨doc, hdoc⟩ := kindBase_eq (t := t)
  rw [hdoc] at h
  obtain ⟨-, ds, b, hds, hb, rfl⟩ := load_cls_runtime (a := "ErrorKind") himports (by decide) (by decide) h
  obtain rfl : ds = [] := by simpa [evalAll] using hds.symm
  have hcopy : isPrivate "__copy__" = false := by decide
  have hfrom : isPrivate "from_context" = false := by decide
  have hbody : b = { f.body "ErrorKind" with bindings := kindFunctions t } := by
    unfold kindFunctions
    cases ht : t.isCopy <;> rw [ht] at hb <;>
      simpa [loadAll, load, classification, Frame.bind, Frame.body, Key.within_eq_plain hcopy,
        Key.within_eq_plain hfrom] using hb.symm
  subst hbody
  rfl

theorem kindCase_attaches (c : KindCase) : Attaches "ErrorKind" (kindCase t) kindAttachment c := by
  refine ⟨if t.isCopy then .call (.name "dataclass") [] [.mk "frozen" (.constant (.bool true))] else .name "dataclass",
    kindPath t ++ "." ++ c.ident, none, ?_, rfl⟩
  cases t.isCopy
  · exact .name
  · exact .call _ _

/-! ### Functions and the wrapper -/

def exportsEnv (t : ErrorType) : Env :=
  match t.namespaceVisibility with
  | .pub | .crate => [(.plain "__all__", .foreign)]
  | _ => []

theorem loadAll_namespaceExports :
    loadAll f (namespaceExports t) = some { f with bindings := exportsEnv t ++ f.bindings } := by
  have hall : isPrivate "__all__" = false := by decide
  unfold namespaceExports exportsEnv
  cases t.namespaceVisibility <;> simp [loadAll, load, textList, eval, Frame.bind, Key.within_eq_plain hall]

def conversionEnv (owner : String) (cs : List Conversion) : Env :=
  (cs.map fun c => (Key.within owner c.function, Value.function)).reverse

theorem loadAll_conversionFunctions (cs : List Conversion) :
    loadAll f (cs.map (conversionFunction t)) = some { f with bindings := conversionEnv f.owner cs ++ f.bindings } := by
  induction cs generalizing f with
  | nil => rfl
  | cons c cs ih =>
    have hload : load f (conversionFunction t c) = some (f.bind c.function .function) := by
      simp [conversionFunction, load]
    rw [List.map_cons, loadAll, hload]
    show loadAll (f.bind c.function .function) _ = _
    rw [ih]
    simp [conversionEnv, Frame.bind]

/-- A frame with the wrapper, a class of its own. -/
inductive Wrapped (f : Frame) : Frame → Prop
  | mk (c : ClassObject) : Wrapped f
    { f with heap := f.heap ++ [c],
             bindings := (.plain "Result", .foreign) :: (.plain "Error", .cls f.heap.length) :: f.bindings }

theorem errorClass_eq : ∃ type params text result doc, errorClass t =
    .cls "Error" [.dotted "runtime.ContextError"]
      [.annotate "context" type none, .function "kind" params text result [] none] [] doc := by
  obtain ⟨doc, hdoc⟩ := document_eq { name := "Error", bases := [.dotted "runtime.ContextError"] }
    s!"Exception carrying a :class:`{t.ident}` context."
  unfold errorClass
  rw [hdoc]
  exact ⟨_, _, _, _, _, rfl⟩

theorem load_errorClass (himports : Imports f) (h : load f (errorClass t) = some f') :
    ∃ c, f' = { f with heap := f.heap ++ [c] }.bind "Error" (.cls f.heap.length) := by
  obtain ⟨type, params, text, result, doc, hclass⟩ := errorClass_eq (t := t)
  rw [hclass] at h
  obtain ⟨-, ds, b, hds, hb, rfl⟩ := load_cls_runtime (a := "ContextError") himports (by decide) (by decide) h
  obtain rfl : (f.body "Error").bind "kind" .function = b := by simpa [loadAll, load] using hb
  exact ⟨_, rfl⟩

theorem load_conversionRegistry (hlook : f.scope.look (.within f.owner "Error") = some (.cls c))
    (h : loadAll f (conversionRegistry t) = some f') :
    ∃ env, f' = { f with heap := f.heap.addAttrs c env } := by
  unfold conversionRegistry at h
  split at h
  · obtain rfl : f = f' := by simpa using h
    exact ⟨[], by rw [Heap.addAttrs_nil]⟩
  · obtain ⟨f₁, h₁, hnil⟩ := loadAll_cons_eq_some.mp h
    obtain rfl : f₁ = f' := by simpa using hnil
    rw [dotted_pair (a := "Error") (b := "conversions") (by decide) (by decide) (by decide)] at h₁
    have hvalue : ∀ xs, eval f.scope (.tuple xs) = some .foreign := fun _ => rfl
    have htarget : eval f.scope (.name "Error") = some (.cls c) := hlook
    rw [load_assign_attribute (hvalue _) htarget] at h₁
    obtain rfl := Option.some.inj h₁
    exact ⟨[(.within f.owner "conversions", .foreign)], rfl⟩

theorem loadAll_wrapper (himports : Imports f) (h : loadAll f (wrapper t) = some f') : Wrapped f f' := by
  obtain ⟨f₁, h₁, hrest⟩ := loadAll_cons_eq_some.mp h
  obtain ⟨f₂, h₂, hresult⟩ := loadAll_append_eq_some.mp hrest
  obtain ⟨f₃, h₃, hnil⟩ := loadAll_cons_eq_some.mp hresult
  obtain rfl : f₃ = f' := by simpa using hnil
  obtain ⟨c, rfl⟩ := load_errorClass himports h₁
  obtain ⟨env, rfl⟩ := load_conversionRegistry (Frame.look_bind_self _ _ _) h₂
  rw [load_assign_name (v := .foreign) rfl (by decide)] at h₃
  obtain rfl := Option.some.inj h₃
  have herror : Key.within f.owner "Error" = .plain "Error" := Key.within_eq_plain (by decide)
  have hresult : Key.within f.owner "Result" = .plain "Result" := Key.within_eq_plain (by decide)
  unfold Frame.bind
  rw [Heap.addAttrs_length, herror, hresult]
  exact .mk _

/-! ### The whole namespace -/

/-- The functions of the conversions of a type are named after their sources. -/
def FromFunctions (t : ErrorType) : Prop := ∀ c ∈ t.conversions, ∃ s, c.function = "from_" ++ s

theorem lookup_conversionEnv (hfrom : FromFunctions t) (owner : String) {n : String}
    (hn : n.toList.head? ≠ some 'f') (env : Env) :
    List.lookup (.plain n) (conversionEnv owner t.conversions ++ env) = List.lookup (.plain n) env := by
  rw [List.lookup_append, List.lookup_eq_none_iff.mpr, Option.none_or]
  intro p hp
  unfold conversionEnv at hp
  obtain ⟨c, hc, rfl⟩ := List.mem_map.mp (List.mem_reverse.mp hp)
  obtain ⟨s, hs⟩ := hfrom c hc
  have hne : n ≠ c.function := by
    rintro rfl
    rw [hs] at hn
    simp at hn
  exact bne_iff_ne.mpr (Key.plain_ne_within hne)

theorem lookup_exportsEnv {n : String} (hn : n ≠ "__all__") (env : Env) :
    List.lookup (.plain n) (exportsEnv t ++ env) = List.lookup (.plain n) env := by
  unfold exportsEnv
  split
  · exact lookup_cons_of_ne (by rwa [Ne, Key.plain_inj])
  · exact lookup_cons_of_ne (by rwa [Ne, Key.plain_inj])
  · rfl

/-- The classes of the kinds, the first of which is number `k`. -/
def kindClasses (t : ErrorType) (k : ClassId) : Heap :=
  { kindBaseClass t k with
    attrs := attached t.namespaceName (k + 1) (t.kindCases.map kindAttachment) ++ kindFunctions t } ::
  caseClasses [k] (k + 1) (t.kindCases.map kindAttachment)

theorem kind_attachable {c : KindCase} {k : ClassId}
    (hf : f.bindings = (.within f.owner "ErrorKind", .cls k) :: exportsEnv t) :
    Attachable f "ErrorKind" (kindAttachment c) := by
  have htmp : (kindAttachment c).temporary = "_" ++ ("ErrorKind_" ++ c.ident) := by
    simp [kindAttachment, ← String.append_assoc]
  have hne : "ErrorKind" ≠ (kindAttachment c).temporary := by
    rw [htmp]
    exact ne_underscore_append (by decide)
  have hall : "__all__" ≠ (kindAttachment c).temporary := by
    intro h
    have h := congrArg (fun s => s.toList.take 2) h
    simp [kindAttachment] at h
  constructor
  · intro h
    exact (undotted_append.mp h).2
  · intro h
    exact hne (Key.within_inj h)
  · intro p hp h
    rw [hf] at hp
    rcases List.mem_cons.mp hp with rfl | hp
    · exact hne (Key.within_inj h)
    · unfold exportsEnv at hp
      split at hp
      · obtain rfl := List.mem_singleton.mp hp
        exact hall (congrArg Key.name h)
      · obtain rfl := List.mem_singleton.mp hp
        exact hall (congrArg Key.name h)
      · cases hp

/-- The kinds are made below their base. -/
theorem loadAll_kinds (himports : Imports f) (howner : f.owner = t.namespaceName) (hf : f.bindings = exportsEnv t)
    (h : loadAll f (((kindBase t).add [classification t]).build :: kindCases t) = some f') :
    (∀ c ∈ t.kindCases, Undotted c.ident) ∧ f' = { f with
      heap := f.heap ++ kindClasses t f.heap.length
      bindings := (.within f.owner "ErrorKind", .cls f.heap.length) :: f.bindings } := by
  obtain ⟨f₁, h₁, h₂⟩ := loadAll_cons_eq_some.mp h
  obtain rfl := load_kindBase himports h₁
  have himports₁ : Imports (f.withKindBase t) := by
    have h := himports.bind (n := "ErrorKind") (v := .cls f.heap.length) (by decide) (by decide)
    exact ⟨h.dataclass, h.runtime⟩
  have hlook : (f.withKindBase t).scope.look (.within (f.withKindBase t).owner "ErrorKind") =
      some (.cls f.heap.length) := Frame.look_bind_self _ _ _
  have hlt : f.heap.length < (f.withKindBase t).heap.length := by
    show f.heap.length < List.length (f.heap ++ [_])
    simp
  have hbindings : (f.withKindBase t).bindings =
      (.within (f.withKindBase t).owner "ErrorKind", .cls f.heap.length) :: exportsEnv t := by
    rw [← hf]
    rfl
  obtain ⟨hus, rfl⟩ := loadAll_attachments himports₁ (by decide) hlook hlt
    (fun c _ => kindCase_attaches (t := t) c) (fun c _ => kind_attachable hbindings) h₂
  refine ⟨fun c hc => (undotted_append.mp (hus c hc)).2, ?_⟩
  unfold Frame.withCases Frame.withKindBase Frame.bind kindClasses
  simp only [List.length_append, List.length_singleton, Heap.addAttrs_length, Heap.ancestors_length, howner,
    List.append_assoc, List.singleton_append, kindBaseClass]

theorem Imports.body (himports : Imports f) (houter : f.outer = none) (cls : String) : Imports (f.body cls) := by
  have h : ∀ k, (f.body cls).scope.look k = f.scope.look k := by
    intro k
    simp [Frame.body, Frame.scope, houter]
  exact ⟨by rw [h]; exact himports.dataclass, by rw [h]; exact himports.runtime⟩

/-- Bindings of other names in front do not hide the imports. -/
theorem Imports.append {env : Env} (himports : Imports f)
    (henv : ∀ n : String, n = "dataclass" ∨ n = "runtime" →
      List.lookup (.plain n) (env ++ f.bindings) = f.bindings.lookup (.plain n)) :
    Imports { f with bindings := env ++ f.bindings } := by
  constructor
  · rw [← himports.dataclass]
    simp only [Frame.scope, henv _ (.inl rfl)]
  · rw [← himports.runtime]
    simp only [Frame.scope, henv _ (.inr rfl)]

/-- The names that the body of the namespace binds, where `k` and `w` are the numbers of the base class of the
kinds and of the wrapper. -/
def membersEnv (t : ErrorType) (k w : ClassId) : Env :=
  (.plain "Result", .foreign) :: (.plain "Error", .cls w) :: (conversionEnv t.namespaceName t.conversions ++
    (.plain "ErrorKind", .cls k) :: exportsEnv t)

theorem loadAll_members (himports : Imports f) (howner : f.owner = t.namespaceName) (hempty : f.bindings = [])
    (hfrom : FromFunctions t)
    (h : loadAll f (namespaceExports t ++ ((kindBase t).add [classification t]).build :: kindCases t ++
      conversionFunctions t ++ wrapper t) = some f') :
    (∀ c ∈ t.kindCases, Undotted c.ident) ∧ ∃ c, f' = { f with
      heap := f.heap ++ kindClasses t f.heap.length ++ [c]
      bindings := membersEnv t f.heap.length (f.heap ++ kindClasses t f.heap.length).length } := by
  obtain ⟨f₃, h₃, hwrapper⟩ := loadAll_append_eq_some.mp h
  obtain ⟨f₂, h₂, hconversions⟩ := loadAll_append_eq_some.mp h₃
  obtain ⟨f₁, h₁, hkinds⟩ := loadAll_append_eq_some.mp h₂
  have hkey : Key.within f.owner "ErrorKind" = .plain "ErrorKind" := Key.within_eq_plain (by decide)
  -- the list of the members
  rw [loadAll_namespaceExports] at h₁
  have hf₁ := (Option.some.inj h₁).symm
  have himports₁ : Imports f₁ := by
    rw [hf₁]
    exact himports.append fun n hn => lookup_exportsEnv (by rcases hn with rfl | rfl <;> decide) _
  -- the kinds
  obtain ⟨huk, hf₂⟩ := loadAll_kinds himports₁ (by rw [hf₁, howner]) (by rw [hf₁, hempty, List.append_nil]) hkinds
  have himports₂ : Imports f₂ := by
    rw [hf₂]
    have h := himports₁.bind (n := "ErrorKind") (v := .cls f₁.heap.length) (by decide) (by decide)
    exact ⟨h.dataclass, h.runtime⟩
  -- the conversions
  rw [conversionFunctions, loadAll_conversionFunctions] at hconversions
  have hf₃ := (Option.some.inj hconversions).symm
  have himports₃ : Imports f₃ := by
    rw [hf₃]
    exact himports₂.append fun n hn => lookup_conversionEnv hfrom _ (by rcases hn with rfl | rfl <;> decide) _
  -- the wrapper
  obtain ⟨c⟩ := loadAll_wrapper himports₃ hwrapper
  refine ⟨huk, c, ?_⟩
  rw [hf₃, hf₂, hf₁, hempty, howner]
  simp [membersEnv, ← howner, hkey]

/-- The class of the namespace. -/
def membersClass (t : ErrorType) (k w : ClassId) : ClassObject where
  ancestors := [w + 1]
  attrs := membersEnv t k w

/-- A frame with the namespace: the kinds, the wrapper `c` and the class of the namespace. -/
def Frame.withNamespace (f : Frame) (t : ErrorType) (c : ClassObject) : Frame :=
  let heap := f.heap ++ kindClasses t f.heap.length
  { f with heap := heap ++ [c, membersClass t f.heap.length heap.length] }.bind t.namespaceName
    (.cls (heap.length + 1))

theorem load_namespaceClass (himports : Imports f) (houter : f.outer = none) (hfrom : FromFunctions t)
    (h : load f (namespaceClass t) = some f') :
    Undotted t.namespaceName ∧ (∀ c ∈ t.kindCases, Undotted c.ident) ∧ ∃ c, f' = f.withNamespace t c := by
  obtain ⟨hu, bs, ds, b, hbs, hds, hb, rfl⟩ := load_cls_eq_some h
  obtain rfl : bs = [] := by simpa [evalAll] using hbs.symm
  obtain rfl : ds = [] := by simpa [evalAll] using hds.symm
  obtain ⟨huk, c, rfl⟩ := loadAll_members (himports.body houter _) rfl rfl hfrom hb
  refine ⟨hu, huk, c, ?_⟩
  unfold Frame.withNamespace madeClass
  simp [Frame.body, membersClass, List.append_assoc, Nat.add_assoc]

end Execution
end TypedErrors
