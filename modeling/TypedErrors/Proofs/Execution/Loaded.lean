import TypedErrors.Proofs.Execution.Namespace

/-! # The module of a type

What the statements of a type leave behind when they run to the end: the classes in the order in which they are
made, and the names of the module (`loaded`). -/

namespace TypedErrors
namespace Execution

open Code Generated Generation

variable {g : GeneratedType} {t : ErrorType} {f f' m : Frame}

/-- The classes of the contexts, where `w` is the number of the wrapper. -/
def contextClasses (t : ErrorType) (w : ClassId) : Heap :=
  { contextBase t with
    attrs := (.plain "error_type", .cls w) :: (attached "" 1 (contextCases t) ++ contextFunctions) } ::
  caseClasses [0] 1 (contextCases t)

theorem length_caseClasses {above : List ClassId} {first : ClassId} {cs : List Attachment} :
    (caseClasses above first cs).length = cs.length := by
  induction cs generalizing first with
  | nil => rfl
  | cons c cs ih => exact congrArg (· + 1) ih

theorem contextsFrame_heap : (contextsFrame t).heap =
    { contextBase t with attrs := attached "" 1 (contextCases t) ++ contextFunctions } ::
      caseClasses [0] 1 (contextCases t) := by
  unfold contextsFrame Frame.withCases
  rfl

theorem length_contextsFrame_heap : (contextsFrame t).heap.length = kindsClass t := by
  rw [contextsFrame_heap, List.length_cons, length_caseClasses]
  rfl

/-- The number of the wrapper. -/
def wrapperClass (t : ErrorType) : ClassId := kindsClass t + 1 + t.kindCases.length

theorem length_kindClasses {k : ClassId} : (kindClasses t k).length = 1 + t.kindCases.length := by
  rw [kindClasses, List.length_cons, length_caseClasses, List.length_map, Nat.add_comm]

/-- The state of a module after the statements of a type. -/
structure Loaded (g : GeneratedType) (m : Frame) : Prop where
  undotted_ident : Undotted g.type.ident
  undotted_namespace : Undotted g.type.namespaceName
  undotted_cases : ∀ c ∈ g.type.kindCases, Undotted c.ident
  heap : ∃ c, m.heap = contextClasses g.type (wrapperClass g.type) ++ kindClasses g.type (kindsClass g.type) ++
    [c, membersClass g.type (kindsClass g.type) (wrapperClass g.type)]
  bindings : ∃ aliases, m.bindings = aliases ++ (.plain g.type.namespaceName, .cls (wrapperClass g.type + 1)) ::
      (.plain g.type.ident, .cls 0) :: prelude ∧
    ∀ p ∈ aliases, ∃ a ∈ g.aliases, p.1 = .plain a.1

/-- Aliases bind nothing but their own names. -/
theorem loadAll_aliases {aliases : List (String × String)} (howner : f.owner = "") (houter : f.outer = none)
    (h : loadAll f (aliases.map fun (name, member) =>
      .assign (.name name) (.dotted (t.namespaceName ++ "." ++ member))) = some f') :
    ∃ env, f' = { f with bindings := env ++ f.bindings } ∧ ∀ p ∈ env, ∃ a ∈ aliases, p.1 = .plain a.1 := by
  induction aliases generalizing f with
  | nil =>
    obtain rfl : f = f' := by simpa using h
    exact ⟨[], rfl, nofun⟩
  | cons a aliases ih =>
    obtain ⟨f₁, h₁, h₂⟩ := loadAll_cons_eq_some.mp h
    rw [load] at h₁
    obtain ⟨v, -, h₁⟩ := Option.bind_eq_some_iff.mp h₁
    obtain rfl : f.bind a.1 v = f₁ := by simpa [houter] using h₁
    obtain ⟨env, rfl, henv⟩ := ih (f := f.bind a.1 v) howner houter h₂
    refine ⟨env ++ [(.plain a.1, v)], ?_, ?_⟩
    · simp [Frame.bind, howner]
    · intro p hp
      rcases List.mem_append.mp hp with hp | hp
      · obtain ⟨b, hb, hpb⟩ := henv p hp
        exact ⟨b, List.mem_cons_of_mem _ hb, hpb⟩
      · obtain rfl := List.mem_singleton.mp hp
        exact ⟨a, List.mem_cons_self .., rfl⟩

theorem Free.ne_prelude (hfree : Free preludeOwners g) {n : String} (hn : n ∈ g.moduleNames) {m : String}
    (hm : m ∈ preludeNames) : n ≠ m := by
  rintro rfl
  refine hfree.disjoint n hn ?_
  simpa [Owners.names, preludeOwners, Function.comp_def] using hm

theorem ident_mem_moduleNames : g.type.ident ∈ g.moduleNames := List.mem_cons_self ..

theorem namespaceName_mem_moduleNames : g.type.namespaceName ∈ g.moduleNames :=
  List.mem_cons_of_mem _ (List.mem_cons_self ..)

theorem Free.namespaceName_ne_ident {owners : Owners} (hfree : Free owners g) :
    g.type.namespaceName ≠ g.type.ident := by
  intro h
  refine (List.nodup_cons.mp hfree.nodup).1 ?_
  rw [← h]
  exact List.mem_cons_self ..

theorem loaded (hfree : Free preludeOwners g) (hfrom : FromFunctions g.type) (h : moduleOf g = some m) :
    Loaded g m := by
  have hd := Free.ne_prelude hfree ident_mem_moduleNames (m := "dataclass") (by decide)
  have hr := Free.ne_prelude hfree ident_mem_moduleNames (m := "runtime") (by decide)
  obtain ⟨f₁, h₁, hrest⟩ := loadAll_append_eq_some.mp h
  obtain ⟨f₂, h₂, hlevel⟩ := loadAll_cons_eq_some.mp hrest
  obtain ⟨f₃, h₃, haliases⟩ := loadAll_cons_eq_some.mp hlevel
  obtain ⟨hident, hcases, hf₁⟩ := loadAll_contexts hd hr h₁
  have himports : Imports f₁ := by
    rw [hf₁]
    have h := baseFrame_imports hd hr
    exact ⟨h.dataclass, h.runtime⟩
  obtain ⟨hnamespace, hkinds, c, hf₂⟩ := load_namespaceClass himports (by rw [hf₁]; rfl) hfrom h₂
  have hk : f₁.heap.length = kindsClass g.type := by rw [hf₁, length_contextsFrame_heap]
  have hw : (f₁.heap ++ kindClasses g.type (kindsClass g.type)).length = wrapperClass g.type := by
    rw [List.length_append, length_kindClasses, hk]
    exact (Nat.add_assoc ..).symm
  have hheap₂ : f₂.heap = f₁.heap ++ kindClasses g.type (kindsClass g.type) ++
      [c, membersClass g.type (kindsClass g.type) (wrapperClass g.type)] := by
    rw [hf₂]
    simp only [Frame.withNamespace, Frame.bind, hk, hw]
  have howner₁ : f₁.owner = "" := by rw [hf₁]; rfl
  have hbindings₂ : f₂.bindings = (.plain g.type.namespaceName, .cls (wrapperClass g.type + 1)) :: f₁.bindings := by
    rw [hf₂]
    simp only [Frame.withNamespace, Frame.bind, hk, hw, howner₁, Key.within_empty]
  have hbindings₁ : f₁.bindings = (.plain g.type.ident, .cls 0) :: prelude := by rw [hf₁]; rfl
  have howner₂ : f₂.owner = "" := by rw [hf₂, ← howner₁]; rfl
  have hvalue : eval f₂.scope (.attribute (.name g.type.namespaceName) "Error") = some (.cls (wrapperClass g.type)) := by
    have hlook : f₂.scope.look (.plain g.type.namespaceName) = some (.cls (wrapperClass g.type + 1)) := by
      simp [Frame.scope, hbindings₂]
    have hmembers : f₂.heap[wrapperClass g.type + 1]? =
        some (membersClass g.type (kindsClass g.type) (wrapperClass g.type)) := by
      rw [hheap₂, ← hw, List.getElem?_append_right (Nat.le_succ _)]
      simp
    have hattr : f₂.heap.attr? (wrapperClass g.type + 1) (.plain "Error") = some (.cls (wrapperClass g.type)) := by
      rw [Heap.attr?_of_ancestors hmembers rfl]
      rfl
    rw [eval, eval]
    show (f₂.scope.look (.within f₂.owner _)).bind (·.attr? f₂.heap (.within f₂.owner _)) = _
    rw [howner₂, Key.within_empty, Key.within_empty, hlook]
    exact hattr
  have htarget : eval f₂.scope (.name g.type.ident) = some (.cls 0) := by
    have hne : Key.plain g.type.ident ≠ .plain g.type.namespaceName := by
      rw [Ne, Key.plain_inj]
      exact (Free.namespaceName_ne_ident hfree).symm
    show f₂.scope.look (.within f₂.owner _) = _
    rw [howner₂, Key.within_empty]
    simp [Frame.scope, hbindings₂, hbindings₁, lookup_cons_of_ne hne]
  rw [dotted_pair (append_dot_literal (b := "error_type") (by decide)) hident (by decide),
    dotted_pair (append_dot_literal (b := "Error") (by decide)) hnamespace (by decide),
    load_assign_attribute hvalue htarget] at h₃
  have hf₃ := (Option.some.inj h₃).symm
  obtain ⟨aliases, hf, haliases⟩ := loadAll_aliases (by rw [hf₃, hf₂, hf₁]; rfl) (by rw [hf₃, hf₂, hf₁]; rfl) haliases
  refine ⟨hident, hnamespace, hkinds, ⟨c, ?_⟩, aliases, ?_, haliases⟩
  · rw [hf, hf₃]
    show f₂.heap.setAttr 0 (.within f₂.owner "error_type") _ = _
    rw [howner₂, Key.within_empty, hheap₂, hf₁, contextsFrame_heap]
    rfl
  · rw [hf, hf₃]
    show aliases ++ f₂.bindings = _
    rw [hbindings₂, hbindings₁]

end Execution
end TypedErrors
