import Mathlib.Data.List.Pairwise
import TypedErrors.Proofs.Generation.Sources

/-! # Running the body of a namespace

The statements of a namespace bind its members in order: the base class of the kinds, for each case a class that is
attached to it and deleted, the functions of the conversions, and the wrapper. In a type that is built no name is bound
twice, none is looked up before it is bound, and the conversions are registered with functions that make their own
contexts (`build_namespaceRuns`). Names are compared as they are spelled. -/

namespace TypedErrors

namespace Code

variable {s : Stmt} {ss ss' : List Stmt} {bound bound' bound'' : List String} {n : String}
  {meant : Stmt → String → Prop} {m : String}

/-- The names that a statement looks up where it stands. The bodies of functions run later, the bodies of classes look
names up among their own and in the module, and annotations are not evaluated. -/
def Stmt.reads : Stmt → List String
  | .assign target value => target.names.diff target.boundNames ++ value.names
  | .annotate _ _ value | .ret value => (value.map Expr.names).getD []
  | .raise x => x.names
  | .delete targets => Expr.namesAll targets
  | .select subject _ => subject.names
  | .function _ _ _ _ decorators _ => Expr.namesAll decorators
  | .cls _ bases _ decorators _ => Expr.namesAll bases ++ Expr.namesAll decorators
  | .pass | .importModule .. | .importFrom .. => []

/-- The names that are bound after an effect, in the order in which they were bound. A name that is bound is not bound
again, and one that is not bound is not deleted. -/
def bindName? (bound : List String) (e : NameEffect) : Option (List String) :=
  if e.binds then (if e.name ∈ bound then none else some (bound ++ [e.name]))
  else if e.name ∈ bound then some (bound.erase e.name) else none

/-- A run of statements from some names that are bound to others. A name that a statement means is bound where it is
looked up. -/
inductive Runs (meant : Stmt → String → Prop) : List String → List Stmt → List String → Prop
  | nil {bound : List String} : Runs meant bound [] bound
  | cons {bound bound' bound'' : List String} {s : Stmt} {ss : List Stmt}
      (hreads : ∀ n ∈ s.reads, meant s n → n ∈ bound) (heffects : s.effects.foldlM bindName? bound = some bound')
      (h : Runs meant bound' ss bound'') : Runs meant bound (s :: ss) bound''

namespace Runs

theorem append (h : Runs meant bound ss bound') (h' : Runs meant bound' ss' bound'') :
    Runs meant bound (ss ++ ss') bound'' := by
  induction h with
  | nil => exact h'
  | cons hreads heffects _ ih => exact .cons hreads heffects (ih h')

theorem andThen (h : Runs meant bound [s] bound') (h' : Runs meant bound' ss bound'') :
    Runs meant bound (s :: ss) bound'' := h.append h'

theorem bind (hreads : ∀ n ∈ s.reads, meant s n → n ∈ bound) (heffects : s.effects = [{ name := n }])
    (hn : n ∉ bound) : Runs meant bound [s] (bound ++ [n]) := by
  refine .cons hreads ?_ .nil
  rw [heffects, List.foldlM_cons, bindName?, if_pos rfl, if_neg hn]
  rfl

theorem delete (hreads : ∀ n ∈ s.reads, meant s n → n ∈ bound ++ [m])
    (heffects : s.effects = [{ name := m, binds := false }]) (hm : m ∉ bound) :
    Runs meant (bound ++ [m]) [s] bound := by
  have herase : (bound ++ [m]).erase m = bound := by
    rw [List.erase_append_right _ hm, List.erase_cons_head, List.append_nil]
  refine .cons hreads ?_ .nil
  rw [heffects, List.foldlM_cons, bindName?, if_neg Bool.false_ne_true,
    if_pos (List.mem_append_right _ (List.mem_singleton_self m)), herase]
  rfl

theorem quiet (hreads : ∀ n ∈ s.reads, meant s n → n ∈ bound) (heffects : s.effects = []) :
    Runs meant bound [s] bound :=
  .cons hreads (heffects ▸ rfl) .nil

end Runs
end Code

namespace Generation

open Code Generated Execution

variable {s : Settings} {d : Declaration} {t : ErrorType} {n : String} {bound : List String}

/-! ### What the body touches -/

theorem namespaceBody_eq (t : ErrorType) : namespaceBody t = beforeRegistry t ++ conversionRegistry t ++
    [.assign (.name "Result") (.subscript (.name "Union") [.name "T", .name "Error"])] := by
  rw [namespaceBody, wrapper, beforeRegistry]
  simp only [List.append_assoc, List.cons_append, List.nil_append]

/-- The list of exports, in a namespace that can be seen everywhere. -/
def exportNames (t : ErrorType) : List String :=
  match t.namespaceVisibility with
  | .pub | .crate => ["__all__"]
  | _ => []

theorem touched_exports (t : ErrorType) : Stmt.touched (namespaceExports t) = exportNames t := by
  unfold namespaceExports exportNames
  cases t.namespaceVisibility <;> rfl

theorem effects_conversionRegistry (t : ErrorType) : (conversionRegistry t).flatMap Stmt.effects = [] := by
  have hpath : '.' ∈ "Error.conversions".toList := by decide
  unfold conversionRegistry
  split_ifs
  · rfl
  · simp only [List.flatMap_cons, List.flatMap_nil, Stmt.effects, Expr.boundNames_dotted hpath]
    rfl

theorem effects_namespaceBody (t : ErrorType) : (namespaceBody t).flatMap Stmt.effects =
    (exportNames t ++ ["ErrorKind"]).map (fun n => { name := n }) ++
      (kindTemporaries t).flatMap (fun n => [{ name := n }, { name := n, binds := false }]) ++
        (t.conversions.map (·.function) ++ ["Error", "Result"]).map fun n => { name := n } := by
  rw [namespaceBody_eq, List.flatMap_append, List.flatMap_append, effects_beforeRegistry, effects_conversionRegistry,
    touched_exports]
  simp [Stmt.effects, Expr.boundNames]

/-- The names that a namespace has in the end. -/
def finalMembers (t : ErrorType) : List String :=
  exportNames t ++ ["ErrorKind"] ++ t.conversions.map (·.function) ++ ["Error", "Result"]

theorem mem_touched_namespaceBody :
    n ∈ Stmt.touched (namespaceBody t) ↔ n ∈ finalMembers t ∨ n ∈ kindTemporaries t := by
  rw [Stmt.touched, effects_namespaceBody, finalMembers]
  simp [List.map_flatMap]
  grind

/-- What a statement means by the names of the namespace that it looks up. The sources that are registered are looked
up as well, but these are names of the declaration's own. -/
def Meant (t : ErrorType) (s : Stmt) (n : String) : Prop :=
  n ∈ Stmt.touched (namespaceBody t) ∧ (s ∈ conversionRegistry t → n = "Error" ∨ n ∈ t.conversions.map (·.function))

/-- The names that statements bind, each time that they do. -/
def bindings (ss : List Stmt) : List String := ((ss.flatMap Stmt.effects).filter (·.binds)).map (·.name)

theorem bindings_namespaceBody (t : ErrorType) : bindings (namespaceBody t) =
    exportNames t ++ ["ErrorKind"] ++ kindTemporaries t ++ (t.conversions.map (·.function) ++ ["Error", "Result"]) := by
  have hbinds (ns : List String) :
      ((ns.map fun n => ({ name := n } : NameEffect)).filter (·.binds)).map (·.name) = ns := by
    rw [List.filter_eq_self.mpr (List.forall_mem_map.mpr fun _ _ => rfl), List.map_map]
    exact List.map_id ns
  have htemporaries (ns : List String) : ((ns.flatMap fun n =>
      [({ name := n } : NameEffect), { name := n, binds := false }]).filter (·.binds)).map (·.name) = ns := by
    induction ns with
    | nil => rfl
    | cons n ns ih => exact congrArg (n :: ·) ih
  rw [bindings, effects_namespaceBody, List.filter_append, List.filter_append, List.map_append, List.map_append, hbinds,
    hbinds, htemporaries]

theorem mem_exportNames : n ∈ exportNames t ↔
    n = "__all__" ∧ (t.namespaceVisibility = .pub ∨ t.namespaceVisibility = .crate) := by
  unfold exportNames
  cases t.namespaceVisibility <;> simp

theorem touched_cases (hfrom : FromFunctions t) (h : n ∈ Stmt.touched (namespaceBody t)) :
    n ∈ ["__all__", "ErrorKind", "Error", "Result"] ∨ (∃ rest, n = "from_" ++ rest) ∨
      ∃ rest, n = "_ErrorKind_" ++ rest := by
  rw [mem_touched_namespaceBody, finalMembers] at h
  simp only [List.mem_append, List.mem_cons, List.not_mem_nil, or_false] at h ⊢
  rcases h with (((h | h) | h) | h) | h
  · exact .inl (.inl (mem_exportNames.mp h).1)
  · exact .inl (.inr (.inl h))
  · obtain ⟨c, hc, rfl⟩ := List.mem_map.mp h
    exact .inr (.inl (hfrom c hc))
  · exact .inl (.inr (.inr h))
  · obtain ⟨c, -, rfl⟩ := List.mem_map.mp h
    exact .inr (.inr ⟨c.ident, rfl⟩)

theorem isPrivate_of_touched (hfrom : FromFunctions t) (h : n ∈ Stmt.touched (namespaceBody t)) :
    isPrivate n = false := by
  have hlist : ∀ n ∈ ["__all__", "ErrorKind", "Error", "Result"], isPrivate n = false := by decide
  rcases touched_cases hfrom h with h | ⟨rest, rfl⟩ | ⟨rest, rfl⟩
  · exact hlist n h
  · exact isPrivate_append_of_ne (a := 'f') (b := 'r') rfl (by decide)
  · exact isPrivate_append_of_ne (a := '_') (b := 'E') rfl (by decide)

/-- How the names of a namespace begin. -/
def fronts : List (List Char) := [['_', '_'], ['E', 'r'], ['R', 'e'], ['f', 'r'], ['_', 'E']]

theorem take_of_touched (hfrom : FromFunctions t) (h : n ∈ Stmt.touched (namespaceBody t)) :
    n.toList.take 2 ∈ fronts := by
  have hlist : ∀ n ∈ ["__all__", "ErrorKind", "Error", "Result"], n.toList.take 2 ∈ fronts := by decide
  rcases touched_cases hfrom h with h | ⟨rest, rfl⟩ | ⟨rest, rfl⟩
  · exact hlist n h
  · simp [fronts]
  · simp [fronts]

/-- A name of the module is not meant for one of the namespace. -/
theorem not_meant (hfrom : FromFunctions t) {s : Stmt} (h : n.toList.take 2 ∉ fronts) : ¬ Meant t s n :=
  fun hmeant => h (take_of_touched hfrom hmeant.1)

/-! ### Runs of the parts -/

theorem runs_namespaceExports (t : ErrorType) : Runs (Meant t) [] (namespaceExports t) (exportNames t) := by
  have htexts (names : List String) : Expr.namesAll (names.map Expr.text) = [] := by
    induction names with
    | nil => rfl
    | cons n names ih => exact ih
  have hlist (names : List String) : (Stmt.assign (.name "__all__") (textList names)).reads = [] := htexts names
  unfold namespaceExports exportNames
  have hone (names : List String) : Runs (Meant t) [] [.assign (.name "__all__") (textList names)] ["__all__"] :=
    .bind (n := "__all__") (by simp [hlist]) rfl List.not_mem_nil
  cases t.namespaceVisibility
  · exact hone _
  · exact hone _
  · exact .nil
  · exact .nil

/-- The class of a case is bound while it is attached, and not before or afterwards. -/
theorem runs_kindCase (hfrom : FromFunctions t) (c : KindCase) (hkind : "ErrorKind" ∈ bound)
    (hc : (kindAttachment c).temporary ∉ bound) : Runs (Meant t) bound (kindCase t c) bound := by
  obtain ⟨decorator, path, doc, hdecorator, hcase⟩ := kindCase_attaches (t := t) c
  have hnames : decorator.names = ["dataclass"] := by cases hdecorator <;> rfl
  have hpath : '.' ∈ ("ErrorKind" ++ "." ++ (kindAttachment c).name).toList := by simp
  have hroot : rootName ("ErrorKind" ++ "." ++ (kindAttachment c).name) = "ErrorKind" :=
    (rootName_append_dot ..).trans (by decide)
  have hdataclass {s : Stmt} : ¬ Meant t s "dataclass" := not_meant hfrom (by decide)
  rw [hcase, attach]
  refine Runs.andThen (Runs.bind (n := (kindAttachment c).temporary) ?_ rfl hc)
    (Runs.andThen (Runs.quiet ?_ ?_) (Runs.delete ?_ rfl hc))
  · intro n hn hmeant
    simp only [Stmt.reads, Expr.namesAll, Expr.names, hnames, List.append_nil, List.cons_append, List.nil_append,
      List.mem_cons, List.not_mem_nil, or_false] at hn
    rcases hn with rfl | rfl
    · exact hkind
    · exact absurd hmeant hdataclass
  · intro n hn _
    simp only [Stmt.reads, names_dotted, Expr.boundNames_dotted hpath, hroot, Expr.names, List.diff_nil,
      List.cons_append, List.nil_append, List.mem_cons, List.not_mem_nil, or_false] at hn
    rcases hn with rfl | rfl
    · exact List.mem_append_left _ hkind
    · exact List.mem_append_right _ (List.mem_singleton_self _)
  · rw [Stmt.effects, Expr.boundNames_dotted hpath, List.map_nil]
  · intro n hn _
    simp only [Stmt.reads, Expr.namesAll, Expr.names, List.append_nil] at hn
    exact List.mem_append_right _ hn

theorem runs_kindCases (hfrom : FromFunctions t) (hkind : "ErrorKind" ∈ bound)
    (hfree : ∀ n ∈ kindTemporaries t, n ∉ bound) : Runs (Meant t) bound (kindCases t) bound := by
  have hcases : ∀ cs ⊆ t.kindCases, Runs (Meant t) bound (cs.flatMap (kindCase t)) bound := by
    intro cs hcs
    induction cs with
    | nil => exact .nil
    | cons c cs ih =>
      obtain ⟨hc, hcs⟩ := List.cons_subset.mp hcs
      exact (runs_kindCase hfrom c hkind (hfree _ (List.mem_map_of_mem hc))).append (ih hcs)
  exact hcases _ (List.Subset.refl _)

theorem runs_conversionFunctions (hfrom : FromFunctions t) {cs : List Conversion}
    (hnodup : (bound ++ cs.map (·.function)).Nodup) :
    Runs (Meant t) bound (cs.map (conversionFunction t)) (bound ++ cs.map (·.function)) := by
  induction cs generalizing bound with
  | nil =>
    rw [List.map_nil, List.map_nil, List.append_nil]
    exact .nil
  | cons c cs ih =>
    rw [List.map_cons, List.append_cons] at hnodup
    have hfunction : Runs (Meant t) bound [conversionFunction t c] (bound ++ [c.function]) := by
      refine .bind (n := c.function) ?_ rfl ?_
      · intro n hn hmeant
        obtain rfl := List.mem_singleton.mp (show n ∈ ["staticmethod"] from hn)
        exact absurd hmeant (not_meant hfrom (by decide))
      · exact fun hmem => (List.nodup_append.mp hnodup.of_append_left).2.2 _ hmem _ (List.mem_singleton_self _) rfl
    rw [List.map_cons, List.map_cons, List.append_cons]
    exact hfunction.append (ih hnodup)

theorem runs_kindBase (hfrom : FromFunctions t) (hfree : "ErrorKind" ∉ bound) :
    Runs (Meant t) bound [((kindBase t).add [classification t]).build] (bound ++ ["ErrorKind"]) := by
  obtain ⟨doc, hbase⟩ := kindBase_eq (t := t)
  refine .bind (n := "ErrorKind") ?_ (by rw [hbase]; rfl) hfree
  rw [hbase]
  intro n hn hmeant
  simp only [Stmt.reads, Expr.namesAll, names_dotted, List.append_nil, List.mem_singleton] at hn
  subst hn
  exact absurd hmeant (not_meant hfrom (by decide))

theorem runs_errorClass (hfrom : FromFunctions t) (hfree : "Error" ∉ bound) :
    Runs (Meant t) bound [errorClass t] (bound ++ ["Error"]) := by
  obtain ⟨_, _, _, _, _, herror⟩ := errorClass_eq (t := t)
  refine .bind (n := "Error") ?_ (by rw [herror]; rfl) hfree
  rw [herror]
  intro n hn hmeant
  simp only [Stmt.reads, Expr.namesAll, names_dotted, List.append_nil, List.mem_singleton] at hn
  subst hn
  exact absurd hmeant (not_meant hfrom (by decide))

/-- The functions that are registered are bound by then. -/
theorem runs_conversionRegistry (herror : "Error" ∈ bound) (hfunctions : ∀ c ∈ t.conversions, c.function ∈ bound) :
    Runs (Meant t) bound (conversionRegistry t) bound := by
  have hmeant : ∀ s ∈ conversionRegistry t, ∀ n ∈ s.reads, Meant t s n → n ∈ bound := by
    intro s hs n _ hmeant
    rcases hmeant.2 hs with rfl | hn
    · exact herror
    · obtain ⟨c, hc, rfl⟩ := List.mem_map.mp hn
      exact hfunctions c hc
  have heffects := effects_conversionRegistry t
  have hlength : (conversionRegistry t).length ≤ 1 := by
    unfold conversionRegistry
    split_ifs <;> simp
  match hregistry : conversionRegistry t, hlength with
  | [], _ => exact .nil
  | [s], _ =>
    rw [hregistry] at hmeant heffects
    exact .quiet (hmeant s (List.mem_singleton_self s)) (by simpa using heffects)

theorem runs_namespaceBody (hfrom : FromFunctions t) (hnodup : (bindings (namespaceBody t)).Nodup) :
    Runs (Meant t) [] (namespaceBody t) (finalMembers t) := by
  have hresult : finalMembers t = exportNames t ++ ["ErrorKind"] ++ t.conversions.map (·.function) ++ ["Error"] ++
      ["Result"] := by simp [finalMembers]
  have hmembers : (finalMembers t).Nodup := by
    rw [bindings_namespaceBody] at hnodup
    refine hnodup.sublist ?_
    rw [finalMembers, List.append_assoc _ (t.conversions.map _)]
    exact (List.sublist_append_left _ _).append (List.Sublist.refl _)
  have hlast {front : List String} {n : String} (h : (front ++ [n]).Nodup) : n ∉ front := fun hmem =>
    (List.nodup_append.mp h).2.2 _ hmem _ (List.mem_singleton_self n) rfl
  rw [hresult] at hmembers
  have herror := hmembers.of_append_left
  have hfunctions := herror.of_append_left
  have hkind := hfunctions.of_append_left
  have htemporaries : ∀ n ∈ kindTemporaries t, n ∉ exportNames t ++ ["ErrorKind"] := by
    rw [bindings_namespaceBody] at hnodup
    exact fun n hn hmem => (List.nodup_append.mp hnodup.of_append_left).2.2 n hmem n hn rfl
  have hresultRuns : Runs (Meant t) (exportNames t ++ ["ErrorKind"] ++ t.conversions.map (·.function) ++ ["Error"])
      [.assign (.name "Result") (.subscript (.name "Union") [.name "T", .name "Error"])]
      (exportNames t ++ ["ErrorKind"] ++ t.conversions.map (·.function) ++ ["Error"] ++ ["Result"]) := by
    refine .bind (n := "Result") ?_ rfl (hlast hmembers)
    intro n hn hmeant
    have hnames : n = "Union" ∨ n = "T" ∨ n = "Error" := by
      simpa [Stmt.reads, Expr.names, Expr.namesAll, Expr.boundNames] using hn
    rcases hnames with rfl | rfl | rfl
    · exact absurd hmeant (not_meant hfrom (by decide))
    · exact absurd hmeant (not_meant hfrom (by decide))
    · exact List.mem_append_right _ (List.mem_singleton_self _)
  have hkinds := (runs_kindBase hfrom (hlast hkind)).append
    (runs_kindCases hfrom (List.mem_append_right _ (List.mem_singleton_self _)) htemporaries)
  have hregistry : Runs (Meant t) (exportNames t ++ ["ErrorKind"] ++ t.conversions.map (·.function) ++ ["Error"])
      (conversionRegistry t) _ := runs_conversionRegistry
    (List.mem_append_right _ (List.mem_singleton_self _))
    fun c hc => List.mem_append_left _ (List.mem_append_right _ (List.mem_map_of_mem hc))
  rw [namespaceBody_eq, beforeRegistry, hresult]
  exact (((((runs_namespaceExports t).append hkinds).append (runs_conversionFunctions hfrom hfunctions)).append
    (runs_errorClass hfrom (hlast herror))).append hregistry).append hresultRuns

/-! ### Names apart -/

theorem nodup_kindTemporaries (hcases : (t.kindCases.map (·.ident)).Nodup) : (kindTemporaries t).Nodup := by
  have htemporaries : kindTemporaries t = (t.kindCases.map (·.ident)).map ("_ErrorKind_" ++ ·) := by
    rw [kindTemporaries, List.map_map]
    rfl
  rw [htemporaries]
  exact hcases.map fun _ _ h => (String.append_right_inj _).mp h

theorem nodup_bindings (hfrom : FromFunctions t) (hfunctions : (t.conversions.map (·.function)).Nodup)
    (hcases : (t.kindCases.map (·.ident)).Nodup) : (bindings (namespaceBody t)).Nodup := by
  have hexports : (exportNames t ++ ["ErrorKind"]).Nodup := by
    unfold exportNames
    split <;> decide
  have hfront : ∀ n ∈ exportNames t ++ ["ErrorKind"], n = "__all__" ∨ n = "ErrorKind" := by
    rw [List.forall_mem_append, List.forall_mem_singleton]
    exact ⟨fun n hn => .inl (mem_exportNames.mp hn).1, .inr rfl⟩
  have htemporary : ∀ n ∈ kindTemporaries t, n.toList.take 2 = ['_', 'E'] :=
    List.forall_mem_map.mpr fun c _ => by simp [kindAttachment]
  have hfunction : ∀ n ∈ t.conversions.map (·.function), n.toList.take 2 = ['f', 'r'] := by
    rw [List.forall_mem_map]
    intro c hc
    obtain ⟨rest, hrest⟩ := hfrom c hc
    rw [hrest]
    simp
  have hwrapper : ∀ n ∈ ["Error", "Result"], n ≠ "__all__" ∧ n ≠ "ErrorKind" ∧ n.toList.take 2 ≠ ['_', 'E'] ∧
      n.toList.take 2 ≠ ['f', 'r'] := by decide
  rw [bindings_namespaceBody]
  refine List.nodup_append.mpr ⟨List.nodup_append.mpr ⟨hexports, nodup_kindTemporaries hcases, ?_⟩,
    List.nodup_append.mpr ⟨hfunctions, by decide, ?_⟩, ?_⟩
  · rintro n hn _ hm rfl
    have htake := htemporary n hm
    rcases hfront n hn with rfl | rfl <;> exact absurd htake (by decide)
  · rintro n hn _ hm rfl
    exact (hwrapper n hm).2.2.2 (hfunction n hn)
  · rintro n hn _ hm rfl
    rcases List.mem_append.mp hn with hn | hn
    · rcases List.mem_append.mp hm with hm | hm
      · have htake := hfunction n hm
        rcases hfront n hn with rfl | rfl <;> exact absurd htake (by decide)
      · obtain ⟨hall, hkind, -⟩ := hwrapper n hm
        exact (hfront n hn).elim hall hkind
    · rcases List.mem_append.mp hm with hm | hm
      · exact absurd ((htemporary n hn).symm.trans (hfunction n hm)) (by decide)
      · exact (hwrapper n hm).2.2.1 (htemporary n hn)

/-- The statement that binds a name that is bound once. -/
theorem eq_of_binds {ss : List Stmt} {s s' : Stmt} (h : (bindings ss).Nodup) (hs : s ∈ ss) (hs' : s' ∈ ss)
    (hn : { name := n } ∈ s.effects) (hn' : { name := n } ∈ s'.effects) : s = s' := by
  have hbinds {s : Stmt} (hn : { name := n } ∈ s.effects) : n ∈ (s.effects.filter (·.binds)).map (·.name) :=
    List.mem_map_of_mem (List.mem_filter.mpr ⟨hn, rfl⟩)
  have hsymm : Std.Symm (Function.onFun List.Disjoint fun s : Stmt => (s.effects.filter (·.binds)).map (·.name)) :=
    ⟨fun _ _ h => List.disjoint_symm h⟩
  rw [bindings, List.filter_flatMap, List.map_flatMap] at h
  by_contra hne
  exact (List.nodup_flatMap.mp h).2.forall hs hs' hne (hbinds hn) (hbinds hn')

/-! ### Declared conversions -/

/-- The sources that a declaration asks to be converted, in order, each with the variant that declares it. -/
def declaredConversions (ns : String) (d : Declaration) : Option (List (SymbolPath × Option String)) :=
  match d.shape with
  | .struct _ => (ErrorType.declaredSources ns d.attrs).map fun sources => sources.map (·, none)
  | .enum variants =>
    (variants.mapM fun v => (ErrorType.declaredSources ns v.attrs).map fun sources => sources.map (·, some v.ident)).map
      List.flatten
  | .union _ => none

/-- The class of a context. -/
def contextClass (t : ErrorType) (variant : Option String) : Expr :=
  match variant with
  | none => .name t.ident
  | some v => .dotted (t.ident ++ "." ++ v)

/-- A function takes the exceptions of a source to the context that declares the source, and is all that its name is
bound to. -/
structure Converts (t : ErrorType) (q : SymbolPath × Option String) (function : String) : Prop where
  member : function ∈ finalMembers t
  defined : ∃ s ∈ beforeRegistry t, (∀ s' ∈ namespaceBody t, { name := function } ∈ s'.effects ↔ s' = s) ∧
    ∃ result, s = .function function [.ofText "err" q.1.text]
      [.ret (some (.apply (.attribute (.apply (contextClass t q.2) []) "into_error") [.name "err"]))] result
      [.name "staticmethod"] none

theorem declaredConversions_of_wellFormed (h : ErrorType.WellFormed s d t) : ∃ sources,
    declaredConversions s.attributeNamespace d = some sources ∧
      t.conversions = sources.map fun q => ErrorType.conversionInto q.2 q.1 := by
  rw [h.conversions]
  have hshape := h.shape
  generalize t.shape = shape at hshape ⊢
  cases hshape with
  | @struct fields built description sources hd hc =>
    refine ⟨sources.map (·, none), ?_, ?_⟩
    · rw [declaredConversions, hd]
      show Option.map _ (ErrorType.declaredSources _ _) = _
      rw [hc.declared_sources]
      rfl
    · rw [List.map_map]
      rfl
  | @enum variants built hd hc hnames =>
    have hvariants : variants.mapM (fun v => (ErrorType.declaredSources s.attributeNamespace v.attrs).map fun sources =>
        sources.map (·, some v.ident)) = some (built.map fun b => b.sources.map (·, some b.ident)) := by
      clear hd hnames
      induction hc with
      | nil => rfl
      | cons hb _ ih =>
        rw [List.mapM_cons, hb.2.declared_sources, ih, ← hb.1]
        rfl
    refine ⟨built.flatMap fun b => b.sources.map (·, some b.ident), ?_, ?_⟩
    · rw [declaredConversions, hd]
      show Option.map _ (variants.mapM _) = _
      rw [hvariants]
      rfl
    · rw [List.map_flatMap]
      simp only [List.map_map]
      rfl

/-- What becomes of the body of a namespace. -/
structure NamespaceRuns (s : Settings) (d : Declaration) (t : ErrorType) : Prop where
  class_eq : ∃ doc, namespaceClass t = .cls t.namespaceName [] (namespaceBody t) [] doc
  spelled : ∀ n ∈ Stmt.touched (namespaceBody t), nameIn t.namespaceName n = n
  runs : Runs (Meant t) [] (namespaceBody t) (finalMembers t)
  once : (bindings (namespaceBody t)).Nodup
  functions : FromFunctions t
  /-- The classes of the cases are bound and deleted. -/
  cases : ∀ c ∈ t.kindCases, { name := "_ErrorKind_" ++ c.ident } ∈ (namespaceBody t).flatMap Stmt.effects ∧
    { name := "_ErrorKind_" ++ c.ident, binds := false } ∈ (namespaceBody t).flatMap Stmt.effects ∧
      "_ErrorKind_" ++ c.ident ∉ finalMembers t
  exports : ∀ value, .assign (.name "__all__") value ∈ namespaceBody t → ∃ names, value = textList names ∧
    names.Nodup ∧ ∀ n, n ∈ names ↔ n ∈ finalMembers t ∧ n ≠ "__all__"
  /-- The conversions are registered in the order in which they are declared, behind the functions. -/
  registry : ∃ sources later, declaredConversions s.attributeNamespace d = some sources ∧
    namespaceBody t = beforeRegistry t ++ conversionRegistry t ++ later ∧
    List.Forall₂ (Converts t) sources (t.conversions.map (·.function)) ∧
    conversionRegistry t = if sources = [] then [] else [.assign (.dotted "Error.conversions")
      (.tuple (List.zipWith (fun q function => .tuple [.dotted q.1.text, .name function]) sources
        (t.conversions.map (·.function))))]

theorem nodup_cases_of_wellFormed (h : ErrorType.WellFormed s d t) : (t.kindCases.map (·.ident)).Nodup := by
  have hshape := h.shape
  unfold ErrorType.kindCases
  generalize t.shape = shape at hshape
  cases hshape with
  | struct hd hc => exact List.nodup_singleton _
  | enum hd hc hnames =>
    rw [List.map_map]
    exact hnames

theorem temporary_not_mem_finalMembers (hnodup : (bindings (namespaceBody t)).Nodup) :
    ∀ n ∈ kindTemporaries t, n ∉ finalMembers t := by
  rw [bindings_namespaceBody] at hnodup
  obtain ⟨hfront, -, hback⟩ := List.nodup_append.mp hnodup
  intro n hn hmem
  rw [finalMembers, List.append_assoc _ (t.conversions.map _)] at hmem
  rcases List.mem_append.mp hmem with hmem | hmem
  · exact (List.nodup_append.mp hfront).2.2 n hmem n hn rfl
  · exact hback n (List.mem_append_right _ hn) n hmem rfl

/-- The list of exports holds the other members. -/
theorem exports_of_mem (hfrom : FromFunctions t) (hnodup : (bindings (namespaceBody t)).Nodup) {value : Expr}
    (h : .assign (.name "__all__") value ∈ namespaceBody t) : ∃ names, value = textList names ∧ names.Nodup ∧
      ∀ n, n ∈ names ↔ n ∈ finalMembers t ∧ n ≠ "__all__" := by
  have hfunctions : "__all__" ∉ t.conversions.map (·.function) := by
    intro hmem
    obtain ⟨c, hc, hall⟩ := List.mem_map.mp hmem
    obtain ⟨rest, hrest⟩ := hfrom c hc
    have hhead := congrArg (·.toList.head?) (hrest.symm.trans hall)
    simp at hhead
  have htouched : "__all__" ∈ Stmt.touched (namespaceBody t) :=
    List.mem_map.mpr ⟨{ name := "__all__" }, List.mem_flatMap.mpr ⟨_, h, List.mem_singleton_self _⟩, rfl⟩
  have hvisible : "__all__" ∈ exportNames t := by
    rw [mem_touched_namespaceBody, finalMembers] at htouched
    simp only [List.mem_append, List.mem_cons, List.not_mem_nil, or_false, hfunctions] at htouched
    rcases htouched with (hall | hall) | hall
    · exact hall.resolve_right (by decide)
    · exact absurd hall (by decide)
    · obtain ⟨c, -, hc⟩ := List.mem_map.mp hall
      have htake := congrArg (·.toList.take 2) hc
      simp [kindAttachment] at htake
  have hexports : .assign (.name "__all__") (textList (namespaceMembers t)) ∈ namespaceExports t := by
    unfold namespaceExports
    rcases (mem_exportNames.mp hvisible).2 with hv | hv <;> rw [hv] <;> exact List.mem_singleton_self _
  have hbody : .assign (.name "__all__") (textList (namespaceMembers t)) ∈ namespaceBody t := by
    rw [namespaceBody, List.append_assoc, List.append_assoc]
    exact List.mem_append_left _ hexports
  obtain ⟨-, rfl⟩ := Stmt.assign.inj
    (eq_of_binds (n := "__all__") hnodup h hbody (List.mem_singleton_self _) (List.mem_singleton_self _))
  refine ⟨namespaceMembers t, rfl, ?_, fun n => ?_⟩
  · rw [bindings_namespaceBody, List.append_assoc, List.append_assoc] at hnodup
    have hmembers : (["ErrorKind"] ++ (t.conversions.map (·.function) ++ ["Error", "Result"])).Nodup :=
      hnodup.of_append_right.sublist ((List.Sublist.refl _).append (List.sublist_append_right _ _))
    exact ((List.perm_append_comm.append_left _).nodup_iff).mp hmembers
  · have hall : n = "__all__" → n ∉ namespaceMembers t := by
      rintro rfl
      simpa [namespaceMembers] using hfunctions
    constructor
    · intro hn
      refine ⟨?_, fun heq => hall heq hn⟩
      simp only [namespaceMembers, finalMembers, List.mem_append, List.mem_cons, List.not_mem_nil, or_false] at hn ⊢
      tauto
    · rintro ⟨hn, hne⟩
      have hexport : n ∉ exportNames t := fun hmem => hne (mem_exportNames.mp hmem).1
      simp only [namespaceMembers, finalMembers, List.mem_append, List.mem_cons, List.not_mem_nil, or_false,
        hexport] at hn ⊢
      tauto

theorem converts_of_mem (hnodup : (bindings (namespaceBody t)).Nodup) {c : Conversion} (hc : c ∈ t.conversions) :
    Converts t (c.source, c.variant) c.function := by
  have hmem : conversionFunction t c ∈ beforeRegistry t :=
    List.mem_append_left _ (List.mem_append_right _ (List.mem_map_of_mem hc))
  have hbody : conversionFunction t c ∈ namespaceBody t := by
    rw [namespaceBody_eq]
    exact List.mem_append_left _ (List.mem_append_left _ hmem)
  refine ⟨List.mem_append_left _ (List.mem_append_right _ (List.mem_map_of_mem hc)), _, hmem,
    fun s' hs' => ⟨fun h => ?_, ?_⟩, ?_⟩
  · exact eq_of_binds hnodup hs' hbody h (List.mem_singleton_self _)
  · rintro rfl
    exact List.mem_singleton_self _
  · refine ⟨some (.dotted (t.namespaceName ++ ".Error")), ?_⟩
    unfold conversionFunction convertedContext contextClass
    cases c.variant <;> rfl

/-- In a type that is built the body of the namespace can be run, and its members are what it is meant to have. -/
theorem build_namespaceRuns (h : ErrorType.build s d = .ok t) : NamespaceRuns s d t := by
  have hwell := ErrorType.build_wellFormed h
  have hfrom := fromFunctions_of_fromSources (ErrorType.build_fromSources h)
  have hnodup := nodup_bindings hfrom hwell.functions (nodup_cases_of_wellFormed hwell)
  refine ⟨namespaceClass_eq t, fun n hn => nameIn_of_public (isPrivate_of_touched hfrom hn),
    runs_namespaceBody hfrom hnodup, hnodup, hfrom, fun c hc => ?_, fun value => exports_of_mem hfrom hnodup, ?_⟩
  · have hmem : "_ErrorKind_" ++ c.ident ∈ kindTemporaries t := List.mem_map_of_mem hc
    refine ⟨?_, ?_, temporary_not_mem_finalMembers hnodup _ hmem⟩ <;>
      exact effects_namespaceBody t ▸ List.mem_append_left _ (List.mem_append_right _
        (List.mem_flatMap_of_mem hmem (by simp)))
  · obtain ⟨sources, hdeclared, hconversions⟩ := declaredConversions_of_wellFormed hwell
    refine ⟨sources, _, hdeclared, namespaceBody_eq t, ?_, ?_⟩
    · rw [hconversions, List.map_map, List.forall₂_map_right_iff, List.forall₂_same]
      intro q hq
      exact converts_of_mem hnodup (hconversions ▸ List.mem_map_of_mem hq)
    · have hzip (qs : List (SymbolPath × Option String)) : List.zipWith (fun q function =>
          Expr.tuple [.dotted q.1.text, .name function]) qs ((qs.map fun q => ErrorType.conversionInto q.2 q.1).map
            (·.function)) = (qs.map fun q => ErrorType.conversionInto q.2 q.1).map
              fun c => .tuple [.dotted c.source.text, .name c.function] := by
        induction qs with
        | nil => rfl
        | cons q qs ih => exact congrArg (_ :: ·) ih
      rw [conversionRegistry, hconversions, hzip]
      cases sources <;> rfl

/-- A public enum, one of whose two cases is converted into. -/
theorem convertedEnum_namespaceRuns : ∃ t, ErrorType.build {} ErrorType.convertedEnum = .ok t ∧
    finalMembers t = ["__all__", "ErrorKind", "from_os_error", "Error", "Result"] ∧
      kindTemporaries t = ["_ErrorKind_Io", "_ErrorKind_Code"] ∧ NamespaceRuns {} ErrorType.convertedEnum t := by
  have h : (ErrorType.build {} ErrorType.convertedEnum).toOption.any (fun t =>
      finalMembers t == ["__all__", "ErrorKind", "from_os_error", "Error", "Result"] &&
        kindTemporaries t == ["_ErrorKind_Io", "_ErrorKind_Code"]) = true := by
    decide +kernel
  obtain ⟨t, ht, h⟩ := exists_of_any_toOption h
  simp only [Bool.and_eq_true, beq_iff_eq] at h
  exact ⟨t, ht, h.1, h.2, build_namespaceRuns ht⟩

end Generation
end TypedErrors
