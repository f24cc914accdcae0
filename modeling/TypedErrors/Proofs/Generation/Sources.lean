import TypedErrors.Proofs.Execution.Reach
import TypedErrors.Proofs.Generation.Bound
import TypedErrors.Proofs.Generation.Members

/-! # What the sources of conversions refer to

The conversions of a type are registered in the class of its namespace, and there the root of each source is looked up:
first among the members that the class has by then, then in the module. The modules of dotted sources are imported
before that, unless an import of the file has the root. What else binds the root, in the class or in the module, is not
looked at (`source_of_ofSource`). Names are compared as they are spelled. -/

namespace TypedErrors
namespace Generated

open Code

variable {s : Settings} {imports : List Import} {types : List GeneratedType} {g : GeneratedType} {i : Import}
  {n root : String} {j k : Nat} {p : Part} {owner : Option Part} {es : List NameEffect} {q : Part × List Stmt}
  {l : List (Part × List Stmt)} {c : Conversion} {bound : List String}

/-! ### Who bound a name -/

/-- Who has a name that is touched does not depend on who had it before. -/
theorem foldl_rebind_of_touched (h : n ∈ es.map (·.name)) (owner owner' : Option Part) :
    es.foldl (rebind n p) owner = es.foldl (rebind n p) owner' := by
  induction es generalizing owner owner' with
  | nil => cases h
  | cons e es ih =>
    rw [List.foldl_cons, List.foldl_cons]
    by_cases hes : n ∈ es.map (·.name)
    · exact ih hes _ _
    · rw [List.map_cons, List.mem_cons] at h
      have he : e.name = n := (h.resolve_right hes).symm
      rw [rebind, if_pos he, rebind, if_pos he]

/-- Who has a name in the end had it before, or is a part that leaves it bound. -/
theorem exists_of_binderAfter (h : binderAfter n owner l = some p) :
    owner = some p ∨ ∃ q ∈ l, q.1 = p ∧ binderAfterPart n none q = some p := by
  induction l generalizing owner with
  | nil => exact .inl h
  | cons q l ih =>
    have hrest : binderAfter n (binderAfterPart n owner q) l = some p := h
    rcases ih hrest with hq | ⟨q', hq', hpart⟩
    · by_cases hn : n ∈ Stmt.touched q.2
      · have hnone : binderAfterPart n none q = some p := (foldl_rebind_of_touched hn none owner).trans hq
        rcases foldl_rebind_of_mem q.1 none hn with hown | hdeleted
        · exact .inr ⟨q, List.mem_cons_self .., Option.some.inj (hown.symm.trans hnone), hnone⟩
        · cases hdeleted.symm.trans hnone
      · rw [binderAfterPart, foldl_rebind_of_not_mem hn] at hq
        exact .inl hq
    · exact .inr ⟨q', List.mem_cons_of_mem _ hq', hpart⟩

theorem touched_of_binderAfterPart (h : binderAfterPart n none q = some p) : n ∈ Stmt.touched q.2 := by
  by_contra hn
  rw [binderAfterPart, foldl_rebind_of_not_mem hn] at h
  cases h

theorem foldl_rebind_temporaries (ms : List String) :
    (ms.flatMap fun m => [{ name := m }, { name := m, binds := false }]).foldl (rebind n p) none = none := by
  induction ms with
  | nil => rfl
  | cons m ms ih =>
    have hpair : [{ name := m }, { name := m, binds := false }].foldl (rebind n p) none = none := by
      by_cases hm : m = n <;> simp [rebind, hm]
    rw [List.flatMap_cons, List.foldl_append, hpair, ih]

theorem eq_ident_of_contexts {t : ErrorType} (h : binderAfterPart n none (.type k, contexts t) = some p) :
    n = t.ident := by
  by_contra hn
  rw [binderAfterPart, effects_contexts, List.foldl_cons, rebind, if_neg (Ne.symm hn), foldl_rebind_temporaries] at h
  cases h

theorem mem_moduleNames_of_statements (h : binderAfterPart n none (.type k, g.statements) = some p) :
    n ∈ g.moduleNames := by
  by_contra hn
  rw [GeneratedType.moduleNames, List.mem_cons, not_or] at hn
  have hrest : n ∉ ((({ name := g.type.namespaceName } : NameEffect) :: g.aliases.map fun a => { name := a.1 }).map
      (·.name)) := by
    simpa [Function.comp_def] using hn.2
  rw [binderAfterPart, effects_statements, List.foldl_append, foldl_rebind_of_not_mem hrest, List.foldl_cons, rebind,
    if_neg (Ne.symm hn.1), foldl_rebind_temporaries] at h
  cases h

/-! ### Modules of sources -/

/-- The import of the module that a dotted source is in. -/
def moduleImport (c : Conversion) : Stmt := .importModule (joinWith "." c.source.parts.dropLast) none

/-- The sources of all conversions are references of names. -/
def SourcesNamed (types : List GeneratedType) : Prop := ∀ g ∈ types, ∀ c ∈ g.type.conversions, c.source.Named

theorem sourceModule?_eq_some_iff {m : String} : sourceModule? bound c = some m ↔
    1 < c.source.parts.length ∧ (∀ root ∈ c.source.parts.head?, root ∉ bound) ∧
      m = joinWith "." c.source.parts.dropLast := by
  unfold sourceModule?
  cases hparts : c.source.parts with
  | nil => simp
  | cons root rest =>
    cases rest with
    | nil => simp
    | cons a rest =>
      simp only [List.contains_eq_mem, decide_eq_true_eq]
      split_ifs with hbound
      · simp [hbound]
      · simp [hbound, eq_comm]

theorem mem_conversionImports {stmt : Stmt} : stmt ∈ conversionImports bound types ↔
    ∃ g ∈ types, ∃ c ∈ g.type.conversions,
      stmt = moduleImport c ∧ 1 < c.source.parts.length ∧ ∀ root ∈ c.source.parts.head?, root ∉ bound := by
  rw [conversionImports, List.mem_map]
  simp only [List.mem_eraseDups, List.mem_flatMap, List.mem_filterMap, sourceModule?_eq_some_iff]
  constructor
  · rintro ⟨m, ⟨g, hg, c, hc, hlength, hroot, rfl⟩, rfl⟩
    exact ⟨g, hg, c, hc, rfl, hlength, hroot⟩
  · rintro ⟨g, hg, c, hc, rfl, hlength, hroot⟩
    exact ⟨_, ⟨g, hg, c, hc, hlength, hroot, rfl⟩, rfl⟩

theorem dottedParts_module (h : c.source.Named) (hlength : 1 < c.source.parts.length) :
    dottedParts (joinWith "." c.source.parts.dropLast) = c.source.parts.dropLast := by
  rw [joinWith_eq_intercalate]
  refine Execution.dottedParts_intercalate ?_ fun a ha => h.undotted a (List.dropLast_subset _ ha)
  rw [← List.length_pos_iff, List.length_dropLast]
  omega

theorem exists_head? {α : Type} {l : List α} (h : 1 < l.length) : ∃ a, l.head? = some a := by
  match l with
  | a :: _ => exact ⟨a, rfl⟩

theorem head?_dropLast {α : Type} {l : List α} (h : 1 < l.length) : l.dropLast.head? = l.head? := by
  match l with
  | _ :: _ :: _ => rfl

theorem effects_moduleImport (h : c.source.Named) (hparts : c.source.parts.head? = some root)
    (hlength : 1 < c.source.parts.length) : (moduleImport c).effects = [{ name := root }] := by
  rw [moduleImport, Stmt.effects, importedName, dottedParts_module h hlength, head?_dropLast hlength, hparts]
  rfl

/-- The module of a dotted source is imported exactly if no import of the file has its root. -/
theorem moduleImport_mem_iff (hnamed : SourcesNamed types) (hg : g ∈ types) (hc : c ∈ g.type.conversions)
    (hroot : c.source.parts.head? = some root) (hlength : 1 < c.source.parts.length) :
    moduleImport c ∈ conversionImports bound types ↔ root ∉ bound := by
  rw [mem_conversionImports]
  constructor
  · rintro ⟨g', hg', c', hc', hsame, hlength', hbound⟩
    obtain ⟨root', hroot'⟩ := exists_head? hlength'
    have heffects := congrArg Stmt.effects hsame
    rw [effects_moduleImport (hnamed g hg c hc) hroot hlength,
      effects_moduleImport (hnamed g' hg' c' hc') hroot' hlength'] at heffects
    obtain rfl : root = root' := congrArg NameEffect.name (List.cons.inj heffects).1
    exact hbound root hroot'
  · intro hbound
    refine ⟨g, hg, c, hc, rfl, hlength, fun r hr => ?_⟩
    obtain rfl := Option.some.inj (hroot.symm.trans hr)
    exact hbound

theorem mem_automaticRoots (hnamed : SourcesNamed types) : n ∈ automaticRoots imports types ↔
    ∃ g ∈ types, ∃ c ∈ g.type.conversions, c.source.parts.head? = some n ∧ 1 < c.source.parts.length ∧
      ∀ i ∈ imports, i.boundName ≠ n := by
  have hbound : ∀ m, m ∉ imports.map (·.boundName) ↔ ∀ i ∈ imports, i.boundName ≠ m := by simp
  rw [automaticRoots, Stmt.touched, List.mem_map]
  constructor
  · rintro ⟨e, he, rfl⟩
    obtain ⟨stmt, hstmt, he⟩ := List.mem_flatMap.mp he
    obtain ⟨g, hg, c, hc, rfl, hlength, hroots⟩ := mem_conversionImports.mp hstmt
    obtain ⟨root, hroot⟩ := exists_head? hlength
    rw [effects_moduleImport (hnamed g hg c hc) hroot hlength, List.mem_singleton] at he
    subst he
    exact ⟨g, hg, c, hc, hroot, hlength, (hbound _).mp (hroots root hroot)⟩
  · rintro ⟨g, hg, c, hc, hroot, hlength, himports⟩
    refine ⟨{ name := n }, List.mem_flatMap.mpr ⟨moduleImport c, ?_, ?_⟩, rfl⟩
    · exact (moduleImport_mem_iff hnamed hg hc hroot hlength).mpr ((hbound n).mpr himports)
    · rw [effects_moduleImport (hnamed g hg c hc) hroot hlength]
      exact List.mem_singleton_self _

/-! ### The module before a namespace -/

/-- The parts after the imports, with the types that are shown. -/
def afterAutomatic (s : Settings) (types shown : List GeneratedType) : List (Part × List Stmt) :=
  (.prelude, closing s) :: (.exports, exportList types) :: shown.zipIdx.map fun q => (.type q.2, q.1.statements)

/-- The parts before the namespace of the type number `k`, the last of them with its contexts only. -/
def beforeNamespace (s : Settings) (imports : List Import) (types : List GeneratedType) (k : Nat) (g : GeneratedType) :
    List (Part × List Stmt) :=
  upToImports imports types ++ (.automatic, conversionImports (imports.map (·.boundName)) types) ::
    (afterAutomatic s types (types.take k) ++ [(.type k, contexts g.type)])

/-- Who has `n` where the namespace of the type number `k` is. -/
def binderBefore (s : Settings) (imports : List Import) (types : List GeneratedType) (k : Nat) (g : GeneratedType)
    (n : String) : Option Part := binderAfter n none (beforeNamespace s imports types k g)

theorem layout_eq : layout s imports types = upToImports imports types ++
    (.automatic, conversionImports (imports.map (·.boundName)) types) :: afterAutomatic s types types := by
  simp [layout, upToImports, afterAutomatic]

theorem exists_module_body (s : Settings) (filename : String) (imports : List Import) (hg : types[k]? = some g) :
    ∃ later, (Generated.module s filename imports types).body =
      (beforeNamespace s imports types k g).flatMap (·.2) ++ namespaceClass g.type :: later := by
  refine ⟨g.moduleLevel ++ (((types.drop (k + 1)).zipIdx (k + 1)).map
    fun q => ((.type q.2, q.1.statements) : Part × List Stmt)).flatMap (·.2), ?_⟩
  rw [module_body, layout_eq, beforeNamespace, afterAutomatic, afterAutomatic, zipIdx_split hg, List.map_append,
    List.map_cons]
  simp only [List.flatMap_append, List.flatMap_cons, List.flatMap_nil, List.cons_append, List.append_assoc,
    GeneratedType.statements, List.append_nil]

/-- No part after the imports touches a name, as far as to the types that are shown. -/
structure Untouched (types shown : List GeneratedType) (n : String) : Prop where
  closing : n ≠ "runtime" ∧ n ≠ "T"
  exports : n = "__all__" → types.flatMap (·.exports) = []
  types : ∀ g ∈ shown, n ∉ g.moduleNames ∧ n ∉ temporaries g.type

theorem forall_afterAutomatic {shown : List GeneratedType} :
    (∀ q ∈ afterAutomatic s types shown, n ∉ Stmt.touched q.2) ↔ Untouched types shown n := by
  rw [afterAutomatic, List.forall_mem_cons, List.forall_mem_cons, forall_types, touched_closing, touched_exportList]
  simp only [List.mem_cons, List.not_mem_nil, or_false, not_or, touched_statements, not_and, not_not]
  constructor
  · rintro ⟨hclosing, hexports, htypes⟩
    refine ⟨hclosing, hexports, fun g hg => ?_⟩
    obtain ⟨j, hj⟩ := List.mem_iff_getElem?.mp hg
    exact htypes j g hj
  · intro h
    exact ⟨h.closing, h.exports, fun j g hg => h.types g (List.mem_of_getElem? hg)⟩

theorem forall_upToImports_ne (hp : p ≠ .prelude) (huse : ∀ j, p ≠ .use j) :
    ∀ q ∈ upToImports imports types, q.1 ≠ p := by
  rw [upToImports, List.forall_mem_cons, List.forall_mem_map]
  exact ⟨hp.symm, fun q _ => (huse q.2).symm⟩

theorem forall_afterAutomatic_ne {shown : List GeneratedType} (hp : p ≠ .prelude) (hexports : p ≠ .exports)
    (htype : ∀ j, p ≠ .type j) : ∀ q ∈ afterAutomatic s types shown, q.1 ≠ p := by
  rw [afterAutomatic, List.forall_mem_cons, List.forall_mem_cons, List.forall_mem_map]
  exact ⟨hp.symm, hexports.symm, fun q _ => (htype q.2).symm⟩

/-- A root that is imported by itself is kept exactly if no part after the imports touches it. -/
theorem binderAfter_automatic {rest : List (Part × List Stmt)} (hrest : ∀ q ∈ rest, q.1 ≠ .automatic) :
    binderAfter n none (upToImports imports types ++
      (.automatic, conversionImports (imports.map (·.boundName)) types) :: rest) = some .automatic ↔
        n ∈ automaticRoots imports types ∧ ∀ q ∈ rest, n ∉ Stmt.touched q.2 := by
  have hbinds : ∀ e ∈ (conversionImports (imports.map (·.boundName)) types).flatMap Stmt.effects, e.binds = true := by
    intro e he
    obtain ⟨stmt, hstmt, he⟩ := List.mem_flatMap.mp he
    obtain ⟨g, -, c, -, rfl, -⟩ := mem_conversionImports.mp hstmt
    rw [List.mem_singleton.mp he]
  by_cases hn : n ∈ automaticRoots imports types
  · have hown : ∀ owner, binderAfterPart n owner (.automatic, conversionImports (imports.map (·.boundName)) types) =
        some .automatic := fun owner => foldl_rebind_of_binds hbinds (.inl hn)
    rw [binderAfter_of_own hown, binderAfter_eq_some_iff fun q hq _ => hrest q hq]
    simp [hn]
  · refine iff_of_false (fun h => ?_) fun h => hn h.1
    rcases exists_of_binderAfter h with hnone | ⟨q, hq, hpart, hleft⟩
    · cases hnone
    · rcases List.mem_append.mp hq with hq | hq
      · exact forall_upToImports_ne (p := .automatic) nofun (fun _ => nofun) q hq hpart
      · rcases List.mem_cons.mp hq with rfl | hq
        · exact hn (touched_of_binderAfterPart hleft)
        · exact hrest q hq hpart

/-- What a name refers to before a namespace: a name of the prelude, an import, the list of exports, a name of a type
before, or the contexts of the type itself. -/
inductive Bears (imports : List Import) (types : List GeneratedType) (k : Nat) (g : GeneratedType) (n : String) :
    Part → Prop
  | prelude (h : n ∈ Stmt.touched (opening types) ∨ n = "runtime" ∨ n = "T") : Bears imports types k g n .prelude
  | use {j : Nat} {i : Import} (hi : imports[j]? = some i) (hn : i.boundName = n) : Bears imports types k g n (.use j)
  | automatic (h : n ∈ automaticRoots imports types) : Bears imports types k g n .automatic
  | exports (h : n = "__all__") : Bears imports types k g n .exports
  | earlier {j : Nat} {g' : GeneratedType} (hj : j < k) (hg : types[j]? = some g') (hn : n ∈ g'.moduleNames) :
      Bears imports types k g n (.type j)
  | own (hn : n = g.type.ident) : Bears imports types k g n (.type k)

theorem Apart.bears_of_binderBefore (h : Apart imports types) (hbinder : binderBefore s imports types k g n = some p) :
    Bears imports types k g n p := by
  rcases exists_of_binderAfter hbinder with hnone | ⟨q, hq, rfl, hleft⟩
  · cases hnone
  · have htouched := touched_of_binderAfterPart hleft
    rw [beforeNamespace, upToImports, afterAutomatic] at hq
    simp only [List.cons_append, List.mem_cons, List.mem_append, List.mem_map, List.not_mem_nil, or_false] at hq
    rcases hq with rfl | ⟨⟨i, j⟩, hi, rfl⟩ | rfl | rfl | rfl | ⟨⟨g', j⟩, hg', rfl⟩ | rfl
    · exact .prelude (.inl htouched)
    · have hi := List.mk_mem_zipIdx_iff_getElem?.mp hi
      rw [h.touched_importStmt (List.mem_of_getElem? hi), List.mem_singleton] at htouched
      exact .use hi htouched.symm
    · exact .automatic htouched
    · rw [touched_closing] at htouched
      exact .prelude (.inr (by simpa using htouched))
    · exact .exports (touched_exportList.mp htouched).1
    · have hg' := List.mk_mem_zipIdx_iff_getElem?.mp hg'
      rw [List.getElem?_take] at hg'
      split_ifs at hg' with hj
      exact .earlier hj hg' (mem_moduleNames_of_statements hleft)
    · exact .own (eq_ident_of_contexts hleft)

theorem forall_beforeNamespace_rest {P : Part × List Stmt → Prop} {shown : List GeneratedType} :
    (∀ q ∈ afterAutomatic s types shown ++ [(.type k, contexts g.type)], P q) ↔
      (∀ q ∈ afterAutomatic s types shown, P q) ∧ P (.type k, contexts g.type) := by
  rw [List.forall_mem_append, List.forall_mem_singleton]

theorem touched_contexts {t : ErrorType} : n ∉ Stmt.touched (contexts t) ↔ n ≠ t.ident ∧ n ∉ temporaries t := by
  rw [Stmt.touched, effects_contexts]
  simp [List.map_flatMap]

end Generated

namespace Generation

open Code Generated Execution

variable {s : Settings} {t : ErrorType} {scope m n : String} {has : Bool} {es : List NameEffect}

/-! ### Members of a namespace -/

/-- The names that a class has before its first statement. -/
def startNames : List String := ["__module__", "__qualname__", "__doc__"]

/-- The statements of a namespace before its conversions are registered. -/
def beforeRegistry (t : ErrorType) : List Stmt :=
  namespaceExports t ++ ((kindBase t).add [classification t]).build :: kindCases t ++ conversionFunctions t ++
    [errorClass t]

theorem namespaceClass_registry (t : ErrorType) : ∃ doc later, namespaceClass t =
    .cls t.namespaceName [] (beforeRegistry t ++ conversionRegistry t ++ later) [] doc := by
  obtain ⟨doc, hclass⟩ := namespaceClass_eq t
  refine ⟨doc, [.assign (.name "Result") (.subscript (.name "Union") [.name "T", .name "Error"])], ?_⟩
  rw [hclass, namespaceBody, wrapper, beforeRegistry]
  simp only [List.append_assoc, List.cons_append, List.nil_append]

/-- Whether a class has the member `m` after an effect in the body of `scope`. -/
def hasAfter (scope m : String) (has : Bool) (e : NameEffect) : Bool :=
  if nameIn scope e.name = m then e.binds else has

theorem foldl_hasAfter_binds (hes : ∀ e ∈ es, e.binds = true) :
    es.foldl (hasAfter scope m) has = true ↔ has = true ∨ m ∈ es.map fun e => nameIn scope e.name := by
  induction es generalizing has with
  | nil => simp
  | cons e es ih =>
    obtain ⟨he, hes⟩ := List.forall_mem_cons.mp hes
    rw [List.foldl_cons, ih hes, hasAfter, List.map_cons, List.mem_cons]
    split_ifs with hm
    · simp [he, hm]
    · simp [Ne.symm hm]

theorem foldl_hasAfter_temporaries (ms : List String) :
    (ms.flatMap fun x => [{ name := x }, { name := x, binds := false }]).foldl (hasAfter scope m) has = true ↔
      has = true ∧ m ∉ ms.map (nameIn scope) := by
  induction ms generalizing has with
  | nil => simp
  | cons x ms ih =>
    rw [List.flatMap_cons, List.foldl_append, ih, List.map_cons, List.mem_cons, not_or]
    by_cases hx : nameIn scope x = m
    · simp [hasAfter, hx]
    · simp [hasAfter, hx, Ne.symm hx]

/-- Whether the namespace has the member `m` where its conversions are registered. -/
def hasMember (t : ErrorType) (m : String) : Bool :=
  ((beforeRegistry t).flatMap Stmt.effects).foldl (hasAfter t.namespaceName m) (startNames.contains m)

/-- The members that a namespace has where its conversions are registered. -/
def registryMembers (t : ErrorType) : List String :=
  startNames ++ Stmt.touched (namespaceExports t) ++ ["ErrorKind", "Error"] ++ t.conversions.map (·.function)

def kindTemporaries (t : ErrorType) : List String := t.kindCases.map fun c => (kindAttachment c).temporary

theorem effects_kindCases : (kindCases t).flatMap Stmt.effects =
    (kindTemporaries t).flatMap fun x => [{ name := x }, { name := x, binds := false }] := by
  rw [kindCases, kindTemporaries, List.flatMap_assoc, List.flatMap_map]
  refine congrArg (List.flatMap · t.kindCases) (funext fun c => ?_)
  obtain ⟨decorator, path, doc, -, hcase⟩ := kindCase_attaches (t := t) c
  have hpath : '.' ∈ ("ErrorKind" ++ "." ++ (kindAttachment c).name).toList := by simp
  rw [hcase, attach]
  simp only [List.flatMap_cons, List.flatMap_nil, Stmt.effects, Expr.boundNames_dotted hpath]
  rfl

theorem effects_namespaceExports : (namespaceExports t).flatMap Stmt.effects =
    (Stmt.touched (namespaceExports t)).map fun x => { name := x } := by
  unfold namespaceExports
  split <;> rfl

theorem touched_namespaceExports : ∀ x ∈ Stmt.touched (namespaceExports t), x = "__all__" := by
  unfold namespaceExports
  split <;> simp [Stmt.touched, Stmt.effects, Expr.boundNames]

theorem effects_conversionFunctions : (conversionFunctions t).flatMap Stmt.effects =
    (t.conversions.map (·.function)).map fun x => { name := x } := by
  rw [conversionFunctions]
  induction t.conversions with
  | nil => rfl
  | cons c cs ih => rw [List.map_cons, List.flatMap_cons, ih]; rfl

theorem effects_beforeRegistry : (beforeRegistry t).flatMap Stmt.effects =
    (Stmt.touched (namespaceExports t) ++ ["ErrorKind"]).map (fun x => { name := x }) ++
      (kindTemporaries t).flatMap (fun x => [{ name := x }, { name := x, binds := false }]) ++
        (t.conversions.map (·.function) ++ ["Error"]).map fun x => { name := x } := by
  obtain ⟨bases, body, doc, hbase, -⟩ := kindBase_methods t
  obtain ⟨_, _, _, _, _, herror⟩ := errorClass_eq (t := t)
  rw [beforeRegistry, hbase, herror]
  simp only [List.flatMap_append, List.flatMap_cons, List.flatMap_nil, effects_namespaceExports, effects_kindCases,
    effects_conversionFunctions, List.map_append, List.append_assoc, List.cons_append]
  rfl

theorem hasMember_iff (hfrom : FromFunctions t) : hasMember t m = true ↔ m ∈ registryMembers t := by
  have hexports : ∀ x ∈ Stmt.touched (namespaceExports t) ++ ["ErrorKind"], isPrivate x = false := by
    rw [List.forall_mem_append, List.forall_mem_singleton]
    exact ⟨fun x hx => touched_namespaceExports x hx ▸ by decide, by decide⟩
  have hfunctions : ∀ x ∈ t.conversions.map (·.function) ++ ["Error"], isPrivate x = false := by
    rw [List.forall_mem_append, List.forall_mem_singleton, List.forall_mem_map]
    refine ⟨fun c hc => ?_, by decide⟩
    obtain ⟨rest, hrest⟩ := hfrom c hc
    rw [hrest]
    exact isPrivate_append_of_ne (a := 'f') (b := 'r') rfl (by decide)
  have hkinds : ∀ x ∈ kindTemporaries t, isPrivate x = false :=
    List.forall_mem_map.mpr fun c _ => isPrivate_append_of_ne (a := '_') (b := 'E') rfl (by decide)
  -- no name before the classes of the kinds is that of one of them
  have hapart : m ∈ startNames ∨ m ∈ Stmt.touched (namespaceExports t) ∨ m = "ErrorKind" → m ∉ kindTemporaries t := by
    intro hm hmem
    obtain ⟨c, -, rfl⟩ := List.mem_map.mp hmem
    have hfront : ∀ x ∈ "__all__" :: "ErrorKind" :: startNames, x.toList.take 2 ≠ ['_', 'E'] := by decide
    refine hfront _ ?_ (show ("_ErrorKind_" ++ c.ident).toList.take 2 = ['_', 'E'] by simp)
    rcases hm with hm | hm | hm
    · exact List.mem_cons_of_mem _ (List.mem_cons_of_mem _ hm)
    · exact touched_namespaceExports _ hm ▸ List.mem_cons_self ..
    · exact hm ▸ List.mem_cons_of_mem _ (List.mem_cons_self ..)
  have hbinds : ∀ xs : List String, ∀ e ∈ xs.map (fun x => ({ name := x } : NameEffect)), e.binds = true :=
    fun xs => List.forall_mem_map.mpr fun _ _ => rfl
  rw [hasMember, effects_beforeRegistry, List.foldl_append, foldl_hasAfter_binds (hbinds _), List.foldl_append,
    foldl_hasAfter_temporaries, foldl_hasAfter_binds (hbinds _), List.map_map, List.map_map]
  simp only [Function.comp_def]
  rw [map_nameIn_of_public hexports, map_nameIn_of_public hfunctions, map_nameIn_of_public hkinds]
  simp only [registryMembers, List.mem_append, List.mem_cons, List.not_mem_nil, or_false, List.contains_eq_mem,
    decide_eq_true_eq]
  grind

/-- What a name refers to in a class: a member of it, or what the module has under a name. If nobody has bound that
name, it is a builtin. -/
inductive Referent where
  | member
  | outer (name : String) (owner : Option Part)
deriving DecidableEq

/-- What `n` refers to where the conversions of a type are registered. -/
def referent (t : ErrorType) (outer : String → Option Part) (n : String) : Referent :=
  if hasMember t (nameIn t.namespaceName n) then .member
  else .outer (nameIn t.namespaceName n) (outer (nameIn t.namespaceName n))

theorem referent_eq_outer_iff (hfrom : FromFunctions t) {outer : String → Option Part} :
    referent t outer n = .outer n (outer n) ↔ nameIn t.namespaceName n = n ∧ n ∉ registryMembers t := by
  rw [referent]
  split_ifs with hmember
  · rw [hasMember_iff hfrom] at hmember
    refine iff_of_false nofun ?_
    rintro ⟨hname, hn⟩
    rw [hname] at hmember
    exact hn hmember
  · rw [hasMember_iff hfrom] at hmember
    constructor
    · intro h
      obtain ⟨hname, -⟩ := Referent.outer.inj h
      rw [hname] at hmember
      exact ⟨hname, hmember⟩
    · rintro ⟨hname, -⟩
      rw [hname]

/-! ### Sources -/

/-- What the root of a source refers to where it is registered. -/
structure RefersFrom (s : Settings) (imports : List Import) (types : List GeneratedType) (k : Nat) (g : GeneratedType)
    (c : Conversion) (root : String) : Prop where
  names : (Expr.dotted c.source.text).names = [root]
  /-- What the module has is found unless the namespace has a member of that name, or spells it in its own way. -/
  lookup : referent g.type (binderBefore s imports types k g) root =
      .outer root (binderBefore s imports types k g root) ↔
    nameIn g.type.namespaceName root = root ∧ root ∉ registryMembers g.type
  bears : ∀ p, binderBefore s imports types k g root = some p → Bears imports types k g root p
  /-- An import of the file that no later one displaces is what is found, unless something after the imports is. -/
  used : ∀ (j : Nat) i, imports[j]? = some i → i.boundName = root →
    (binderBefore s imports types k g root = some (.use j) ↔
      (∀ j' i', j < j' → imports[j']? = some i' → i'.boundName ≠ root) ∧
        Untouched types (types.take k) root ∧ root ≠ g.type.ident ∧ root ∉ temporaries g.type)
  /-- The module of the source is imported whenever no import of the file has the root. -/
  imported : 1 < c.source.parts.length → (moduleImport c ∈ conversionImports (imports.map (·.boundName)) types ↔
    ∀ i ∈ imports, i.boundName ≠ root)
  /-- So it is imported exactly when nothing else touches the root, if an import of the file has the root or nothing
  but an import does. -/
  alone : 1 < c.source.parts.length → ((moduleImport c ∈ conversionImports (imports.map (·.boundName)) types ↔
      ∀ q ∈ layout s imports types, q.1 ≠ .automatic → root ∉ Stmt.touched q.2) ↔
    (∃ i ∈ imports, i.boundName = root) ∨ root ∉ Stmt.touched (opening types) ∧ Untouched types types root)
  /-- The imported module is what is found, unless something after it is. -/
  automatic : binderBefore s imports types k g root = some .automatic ↔ root ∈ automaticRoots imports types ∧
    Untouched types (types.take k) root ∧ root ≠ g.type.ident ∧ root ∉ temporaries g.type
  /-- The imported module keeps the root to the end of the module, unless something after it touches the root. -/
  kept : binder s imports types root = some .automatic ↔
    root ∈ automaticRoots imports types ∧ Untouched types types root

theorem forall_layout_iff {imports : List Import} {types : List GeneratedType} (h : Apart imports types) :
    (∀ q ∈ layout s imports types, q.1 ≠ .automatic → n ∉ Stmt.touched q.2) ↔
      (∀ i ∈ imports, i.boundName ≠ n) ∧ n ∉ Stmt.touched (opening types) ∧ Untouched types types n := by
  have hafter : (∀ q ∈ afterAutomatic s types types, q.1 ≠ .automatic → n ∉ Stmt.touched q.2) ↔
      Untouched types types n := by
    rw [← forall_afterAutomatic (s := s)]
    have hparts : ∀ q ∈ afterAutomatic s types types, q.1 ≠ .automatic :=
      forall_afterAutomatic_ne nofun nofun fun _ => nofun
    exact forall₂_congr fun q hq => forall_prop_of_true (hparts q hq)
  have huses : (∀ q ∈ imports.zipIdx.map (fun q => ((.use q.2, [importStmt q.1]) : Part × List Stmt)),
      q.1 ≠ .automatic → n ∉ Stmt.touched q.2) ↔ ∀ i ∈ imports, i.boundName ≠ n := by
    rw [List.forall_mem_map]
    constructor
    · intro hq i hi heq
      obtain ⟨j, hj⟩ := List.mem_iff_getElem?.mp hi
      refine hq (i, j) (List.mk_mem_zipIdx_iff_getElem?.mpr hj) nofun ?_
      rw [h.touched_importStmt hi, heq]
      exact List.mem_singleton_self _
    · rintro himports ⟨i, j⟩ hq - hn
      have hi := List.mem_of_getElem? (List.mk_mem_zipIdx_iff_getElem?.mp hq)
      rw [h.touched_importStmt hi, List.mem_singleton] at hn
      exact himports i hi hn.symm
  rw [layout_eq, upToImports, List.forall_mem_append, List.forall_mem_cons, List.forall_mem_cons, huses, hafter]
  simp only [ne_eq, reduceCtorEq, not_false_eq_true, forall_const, not_true_eq_false, false_implies, true_and]
  grind

theorem refersFrom {imports : List Import} {types : List GeneratedType} {k : Nat} {g : GeneratedType} {c : Conversion}
    {root : String} {rest : List String} (h : Apart imports types) (hnamed : SourcesNamed types)
    (hfrom : FromFunctions g.type) (hg : types[k]? = some g) (hc : c ∈ g.type.conversions)
    (hparts : c.source.parts = root :: rest) (hnames : (Expr.dotted c.source.text).names = [root]) :
    RefersFrom s imports types k g c root := by
  have hmem := List.mem_of_getElem? hg
  have hroot : c.source.parts.head? = some root := by rw [hparts]; rfl
  have hbound : root ∉ imports.map (·.boundName) ↔ ∀ i ∈ imports, i.boundName ≠ root := by simp
  have hrest (p : Part) (hp : p ≠ .prelude) (hexports : p ≠ .exports) (htype : ∀ j, p ≠ .type j) :
      ∀ q ∈ afterAutomatic s types (types.take k) ++ [(.type k, contexts g.type)], q.1 ≠ p :=
    forall_beforeNamespace_rest.mpr ⟨forall_afterAutomatic_ne hp hexports htype, (htype k).symm⟩
  have huntouched : (∀ q ∈ afterAutomatic s types (types.take k) ++ [(.type k, contexts g.type)],
      root ∉ Stmt.touched q.2) ↔
        Untouched types (types.take k) root ∧ root ≠ g.type.ident ∧ root ∉ temporaries g.type := by
    rw [forall_beforeNamespace_rest, forall_afterAutomatic, touched_contexts]
  have himported (hlength : 1 < c.source.parts.length) :
      moduleImport c ∈ conversionImports (imports.map (·.boundName)) types ↔ ∀ i ∈ imports, i.boundName ≠ root :=
    (moduleImport_mem_iff hnamed hmem hc hroot hlength).trans hbound
  constructor
  · exact hnames
  · exact referent_eq_outer_iff hfrom
  · exact fun p hp => h.bears_of_binderBefore hp
  · rintro j i hi rfl
    have hautomatic : i.boundName ∉ automaticRoots imports types := by
      intro hroots
      obtain ⟨-, -, -, -, -, -, himports⟩ := (mem_automaticRoots hnamed).mp hroots
      exact himports i (List.mem_of_getElem? hi) rfl
    have hlater : ∀ q ∈ (.automatic, conversionImports (imports.map (·.boundName)) types) ::
        (afterAutomatic s types (types.take k) ++ [(.type k, contexts g.type)]), q.1 ≠ .use j :=
      List.forall_mem_cons.mpr ⟨nofun, hrest (.use j) nofun nofun fun _ => nofun⟩
    rw [binderBefore, beforeNamespace, h.binderAfter_import hi hlater, List.forall_mem_cons, huntouched]
    exact and_congr_right fun _ => and_iff_right hautomatic
  · exact himported
  · intro hlength
    rw [himported hlength, forall_layout_iff h]
    have hsome : (∃ i ∈ imports, i.boundName = root) ↔ ¬ ∀ i ∈ imports, i.boundName ≠ root := by
      push Not
      rfl
    rw [hsome]
    grind
  · rw [binderBefore, beforeNamespace, binderAfter_automatic (hrest .automatic nofun nofun fun _ => nofun), huntouched]
  · have hparts : ∀ q ∈ afterAutomatic s types types, q.1 ≠ .automatic :=
      forall_afterAutomatic_ne nofun nofun fun _ => nofun
    rw [binder, layout_eq, binderAfter_automatic hparts, forall_afterAutomatic]

theorem exists_build_of_run {owners owners' : Owners} {ds : List Declaration} {os : List Outcome}
    (h : Run s owners ds os owners') : ∀ g ∈ acceptedTypes os, ∃ d ∈ ds, ErrorType.build s d = .ok g.type := by
  induction h with
  | nil => exact List.forall_mem_nil _
  | @cons _ _ _ d ds o os hstep _ ih =>
    have hlater : ∀ g ∈ acceptedTypes os, ∃ e ∈ d :: ds, ErrorType.build s e = .ok g.type := by
      intro g hg
      obtain ⟨e, he, hbuilt⟩ := ih g hg
      exact ⟨e, List.mem_cons_of_mem _ he, hbuilt⟩
    rcases hstep.type_or_report with ⟨g, ho, -, hgen, -⟩ | ⟨r, ho, -⟩
    · rw [acceptedTypes_cons_of_some ho]
      refine List.forall_mem_cons.mpr ⟨⟨d, List.mem_cons_self .., ?_⟩, hlater⟩
      obtain ⟨t, ht, hgen⟩ := bind_eq_ok.mp hgen
      rwa [ErrorType.ofErrorType_type hgen]
    · rwa [acceptedTypes_cons_of_none ho]

/-- What the source of every conversion refers to, in a module that is generated without a report. -/
theorem source_of_ofSource {filename source : String} {r : GenerationResult} (h : ofSource s filename source = .ok r)
    (hd : r.diagnostics = []) :
    ∃ f types, loadSource s.limits filename source = .ok f ∧ types = acceptedTypes (outcomes s f) ∧
      r.code = (Generated.module s f.filename f.imports types).render ∧
      ∀ (k : Nat) g, types[k]? = some g →
        (∃ doc inner later, (Generated.module s f.filename f.imports types).body =
          (beforeNamespace s f.imports types k g).flatMap (·.2) ++ .cls g.type.namespaceName []
            (beforeRegistry g.type ++ conversionRegistry g.type ++ inner) [] doc :: later) ∧
        ∀ c ∈ g.type.conversions, ∃ root rest, c.source.parts = root :: rest ∧
          RefersFrom s f.imports types k g c root := by
  rw [ofSource] at h
  split at h
  · cases h
  · obtain rfl := Except.ok.inj h
    cases hd
  · next f hload =>
    have hapart := apart_of_ofSourceFile h hd (isNamePart_of_loadSource hload)
    obtain ⟨os, owners, hrun, hr, -, -⟩ := ofSourceFile_eq_ok_iff.mp h
    have hos : outcomes s f = os := declare_of_run hrun
    have hbuilt := exists_build_of_run hrun
    rw [← hos] at hbuilt
    have hnamed : SourcesNamed (acceptedTypes (outcomes s f)) := by
      intro g hg
      obtain ⟨d, hd, hbuild⟩ := hbuilt g hg
      exact ErrorType.named_of_build hbuild (scanned_of_loadSource hload d hd)
    refine ⟨f, acceptedTypes (outcomes s f), hload, rfl, ?_, fun k g hg => ⟨?_, fun c hc => ?_⟩⟩
    · rw [hr, hos]
      rfl
    · obtain ⟨later, hbody⟩ := exists_module_body s f.filename f.imports hg
      obtain ⟨doc, inner, hclass⟩ := namespaceClass_registry g.type
      exact ⟨doc, inner, later, hclass ▸ hbody⟩
    · have hmem := List.mem_of_getElem? hg
      obtain ⟨root, rest, hparts, hnames⟩ := (hnamed g hmem c hc).exists_root
      obtain ⟨d, -, hbuild⟩ := hbuilt g hmem
      have hfrom := fromFunctions_of_fromSources (ErrorType.build_fromSources hbuild)
      exact ⟨root, rest, hparts, refersFrom hapart hnamed hfrom hg hc hparts hnames⟩

/-- A struct that is converted from the exception type of an earlier one, and from the alias of its kinds. -/
def wrappingSource : String := "#[faultline(description=\"a\")]struct A;" ++
  "#[faultline(description=\"b\",error_type=false,result_type=false,kind_type=false," ++
  "from(faultline_a.Error,ErrorKind))]struct B;"

theorem ofSource_wrappingSource : ∃ r f g g', ofSource {} "<string>" wrappingSource = .ok r ∧ r.diagnostics = [] ∧
    loadSource {} "<string>" wrappingSource = .ok f ∧ acceptedTypes (outcomes {} f) = [g, g'] ∧
      g'.type.conversions.map (·.source.parts) = [["faultline_a", "Error"], ["ErrorKind"]] ∧
        "faultline_a" ∉ registryMembers g'.type ∧
          binderBefore {} f.imports [g, g'] 1 g' "faultline_a" = some (.type 0) ∧
            binderBefore {} f.imports [g, g'] 1 g' "ErrorKind" = some (.type 0) ∧
              "faultline_a" ∈ automaticRoots f.imports [g, g'] ∧ "faultline_a" ∈ g.moduleNames ∧
                referent g'.type (binderBefore {} f.imports [g, g'] 1 g') "ErrorKind" = .member := by
  have hclean : (loadSource {} "<string>" wrappingSource).toOption.any (fun f => isClean {} f &&
      ((acceptedTypes (outcomes {} f)).length == 2 && (acceptedTypes (outcomes {} f))[0]?.any fun g =>
        (acceptedTypes (outcomes {} f))[1]?.any fun g' =>
          g'.type.conversions.map (·.source.parts) == [["faultline_a", "Error"], ["ErrorKind"]] &&
            (!(registryMembers g'.type).contains "faultline_a" &&
              (binderBefore {} f.imports [g, g'] 1 g' "faultline_a" == some (.type 0) &&
                (binderBefore {} f.imports [g, g'] 1 g' "ErrorKind" == some (.type 0) &&
                  ((automaticRoots f.imports [g, g']).contains "faultline_a" &&
                    (g.moduleNames.contains "faultline_a" &&
                      referent g'.type (binderBefore {} f.imports [g, g'] 1 g') "ErrorKind" == .member))))))) =
        true := by
    simp only [isClean, hasNull_eq_hasZero]
    decide +kernel
  obtain ⟨f, hload, hclean⟩ := exists_of_any_toOption hclean
  obtain ⟨hclean, htypes⟩ := Bool.and_eq_true_iff.mp hclean
  obtain ⟨r, hr, hd⟩ := exists_ofSource_of_isClean (s := {}) hload hclean
  obtain ⟨htwo, htypes⟩ := Bool.and_eq_true_iff.mp htypes
  obtain ⟨g, g', hg⟩ := List.length_eq_two.mp (beq_iff_eq.mp htwo)
  rw [hg] at htypes
  simp only [List.getElem?_cons_zero, List.getElem?_cons_succ, Option.any_some, Bool.and_eq_true, beq_iff_eq,
    Bool.not_eq_true', List.contains_eq_mem, decide_eq_true_eq, decide_eq_false_iff_not] at htypes
  exact ⟨r, f, g, g', hr, hd, hload, hg, htypes⟩

theorem wrappingSource_refers : ∃ r f g g', ofSource {} "<string>" wrappingSource = .ok r ∧ r.diagnostics = [] ∧
    loadSource {} "<string>" wrappingSource = .ok f ∧ acceptedTypes (outcomes {} f) = [g, g'] ∧
      referent g'.type (binderBefore {} f.imports [g, g'] 1 g') "faultline_a" = .outer "faultline_a" (some (.type 0)) ∧
        referent g'.type (binderBefore {} f.imports [g, g'] 1 g') "ErrorKind" ≠
          .outer "ErrorKind" (some (.type 0)) := by
  obtain ⟨r, f, g, g', hr, hd, hload, hg, hsources, hmembers, hnamespace, hkinds, -⟩ := ofSource_wrappingSource
  obtain ⟨f', types, hload', rfl, -, htypes⟩ := source_of_ofSource hr hd
  obtain rfl := Except.ok.inj (hload.symm.trans hload')
  rw [hg] at htypes
  obtain ⟨-, hrefers⟩ := htypes 1 g' rfl
  have hconversion : ∀ ps ∈ [["faultline_a", "Error"], ["ErrorKind"]],
      ∃ c ∈ g'.type.conversions, c.source.parts = ps := by
    intro ps hps
    rwa [← hsources, List.mem_map] at hps
  refine ⟨r, f, g, g', hr, hd, hload, hg, ?_, ?_⟩
  · obtain ⟨c, hc, hparts⟩ := hconversion ["faultline_a", "Error"] (by decide)
    obtain ⟨root, rest, hroot, hrefers⟩ := hrefers c hc
    obtain ⟨rfl, -⟩ := List.cons.inj (hparts.symm.trans hroot)
    rw [← hnamespace]
    exact hrefers.lookup.mpr ⟨nameIn_of_public (by decide), hmembers⟩
  · obtain ⟨c, hc, hparts⟩ := hconversion ["ErrorKind"] (by decide)
    obtain ⟨root, rest, hroot, hrefers⟩ := hrefers c hc
    obtain ⟨rfl, -⟩ := List.cons.inj (hparts.symm.trans hroot)
    rw [← hkinds]
    intro hlookup
    obtain ⟨-, hmember⟩ := hrefers.lookup.mp hlookup
    simp [registryMembers] at hmember

/-- The root of the first source is imported although the earlier struct has that name, and the second source is a
member of the namespace although the module has an alias of that name. -/
theorem wrappingSource_redefined : ∃ r f g g', ofSource {} "<string>" wrappingSource = .ok r ∧ r.diagnostics = [] ∧
    loadSource {} "<string>" wrappingSource = .ok f ∧ acceptedTypes (outcomes {} f) = [g, g'] ∧
      g'.type.conversions.map (·.source.parts) = [["faultline_a", "Error"], ["ErrorKind"]] ∧
        binderBefore {} f.imports [g, g'] 1 g' "ErrorKind" = some (.type 0) ∧
          "faultline_a" ∈ automaticRoots f.imports [g, g'] ∧ "faultline_a" ∈ g.moduleNames ∧
            referent g'.type (binderBefore {} f.imports [g, g'] 1 g') "ErrorKind" = .member := by
  obtain ⟨r, f, g, g', hr, hd, hload, hg, hsources, -, -, hredefined⟩ := ofSource_wrappingSource
  exact ⟨r, f, g, g', hr, hd, hload, hg, hsources, hredefined⟩

end Generation
end TypedErrors
