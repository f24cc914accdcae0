import TypedErrors.Proofs.ErrorType.Sources
import TypedErrors.Proofs.Generation.Bindings
import TypedErrors.Proofs.Generation.Returns

/-! # Who has a name in the end

Without a report the names of the prelude, of the imports and of the types are apart from each other. What the
check of names does not see are the roots that conversions import by themselves, the classes that variants are
made as and whose names are deleted then, the list of exports, and two imports of one name. Those four decide
who has a name in the end (`binder_of_ofSource`). -/

namespace TypedErrors
namespace Generated

open Code Generation

variable {s : Settings} {imports : List Import} {types : List GeneratedType} {g : GeneratedType} {i : Import}
  {n : String} {k : Nat}

/-- Who binds `n` at the end of a module. -/
def binder (s : Settings) (imports : List Import) (types : List GeneratedType) (n : String) : Option Part :=
  binderAfter n none (layout s imports types)

/-- The names of prelude, imports and types are apart. -/
structure Apart (imports : List Import) (types : List GeneratedType) : Prop where
  undotted : ∀ i ∈ imports, Execution.Undotted i.path.head
  imports_prelude : ∀ i ∈ imports, i.boundName ∉ preludeNames
  types_prelude : ∀ g ∈ types, ∀ n ∈ g.moduleNames, n ∉ preludeNames
  types_imports : ∀ g ∈ types, ∀ n ∈ g.moduleNames, ∀ i ∈ imports, i.boundName ≠ n
  types_types : ∀ (j k : Nat) g h, j ≠ k → types[j]? = some g → types[k]? = some h → ∀ n ∈ g.moduleNames, n ∉ h.moduleNames

/-! ### Splitting the parts -/

theorem zipIdx_split {α : Type} {l : List α} {x : α} (h : l[k]? = some x) :
    l.zipIdx = (l.take k).zipIdx ++ (x, k) :: (l.drop (k + 1)).zipIdx (k + 1) := by
  obtain ⟨hk, rfl⟩ := List.getElem?_eq_some_iff.mp h
  have hlength : (l.take k).length = k := List.length_take_of_le hk.le
  conv_lhs => rw [← List.take_append_drop k l, List.drop_eq_getElem_cons hk, List.zipIdx_append, List.zipIdx_cons]
  rw [hlength, Nat.zero_add]

theorem mem_zipIdx_drop {α : Type} {l : List α} {q : α × Nat} :
    q ∈ (l.drop (k + 1)).zipIdx (k + 1) ↔ k < q.2 ∧ l[q.2]? = some q.1 := by
  obtain ⟨x, j⟩ := q
  rw [List.mk_mem_zipIdx_iff_le_and_getElem?_sub, List.getElem?_drop]
  constructor
  · rintro ⟨hle, hx⟩
    refine ⟨hle, ?_⟩
    rwa [Nat.add_sub_cancel' hle] at hx
  · rintro ⟨hlt, hx⟩
    refine ⟨hlt, ?_⟩
    rwa [Nat.add_sub_cancel' hlt]

/-- The parts after the imports of the source. -/
def afterImports (s : Settings) (imports : List Import) (types : List GeneratedType) : List (Part × List Stmt) :=
  [(.automatic, conversionImports (imports.map (·.boundName)) types), (.prelude, closing s),
    (.exports, exportList types)] ++ types.zipIdx.map fun q => (.type q.2, q.1.statements)

theorem forall_types {P : Part × List Stmt → Prop} : (∀ q ∈ types.zipIdx.map fun q => (Part.type q.2, q.1.statements), P q) ↔
    ∀ k g, types[k]? = some g → P (.type k, g.statements) := by
  rw [List.forall_mem_map]
  constructor
  · intro h k g hg
    exact h (g, k) (List.mk_mem_zipIdx_iff_getElem?.mpr hg)
  · rintro h ⟨g, k⟩ hg
    exact h k g (List.mk_mem_zipIdx_iff_getElem?.mp hg)

/-! ### The prelude -/

theorem not_mem_temporaries_of_prelude {t : ErrorType} (hn : n ∈ preludeNames) : n ∉ temporaries t := by
  have hhead : ∀ m ∈ preludeNames, m.toList.head? ≠ some '_' := by decide
  rw [temporaries]
  cases t.shape with
  | struct fields description included => exact List.not_mem_nil
  | enum variants =>
    intro h
    obtain ⟨v, -, rfl⟩ := List.mem_map.mp h
    exact hhead _ hn (by simp)

/-- No type and no list of exports touches the prelude. -/
theorem Apart.prelude_untouched (h : Apart imports types) (hn : n ∈ preludeNames) :
    ∀ q ∈ (Part.exports, exportList types) :: types.zipIdx.map fun q => (.type q.2, q.1.statements),
      n ∉ Stmt.touched q.2 := by
  rw [List.forall_mem_cons, forall_types]
  constructor
  · rw [touched_exportList]
    rintro ⟨rfl, -⟩
    exact absurd hn (by decide)
  · intro k g hg
    rw [touched_statements, not_or]
    exact ⟨fun hmem => h.types_prelude g (List.mem_of_getElem? hg) n hmem hn, not_mem_temporaries_of_prelude hn⟩

/-- The last names of the prelude are bound after the imports. -/
theorem Apart.binder_closing (h : Apart imports types) (hn : n = "runtime" ∨ n = "T") :
    binder s imports types n = some .prelude := by
  have hprelude : n ∈ preludeNames := by rcases hn with rfl | rfl <;> decide
  have hclosing : n ∈ Stmt.touched (closing s) := by
    rw [touched_closing]
    simpa using hn
  have hsplit : layout s imports types =
      ((.prelude, opening types) :: imports.zipIdx.map (fun q => (.use q.2, [importStmt q.1])) ++
        [(.automatic, conversionImports (imports.map (·.boundName)) types)]) ++ (.prelude, closing s) ::
      ((.exports, exportList types) :: types.zipIdx.map fun q => (.type q.2, q.1.statements)) := by
    simp [layout]
  have hbinds : ∀ e ∈ (closing s).flatMap Stmt.effects, e.binds = true := by
    rw [effects_closing]
    simp
  have hown : ∀ owner, binderAfterPart n owner (.prelude, closing s) = some .prelude :=
    fun owner => foldl_rebind_of_binds hbinds (.inl hclosing)
  have hrest := h.prelude_untouched hprelude
  rw [binder, hsplit, binderAfter_of_own hown,
    binderAfter_eq_some_iff fun q hq hmem => absurd hmem (hrest q hq)]
  exact ⟨rfl, hrest⟩

/-- The first names of the prelude are kept unless a conversion imports a root of their name. -/
theorem Apart.binder_opening (h : Apart imports types) (hn : n ∈ preludeNames) (hopen : n ∈ Stmt.touched (opening types))
    (hclosing : n ≠ "runtime" ∧ n ≠ "T") :
    binder s imports types n = some .prelude ↔ n ∉ automaticRoots imports types := by
  have hsplit : layout s imports types = [] ++ (.prelude, opening types) ::
      (imports.zipIdx.map (fun q => (.use q.2, [importStmt q.1])) ++ ((.automatic, conversionImports (imports.map (·.boundName)) types) ::
        (.prelude, closing s) :: (.exports, exportList types) :: types.zipIdx.map fun q => (.type q.2, q.1.statements))) := by
    simp [layout]
  have hclose : n ∉ Stmt.touched (closing s) := by
    rw [touched_closing]
    simpa using hclosing
  have huses : ∀ q ∈ imports.zipIdx.map (fun q => ((.use q.2, [importStmt q.1]) : Part × List Stmt)),
      n ∉ Stmt.touched q.2 := by
    rw [List.forall_mem_map]
    rintro ⟨i, k⟩ hi hmem
    have hi := List.mem_of_getElem? (List.mk_mem_zipIdx_iff_getElem?.mp hi)
    have hbound : n = i.boundName := by
      simpa [Stmt.touched, effects_importStmt (h.undotted i hi)] using hmem
    exact h.imports_prelude i hi (hbound ▸ hn)
  have hrest := h.prelude_untouched hn
  have hown : ∀ owner, binderAfterPart n owner (.prelude, opening types) = some .prelude :=
    fun owner => foldl_rebind_of_binds binds_opening (.inl hopen)
  rw [binder, hsplit, binderAfter_of_own hown, binderAfter_eq_some_iff]
  · simp only [true_and, List.forall_mem_append, List.forall_mem_cons, automaticRoots]
    rw [List.forall_mem_cons] at hrest
    exact ⟨fun h => h.2.1, fun hroots => ⟨huses, hroots, hclose, hrest⟩⟩
  · intro q hq hmem
    rcases List.mem_append.mp hq with hq | hq
    · exact absurd hmem (huses q hq)
    · rcases List.mem_cons.mp hq with rfl | hq
      · simp
      · rcases List.mem_cons.mp hq with rfl | hq
        · exact absurd hmem hclose
        · exact absurd hmem (hrest q hq)

/-! ### Imports -/

theorem Apart.touched_importStmt (h : Apart imports types) (hi : i ∈ imports) :
    Stmt.touched [importStmt i] = [i.boundName] := by
  simp [Stmt.touched, effects_importStmt (h.undotted i hi)]

/-- The parts of a module up to the imports. -/
def upToImports (imports : List Import) (types : List GeneratedType) : List (Part × List Stmt) :=
  (.prelude, opening types) :: imports.zipIdx.map fun q => (.use q.2, [importStmt q.1])

/-- The import number `k` keeps its name exactly if no later import has it, and no part after the imports touches
it. -/
theorem Apart.binderAfter_import (h : Apart imports types) (hi : imports[k]? = some i)
    {rest : List (Part × List Stmt)} (hrest : ∀ q ∈ rest, q.1 ≠ .use k) :
    binderAfter i.boundName none (upToImports imports types ++ rest) = some (.use k) ↔
      (∀ j i', k < j → imports[j]? = some i' → i'.boundName ≠ i.boundName) ∧
        ∀ q ∈ rest, i.boundName ∉ Stmt.touched q.2 := by
  have hmem := List.mem_of_getElem? hi
  have htouched := h.touched_importStmt hmem
  let later : List (Part × List Stmt) :=
    ((imports.drop (k + 1)).zipIdx (k + 1)).map fun q => (.use q.2, [importStmt q.1])
  have hsplit : upToImports imports types ++ rest = ((.prelude, opening types) ::
      (imports.take k).zipIdx.map (fun q => (.use q.2, [importStmt q.1]))) ++ (.use k, [importStmt i]) ::
        (later ++ rest) := by
    simp [upToImports, later, zipIdx_split hi]
  have hown : ∀ owner, binderAfterPart i.boundName owner (.use k, [importStmt i]) = some (.use k) := by
    intro owner
    have hname : i.boundName ∈ Stmt.touched [importStmt i] := by
      rw [htouched]
      exact List.mem_singleton_self _
    refine foldl_rebind_of_binds ?_ (.inl hname)
    simp [effects_importStmt (h.undotted i hmem)]
  have hlater : (∀ q ∈ later, i.boundName ∉ Stmt.touched q.2) ↔
      ∀ j i', k < j → imports[j]? = some i' → i'.boundName ≠ i.boundName := by
    rw [List.forall_mem_map]
    constructor
    · intro hq j i' hj hi' heq
      refine hq (i', j) (mem_zipIdx_drop.mpr ⟨hj, hi'⟩) ?_
      rw [h.touched_importStmt (List.mem_of_getElem? hi'), heq]
      exact List.mem_singleton_self _
    · rintro hj ⟨i', j⟩ hq hmem
      obtain ⟨hlt, hi'⟩ := mem_zipIdx_drop.mp hq
      rw [h.touched_importStmt (List.mem_of_getElem? hi'), List.mem_singleton] at hmem
      exact hj j i' hlt hi' hmem.symm
  have hparts : ∀ q ∈ later ++ rest, q.1 ≠ .use k := by
    rw [List.forall_mem_append, List.forall_mem_map]
    refine ⟨?_, hrest⟩
    rintro ⟨i', j⟩ hq heq
    obtain ⟨hlt, -⟩ := mem_zipIdx_drop.mp hq
    obtain rfl := Part.use.inj heq
    exact lt_irrefl _ hlt
  rw [hsplit, binderAfter_of_own hown, binderAfter_eq_some_iff fun q hq _ => hparts q hq, List.forall_mem_append,
    hlater]
  exact and_iff_right rfl

/-- What decides whether the import number `k` keeps its name. -/
structure KeepsImport (imports : List Import) (types : List GeneratedType) (k : Nat) (i : Import) : Prop where
  later : ∀ j i', k < j → imports[j]? = some i' → i'.boundName ≠ i.boundName
  automatic : i.boundName ∉ automaticRoots imports types
  exports : i.boundName = "__all__" → types.flatMap (·.exports) = []
  temporaries : ∀ g ∈ types, i.boundName ∉ temporaries g.type

theorem Apart.binder_import (h : Apart imports types) (hi : imports[k]? = some i) :
    binder s imports types i.boundName = some (.use k) ↔ KeepsImport imports types k i := by
  have hmem := List.mem_of_getElem? hi
  have hsplit : layout s imports types = upToImports imports types ++ afterImports s imports types := by
    simp [layout, upToImports, afterImports]
  have hclose : i.boundName ∉ Stmt.touched (closing s) := by
    have hsubset : ∀ m ∈ ["runtime", "T"], m ∈ preludeNames := by decide
    rw [touched_closing]
    exact fun hname => h.imports_prelude i hmem (hsubset _ hname)
  have hafter : (∀ q ∈ afterImports s imports types, i.boundName ∉ Stmt.touched q.2) ↔
      i.boundName ∉ automaticRoots imports types ∧ (i.boundName = "__all__" → types.flatMap (·.exports) = []) ∧
        ∀ g ∈ types, i.boundName ∉ temporaries g.type := by
    rw [afterImports, List.forall_mem_append, forall_types]
    simp only [List.forall_mem_cons, List.not_mem_nil, false_implies, implies_true, touched_exportList,
      touched_statements, not_and, not_not, not_or, hclose, not_false_eq_true, true_and, automaticRoots, and_assoc]
    refine and_congr_right fun _ => and_congr_right fun _ => ?_
    constructor
    · intro htypes g hg
      obtain ⟨k, hk⟩ := List.mem_iff_getElem?.mp hg
      exact (htypes k g hk).2
    · intro htemporaries k g hk
      have hg := List.mem_of_getElem? hk
      exact ⟨fun hname => h.types_imports g hg _ hname i hmem rfl, htemporaries g hg⟩
  have hparts : ∀ q ∈ afterImports s imports types, q.1 ≠ .use k := by
    rw [afterImports, List.forall_mem_append, forall_types]
    exact ⟨by simp, fun _ _ _ => by simp⟩
  rw [binder, hsplit, h.binderAfter_import hi hparts, hafter]
  constructor
  · rintro ⟨himports, hautomatic, hexports, htemporaries⟩
    exact ⟨himports, hautomatic, hexports, htemporaries⟩
  · intro hkeeps
    exact ⟨hkeeps.later, hkeeps.automatic, hkeeps.exports, hkeeps.temporaries⟩

/-! ### Types -/

theorem Apart.binder_type (h : Apart imports types) (hg : types[k]? = some g) (hn : n ∈ g.moduleNames) :
    binder s imports types n = some (.type k) ↔
      ∀ j g', k < j → types[j]? = some g' → n ∉ temporaries g'.type := by
  let later : List (Part × List Stmt) := ((types.drop (k + 1)).zipIdx (k + 1)).map fun q => (.type q.2, q.1.statements)
  have hsplit : layout s imports types = ((.prelude, opening types) ::
      imports.zipIdx.map (fun q => (.use q.2, [importStmt q.1])) ++
        [(.automatic, conversionImports (imports.map (·.boundName)) types), (.prelude, closing s),
          (.exports, exportList types)] ++ (types.take k).zipIdx.map fun q => (.type q.2, q.1.statements)) ++
      (.type k, g.statements) :: later := by
    simp [layout, later, zipIdx_split hg]
  have hlater : (∀ q ∈ later, n ∉ Stmt.touched q.2) ↔
      ∀ j g', k < j → types[j]? = some g' → n ∉ temporaries g'.type := by
    rw [List.forall_mem_map]
    constructor
    · intro hq j g' hj hg' hmem
      exact hq (g', j) (mem_zipIdx_drop.mpr ⟨hj, hg'⟩) (touched_statements.mpr (.inr hmem))
    · rintro hj ⟨g', j⟩ hq hmem
      obtain ⟨hlt, hg'⟩ := mem_zipIdx_drop.mp hq
      rcases touched_statements.mp hmem with hname | htemporary
      · exact h.types_types k j g g' (Nat.ne_of_lt hlt) hg hg' n hn hname
      · exact hj j g' hlt hg' htemporary
  have hparts : ∀ q ∈ later, q.1 ≠ .type k := by
    rw [List.forall_mem_map]
    rintro ⟨g', j⟩ hq heq
    obtain ⟨hlt, -⟩ := mem_zipIdx_drop.mp hq
    obtain rfl := Part.type.inj heq
    exact lt_irrefl _ hlt
  have hown : ∀ owner, binderAfterPart n owner (.type k, g.statements) = some (.type k) :=
    fun owner => binderAfterPart_statements hn
  rw [binder, hsplit, binderAfter_of_own hown, binderAfter_eq_some_iff fun q hq _ => hparts q hq, hlater]
  exact and_iff_right rfl

end Generated

/-! ### Generated modules -/

namespace Generation
open Generated Code

variable {s : Settings} {filename source : String} {f : SourceFile} {r : GenerationResult}

/-- Without a report all names are apart. -/
theorem apart_of_ofSourceFile (h : ofSourceFile s f = .ok r) (hd : r.diagnostics = [])
    (hnames : ∀ i ∈ f.imports, ∀ x ∈ i.path.head.toList, Scan.isNamePart x = true) :
    Apart f.imports (acceptedTypes (outcomes s f)) := by
  obtain ⟨os, owners, hrun, rfl, -, -⟩ := ofSourceFile_eq_ok_iff.mp h
  rw [show outcomes s f = os from declare_of_run hrun]
  obtain ⟨hnodup, hfree⟩ := hrun.moduleNames
  have hreports : importReports f.imports = [] := (List.append_eq_nil_iff.mp hd).1
  have hmem : ∀ g ∈ acceptedTypes os, ∀ n ∈ g.moduleNames, n ∉ preludeNames ∧ ∀ i ∈ f.imports, i.boundName ≠ n := by
    intro g hg n hn
    have hnot := hfree n (List.mem_flatMap_of_mem hg hn)
    rw [mem_names_seed, not_or] at hnot
    exact ⟨hnot.1, fun i hi heq => hnot.2 ⟨i, hi, heq⟩⟩
  constructor
  · exact fun i hi => undotted_of_isNamePart (hnames i hi)
  · intro i hi hprelude
    rw [importReports, List.map_eq_nil_iff, List.filter_eq_nil_iff] at hreports
    exact hreports i hi (by simpa using hprelude)
  · exact fun g hg n hn => (hmem g hg n hn).1
  · exact fun g hg n hn => (hmem g hg n hn).2
  · intro j k g g' hjk hg hg' n hn hn'
    obtain ⟨hj, rfl⟩ := List.getElem?_eq_some_iff.mp hg
    obtain ⟨hk, rfl⟩ := List.getElem?_eq_some_iff.mp hg'
    have hpairs := List.pairwise_iff_getElem.mp (List.nodup_flatMap.mp hnodup).2
    rcases Nat.lt_or_gt_of_ne hjk with hlt | hlt
    · exact hpairs j k hj hk hlt hn hn'
    · exact hpairs k j hk hj hlt hn' hn

/-- Who has a name at the end of a module without reports. A name of the prelude that the module introduces is
the prelude's, unless a conversion imports a root of that name over one of the first imports; an import has its
name if nothing of the four kinds comes after it; and a name of a type is the type's unless a later enum deletes
it with one of its variants. -/
theorem binder_of_ofSource (h : ofSource s filename source = .ok r) (hd : r.diagnostics = []) :
    ∃ f types, loadSource s.limits filename source = .ok f ∧ types = acceptedTypes (outcomes s f) ∧
      r.code = (Generated.module s f.filename f.imports types).render ∧
      (Generated.module s f.filename f.imports types).body = (layout s f.imports types).flatMap (·.2) ∧
      (∀ n ∈ preludeNames, n ∈ Stmt.touched (opening types) ∨ n ∈ Stmt.touched (closing s) →
        (binder s f.imports types n = some .prelude ↔ n = "runtime" ∨ n = "T" ∨ n ∉ automaticRoots f.imports types)) ∧
      (∀ (k : Nat) i, f.imports[k]? = some i →
        (binder s f.imports types i.boundName = some (.use k) ↔ KeepsImport f.imports types k i)) ∧
      ∀ (k : Nat) g, types[k]? = some g → ∀ n ∈ g.moduleNames,
        (binder s f.imports types n = some (.type k) ↔
          ∀ j g', k < j → types[j]? = some g' → n ∉ temporaries g'.type) := by
  rw [ofSource] at h
  split at h
  · cases h
  · obtain rfl := Except.ok.inj h
    cases hd
  · next f hload =>
    have hapart := apart_of_ofSourceFile h hd (isNamePart_of_loadSource hload)
    obtain ⟨os, owners, hrun, hr, -, -⟩ := ofSourceFile_eq_ok_iff.mp h
    have hos : outcomes s f = os := declare_of_run hrun
    refine ⟨f, acceptedTypes (outcomes s f), hload, rfl, ?_, module_body .., ?_, ?_, ?_⟩
    · rw [hr, hos]
      rfl
    · intro n hn hintroduced
      by_cases hclosing : n = "runtime" ∨ n = "T"
      · rw [hapart.binder_closing hclosing]
        exact iff_of_true rfl (hclosing.imp_right .inl)
      · have hopen : n ∈ Stmt.touched (opening (acceptedTypes (outcomes s f))) := by
          refine hintroduced.resolve_right ?_
          rw [touched_closing]
          simpa using hclosing
        rw [hapart.binder_opening hn hopen (not_or.mp hclosing)]
        rw [not_or] at hclosing
        simp [hclosing.1, hclosing.2]
    · exact fun k i hi => hapart.binder_import hi
    · exact fun k g hg n hn => hapart.binder_type hg hn

/-- A file is generated without a report. The text is looked at line by line. -/
def isClean (s : Settings) (f : SourceFile) : Bool :=
  ((outcomes s f).findSome? (·.abort?)).isNone &&
    !hasNull f.filename && !(lines (Generated.module s f.filename f.imports (acceptedTypes (outcomes s f)))).any hasNull &&
    (importReports f.imports).isEmpty && ((outcomes s f).filterMap (·.diagnostic?)).isEmpty

theorem exists_ofSource_of_isClean (hload : loadSource s.limits filename source = .ok f) (h : isClean s f = true) :
    ∃ r, ofSource s filename source = .ok r ∧ r.diagnostics = [] := by
  simp only [isClean, Bool.and_eq_true, Option.isNone_iff_eq_none, Bool.not_eq_true', List.isEmpty_iff] at h
  obtain ⟨⟨⟨⟨habort, hname⟩, hlines⟩, himports⟩, houtcomes⟩ := h
  refine ⟨_, ofSource_eq_assemble hload habort hname hlines, ?_⟩
  rw [assemble, himports, houtcomes]
  rfl

/-- An enum, and an import with the name of the class that its variant is made as. -/
def shadowSource : String := "use a as _E_A;enum E\x7b#[faultline(description=\"b\")]A\x7d"

/-- Nothing is reported. -/
theorem ofSource_shadowSource : ∃ r f g, ofSource {} "<string>" shadowSource = .ok r ∧ r.diagnostics = [] ∧
    loadSource {} "<string>" shadowSource = .ok f ∧ acceptedTypes (outcomes {} f) = [g] ∧
      ∃ i ∈ f.imports, binder {} f.imports [g] i.boundName = none := by
  have hclean : (loadSource {} "<string>" shadowSource).toOption.any (fun f => isClean {} f &&
      (acceptedTypes (outcomes {} f)).length == 1 &&
        f.imports.any fun i => (binder {} f.imports (acceptedTypes (outcomes {} f)) i.boundName).isNone) = true := by
    simp only [isClean, hasNull_eq_hasZero]
    decide +kernel
  obtain ⟨f, hload, hclean⟩ := exists_of_any_toOption hclean
  simp only [Bool.and_eq_true, beq_iff_eq, List.any_eq_true, Option.isNone_iff_eq_none] at hclean
  obtain ⟨⟨hclean, hone⟩, hdeleted⟩ := hclean
  obtain ⟨r, hr, hd⟩ := exists_ofSource_of_isClean (s := {}) hload hclean
  obtain ⟨g, hg⟩ := List.length_eq_one_iff.mp hone
  rw [hg] at hdeleted
  exact ⟨r, f, g, hr, hd, hload, hg, hdeleted⟩

/-- The names of the enum are its own. -/
theorem shadowSource_binder : ∃ r f g, ofSource {} "<string>" shadowSource = .ok r ∧ r.diagnostics = [] ∧
    loadSource {} "<string>" shadowSource = .ok f ∧ acceptedTypes (outcomes {} f) = [g] ∧
      ∀ n ∈ g.moduleNames, binder {} f.imports [g] n = some (.type 0) := by
  obtain ⟨r, f, g, hr, hd, hload, hg, -⟩ := ofSource_shadowSource
  obtain ⟨f', types, hload', rfl, -, -, -, -, htypes⟩ := binder_of_ofSource hr hd
  obtain rfl := Except.ok.inj (hload.symm.trans hload')
  rw [hg] at htypes
  refine ⟨r, f, g, hr, hd, hload, hg, fun n hn => (htypes 0 g rfl n hn).mpr ?_⟩
  intro j g' hj hg'
  rw [List.getElem?_eq_none (by rwa [List.length_singleton])] at hg'
  cases hg'

/-- Nobody has the name of the import: it is deleted with the class. -/
theorem not_binder_shadowSource : ∃ r f, ofSource {} "<string>" shadowSource = .ok r ∧ r.diagnostics = [] ∧
    loadSource {} "<string>" shadowSource = .ok f ∧
      ∃ i ∈ f.imports, binder {} f.imports (acceptedTypes (outcomes {} f)) i.boundName = none := by
  obtain ⟨r, f, g, hr, hd, hload, hg, hdeleted⟩ := ofSource_shadowSource
  refine ⟨r, f, hr, hd, hload, ?_⟩
  rwa [hg]

end Generation
end TypedErrors
