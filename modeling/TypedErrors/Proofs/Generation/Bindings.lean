import TypedErrors.Proofs.Execution.Key
import TypedErrors.Proofs.Generation.Run

/-! # The names of a module

The statements at the top of a module are read in order as what they do to its names: imports, definitions and
assignments to names bind them, and `del` unbinds them. The statements come in parts, each with an owner, and
whoever binds a name last, with nothing unbinding it afterwards, has it in the end (`binderAfter`). -/

namespace TypedErrors

namespace Code

/-- A name that a statement binds or unbinds. -/
structure NameEffect where
  name : String
  binds : Bool := true
deriving DecidableEq

/-- The names that an assignment or `del` is about: the others among its targets are attributes. -/
def Expr.boundNames : Expr → List String
  | .name n => [n]
  | _ => []

/-- The name that an import binds: its alias, or the root of the module. -/
def importedName (path : String) (alias? : Option String) : String :=
  alias?.getD ((dottedParts path).head?.getD "")

namespace Stmt

/-- What a statement does to the names of its module, in order. -/
def effects : Stmt → List NameEffect
  | .assign target _ => target.boundNames.map fun n => { name := n }
  | .annotate n _ (some _) => [{ name := n }]
  | .delete targets => (targets.flatMap Expr.boundNames).map fun n => { name := n, binds := false }
  | .importModule m alias? => [{ name := importedName m alias? }]
  | .importFrom _ names => names.map fun q => { name := q.2.getD q.1 }
  | .function n .. | .cls n .. => [{ name := n }]
  | _ => []

/-- The names that statements bind or unbind. -/
def touched (ss : List Stmt) : List String := (ss.flatMap effects).map (·.name)

end Stmt

theorem Expr.boundNames_foldl_attribute (e : Expr) (a : String) (ps : List String) :
    (ps.foldl Expr.attribute (.attribute e a)).boundNames = [] := by
  induction ps generalizing e a with
  | nil => rfl
  | cons p ps ih => exact ih (.attribute e a) p

/-- A text with a dot spells an attribute, which binds no name. -/
theorem Expr.boundNames_dotted {path : String} (h : '.' ∈ path.toList) : (Expr.dotted path).boundNames = [] := by
  obtain ⟨front, back, hpath, hfront⟩ := List.eq_append_cons_of_mem h
  rw [Expr.dotted, dottedParts, hpath, List.splitOn_append_cons_self_of_not_mem hfront]
  cases hback : back.splitOn '.' with
  | nil => exact absurd hback (List.splitOn_ne_nil _ _)
  | cons q qs => exact Expr.boundNames_foldl_attribute _ _ _

end Code

namespace Generated
open Code

/-- A part of a module, numbered in the order of the source. -/
inductive Part where
  | prelude
  | use (k : Nat)
  | automatic
  | exports
  | type (k : Nat)
deriving DecidableEq

/-- The imports of the prelude before those of the source. -/
def opening (types : List GeneratedType) : List Stmt :=
  .importFrom "__future__" [("annotations", none)] ::
    (if (Stmt.namesAll (types.flatMap (·.statements))).contains "copy" then [.importModule "copy" none] else []) ++
    [.importFrom "dataclasses" [("dataclass", none)], .importFrom "typing" [("TypeVar", none), ("Union", none)]]

/-- The rest of the prelude. -/
def closing (s : Settings) : List Stmt :=
  [runtimeImport s.runtimeModule, .assign (.name "T") (.apply (.name "TypeVar") [.text "T"])]

def exportList (types : List GeneratedType) : List Stmt :=
  let exports := types.flatMap (·.exports)
  if exports.isEmpty then [] else [.assign (.name "__all__") (textList exports)]

/-- The parts of a module in order. -/
def layout (s : Settings) (imports : List Import) (types : List GeneratedType) : List (Part × List Stmt) :=
  (.prelude, opening types) :: imports.zipIdx.map (fun q => (.use q.2, [importStmt q.1])) ++
    [(.automatic, conversionImports (imports.map (·.boundName)) types), (.prelude, closing s),
      (.exports, exportList types)] ++
    types.zipIdx.map fun q => (.type q.2, q.1.statements)

theorem flatMap_zipIdx {α β : Type} (l : List α) (f : α → List β) (k : Nat) :
    (l.zipIdx k).flatMap (fun q => f q.1) = l.flatMap f := by
  induction l generalizing k with
  | nil => rfl
  | cons x l ih => rw [List.zipIdx_cons, List.flatMap_cons, List.flatMap_cons, ih]

/-- The parts are the whole module. -/
theorem module_body (s : Settings) (filename : String) (imports : List Import) (types : List GeneratedType) :
    (module s filename imports types).body = (layout s imports types).flatMap (·.2) := by
  have huses : imports.zipIdx.flatMap (fun q => [importStmt q.1]) = imports.map importStmt := by
    rw [flatMap_zipIdx imports (fun i => [importStmt i]) 0, ← List.map_eq_flatMap]
  have htypes : types.zipIdx.flatMap (fun q => q.1.statements) = types.flatMap (·.statements) :=
    flatMap_zipIdx types (·.statements) 0
  simp only [layout, List.cons_append, List.flatMap_cons, List.flatMap_append, List.flatMap_map, List.flatMap_nil,
    huses, htypes]
  simp only [module, opening, closing, exportList, List.append_assoc, List.cons_append, List.nil_append]

/-! ### Reading in order -/

section Binder

variable {n : String} {p : Part} {owner : Option Part} {es es' : List NameEffect}
  {l l' : List (Part × List Stmt)}

/-- What an effect of the part `p` makes of the owner of `n`. -/
def rebind (n : String) (p : Part) (owner : Option Part) (e : NameEffect) : Option Part :=
  if e.name = n then (if e.binds then some p else none) else owner

/-- Who binds `n` after a part, if `owner` did so before. -/
def binderAfterPart (n : String) (owner : Option Part) (q : Part × List Stmt) : Option Part :=
  (q.2.flatMap Stmt.effects).foldl (rebind n q.1) owner

def binderAfter (n : String) (owner : Option Part) (l : List (Part × List Stmt)) : Option Part :=
  l.foldl (binderAfterPart n) owner

theorem binderAfter_append : binderAfter n owner (l ++ l') = binderAfter n (binderAfter n owner l) l' :=
  List.foldl_append ..

theorem foldl_rebind_of_not_mem (h : n ∉ es.map (·.name)) : es.foldl (rebind n p) owner = owner := by
  induction es generalizing owner with
  | nil => rfl
  | cons e es ih =>
    rw [List.map_cons, List.mem_cons, not_or] at h
    rw [List.foldl_cons, ih h.2, rebind, if_neg (Ne.symm h.1)]

/-- A name that is touched belongs to the part or to nobody. -/
theorem foldl_rebind_of_mem (p : Part) (owner : Option Part) (h : n ∈ es.map (·.name)) :
    es.foldl (rebind n p) owner = some p ∨ es.foldl (rebind n p) owner = none := by
  induction es generalizing owner with
  | nil => cases h
  | cons e es ih =>
    rw [List.foldl_cons]
    by_cases hes : n ∈ es.map (·.name)
    · exact ih _ hes
    · rw [List.map_cons, List.mem_cons] at h
      have he : e.name = n := (h.resolve_right hes).symm
      rw [foldl_rebind_of_not_mem hes, rebind, if_pos he]
      cases e.binds
      · exact .inr rfl
      · exact .inl rfl

/-- Where all effects bind, a name that is touched belongs to the part. -/
theorem foldl_rebind_of_binds (hes : ∀ e ∈ es, e.binds = true) (h : n ∈ es.map (·.name) ∨ owner = some p) :
    es.foldl (rebind n p) owner = some p := by
  induction es generalizing owner with
  | nil => exact h.resolve_left List.not_mem_nil
  | cons e es ih =>
    obtain ⟨he, hes⟩ := List.forall_mem_cons.mp hes
    rw [List.foldl_cons]
    refine ih hes ?_
    rw [rebind, he, if_pos rfl]
    by_cases hn : e.name = n
    · exact .inr (if_pos hn)
    · rw [if_neg hn]
      rcases h with h | h
      · rw [List.map_cons, List.mem_cons] at h
        exact .inl (h.resolve_left (Ne.symm hn))
      · exact .inr h

/-- What stands before a part that binds the name does not matter. -/
theorem binderAfter_of_own {front : List (Part × List Stmt)} {q : Part × List Stmt}
    (hown : ∀ owner, binderAfterPart n owner q = some p) :
    binderAfter n owner (front ++ q :: l) = binderAfter n (some p) l := by
  rw [binderAfter_append, binderAfter, List.foldl_cons, hown, binderAfter]

/-- A part keeps a name exactly if no other part touches it afterwards. -/
theorem binderAfter_eq_some_iff (hl : ∀ q ∈ l, n ∈ Stmt.touched q.2 → q.1 ≠ p) :
    binderAfter n owner l = some p ↔ owner = some p ∧ ∀ q ∈ l, n ∉ Stmt.touched q.2 := by
  induction l generalizing owner with
  | nil => simp [binderAfter]
  | cons q l ih =>
    obtain ⟨hq, hl⟩ := List.forall_mem_cons.mp hl
    rw [List.forall_mem_cons]
    refine (ih hl).trans ?_
    by_cases hn : n ∈ Stmt.touched q.2
    · have hne : binderAfterPart n owner q ≠ some p := by
        rw [binderAfterPart]
        rcases foldl_rebind_of_mem q.1 owner hn with h | h
        · rw [h]
          exact fun heq => hq hn (Option.some.inj heq)
        · rw [h]
          exact nofun
      simp [hn, hne]
    · rw [binderAfterPart, foldl_rebind_of_not_mem hn]
      simp [hn]

end Binder

/-! ### What the parts touch -/

section Effects

variable {s : Settings} {i : Import} {imports : List Import} {types : List GeneratedType} {g : GeneratedType}
  {t : ErrorType} {n : String}

theorem importedName_of_undotted {path : String} {alias? : Option String} (h : Execution.Undotted path) :
    importedName path alias? = alias?.getD path := by
  rw [importedName, Execution.dottedParts_eq_singleton h]
  rfl

/-- A `use` binds its name. -/
theorem effects_importStmt (h : Execution.Undotted i.path.head) :
    (importStmt i).effects = [{ name := i.boundName }] := by
  obtain ⟨⟨head, tail⟩, alias?, span⟩ := i
  rw [importStmt]
  cases tail with
  | nil =>
    simp only [DottedName.qualifier, DottedName.parts, List.dropLast_singleton, Stmt.effects,
      importedName_of_undotted h]
    rfl
  | cons q qs => rfl

theorem effects_runtimeImport (path : String) : (runtimeImport path).effects = [{ name := "runtime" }] := by
  have hroot : importedName "runtime" none = "runtime" := importedName_of_undotted (by decide)
  simp only [runtimeImport]
  split_ifs with hpackage hlast hlast
  · rw [hlast, Stmt.effects, hroot]
  · rfl
  · rw [hlast]
    rfl
  · rfl

theorem binds_opening : ∀ e ∈ (opening types).flatMap Stmt.effects, e.binds = true := by
  rw [opening]
  split_ifs <;> simp [Stmt.effects]

theorem effects_closing : (closing s).flatMap Stmt.effects = [{ name := "runtime" }, { name := "T" }] := by
  simp only [closing, List.flatMap_cons, List.flatMap_nil, effects_runtimeImport]
  rfl

theorem touched_closing : Stmt.touched (closing s) = ["runtime", "T"] := by
  rw [Stmt.touched, effects_closing]
  rfl

theorem touched_exportList : n ∈ Stmt.touched (exportList types) ↔
    n = "__all__" ∧ types.flatMap (·.exports) ≠ [] := by
  simp only [exportList, List.isEmpty_iff]
  split_ifs with h
  · simp [Stmt.touched, h]
  · simp [Stmt.touched, Stmt.effects, Expr.boundNames, h]

/-- The roots that the conversions import by themselves. -/
def automaticRoots (imports : List Import) (types : List GeneratedType) : List String :=
  Stmt.touched (conversionImports (imports.map (·.boundName)) types)

/-- The classes that the variants of an enum are made as, whose names are deleted then. -/
def temporaries (t : ErrorType) : List String :=
  match t.shape with
  | .struct .. => []
  | .enum variants => variants.map fun v => "_" ++ t.ident ++ "_" ++ v.ident

theorem ClassDraft.name_document (c : ClassDraft) (doc : Option String) : (c.document doc).name = c.name := by
  unfold ClassDraft.document
  split
  · split <;> rfl
  · rfl

theorem ClassDraft.effects_build (c : ClassDraft) : c.build.effects = [{ name := c.name }] := rfl

theorem effects_variantContext (v : ErrorVariant) : (variantContext t v).flatMap Stmt.effects =
    [{ name := "_" ++ t.ident ++ "_" ++ v.ident }, { name := "_" ++ t.ident ++ "_" ++ v.ident, binds := false }] := by
  have hpath : '.' ∈ (t.ident ++ "." ++ v.ident).toList := by simp
  have hassign : ∀ value, (Stmt.assign (.dotted (t.ident ++ "." ++ v.ident)) value).effects = [] := by
    intro value
    rw [Stmt.effects, Expr.boundNames_dotted hpath]
    rfl
  simp only [variantContext, List.flatMap_cons, List.flatMap_nil, ClassDraft.effects_build, ClassDraft.add,
    ClassDraft.name_document, hassign]
  rfl

theorem effects_contexts : (contexts t).flatMap Stmt.effects =
    { name := t.ident } :: (temporaries t).flatMap fun n => [{ name := n }, { name := n, binds := false }] := by
  unfold contexts temporaries
  cases t.shape with
  | struct fields description included =>
    simp only [structContext, List.flatMap_cons, List.flatMap_nil, ClassDraft.effects_build, ClassDraft.add,
      ClassDraft.name_document, List.append_nil]
  | enum variants =>
    simp only [List.flatMap_cons, enumBase, ClassDraft.effects_build, ClassDraft.add, ClassDraft.name_document,
      List.flatMap_assoc, List.flatMap_map, effects_variantContext]
    rfl

theorem effects_statements : g.statements.flatMap Stmt.effects = ({ name := g.type.ident } ::
    (temporaries g.type).flatMap fun n => [{ name := n }, { name := n, binds := false }]) ++
      { name := g.type.namespaceName } :: g.aliases.map fun a => { name := a.1 } := by
  have hpath : '.' ∈ (g.type.ident ++ ".error_type").toList := by simp
  have haliases : ∀ l : List (String × String), (l.map fun a => Stmt.assign (.name a.1)
      (.dotted (g.type.namespaceName ++ "." ++ a.2))).flatMap Stmt.effects = l.map fun a => { name := a.1 } := by
    intro l
    induction l with
    | nil => rfl
    | cons a l ih => rw [List.map_cons, List.flatMap_cons, ih]; rfl
  rw [GeneratedType.statements, List.flatMap_append, effects_contexts, List.flatMap_cons, GeneratedType.moduleLevel,
    List.flatMap_cons, haliases]
  simp only [namespaceClass, Stmt.effects, Expr.boundNames_dotted hpath]
  rfl

theorem touched_statements : n ∈ Stmt.touched g.statements ↔ n ∈ g.moduleNames ∨ n ∈ temporaries g.type := by
  rw [Stmt.touched, effects_statements, GeneratedType.moduleNames]
  simp [List.map_flatMap]
  tauto

theorem ident_not_mem_temporaries : t.ident ∉ temporaries t := by
  rw [temporaries]
  cases t.shape with
  | struct fields description included => exact List.not_mem_nil
  | enum variants =>
    intro h
    obtain ⟨v, -, hv⟩ := List.mem_map.mp h
    have hlength := congrArg String.length hv
    simp only [String.length_append] at hlength
    have hunderscore : "_".length = 1 := rfl
    omega

/-- A type ends with its own names bound: what it deletes is deleted before they are bound, or is no name of
its. -/
theorem binderAfterPart_statements {k : Nat} {owner : Option Part} (hn : n ∈ g.moduleNames) :
    binderAfterPart n owner (.type k, g.statements) = some (.type k) := by
  rw [binderAfterPart, effects_statements, List.foldl_append]
  have hbinds : ∀ e ∈ ({ name := g.type.namespaceName } : NameEffect) :: g.aliases.map (fun a => { name := a.1 }),
      e.binds = true := by
    intro e he
    rcases List.mem_cons.mp he with rfl | he
    · rfl
    · obtain ⟨a, -, rfl⟩ := List.mem_map.mp he
      rfl
  refine foldl_rebind_of_binds hbinds ?_
  rcases List.mem_cons.mp hn with rfl | hn
  · right
    rw [List.foldl_cons, foldl_rebind_of_not_mem, rebind, if_pos rfl, if_pos rfl]
    have := ident_not_mem_temporaries (t := g.type)
    simpa [List.map_flatMap] using this
  · left
    simpa using hn

end Effects

end Generated
end TypedErrors
