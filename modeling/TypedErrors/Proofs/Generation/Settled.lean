import TypedErrors.Proofs.ErrorType.Names
import TypedErrors.Proofs.Except
import TypedErrors.Proofs.Generation.Null
import TypedErrors.Proofs.Generation.Run
import TypedErrors.Proofs.Text

/-! # What a result settles

When a source file has a result, each of its declarations has contributed one type or one report, the names at
module level are distinct and those of nobody else, and what was refused might as well not have been written
(`ofSourceFile_settled`). -/

namespace TypedErrors
namespace Generation

open Code Generated

variable {s : Settings} {f : SourceFile} {r : GenerationResult} {d : Declaration} {o : Outcome}
  {os : List Outcome} {owners' : Owners} {g : GeneratedType} {t : ErrorType}

/-! ### The type of a declaration -/

theorem generate_ident (h : generate s d = .ok g) : g.type.ident = d.ident := by
  obtain ⟨t, ht, hg⟩ := bind_eq_ok.mp h
  obtain ⟨-, -, -, hident⟩ := ErrorType.build_eq_ok ht
  rw [ErrorType.ofErrorType_type hg, hident]

/-! ### The public names of a module -/

theorem textList_injective : Function.Injective textList := by
  intro ns ms h
  have htext : Function.Injective Expr.text := fun _ _ h =>
    Text.ofString_injective (Constant.text.inj (Expr.constant.inj h))
  exact List.map_injective_iff.mpr htext (Expr.list.inj h)

theorem dotted_ne_list (name : String) (xs : List Expr) : Expr.dotted name ≠ .list xs := by
  have hfold : ∀ (ps : List String) (x : Expr), x ≠ .list xs → ps.foldl Expr.attribute x ≠ .list xs := by
    intro ps
    induction ps with
    | nil => exact fun x hx => hx
    | cons p ps ih => exact fun x _ => ih (.attribute x p) nofun
  rw [Expr.dotted]
  cases dottedParts name with
  | nil => nofun
  | cons p ps => exact hfold ps (.name p) nofun

/-- No statement of a generated type assigns a list. -/
theorem assign_list_not_mem_statements {target : Expr} {xs : List Expr} :
    .assign target (.list xs) ∉ g.statements := by
  intro h
  simp only [GeneratedType.statements, GeneratedType.moduleLevel, List.mem_append, List.mem_cons,
    List.mem_map] at h
  rcases h with h | h | h | ⟨a, -, h⟩
  · rw [contexts] at h
    split at h
    · simp [structContext, ClassDraft.build] at h
    · simp only [List.mem_cons, List.mem_flatMap] at h
      rcases h with h | ⟨v, -, h⟩
      · simp [enumBase, ClassDraft.build] at h
      · simp [variantContext, ClassDraft.build] at h
  · cases h
  · exact dotted_ne_list _ xs (Stmt.assign.inj h).2.symm
  · exact dotted_ne_list _ xs (Stmt.assign.inj h).2

theorem assign_ne_runtimeImport {target value : Expr} (path : String) :
    .assign target value ≠ runtimeImport path := by
  rw [runtimeImport]
  cases (joinWith "." (dottedParts path).dropLast).isEmpty <;> nofun

/-- The one list that a module assigns is that of its public names. -/
theorem eq_exports_of_assign_mem {filename : String} {is : List Import} {gs : List GeneratedType}
    {target : Expr} {ns : List String}
    (h : .assign target (textList ns) ∈ (Generated.module s filename is gs).body) :
    ns = gs.flatMap (·.exports) := by
  simp only [Generated.module, List.mem_append, List.mem_cons, List.mem_map, List.mem_flatMap,
    conversionImports, List.not_mem_nil, or_false] at h
  rcases h with ((((((h | h) | h | h) | ⟨i, -, h⟩) | ⟨m, -, h⟩) | h | h) | h) | ⟨g, -, h⟩
  · cases h
  · split_ifs at h <;> simp at h
  · cases h
  · cases h
  · rw [importStmt] at h
    split at h <;> cases h
  · cases h
  · exact absurd h (assign_ne_runtimeImport _)
  · cases h
  · split_ifs at h
    · cases h
    · exact textList_injective (Stmt.assign.inj (List.mem_singleton.mp h)).2
  · exact absurd h assign_list_not_mem_statements

/-! ### Results -/

/-- A file without the declarations that are refused. -/
def withoutRefused (s : Settings) (f : SourceFile) : SourceFile :=
  { f with declarations := ((outcomes s f).filter (·.accepted?.isSome)).map (·.declaration) }

/-- What a declaration contributes: its type, or the report of what it is refused for, at its place. -/
inductive Contributes (s : Settings) (o : Outcome) : Prop
  | type (g : GeneratedType) (h : generate s o.declaration = .ok g) (ha : o.accepted? = some g)
    (hd : o.diagnostic? = none) (hi : g.type.ident = o.declaration.ident)
  | report (r : Diagnostic) (ha : o.accepted? = none)
    (hd : o.diagnostic? = some ((r.withSpan o.declaration.span).withPath o.declaration.ident))
    (hr : generate s o.declaration = .error (.report r) ∨
      ∃ g n owner, generate s o.declaration = .ok g ∧ n ∈ g.moduleNames ∧ r = .duplicateName n owner)

/-- The result `r` settles every declaration of `f`. -/
structure Settled (s : Settings) (f : SourceFile) (r : GenerationResult) : Prop where
  /-- Each declaration has one outcome, in source order. -/
  declarations : (outcomes s f).map (·.declaration) = f.declarations
  /-- Each outcome is one type or one report. -/
  contributes : ∀ o ∈ outcomes s f, Contributes s o
  /-- The types, the reports and the code are made of the outcomes in order. -/
  types : r.types = (acceptedTypes (outcomes s f)).map (·.type.ident)
  diagnostics : r.diagnostics = importReports f.imports ++ (outcomes s f).filterMap (·.diagnostic?)
  code : r.code = (Generated.module s f.filename f.imports (acceptedTypes (outcomes s f))).render
  /-- No two names at module level are the same, and none is bound by anything else. -/
  nodup : ((acceptedTypes (outcomes s f)).flatMap (·.moduleNames)).Nodup
  prelude : ∀ n ∈ (acceptedTypes (outcomes s f)).flatMap (·.moduleNames), n ∉ preludeNames
  imports : ∀ n ∈ (acceptedTypes (outcomes s f)).flatMap (·.moduleNames), ∀ i ∈ f.imports, i.boundName ≠ n
  /-- The public names of the module are distinct. -/
  exports : ∀ ns, .assign (.name "__all__") (textList ns) ∈
    (Generated.module s f.filename f.imports (acceptedTypes (outcomes s f))).body → ns.Nodup
  /-- Without the declarations that are refused the code is the same, and only imports are reported. -/
  alone : ofSourceFile s (withoutRefused s f) = .ok { r with diagnostics := importReports f.imports }

theorem Step.contributes {owners : Owners} (h : Step s owners o.declaration o owners') : Contributes s o := by
  rcases h.type_or_report with ⟨g, ha, hd, hg, -⟩ | ⟨r, ha, hd, -, hr⟩
  · exact .type g hg ha hd (generate_ident hg)
  · refine .report r ha hd (hr.imp_right ?_)
    rintro ⟨g, hg, hc⟩
    obtain ⟨n, hn, owner, he⟩ := claim_error hc
    exact ⟨g, n, owner, hg, hn, Fault.report.inj he⟩

/-- Public names are names at module level. -/
theorem exports_sublist : ∀ gs : List GeneratedType,
    (gs.flatMap (·.exports)).Sublist (gs.flatMap (·.moduleNames))
  | [] => .slnil
  | g :: gs => by
    rw [List.flatMap_cons, List.flatMap_cons]
    refine List.Sublist.append ?_ (exports_sublist gs)
    rw [GeneratedType.exports]
    split_ifs
    · exact List.Sublist.refl _
    · exact List.nil_sublist _

theorem acceptedTypes_filter (os : List Outcome) :
    acceptedTypes (os.filter (·.accepted?.isSome)) = acceptedTypes os := by
  induction os with
  | nil => rfl
  | cons o os ih =>
    cases ho : o.accepted? with
    | some g =>
      rw [List.filter_cons_of_pos (by simp [ho]), acceptedTypes_cons_of_some ho,
        acceptedTypes_cons_of_some ho, ih]
    | none => rw [List.filter_cons_of_neg (by simp [ho]), acceptedTypes_cons_of_none ho, ih]

/-- What a run assembles settles the file. -/
theorem Run.settled (hrun : Run s (seed f) f.declarations os owners') (hn : ¬ hasNull f.filename)
    (hc : ¬ hasNull (assemble s f os).code) : Settled s f (assemble s f os) := by
  have hos : outcomes s f = os := declare_of_run hrun
  have hwithout : withoutRefused s f =
      { f with declarations := (os.filter (·.accepted?.isSome)).map (·.declaration) } := by
    rw [withoutRefused, hos]
  obtain ⟨hnodup, hfresh⟩ := hrun.moduleNames
  have hcontributes : ∀ o ∈ os, Contributes s o := by
    intro o ho
    obtain ⟨_, _, hstep⟩ := hrun.step_of_mem ho
    exact hstep.contributes
  refine ⟨?_, ?_, ?_, ?_, ?_, ?_, ?_, ?_, ?_, ?_⟩ <;> try rw [hos]
  · exact hrun.declarations
  · exact hcontributes
  · rfl
  · rfl
  · rfl
  · exact hnodup
  · exact fun n hn hp => hfresh n hn (mem_names_seed.mpr (.inl hp))
  · exact fun n hn i hi hin => hfresh n hn (mem_names_seed.mpr (.inr ⟨i, hi, hin⟩))
  · intro ns hns
    rw [eq_exports_of_assign_mem hns]
    exact hnodup.sublist (exports_sublist _)
  · -- what is refused leaves the owners as they are, so the accepted declarations have a run of their own
    have hrun' : Run s (seed (withoutRefused s f)) (withoutRefused s f).declarations
        (os.filter (·.accepted?.isSome)) owners' := by
      rw [hwithout]
      exact hrun.accepted
    have hreports : (os.filter (·.accepted?.isSome)).filterMap (·.diagnostic?) = [] := by
      rw [List.filterMap_eq_nil_iff]
      intro o ho
      obtain ⟨ho, hsome⟩ := List.mem_filter.mp ho
      cases hcontributes o ho with
      | type g _ _ hd _ => exact hd
      | report r ha => rw [ha] at hsome; cases hsome
    have hassemble : assemble s (withoutRefused s f) (os.filter (·.accepted?.isSome)) =
        { assemble s f os with diagnostics := importReports f.imports } := by
      rw [hwithout, assemble, assemble, acceptedTypes_filter, hreports, List.append_nil]
    rw [ofSourceFile_of_run hrun', hassemble, hwithout, if_neg hn, if_neg hc]

theorem ofSourceFile_settled (h : ofSourceFile s f = .ok r) : Settled s f r := by
  obtain ⟨os, owners', hrun, rfl, hn, hc⟩ := ofSourceFile_eq_ok_iff.mp h
  exact hrun.settled hn hc

/-- A structure declared twice, and one without a description. -/
def exampleFile : SourceFile :=
  let tokens : List AttrToken :=
    [⟨.name, "faultline", none⟩, ⟨.leftParen, "(", none⟩, ⟨.name, "description", none⟩,
      ⟨.equal, "=", none⟩, ⟨.string, "\"a\"", none⟩, ⟨.rightParen, ")", none⟩]
  let declaration (ident : String) (attrs : List RawAttribute) : Declaration :=
    { ident, visibility := .pub, shape := .struct .unit, attrs }
  { filename := "a.fault"
    imports := [{ path := ⟨"copy", []⟩ }]
    declarations := [declaration "A" [⟨tokens, none⟩], declaration "A" [⟨tokens, none⟩], declaration "B" []] }

/-- The type of the structure that is accepted. -/
def exampleType : GeneratedType :=
  { type :=
      { ident := "A", visibility := .pub, shape := .struct .unit { template := [.char 'a'] } [], aliases := {}
        namespaceName := "faultline_a", namespaceVisibility := .pub }
    aliases := [("Error", "Error"), ("Result", "Result"), ("ErrorKind", "ErrorKind")] }

theorem acceptedTypes_exampleFile : acceptedTypes (outcomes {} exampleFile) = [exampleType] := by
  rfl

theorem findSome?_abort_exampleFile : (outcomes {} exampleFile).findSome? (·.abort?) = none := by
  decide +kernel

theorem not_hasNull_exampleFile : ¬ hasNull (assemble {} exampleFile (outcomes {} exampleFile)).code := by
  rw [assemble, acceptedTypes_exampleFile, Bool.not_eq_true, hasNull_render, hasNull_eq_hasZero]
  decide +kernel

theorem exampleFile_settled : ∃ r, ofSourceFile {} exampleFile = .ok r ∧ Settled {} exampleFile r := by
  obtain ⟨r, h⟩ := exists_ofSourceFile_ok_iff.mpr
    ⟨(findSome?_abort_declare _).mp findSome?_abort_exampleFile, by decide, not_hasNull_exampleFile⟩
  exact ⟨r, h, ofSourceFile_settled h⟩

end Generation
end TypedErrors
