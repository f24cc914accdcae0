import Mathlib.Data.List.Nodup
import TypedErrors.Proofs.ErrorType.Abort
import TypedErrors.Proofs.Execution.Classify

/-! # What is generated for an error type

An error type has its aliases generated unless two that are enabled have one name, or a field that the kind includes
has the name of the callee (`ofErrorType_outcomes`). Nothing else about the type decides this. -/

namespace TypedErrors

variable {t : ErrorType} {owner name name' : String} {names : List String}

/-! ### Names that come back -/

/-- The name comes back after the first names, which are distinct. -/
def FirstRepeated (name : String) (names : List String) : Prop :=
  ∃ pre post, names = pre ++ name :: post ∧ pre.Nodup ∧ name ∈ pre

theorem FirstRepeated.not_nodup (h : FirstRepeated name names) : ¬ names.Nodup := by
  obtain ⟨pre, post, rfl, -, hname⟩ := h
  intro hnodup
  exact List.disjoint_of_nodup_append hnodup hname List.mem_cons_self

theorem FirstRepeated.unique (h : FirstRepeated name names) (h' : FirstRepeated name' names) : name = name' := by
  -- a name that has come back is among those that the other one is the first to repeat
  have hshorter {x y : String} {pre pre' more post post' : List String} (hx : x ∈ pre) (hnodup : pre'.Nodup)
      (hpre : pre' = pre ++ more) (hmore : x :: post = more ++ y :: post') : x = y := by
    cases more with
    | nil => exact (List.cons.inj hmore).1
    | cons z more =>
      obtain ⟨rfl, -⟩ := List.cons.inj hmore
      exact absurd List.mem_cons_self (List.disjoint_of_nodup_append (hpre ▸ hnodup) hx)
  obtain ⟨pre, post, rfl, hpre, hname⟩ := h
  obtain ⟨pre', post', heq, hpre', hname'⟩ := h'
  obtain ⟨more, h, hmore⟩ | ⟨more, h, hmore⟩ := List.append_eq_append_iff.mp heq
  · exact hshorter hname hpre' h hmore
  · exact (hshorter hname' hpre h hmore).symm

/-! ### Aliases -/

/-- The settings of the aliases, each with the member of the namespace that it is for. -/
def AliasSettings.members (a : AliasSettings) : List (AliasSetting × String) :=
  [(a.error, "Error"), (a.result, "Result"), (a.kind, "ErrorKind")]

/-- The aliases that are enabled. -/
def enabledAliases (settings : List (AliasSetting × String)) : List (String × String) :=
  settings.filterMap fun p => (p.1.resolve p.2).map (·, p.2)

/-- The names of the aliases of a type. -/
def ErrorType.aliasNames (t : ErrorType) : List String := (enabledAliases t.aliases.members).map Prod.fst

namespace GeneratedType

theorem isSome_lookup_iff {aliases : List (String × String)} :
    (aliases.lookup name).isSome = true ↔ name ∈ aliases.map Prod.fst := by
  rw [← Option.ne_none_iff_isSome, ne_eq, List.lookup_eq_none_iff]
  simp

theorem addAlias_of_disabled {setting : AliasSetting} {member : String} (h : setting.resolve member = none)
    (aliases : List (String × String)) : addAlias owner aliases setting member = .ok aliases := by
  rw [addAlias, h]

theorem addAlias_of_enabled {setting : AliasSetting} {member : String} (h : setting.resolve member = some name)
    (aliases : List (String × String)) : addAlias owner aliases setting member =
      if name ∈ aliases.map Prod.fst then .error (.report (.duplicateName name owner))
      else .ok (aliases ++ [(name, member)]) := by
  simp only [addAlias, h, isSome_lookup_iff]
  rfl

/-- Aliases are added one after another, up to the first name that comes back. -/
theorem addAliases_outcomes (owner : String) (settings : List (AliasSetting × String))
    {aliases : List (String × String)} (haliases : (aliases.map Prod.fst).Nodup) :
    ((aliases ++ enabledAliases settings).map Prod.fst).Nodup ∧
        settings.foldlM (fun as p => addAlias owner as p.1 p.2) aliases = .ok (aliases ++ enabledAliases settings) ∨
      ∃ name, FirstRepeated name ((aliases ++ enabledAliases settings).map Prod.fst) ∧
        settings.foldlM (fun as p => addAlias owner as p.1 p.2) aliases =
          .error (.report (.duplicateName name owner)) := by
  induction settings generalizing aliases with
  | nil =>
    rw [enabledAliases, List.filterMap_nil, List.append_nil]
    exact .inl ⟨haliases, rfl⟩
  | cons p settings ih =>
    obtain ⟨setting, member⟩ := p
    rw [List.foldlM_cons]
    cases hresolve : setting.resolve member with
    | none =>
      have henabled : enabledAliases ((setting, member) :: settings) = enabledAliases settings :=
        List.filterMap_cons_none (congrArg (Option.map (·, member)) hresolve)
      rw [henabled, addAlias_of_disabled hresolve]
      exact ih haliases
    | some name =>
      have henabled : enabledAliases ((setting, member) :: settings) = (name, member) :: enabledAliases settings :=
        List.filterMap_cons_some (congrArg (Option.map (·, member)) hresolve)
      rw [henabled, addAlias_of_enabled hresolve]
      by_cases hname : name ∈ aliases.map Prod.fst
      · rw [if_pos hname]
        refine .inr ⟨name, ⟨aliases.map Prod.fst, (enabledAliases settings).map Prod.fst, ?_, haliases, hname⟩, rfl⟩
        rw [List.map_append, List.map_cons]
      · rw [if_neg hname, List.append_cons]
        refine ih ?_
        rw [List.map_append, List.map_singleton]
        refine haliases.append (List.nodup_singleton name) fun x hx hy => hname ?_
        rwa [← show x = name from List.mem_singleton.mp hy]

/-! ### Error types -/

/-- A field of the name is included in a kind of the type. -/
def IncludesNamed (t : ErrorType) (name : String) : Prop :=
  ∃ c ∈ t.kindCases, ∃ f, (.name name, f) ∈ c.allFields.entries ∧ f.isIncluded = true

theorem named_entry_iff {fs : Fields ErrorField} : (∃ items, fs = .named items ∧ name ∈ items.map Prod.fst) ↔
    ∃ f, (FieldKey.name name, f) ∈ fs.entries := by
  cases fs with
  | unit => simp [Fields.entries]
  | named items => simp [Fields.entries]
  | unnamed items => simp [Fields.entries]

theorem takesCallee_iff_includesNamed : t.kindCases.any Generated.takesCallee = true ↔
    IncludesNamed t Generated.calleeKeyword := by
  rw [List.any_eq_true]
  refine exists_congr fun c => and_congr_right fun hc => ?_
  rw [takesCallee_iff, named_entry_iff, Execution.kindCases_included hc]
  simp only [List.mem_filter]

theorem ofErrorType_eq (h : ¬ IncludesNamed t Generated.calleeKeyword) : ofErrorType t =
    t.aliases.members.foldlM (fun as p => addAlias t.ident as p.1 p.2) [] >>= fun aliases => .ok ⟨t, aliases⟩ := by
  rw [← takesCallee_iff_includesNamed] at h
  rw [ofErrorType, if_neg h]
  simp only [AliasSettings.members, List.foldlM_cons, List.foldlM_nil, bind_assoc, pure_bind]
  rfl

theorem ofErrorType_of_takesCallee (h : t.kindCases.any Generated.takesCallee = true) :
    ofErrorType t = .error (.abort (.keyword "func")) := by
  rw [ofErrorType, if_pos h]
  rfl

/-- What becomes of an error type: all its enabled aliases are added, or the first name that comes back is refused, or
the run ends. -/
theorem ofErrorType_outcomes (t : ErrorType) :
    (∀ g, ofErrorType t = .ok g ↔
      ¬ IncludesNamed t "func" ∧ t.aliasNames.Nodup ∧ g = ⟨t, enabledAliases t.aliases.members⟩) ∧
    (∀ d, ofErrorType t = .error (.report d) ↔
      ¬ IncludesNamed t "func" ∧ ∃ name, FirstRepeated name t.aliasNames ∧ d = .duplicateName name t.ident) ∧
    (∀ a, ofErrorType t = .error (.abort a) ↔ IncludesNamed t "func" ∧ a = .keyword "func") := by
  by_cases hcallee : IncludesNamed t "func"
  · have hout := ofErrorType_of_takesCallee (takesCallee_iff_includesNamed.mpr hcallee)
    simp [hout, hcallee, eq_comm]
  · have hout := ofErrorType_eq hcallee
    have hnil : (([] : List (String × String)).map Prod.fst).Nodup := List.nodup_nil
    have hadds := addAliases_outcomes t.ident t.aliases.members hnil
    rw [List.nil_append] at hadds
    obtain ⟨hnodup, hadd⟩ | ⟨name, hname, hadd⟩ := hadds
    · replace hout : ofErrorType t = .ok ⟨t, enabledAliases t.aliases.members⟩ := by rw [hout, hadd]; rfl
      have hrepeated (name : String) : ¬ FirstRepeated name t.aliasNames := fun h => h.not_nodup hnodup
      refine ⟨fun g => ?_, fun d => ?_, fun a => ?_⟩
      · rw [hout, Except.ok.injEq, eq_comm]
        exact ⟨fun h => ⟨hcallee, hnodup, h⟩, fun h => h.2.2⟩
      · rw [hout]
        exact ⟨nofun, fun ⟨_, name, hname, _⟩ => absurd hname (hrepeated name)⟩
      · rw [hout]
        exact ⟨nofun, fun h => absurd h.1 hcallee⟩
    · replace hout : ofErrorType t = .error (.report (.duplicateName name t.ident)) := by rw [hout, hadd]; rfl
      refine ⟨fun g => ?_, fun d => ?_, fun a => ?_⟩
      · rw [hout]
        exact ⟨nofun, fun h => absurd h.2.1 hname.not_nodup⟩
      · rw [hout, Except.error.injEq, Fault.report.injEq]
        exact ⟨fun h => ⟨hcallee, name, hname, h.symm⟩, fun ⟨_, x, hx, h⟩ => by rw [h, hx.unique hname]⟩
      · rw [hout]
        exact ⟨nofun, fun h => absurd h.1 hcallee⟩

/-! ### A field that is called like the callee -/

/-- A structure with such a field. It has no settings, so that its aliases are the standard ones. -/
def calleeDeclaration : Declaration :=
  let block (tokens : List AttrToken) : RawAttribute :=
    { tokens := [⟨.name, "faultline", none⟩, ⟨.leftParen, "(", none⟩] ++ tokens ++ [⟨.rightParen, ")", none⟩] }
  { ident := "B"
    visibility := .inherited
    shape := .struct (.named [("func",
      { name := some "func"
        type := .union (.plain ⟨"int", []⟩) []
        attrs := [block [⟨.name, "include_in_kind", none⟩]] })])
    attrs := [block [⟨.name, "description", none⟩, ⟨.equal, "=", none⟩, ⟨.string, "\"b\"", none⟩]] }

theorem calleeDeclaration_aborts : ∃ t, ErrorType.build {} calleeDeclaration = .ok t ∧ t.aliasNames.Nodup ∧
    ofErrorType t = .error (.abort (.keyword "func")) := by
  have h : (ErrorType.build {} calleeDeclaration).toOption.any (fun t =>
      t.aliasNames.Nodup && t.kindCases.any Generated.takesCallee) = true := by
    decide +kernel
  obtain ⟨t, ht, h⟩ := exists_of_any_toOption h
  obtain ⟨hnodup, hcallee⟩ := Bool.and_eq_true_iff.mp h
  exact ⟨t, ht, of_decide_eq_true hnodup, ofErrorType_of_takesCallee hcallee⟩

end GeneratedType
end TypedErrors
