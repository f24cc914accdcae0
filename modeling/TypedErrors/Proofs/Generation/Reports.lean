import TypedErrors.Proofs.ErrorType.Alike
import TypedErrors.Proofs.Generation.Returns
import TypedErrors.Proofs.Source.Located

/-! # Where reports point

Whatever refuses a declaration reports it at a place of one of its parts, or at none, and then the report is given the
place of the declaration (`generate_placed`). So all reports on a source have places, and that of a declaration is in
the text that the declaration is read from (`ofSource_reported`). -/

namespace TypedErrors

variable {P : Span → Prop} {ns : String}

/-! ### Declarations that are placed -/

theorem Fields.rel_self {α : Type} {R : α → α → Prop} {fs : Fields α} (h : ∀ x ∈ fs.values, R x x) : Rel R fs fs := by
  have hentries : ∀ p ∈ fs.entries, R p.2 p.2 := fun p hp => h p.2 (List.mem_map_of_mem hp)
  cases fs with
  | unit => exact .unit
  | named items => exact .named (List.forall₂_same.mpr fun p hp => ⟨rfl, hentries (.name p.1, p.2) (List.mem_map_of_mem hp)⟩)
  | unnamed items =>
    exact .unnamed (List.forall₂_same.mpr fun p hp => ⟨rfl, hentries (.index p.1, p.2) (List.mem_map_of_mem hp)⟩)

theorem Field.Placed.alike (hP : GoesOn P) {f : Field} (h : f.Placed P) : f.Alike P ns f :=
  ⟨rfl, attrsAlike_self hP h.attrs, h.span, h.span⟩

theorem Variant.Placed.alike (hP : GoesOn P) {v : Variant} (h : v.Placed P) : v.Alike P ns v :=
  ⟨rfl, Fields.rel_self fun f hf => (h.fields f hf).alike hP, attrsAlike_self hP h.attrs, rfl, h.span, h.span⟩

theorem Shape.Placed.alike (hP : GoesOn P) {shape : Shape} (h : shape.Placed P) : shape.Alike P ns shape := by
  cases shape with
  | struct fields => exact .struct (Fields.rel_self fun f hf => (h f hf).alike hP)
  | enum variants => exact .enum (List.forall₂_same.mpr fun v hv => (h v hv).alike hP)
  | union fields => exact .union

theorem Declaration.Placed.alike (hP : GoesOn P) {d : Declaration} (h : d.Placed P) : d.Alike P ns d := by
  obtain ⟨s, hs, hplace⟩ := h.span
  have hspan : TypedErrors.Placed P d.span := hs ▸ Placed.some hplace
  exact ⟨rfl, rfl, h.shape.alike hP, attrsAlike_self hP h.attrs, rfl, hspan, hspan⟩

namespace Generation

variable {s : Settings} {filename source : String} {f : SourceFile} {r : GenerationResult} {d : Declaration}
  {owners owners' : Owners} {o : Outcome} {report : Diagnostic}

/-! ### Refusals -/

theorem addAlias_placed {owner member : String} {aliases : List (String × String)} {setting : AliasSetting} {e : Fault}
    (h : GeneratedType.addAlias owner aliases setting member = .error e) : e.Placed P := by
  rw [GeneratedType.addAlias] at h
  split at h
  · cases h
  · split_ifs at h
    obtain rfl := Except.error.inj h
    exact ⟨.none, rfl⟩

theorem ofErrorType_placed {t : ErrorType} {e : Fault} (h : GeneratedType.ofErrorType t = .error e) : e.Placed P := by
  rw [GeneratedType.ofErrorType] at h
  split_ifs at h
  · obtain rfl := Except.error.inj h
    trivial
  · rcases bind_eq_error.mp h with h | ⟨_, -, h⟩
    · exact addAlias_placed h
    · rcases bind_eq_error.mp h with h | ⟨_, -, h⟩
      · exact addAlias_placed h
      · rcases bind_eq_error.mp h with h | ⟨_, -, h⟩
        · exact addAlias_placed h
        · cases h

/-- A declaration is refused at a place of one of its parts, if at any. -/
theorem generate_placed (hP : GoesOn P) (hd : d.Placed P) {e : Fault} (h : generate s d = .error e) : e.Placed P := by
  rcases bind_eq_error.mp h with h | ⟨t, -, h⟩
  · -- the building agrees with itself, and what agrees refuses at places among `P` only
    have hself := ErrorType.build_agrees (s := s) (hd.alike hP)
    rw [h] at hself
    cases hself with
    | error he _ => exact he
  · exact ofErrorType_placed h

theorem claim_placed {g : GeneratedType} {e : Fault} (h : claim owners g = .error e) : e.Placed P := by
  obtain ⟨n, -, owner, rfl⟩ := claim_error h
  exact ⟨.none, rfl⟩

/-! ### Reports -/

/-- The report names the declaration, and points into the text that the declaration is read from. -/
structure Reported (filename source : String) (d : Declaration) (report : Diagnostic) : Prop where
  path : report.path = some d.ident
  span : ∃ span before text, report.span = some span ∧ d.ReadFrom filename source before text ∧
    span.StartsIn filename before text

theorem Step.reported (h : Step s owners o.declaration o owners') (hd : o.declaration.IsItem filename source)
    (hr : o.diagnostic? = some report) : Reported filename source o.declaration report := by
  obtain ⟨before, text, hread, hplaced⟩ := hd.located
  obtain ⟨own, hown, hstarts⟩ := hplaced.span
  rcases h.type_or_report with ⟨g, -, hnone, -⟩ | ⟨d, -, hsome, -, hgenerate⟩
  · cases hr.symm.trans hnone
  · obtain rfl := Option.some.inj (hr.symm.trans hsome)
    obtain ⟨hspan, hpath⟩ : Fault.Placed (Span.StartsIn filename before text) (.report d) := by
      rcases hgenerate with h | ⟨g, -, h⟩
      · exact generate_placed Span.goesOn_startsIn hplaced h
      · exact claim_placed h
    -- a place that the report has is kept, and it has no path yet
    refine ⟨?_, ?_⟩
    · show (d.path <|> some o.declaration.ident) = _
      rw [hpath]
      rfl
    · have hany := hspan.orElse (Placed.some hstarts)
      show ∃ span before text, (d.span <|> o.declaration.span) = some span ∧ _
      rw [hown]
      cases hplace : d.span with
      | none => exact ⟨own, before, text, rfl, hread, hstarts⟩
      | some place => exact ⟨place, before, text, rfl, hread, hspan place hplace⟩

/-- What is reported on a source: every report has a place, and where the source is read, the reports are those of its
imports and those of its declarations in order, each of which names its declaration and points into its text. -/
structure ReportsPlaced (s : Settings) (filename source : String) (r : GenerationResult) : Prop where
  span : ∀ d ∈ r.diagnostics, d.span.isSome = true
  declarations : ∀ f, loadSource s.limits filename source = .ok f →
    (outcomes s f).map (·.declaration) = f.declarations ∧
    r.diagnostics = importReports f.imports ++ (outcomes s f).filterMap (·.diagnostic?) ∧
    ∀ o ∈ outcomes s f, ∀ d, o.diagnostic? = some d → Reported filename source o.declaration d

/-- A source that cannot be read is reported at a place. -/
theorem span_of_loadSource {limits : Limits} (h : loadSource limits filename source = .error (.grammar report)) :
    report.span.isSome = true := by
  rw [loadSource] at h
  split_ifs at h
  · cases h
  · split at h
    · obtain rfl := LoadError.grammar.inj (Except.error.inj h)
      rfl
    · split_ifs at h
      cases h

theorem ofSource_reported (h : ofSource s filename source = .ok r) : ReportsPlaced s filename source r := by
  rw [ofSource] at h
  split at h
  · cases h
  · next d hload =>
    obtain rfl := Except.ok.inj h
    refine ⟨List.forall_mem_singleton.mpr (span_of_loadSource hload), fun f hf => ?_⟩
    cases hload.symm.trans hf
  · next f hload =>
    obtain ⟨himports, hitems⟩ := items_of_loadSource hload
    obtain ⟨os, owners', hrun, rfl, -, -⟩ := ofSourceFile_eq_ok_iff.mp h
    have hos : outcomes s f = os := declare_of_run hrun
    have hreported : ∀ o ∈ os, ∀ d, o.diagnostic? = some d → Reported filename source o.declaration d := by
      intro o ho d hd
      obtain ⟨_, _, hstep⟩ := hrun.step_of_mem ho
      exact hstep.reported (hitems _ (hrun.declarations ▸ List.mem_map_of_mem ho)) hd
    constructor
    · intro d hd
      rcases List.mem_append.mp hd with hd | hd
      · obtain ⟨i, hi, rfl⟩ := List.mem_map.mp hd
        exact (himports i (List.mem_of_mem_filter hi)).isSome_span
      · obtain ⟨o, ho, hd⟩ := List.mem_filterMap.mp hd
        obtain ⟨span, -, -, hspan, -⟩ := (hreported o ho d hd).span
        rw [hspan]
        rfl
    · intro f' hf'
      obtain rfl := Except.ok.inj (hload.symm.trans hf')
      rw [hos]
      exact ⟨hrun.declarations, rfl, hreported⟩

/-- A structure without a description, and one whose field has an entry that nobody reads. -/
def refusedSource : String := "struct A;struct B\x7b#[faultline(no)]x:int\x7d"

/-- The first report points at the name of its structure, the second at the entry. -/
theorem refusedSource_reported : ∃ r, ofSource {} "<string>" refusedSource = .ok r ∧
    r.diagnostics.map (fun d => (d.path, d.span.map (·.column))) = [(some "A", some 8), (some "B", some 31)] ∧
    ReportsPlaced {} "<string>" refusedSource r := by
  have h : (loadSource {} "<string>" refusedSource).toOption.any (fun f =>
      ((outcomes {} f).findSome? (·.abort?)).isNone && !hasNull f.filename &&
        !(lines (Generated.module {} f.filename f.imports (acceptedTypes (outcomes {} f)))).any hasNull &&
        (assemble {} f (outcomes {} f)).diagnostics.map (fun d => (d.path, d.span.map (·.column))) ==
          [(some "A", some 8), (some "B", some 31)]) = true := by
    decide +kernel
  obtain ⟨f, hload, h⟩ := exists_of_any_toOption h
  simp only [Bool.and_eq_true, Option.isNone_iff_eq_none, Bool.not_eq_true', beq_iff_eq] at h
  obtain ⟨⟨⟨habort, hname⟩, hlines⟩, hplaces⟩ := h
  have hr := ofSource_eq_assemble (s := {}) hload habort hname hlines
  exact ⟨_, hr, hplaces, ofSource_reported hr⟩

end Generation
end TypedErrors
