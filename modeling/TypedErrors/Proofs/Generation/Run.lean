import Mathlib.Data.List.Forall2
import Mathlib.Data.List.Nodup
import TypedErrors.Generation

/-! # Runs of the generation

The declarations of a source file are taken one after another. A step says what may become of one of them
while certain names have owners: it is refused, its names are taken, or it is accepted and owns its names from
then on. A run chains steps. A run without an aborted step is what `Generation.declare` computes
(`declare_of_run`), and the accepted declarations alone have the same run (`Run.accepted`). -/

namespace TypedErrors
namespace Generation

open Generated

variable {s : Settings} {owners owners' : Owners} {d : Declaration} {ds : List Declaration}
  {o : Outcome} {os : List Outcome} {g : GeneratedType}

/-! ### Owners -/

/-- The names that have an owner. -/
def Owners.names (owners : Owners) : List String := owners.map (·.1)

theorem lookup_eq_none_iff {n : String} : owners.lookup n = none ↔ n ∉ owners.names := by
  rw [List.lookup_eq_none_iff, Owners.names, List.mem_map]
  constructor
  · rintro h ⟨p, hp, rfl⟩
    exact absurd (h p hp) (by simp)
  · intro h p hp
    exact bne_iff_ne.mpr fun hn => h ⟨p, hp, hn.symm⟩

theorem taken?_eq_none_iff {ident : String} :
    ∀ {ns seen : List String}, taken? owners ident seen ns = none ↔
      (∀ n ∈ ns, n ∉ owners.names ∧ n ∉ seen) ∧ ns.Nodup
  | [], seen => by simp [taken?]
  | n :: ns, seen => by
    rw [taken?]
    cases hn : owners.lookup n with
    | some owner =>
      have hmem : n ∈ owners.names := by
        by_contra h
        rw [lookup_eq_none_iff.mpr h] at hn
        cases hn
      simp [hmem]
    | none =>
      rw [lookup_eq_none_iff] at hn
      by_cases hs : n ∈ seen
      · simp [hs]
      · simp only [List.contains_eq_mem, hs, decide_false, Bool.false_eq_true, if_false]
        rw [taken?_eq_none_iff]
        rw [List.forall_mem_cons, List.nodup_cons]
        simp only [List.mem_cons, not_or]
        constructor
        · rintro ⟨h, hnd⟩
          exact ⟨⟨⟨hn, hs⟩, fun m hm => ⟨(h m hm).1, (h m hm).2.2⟩⟩, fun hm => (h n hm).2.1 rfl, hnd⟩
        · rintro ⟨⟨-, h⟩, hm, hnd⟩
          exact ⟨fun m hm' => ⟨(h m hm').1, fun e => hm (e ▸ hm'), (h m hm').2⟩, hnd⟩

/-- The names of a type are free: none of them has an owner, and they are distinct. -/
structure Free (owners : Owners) (g : GeneratedType) : Prop where
  disjoint : ∀ n ∈ g.moduleNames, n ∉ owners.names
  nodup : g.moduleNames.Nodup

/-- The names that a type owns once it is accepted. -/
def ownedBy (g : GeneratedType) : Owners := g.moduleNames.map fun n => (n, g.type.ident)

@[simp] theorem names_append : (owners ++ owners').names = owners.names ++ owners'.names := by
  simp [Owners.names]

@[simp] theorem names_ownedBy : (ownedBy g).names = g.moduleNames := by
  simp [Owners.names, ownedBy, Function.comp_def]

theorem claim_eq_ok_iff : claim owners g = .ok owners' ↔ Free owners g ∧ owners' = owners ++ ownedBy g := by
  have hfree : taken? owners g.type.ident [] g.moduleNames = none ↔ Free owners g := by
    rw [taken?_eq_none_iff]
    exact ⟨fun h => ⟨fun n hn => (h.1 n hn).1, h.2⟩, fun h => ⟨fun n hn => ⟨h.1 n hn, by simp⟩, h.2⟩⟩
  rw [claim]
  cases ht : taken? owners g.type.ident [] g.moduleNames with
  | some p =>
    have : ¬ Free owners g := fun h => by rw [hfree.mpr h] at ht; cases ht
    simp [refuse, this]
  | none => simp [hfree.mp ht, ownedBy, eq_comm]

theorem mem_of_taken? {ident n owner : String} : ∀ {ns seen : List String},
    taken? owners ident seen ns = some (n, owner) → n ∈ ns
  | m :: ns, seen, h => by
    rw [taken?] at h
    split at h
    · obtain ⟨rfl, -⟩ := Prod.mk.inj (Option.some.inj h)
      exact List.mem_cons_self ..
    · split_ifs at h
      · obtain ⟨rfl, -⟩ := Prod.mk.inj (Option.some.inj h)
        exact List.mem_cons_self ..
      · exact List.mem_cons_of_mem m (mem_of_taken? h)

/-- A claim that fails reports one of the names; it aborts nothing. -/
theorem claim_error {f : Fault} (h : claim owners g = .error f) :
    ∃ n ∈ g.moduleNames, ∃ owner, f = .report (.duplicateName n owner) := by
  rw [claim] at h
  split at h
  · next n owner ht =>
    injection h with h
    exact ⟨n, mem_of_taken? ht, owner, h.symm⟩
  · cases h

/-! ### Imports -/

theorem claimImports_fst : ∀ (owners : Owners) (is : List Import), (claimImports owners is).1 =
    owners ++ (is.filter fun i => !preludeNames.contains i.boundName).map
      fun i => (i.boundName, "use " ++ i.path.text)
  | owners, [] => by simp [claimImports]
  | owners, i :: is => by
    rw [claimImports]
    split_ifs with h
    · simp only [claimImports_fst owners is, List.filter_cons, h]
      simp
    · rw [claimImports_fst _ is]
      simp only [List.filter_cons, h]
      simp

/-- The reports of the imports. -/
def importReports (is : List Import) : List Diagnostic :=
  (is.filter fun i => preludeNames.contains i.boundName).map fun i =>
    (Diagnostic.duplicateName i.boundName "the generated prelude").withSpan i.span

theorem claimImports_snd : ∀ (owners : Owners) (is : List Import),
    (claimImports owners is).2 = importReports is
  | owners, [] => rfl
  | owners, i :: is => by
    rw [claimImports, importReports, List.filter_cons]
    split_ifs with h
    · simp [claimImports_snd owners is, importReports]
    · rw [claimImports_snd _ is, importReports]

/-- The names that have an owner before the first declaration. -/
def seed (f : SourceFile) : Owners := (claimImports preludeOwners f.imports).1

theorem names_seed (f : SourceFile) : (seed f).names =
    preludeNames ++ (f.imports.map (·.boundName)).filter fun n => !preludeNames.contains n := by
  rw [seed, claimImports_fst, names_append, List.filter_map]
  simp [Owners.names, preludeOwners, Function.comp_def]

theorem mem_names_seed {f : SourceFile} {n : String} :
    n ∈ (seed f).names ↔ n ∈ preludeNames ∨ ∃ i ∈ f.imports, i.boundName = n := by
  rw [names_seed, List.mem_append, List.mem_filter, List.mem_map]
  by_cases h : n ∈ preludeNames
  · simp [h]
  · simp [h]

/-! ### Steps -/

/-- The error type of a declaration with its aliases. -/
def generate (s : Settings) (d : Declaration) : Except Fault GeneratedType :=
  ErrorType.build s d >>= GeneratedType.ofErrorType

/-- What may become of `d` while the names in `owners` have owners, and who owns names after it. -/
inductive Step (s : Settings) (owners : Owners) (d : Declaration) : Outcome → Owners → Prop
  | refused {r : Diagnostic} (h : generate s d = .error (.report r)) :
    Step s owners d { declaration := d, bound := ErrorType.boundConversions s d, fault? := some (.report r) }
      owners
  | taken {g : GeneratedType} {r : Diagnostic} (h : generate s d = .ok g)
      (hc : claim owners g = .error (.report r)) :
    Step s owners d
      { declaration := d, bound := ErrorType.boundConversions s d, generated? := some g
        fault? := some (.report r) } owners
  | accepted {g : GeneratedType} (h : generate s d = .ok g) (hg : Free owners g) :
    Step s owners d { declaration := d, bound := ErrorType.boundConversions s d, generated? := some g }
      (owners ++ ownedBy g)

/-- Steps for the declarations in order. -/
inductive Run (s : Settings) : Owners → List Declaration → List Outcome → Owners → Prop
  | nil {owners : Owners} : Run s owners [] [] owners
  | cons {owners mid owners' : Owners} {d : Declaration} {ds : List Declaration} {o : Outcome}
      {os : List Outcome} (h : Step s owners d o mid) (hs : Run s mid ds os owners') :
    Run s owners (d :: ds) (o :: os) owners'

namespace Step

theorem declaration_eq (h : Step s owners d o owners') : o.declaration = d := by cases h <;> rfl

theorem abort?_eq_none (h : Step s owners d o owners') : o.abort? = none := by cases h <;> rfl

theorem generate_ne_abort (h : Step s owners d o owners') (a : Abort) :
    generate s d ≠ .error (.abort a) := by
  cases h with
  | refused h | taken h _ | accepted h _ => simp [h]

/-- Of a declaration there is a type, which then owns its names, or a report, and no name changes owner. -/
theorem type_or_report (h : Step s owners d o owners') :
    (∃ g, o.accepted? = some g ∧ o.diagnostic? = none ∧ generate s d = .ok g ∧ Free owners g ∧
      owners' = owners ++ ownedBy g) ∨
    (∃ r, o.accepted? = none ∧ o.diagnostic? = some ((r.withSpan d.span).withPath d.ident) ∧
      owners' = owners ∧
      (generate s d = .error (.report r) ∨ ∃ g, generate s d = .ok g ∧ claim owners g = .error (.report r))) := by
  cases h with
  | refused h => exact .inr ⟨_, rfl, rfl, rfl, .inl h⟩
  | taken h hc => exact .inr ⟨_, rfl, rfl, rfl, .inr ⟨_, h, hc⟩⟩
  | accepted h hg => exact .inl ⟨_, rfl, rfl, h, hg, rfl⟩

end Step

/-- Without an abort there is a step. -/
theorem exists_step (h : ∀ a, generate s d ≠ .error (.abort a)) (owners : Owners) :
    ∃ o owners', Step s owners d o owners' := by
  cases hg : generate s d with
  | error f =>
    cases f with
    | report r => exact ⟨_, _, .refused hg⟩
    | abort a => exact absurd hg (h a)
  | ok g =>
    cases hc : claim owners g with
    | error f =>
      obtain ⟨n, -, owner, rfl⟩ := claim_error hc
      exact ⟨_, _, .taken hg hc⟩
    | ok owners' => exact ⟨_, _, .accepted hg (claim_eq_ok_iff.mp hc).1⟩

theorem declare_cons_of_abort {a : Abort} (h : generate s d = .error (.abort a)) :
    declare s owners (d :: ds) =
      [{ declaration := d, bound := ErrorType.boundConversions s d, fault? := some (.abort a) }] := by
  rw [generate] at h
  rw [declare, h]

theorem declare_cons_of_step (h : Step s owners d o owners') :
    declare s owners (d :: ds) = o :: declare s owners' ds := by
  rw [declare]
  cases h with
  | refused h =>
    rw [generate] at h
    rw [h]
  | taken h hc =>
    rw [generate] at h
    simp only [h, hc]
  | accepted h hg =>
    rw [generate] at h
    simp only [h, claim_eq_ok_iff.mpr ⟨hg, rfl⟩]

/-! ### Runs -/

/-- The types that are accepted, in order. -/
def acceptedTypes (os : List Outcome) : List GeneratedType := os.filterMap (·.accepted?)

theorem acceptedTypes_cons_of_some (h : o.accepted? = some g) :
    acceptedTypes (o :: os) = g :: acceptedTypes os := List.filterMap_cons_some h

theorem acceptedTypes_cons_of_none (h : o.accepted? = none) :
    acceptedTypes (o :: os) = acceptedTypes os := List.filterMap_cons_none h

theorem declare_of_run (h : Run s owners ds os owners') : declare s owners ds = os := by
  induction h with
  | nil => rfl
  | cons h _ ih => rw [declare_cons_of_step h, ih]

/-- There is a run as soon as no declaration aborts, whatever has an owner. -/
theorem exists_run : ∀ {ds : List Declaration} (owners : Owners),
    (∀ d ∈ ds, ∀ a, generate s d ≠ .error (.abort a)) → ∃ os owners', Run s owners ds os owners'
  | [], owners, _ => ⟨_, _, .nil⟩
  | d :: ds, owners, h => by
    obtain ⟨o, mid, ho⟩ := exists_step (h d (List.mem_cons_self ..)) owners
    obtain ⟨os, owners', hos⟩ := exists_run mid fun e he => h e (List.mem_cons_of_mem d he)
    exact ⟨o :: os, owners', .cons ho hos⟩

/-- The first declaration that aborts ends everything. -/
theorem findSome?_abort_declare : ∀ {ds : List Declaration} (owners : Owners),
    (declare s owners ds).findSome? (·.abort?) = none ↔ ∀ d ∈ ds, ∀ a, generate s d ≠ .error (.abort a)
  | [], owners => by simp [declare]
  | d :: ds, owners => by
    rw [List.forall_mem_cons]
    by_cases h : ∀ a, generate s d ≠ .error (.abort a)
    · obtain ⟨o, mid, ho⟩ := exists_step h owners
      rw [declare_cons_of_step ho, List.findSome?_cons, ho.abort?_eq_none]
      simp only [findSome?_abort_declare mid]
      exact ⟨fun hs => ⟨h, hs⟩, fun hs => hs.2⟩
    · push Not at h
      obtain ⟨a, ha⟩ := h
      rw [declare_cons_of_abort ha]
      simp only [List.findSome?_cons, Outcome.abort?, reduceCtorEq, false_iff]
      exact fun hs => hs.1 a ha

namespace Run

theorem declarations (h : Run s owners ds os owners') : os.map (·.declaration) = ds := by
  induction h with
  | nil => rfl
  | cons h _ ih => rw [List.map_cons, h.declaration_eq, ih]

/-- Every outcome of a run is that of a step. -/
theorem step_of_mem (h : Run s owners ds os owners') (ho : o ∈ os) :
    ∃ before after, Step s before o.declaration o after := by
  induction h with
  | nil => cases ho
  | cons h _ ih =>
    rcases List.mem_cons.mp ho with rfl | ho
    · exact ⟨_, _, h.declaration_eq ▸ h⟩
    · exact ih ho

/-- The accepted types own their names in the end, and those that had an owner keep it. -/
theorem owners_eq (h : Run s owners ds os owners') :
    owners' = owners ++ (acceptedTypes os).flatMap ownedBy := by
  induction h with
  | nil => simp [acceptedTypes]
  | cons h _ ih =>
    rw [ih]
    rcases h.type_or_report with ⟨g, ho, -, -, -, rfl⟩ | ⟨r, ho, -, rfl, -⟩
    · rw [acceptedTypes_cons_of_some ho, List.flatMap_cons, List.append_assoc]
    · rw [acceptedTypes_cons_of_none ho]

/-- The names of the accepted types are distinct, and none of them had an owner. -/
theorem moduleNames (h : Run s owners ds os owners') :
    ((acceptedTypes os).flatMap (·.moduleNames)).Nodup ∧
      ∀ n ∈ (acceptedTypes os).flatMap (·.moduleNames), n ∉ owners.names := by
  induction h with
  | nil => simp [acceptedTypes]
  | cons h _ ih =>
    obtain ⟨hnd, hdisj⟩ := ih
    rcases h.type_or_report with ⟨g, ho, -, -, hg, rfl⟩ | ⟨r, ho, -, rfl, -⟩
    · rw [acceptedTypes_cons_of_some ho, List.flatMap_cons]
      simp only [names_append, names_ownedBy, List.mem_append, not_or] at hdisj
      refine ⟨List.nodup_append.mpr ⟨hg.nodup, hnd, ?_⟩, fun n hn => ?_⟩
      · rintro a ha b hb rfl
        exact (hdisj a hb).2 ha
      · rcases List.mem_append.mp hn with hn | hn
        · exact hg.disjoint n hn
        · exact (hdisj n hn).1
    · rw [acceptedTypes_cons_of_none ho]
      exact ⟨hnd, hdisj⟩

/-- What is refused leaves no trace: without it the same types are accepted and own the same names. -/
theorem accepted (h : Run s owners ds os owners') :
    Run s owners ((os.filter (·.accepted?.isSome)).map (·.declaration))
      (os.filter (·.accepted?.isSome)) owners' := by
  induction h with
  | nil => exact .nil
  | cons h _ ih =>
    rcases h.type_or_report with ⟨g, ho, -⟩ | ⟨r, ho, -, rfl, -⟩
    · rw [List.filter_cons_of_pos (by simp [ho]), List.map_cons, h.declaration_eq]
      exact .cons h ih
    · rwa [List.filter_cons_of_neg (by simp [ho])]

end Run

/-! ### Results -/

/-- The module of the accepted types, with the reports of imports and declarations. -/
def assemble (s : Settings) (f : SourceFile) (os : List Outcome) : GenerationResult :=
  { code := (Generated.module s f.filename f.imports (acceptedTypes os)).render
    diagnostics := importReports f.imports ++ os.filterMap (·.diagnostic?)
    types := (acceptedTypes os).map (·.type.ident) }

theorem ofSourceFile_of_run {f : SourceFile} (h : Run s (seed f) f.declarations os owners') :
    ofSourceFile s f =
      if hasNull f.filename then .error .nullInFilename
      else if hasNull (assemble s f os).code then .error .nullInCode
      else .ok (assemble s f os) := by
  have ha : os.findSome? (·.abort?) = none := by
    rw [List.findSome?_eq_none_iff]
    intro o ho
    obtain ⟨_, _, hstep⟩ := h.step_of_mem ho
    exact hstep.abort?_eq_none
  rw [ofSourceFile, outcomes, ← seed, claimImports_snd, declare_of_run h, ha]
  rfl

/-- Without a run there is no result. -/
theorem exists_run_of_ok {f : SourceFile} {r : GenerationResult} (h : ofSourceFile s f = .ok r) :
    ∃ os owners', Run s (seed f) f.declarations os owners' := by
  cases ha : (declare s (seed f) f.declarations).findSome? (·.abort?) with
  | some a => rw [ofSourceFile, outcomes, ← seed, ha] at h; cases h
  | none => exact exists_run (seed f) ((findSome?_abort_declare _).mp ha)

/-- A result is what a run assembles, and no null character stands in its way. -/
theorem ofSourceFile_eq_ok_iff {f : SourceFile} {r : GenerationResult} :
    ofSourceFile s f = .ok r ↔ ∃ os owners', Run s (seed f) f.declarations os owners' ∧
      r = assemble s f os ∧ ¬ hasNull f.filename ∧ ¬ hasNull r.code := by
  constructor
  · intro h
    obtain ⟨os, owners', hrun⟩ := exists_run_of_ok h
    rw [ofSourceFile_of_run hrun] at h
    split_ifs at h with hn hc
    injection h with h
    exact ⟨os, owners', hrun, h.symm, hn, h ▸ hc⟩
  · rintro ⟨os, owners', hrun, rfl, hn, hc⟩
    rw [ofSourceFile_of_run hrun, if_neg hn, if_neg hc]

/-- There is a result just when no declaration aborts and no null character stands in its way. -/
theorem exists_ofSourceFile_ok_iff {f : SourceFile} :
    (∃ r, ofSourceFile s f = .ok r) ↔
      (∀ d ∈ f.declarations, ∀ a, generate s d ≠ .error (.abort a)) ∧
      ¬ hasNull f.filename ∧ ¬ hasNull (assemble s f (outcomes s f)).code := by
  constructor
  · rintro ⟨r, h⟩
    obtain ⟨os, owners', hrun, rfl, hn, hc⟩ := ofSourceFile_eq_ok_iff.mp h
    rw [show outcomes s f = os from declare_of_run hrun]
    refine ⟨fun d hd a ha => ?_, hn, hc⟩
    rw [← hrun.declarations, List.mem_map] at hd
    obtain ⟨o, ho, rfl⟩ := hd
    obtain ⟨_, _, hstep⟩ := hrun.step_of_mem ho
    exact hstep.generate_ne_abort a ha
  · rintro ⟨h, hn, hc⟩
    obtain ⟨os, owners', hrun⟩ := exists_run (seed f) h
    rw [show outcomes s f = os from declare_of_run hrun] at hc
    exact ⟨_, ofSourceFile_eq_ok_iff.mpr ⟨os, owners', hrun, rfl, hn, hc⟩⟩

end Generation
end TypedErrors
