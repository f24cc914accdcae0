import TypedErrors.Proofs.ErrorType.WellFormed
import TypedErrors.Proofs.Execution.Namespace
import TypedErrors.Proofs.Generation.Bindings

/-! # Members of the generated classes

The classes of the contexts and of the kinds get members in two ways: their bodies bind some, and the cases and the
link to the exception type are assigned to them from outside, in order. What each member is in the end
(`contextMember_eq`, `kindMember_cases`), and when no assignment displaces another member (`kept_iff`). -/

namespace TypedErrors

namespace Code

/-- The parts of a reference that is spelled with dots. -/
def Expr.parts? : Expr → Option (List String)
  | .name n => some [n]
  | .attribute value a => value.parts?.map (· ++ [a])
  | _ => none

theorem Expr.parts?_foldl_attribute {e : Expr} {ps : List String} (h : e.parts? = some ps) (qs : List String) :
    (qs.foldl .attribute e).parts? = some (ps ++ qs) := by
  induction qs generalizing e ps with
  | nil => rw [List.append_nil]; exact h
  | cons q qs ih =>
    have hq : (Expr.attribute e q).parts? = some (ps ++ [q]) := by rw [Expr.parts?, h]; rfl
    rw [List.foldl_cons, ih hq, List.append_assoc, List.singleton_append]

@[simp] theorem Expr.parts?_dotted (path : String) : (Expr.dotted path).parts? = some (dottedParts path) := by
  obtain ⟨qs, hqs⟩ := Execution.exists_dottedParts path
  rw [Expr.dotted, hqs]
  have hroot : (Expr.name (Execution.rootName path)).parts? = some [Execution.rootName path] := rfl
  exact Expr.parts?_foldl_attribute hroot qs

end Code

namespace Generation

open Code Generated Execution

variable {β : Type} {g : GeneratedType} {t : ErrorType} {scope cls a : String} {ss : List Stmt}

/-! ### Setting members -/

/-- The name that code in the body of `scope` means by `n`. Outside of classes it is `n` itself. -/
def nameIn (scope n : String) : String := (Key.within scope n).written

theorem nameIn_empty (n : String) : nameIn "" n = n := by
  rw [nameIn, Key.within_empty]
  rfl

theorem nameIn_of_public {n : String} (h : isPrivate n = false) : nameIn scope n = n := Key.written_within h

theorem map_nameIn_of_public {ns : List String} (h : ∀ n ∈ ns, isPrivate n = false) : ns.map (nameIn scope) = ns :=
  (List.map_congr_left fun n hn => nameIn_of_public (h n hn)).trans (List.map_id ns)

/-- Where a member of a class comes from: from its body, or from an assignment to the class. -/
inductive Origin where
  | body
  | assigned (value : Expr)

/-- What the member `a` of the class `cls` is after a statement in the body of `scope`. -/
def memberAfter (scope cls a : String) (o : Option Origin) : Stmt → Option Origin
  | .cls name _ body _ _ =>
    if name = cls then (if a ∈ (Stmt.touched body).map (nameIn name) then some .body else none) else o
  | .assign target value =>
    if target.parts?.map (·.map (nameIn scope)) = some ((dottedParts cls).map (nameIn scope) ++ [a]) then
      some (.assigned value)
    else o
  | _ => o

/-- What the member `a` of the class `cls` is after statements in the body of `scope`. -/
def memberOf (scope cls a : String) (ss : List Stmt) : Option Origin := ss.foldl (memberAfter scope cls a) none

section
variable {o : Option Origin}

theorem memberAfter_assign_dotted (path : String) (value : Expr) :
    memberAfter scope cls a o (.assign (.dotted (cls ++ "." ++ path)) value) =
      if (dottedParts path).map (nameIn scope) = [a] then some (.assigned value) else o := by
  rw [memberAfter, Expr.parts?_dotted, dottedParts_append_dot, Option.map_some, List.map_append]
  simp only [Option.some.injEq, List.append_cancel_left_eq]

theorem map_dottedParts_eq_singleton_iff {path : String} :
    (dottedParts path).map (nameIn scope) = [a] ↔ Undotted path ∧ nameIn scope path = a := by
  rw [List.map_eq_singleton_iff]
  simp only [dottedParts_eq_singleton_iff]
  exact ⟨fun ⟨_, ⟨hu, rfl⟩, ha⟩ => ⟨hu, ha⟩, fun ⟨hu, ha⟩ => ⟨path, ⟨hu, rfl⟩, ha⟩⟩

/-- A name alone is no member of a class. -/
theorem memberAfter_assign_name (n : String) (value : Expr) :
    memberAfter scope cls a o (.assign (.name n) value) = o := by
  obtain ⟨qs, hqs⟩ := exists_dottedParts cls
  rw [memberAfter, hqs]
  simp [Expr.parts?]

theorem foldl_memberAfter_of_keeps (h : ∀ s ∈ ss, ∀ o, memberAfter scope cls a o s = o) :
    ss.foldl (memberAfter scope cls a) o = o := by
  induction ss generalizing o with
  | nil => rfl
  | cons s ss ih =>
    rw [List.foldl_cons, h s (List.mem_cons_self ..)]
    exact ih fun s hs => h s (List.mem_cons_of_mem _ hs)

theorem foldl_attach {decorator : Expr} {path : String} {doc : Option String} {c : Attachment}
    (htemp : c.temporary ≠ cls) : (attach cls decorator path doc c).foldl (memberAfter scope cls a) o =
      if (dottedParts c.name).map (nameIn scope) = [a] then some (.assigned (.name c.temporary)) else o := by
  rw [attach, List.foldl_cons, List.foldl_cons, List.foldl_cons, List.foldl_nil, memberAfter_assign_dotted,
    memberAfter, if_neg htemp]
  rfl

/-- Attached classes set the members that they are called, and the last one of a name wins. -/
theorem foldl_attachments (scope a : String) {stmts : β → List Stmt} {item : β → Attachment} {xs : List β}
    (hstmts : ∀ x ∈ xs, Attaches cls stmts item x) (htemp : ∀ x ∈ xs, (item x).temporary ≠ cls) :
    ((xs.flatMap stmts).foldl (memberAfter scope cls a) o = o ∧
      ∀ x ∈ xs, ¬ (Undotted (item x).name ∧ nameIn scope (item x).name = a)) ∨
    ∃ x ∈ xs, (Undotted (item x).name ∧ nameIn scope (item x).name = a) ∧
      (xs.flatMap stmts).foldl (memberAfter scope cls a) o = some (.assigned (.name (item x).temporary)) := by
  induction xs generalizing o with
  | nil => exact .inl ⟨rfl, nofun⟩
  | cons x xs ih =>
    obtain ⟨hx, hxs⟩ := List.forall_mem_cons.mp hstmts
    obtain ⟨hxtemp, hxstemp⟩ := List.forall_mem_cons.mp htemp
    obtain ⟨decorator, path, doc, -, hx⟩ := hx
    rw [List.flatMap_cons, List.foldl_append, hx, foldl_attach hxtemp]
    rcases ih hxs hxstemp with ⟨hrest, hnone⟩ | ⟨y, hy, hnames, hrest⟩
    · rw [hrest]
      split
      · next hnames =>
        exact .inr ⟨x, List.mem_cons_self .., map_dottedParts_eq_singleton_iff.mp hnames, rfl⟩
      · next hnames =>
        exact .inl ⟨rfl, List.forall_mem_cons.mpr ⟨mt map_dottedParts_eq_singleton_iff.mpr hnames, hnone⟩⟩
    · exact .inr ⟨y, List.mem_cons_of_mem _ hy, hnames, hrest⟩

end

/-! ### The class of the contexts -/

/-- The variants of an enum. -/
def variantsOf (t : ErrorType) : List ErrorVariant :=
  match t.shape with
  | .struct .. => []
  | .enum variants => variants

/-- The methods that the class of the contexts defines. -/
def contextMethodNames : List String := ["kind", "__str__", "__repr__"]

theorem touched_contextMethods (entries : List (FieldKey × ErrorField)) (text : List Stmt) :
    Stmt.touched (entries.map fieldStmt ++ contextMethods t text) = contextMethodNames := by
  induction entries with
  | nil => rfl
  | cons e entries ih => exact ih

/-- The class of the contexts defines its methods, and the variants are attached to it. -/
theorem contexts_eq (t : ErrorType) : ∃ bases body decorators doc,
    contexts t = .cls t.ident bases body decorators doc :: (variantsOf t).flatMap (variantContext t) ∧
      Stmt.touched body = contextMethodNames := by
  unfold contexts variantsOf
  cases t.shape with
  | struct fields description sources =>
    obtain ⟨doc, hdoc⟩ := structContext_eq (t := t) fields description
    exact ⟨_, _, _, doc, congrArg (· :: []) hdoc, touched_contextMethods _ _⟩
  | enum variants =>
    obtain ⟨doc, hdoc⟩ := enumBase_eq (t := t) variants
    exact ⟨_, _, _, doc, congrArg (· :: _) hdoc, touched_contextMethods [] _⟩

theorem temporary_ne_ident (t : ErrorType) (v : ErrorVariant) : (variantAttachment t v).temporary ≠ t.ident := by
  intro h
  have hlength := congrArg String.length h
  simp only [variantAttachment, String.length_append] at hlength
  have hunderscore : "_".length = 1 := rfl
  omega

/-- The exception type, as the module links the class of the contexts to it. -/
def linkedType (t : ErrorType) : Expr := .dotted (t.namespaceName ++ ".Error")

/-- The member of the class of the contexts, after the statements of a type that are about it. -/
def contextMember (g : GeneratedType) (a : String) : Option Origin :=
  memberOf "" g.type.ident a (contexts g.type ++ g.moduleLevel)

/-- What comes after the contexts sets the link, and no other member. -/
theorem foldl_moduleLevel {o : Option Origin} : g.moduleLevel.foldl (memberAfter "" g.type.ident a) o =
    if "error_type" = a then some (.assigned (linkedType g.type)) else o := by
  have hlink : memberAfter "" g.type.ident a o (.assign (.dotted (g.type.ident ++ ".error_type"))
      (.dotted (g.type.namespaceName ++ ".Error"))) =
        if "error_type" = a then some (.assigned (linkedType g.type)) else o := by
    have hpath : g.type.ident ++ ".error_type" = g.type.ident ++ "." ++ "error_type" :=
      append_dot_literal (by decide)
    have hparts : dottedParts "error_type" = ["error_type"] := dottedParts_eq_singleton (by decide)
    rw [hpath, memberAfter_assign_dotted, hparts]
    simp only [List.map_cons, List.map_nil, nameIn_empty, List.cons.injEq, and_true]
    rfl
  rw [GeneratedType.moduleLevel, List.foldl_cons, hlink]
  refine foldl_memberAfter_of_keeps fun s hs o => ?_
  obtain ⟨p, -, rfl⟩ := List.mem_map.mp hs
  exact memberAfter_assign_name _ _

/-- What a member of the class of the contexts is: the link, a variant of its name, or a method. -/
theorem contextMember_eq (g : GeneratedType) (a : String) :
    contextMember g a = if "error_type" = a then some (.assigned (linkedType g.type))
      else if Undotted a ∧ a ∈ (variantsOf g.type).map (·.ident) then
        some (.assigned (.name ("_" ++ g.type.ident ++ "_" ++ a)))
      else if a ∈ contextMethodNames then some .body else none := by
  obtain ⟨bases, body, decorators, doc, hcontexts, hbody⟩ := contexts_eq g.type
  rw [contextMember, memberOf, List.foldl_append, foldl_moduleLevel, hcontexts, List.foldl_cons, memberAfter,
    if_pos rfl, hbody, map_nameIn_of_public (by decide)]
  refine if_congr Iff.rfl rfl ?_
  rcases foldl_attachments "" a (fun v _ => variantContext_attaches (t := g.type) v)
    (fun v _ => temporary_ne_ident g.type v) with ⟨hfold, hnone⟩ | ⟨v, hv, ⟨hu, hname⟩, hfold⟩
  · have hother : ¬ (Undotted a ∧ a ∈ (variantsOf g.type).map (·.ident)) := by
      rintro ⟨hu, hmem⟩
      obtain ⟨v, hv, rfl⟩ := List.mem_map.mp hmem
      exact hnone v hv ⟨hu, nameIn_empty _⟩
    rw [hfold, if_neg hother]
  · rw [nameIn_empty] at hname
    subst hname
    rw [hfold, if_pos ⟨hu, List.mem_map_of_mem hv⟩]
    rfl

/-! ### The class of the kinds -/

/-- The statements of a namespace. -/
def namespaceBody (t : ErrorType) : List Stmt :=
  namespaceExports t ++ ((kindBase t).add [classification t]).build :: kindCases t ++ conversionFunctions t ++
    wrapper t

theorem namespaceClass_eq (t : ErrorType) :
    ∃ doc, namespaceClass t = .cls t.namespaceName [] (namespaceBody t) [] doc := ⟨_, rfl⟩

/-- The methods that the base class of the kinds defines. -/
def kindMethodNames (t : ErrorType) : List String := (if t.isCopy then ["__copy__"] else []) ++ ["from_context"]

/-- The member of the base class of the kinds, after the statements of the namespace. -/
def kindMember (t : ErrorType) (a : String) : Option Origin :=
  memberOf t.namespaceName "ErrorKind" a (namespaceBody t)

theorem isPrivate_kindMethodNames (t : ErrorType) : ∀ n ∈ kindMethodNames t, isPrivate n = false := by
  unfold kindMethodNames
  cases t.isCopy <;> decide

theorem kindBase_methods (t : ErrorType) : ∃ bases body doc, ((kindBase t).add [classification t]).build =
    .cls "ErrorKind" bases body [] doc ∧ Stmt.touched body = kindMethodNames t := by
  obtain ⟨doc, hdoc⟩ := kindBase_eq (t := t)
  refine ⟨_, _, doc, hdoc, ?_⟩
  unfold kindMethodNames
  cases t.isCopy <;> rfl

theorem foldl_namespaceExports {o : Option Origin} :
    (namespaceExports t).foldl (memberAfter t.namespaceName "ErrorKind" a) o = o := by
  refine foldl_memberAfter_of_keeps fun s hs o => ?_
  unfold namespaceExports at hs
  split at hs
  · rw [List.mem_singleton.mp hs]
    exact memberAfter_assign_name _ _
  · rw [List.mem_singleton.mp hs]
    exact memberAfter_assign_name _ _
  · cases hs

theorem foldl_conversionFunctions {o : Option Origin} :
    (conversionFunctions t).foldl (memberAfter t.namespaceName "ErrorKind" a) o = o := by
  refine foldl_memberAfter_of_keeps fun s hs o => ?_
  obtain ⟨c, -, rfl⟩ := List.mem_map.mp hs
  rfl

theorem foldl_wrapper {o : Option Origin} :
    (wrapper t).foldl (memberAfter t.namespaceName "ErrorKind" a) o = o := by
  have hregistry (value : Expr) (o : Option Origin) : memberAfter t.namespaceName "ErrorKind" a o
      (.assign (.dotted "Error.conversions") value) = o := by
    have hparts : dottedParts "Error.conversions" = ["Error", "conversions"] := by decide
    have hkind : dottedParts "ErrorKind" = ["ErrorKind"] := dottedParts_eq_singleton (by decide)
    have hnames : ["Error", "conversions"].map (nameIn t.namespaceName) = ["Error", "conversions"] :=
      map_nameIn_of_public (by decide)
    have hcls : ["ErrorKind"].map (nameIn t.namespaceName) = ["ErrorKind"] := map_nameIn_of_public (by decide)
    rw [memberAfter, Expr.parts?_dotted, hparts, hkind, Option.map_some, hnames, hcls]
    simp
  refine foldl_memberAfter_of_keeps fun s hs o => ?_
  rw [wrapper, List.cons_append] at hs
  rcases List.mem_cons.mp hs with rfl | hs
  · rfl
  · rcases List.mem_append.mp hs with hs | hs
    · unfold conversionRegistry at hs
      split at hs
      · cases hs
      · rw [List.mem_singleton.mp hs]
        exact hregistry _ o
    · rw [List.mem_singleton.mp hs]
      exact memberAfter_assign_name _ _

theorem temporary_ne_kind (c : KindCase) : (kindAttachment c).temporary ≠ "ErrorKind" := by
  intro h
  have hhead := congrArg (·.toList.head?) h
  simp [kindAttachment] at hhead

/-- What a member of the base class of the kinds is: the last case that is attached under its name, or a method. -/
theorem kindMember_cases (t : ErrorType) (a : String) :
    (kindMember t a = (if a ∈ kindMethodNames t then some .body else none) ∧
      ∀ c ∈ t.kindCases, ¬ (Undotted c.ident ∧ nameIn t.namespaceName c.ident = a)) ∨
    ∃ c ∈ t.kindCases, (Undotted c.ident ∧ nameIn t.namespaceName c.ident = a) ∧
      kindMember t a = some (.assigned (.name ("_ErrorKind_" ++ c.ident))) := by
  obtain ⟨bases, body, doc, hbase, hbody⟩ := kindBase_methods t
  have hmember : kindMember t a = (kindCases t).foldl (memberAfter t.namespaceName "ErrorKind" a)
      (if a ∈ kindMethodNames t then some .body else none) := by
    rw [kindMember, memberOf, namespaceBody, List.foldl_append, foldl_wrapper, List.foldl_append,
      foldl_conversionFunctions, List.foldl_append, foldl_namespaceExports, List.foldl_cons, hbase, memberAfter,
      if_pos rfl, hbody, map_nameIn_of_public (isPrivate_kindMethodNames t)]
  rw [hmember]
  exact foldl_attachments _ _ (fun c _ => kindCase_attaches c) fun c _ => temporary_ne_kind c

/-! ### Members that are kept -/

/-- No assignment displaces a member of the class of the contexts. -/
structure ContextKept (g : GeneratedType) : Prop where
  methods : ∀ a ∈ contextMethodNames, contextMember g a = some .body
  into_error : contextMember g "into_error" = none
  error_type : contextMember g "error_type" = some (.assigned (linkedType g.type))
  variants : ∀ v ∈ variantsOf g.type,
    contextMember g v.ident = some (.assigned (.name ("_" ++ g.type.ident ++ "_" ++ v.ident)))

/-- No assignment displaces a member of the base class of the kinds, which inherits its text, and also how it is
copied when it does not define that. -/
structure KindKept (t : ErrorType) : Prop where
  methods : ∀ a ∈ ["from_context", "__copy__", "__str__"],
    kindMember t a = if a ∈ kindMethodNames t then some .body else none
  cases : ∀ c ∈ t.kindCases, kindMember t (nameIn t.namespaceName c.ident) =
    some (.assigned (.name ("_ErrorKind_" ++ c.ident)))

/-- The members of the class of the contexts that the generated code relies on. -/
def contextMembers : List String := ["kind", "__str__", "__repr__", "into_error", "error_type"]

/-- The members of the base class of the kinds. -/
def kindMembers : List String := ["from_context", "__copy__", "__str__"]

theorem linkedType_ne_name (t : ErrorType) (n : String) : linkedType t ≠ .name n := by
  intro h
  have hparts := congrArg Expr.parts? h
  have hpath : t.namespaceName ++ ".Error" = t.namespaceName ++ "." ++ "Error" := append_dot_literal (by decide)
  have hlast : dottedParts "Error" = ["Error"] := dottedParts_eq_singleton (by decide)
  obtain ⟨qs, hqs⟩ := exists_dottedParts t.namespaceName
  rw [linkedType, Expr.parts?_dotted, hpath, dottedParts_append_dot, hlast, hqs] at hparts
  simp [Expr.parts?] at hparts

/-- A variant is what its name leads to, unless the link has that name. -/
theorem contextMember_variant {v : ErrorVariant} (hv : v ∈ variantsOf g.type) (hu : Undotted v.ident)
    (hne : v.ident ≠ "error_type") :
    contextMember g v.ident = some (.assigned (.name ("_" ++ g.type.ident ++ "_" ++ v.ident))) := by
  rw [contextMember_eq, if_neg hne.symm, if_pos ⟨hu, List.mem_map_of_mem hv⟩]

theorem contextMember_other (hne : a ≠ "error_type") (ha : ∀ v ∈ variantsOf g.type, v.ident ≠ a) :
    contextMember g a = if a ∈ contextMethodNames then some .body else none := by
  have hother : ¬ (Undotted a ∧ a ∈ (variantsOf g.type).map (·.ident)) := by
    rintro ⟨-, hmem⟩
    obtain ⟨v, hv, hva⟩ := List.mem_map.mp hmem
    exact ha v hv hva
  rw [contextMember_eq, if_neg hne.symm, if_neg hother]

theorem contextKept_iff :
    ContextKept g ↔ ∀ v ∈ variantsOf g.type, Undotted v.ident ∧ v.ident ∉ contextMembers := by
  constructor
  · intro h v hv
    have hmember := h.variants v hv
    have hne : v.ident ≠ "error_type" := by
      intro heq
      rw [heq, h.error_type] at hmember
      exact linkedType_ne_name g.type _ (Origin.assigned.inj (Option.some.inj hmember))
    have hu : Undotted v.ident := by
      by_contra hdotted
      rw [contextMember_eq, if_neg hne.symm, if_neg fun h => hdotted h.1] at hmember
      split at hmember <;> cases hmember
    refine ⟨hu, fun hmem => ?_⟩
    have hmethod : v.ident ∉ contextMethodNames := by
      intro hmethod
      rw [h.methods _ hmethod] at hmember
      cases hmember
    have hinto : v.ident ≠ "into_error" := by
      intro heq
      rw [heq, h.into_error] at hmember
      cases hmember
    simp only [contextMethodNames, List.mem_cons, List.not_mem_nil, or_false, not_or] at hmethod
    simp only [contextMembers, List.mem_cons, List.not_mem_nil, or_false] at hmem
    tauto
  · intro h
    have hfree : ∀ a ∈ contextMembers, ∀ v ∈ variantsOf g.type, v.ident ≠ a := by
      rintro a ha v hv rfl
      exact (h v hv).2 ha
    refine ⟨fun a ha => ?_, ?_, by rw [contextMember_eq, if_pos rfl], fun v hv => ?_⟩
    · have hsub : a ∈ contextMembers ∧ a ≠ "error_type" := by
        revert a
        decide
      rw [contextMember_other hsub.2 (hfree a hsub.1), if_pos ha]
    · rw [contextMember_other (by decide) (hfree _ (by decide)), if_neg (by decide)]
    · refine contextMember_variant hv (h v hv).1 ?_
      exact hfree _ (by decide) v hv

/-- Names of members of the base class are spelled the same wherever they are written. -/
theorem nameIn_eq_kindMember_iff {n : String} (ha : a ∈ kindMembers) : nameIn scope n = a ↔ n = a := by
  have hspelling : isPrivate a = false ∧ (a.toList.head? = some '_' → a.toList[1]? = some '_') := by
    revert a
    decide
  exact Key.written_within_eq_iff hspelling.1 hspelling.2

theorem ident_eq_of_temporary {c c' : KindCase} (h : some (Origin.assigned (.name ("_ErrorKind_" ++ c.ident))) =
    some (.assigned (.name ("_ErrorKind_" ++ c'.ident)))) : c.ident = c'.ident :=
  (String.append_right_inj _).mp (Expr.name.inj (Origin.assigned.inj (Option.some.inj h)))

theorem kindKept_iff : KindKept t ↔ (∀ c ∈ t.kindCases, Undotted c.ident ∧ c.ident ∉ kindMembers) ∧
    ∀ c ∈ t.kindCases, ∀ c' ∈ t.kindCases,
      nameIn t.namespaceName c.ident = nameIn t.namespaceName c'.ident → c.ident = c'.ident := by
  constructor
  · intro h
    refine ⟨fun c hc => ⟨?_, fun hmem => ?_⟩, fun c hc c' hc' heq => ?_⟩
    · have hmember := h.cases c hc
      rcases kindMember_cases t (nameIn t.namespaceName c.ident) with ⟨hbody, -⟩ | ⟨c', -, ⟨hu, -⟩, hassigned⟩
      · rw [hmember] at hbody
        split at hbody <;> cases hbody
      · rw [ident_eq_of_temporary (hmember.symm.trans hassigned)]
        exact hu
    · have hmember := h.cases c hc
      rw [(nameIn_eq_kindMember_iff hmem).mpr rfl, h.methods _ hmem] at hmember
      split at hmember <;> cases hmember
    · refine ident_eq_of_temporary ?_
      rw [← h.cases c hc, ← h.cases c' hc', heq]
  · rintro ⟨hcases, hspelled⟩
    constructor
    · intro a ha
      rcases kindMember_cases t a with ⟨hbody, -⟩ | ⟨c, hc, ⟨-, hname⟩, -⟩
      · exact hbody
      · have hident := (nameIn_eq_kindMember_iff ha).mp hname
        exact absurd ha (hident ▸ (hcases c hc).2)
    · intro c hc
      rcases kindMember_cases t (nameIn t.namespaceName c.ident) with ⟨-, hnone⟩ | ⟨c', hc', ⟨-, hname⟩, hassigned⟩
      · exact absurd ⟨(hcases c hc).1, rfl⟩ (hnone c hc)
      · rw [hassigned, hspelled c' hc' c hc hname]

theorem not_reserved_of_build {s : Settings} {d : Declaration} (h : ErrorType.build s d = .ok t) :
    ∀ c ∈ t.kindCases, ∀ n ∈ attributes c.allFields.entries, n ∉ ErrorType.reservedFields := by
  have hfields {fs : Fields Field} {gs : Fields ErrorField} (hbuilt : ErrorType.FieldsBuilt fs gs) :
      ∀ n ∈ attributes gs.entries, n ∉ ErrorType.reservedFields := by
    intro n hn
    cases gs with
    | unit => cases hn
    | named items =>
      refine hbuilt.free n ?_
      simpa [attributes, Fields.entries, Fields.names, FieldKey.attribute, Function.comp_def] using hn
    | unnamed items =>
      obtain ⟨e, he, rfl⟩ := List.mem_map.mp hn
      obtain ⟨p, -, rfl⟩ := List.mem_map.mp he
      -- the number of a field stands after an underscore
      intro hreserved
      obtain ⟨c, l, hfront, -⟩ := exists_digit_positionalName p.1
      have hhead : ∀ r ∈ ErrorType.reservedFields, r.toList.head? ≠ some '_' := by decide
      exact hhead _ hreserved (by rw [FieldKey.attribute, hfront]; rfl)
  intro c hc
  cases ErrorType.build_shaped h with
  | struct hd hf hdesc ht =>
    rw [ErrorType.kindCases_struct ht] at hc
    obtain rfl := List.mem_singleton.mp hc
    exact hfields (ErrorType.fieldsBuilt_of_buildFields hf)
  | enum hd hv hnames ht =>
    rw [ErrorType.kindCases_enum ht] at hc
    obtain ⟨b, hb, rfl⟩ := List.mem_map.mp hc
    obtain ⟨v, -, hbuilt⟩ := exists_left_of_forall₂ hv b hb
    exact hfields (ErrorType.fieldsBuilt_of_buildFields (ErrorType.buildVariant_eq_ok hbuilt).2.1)

theorem nodup_variants_of_build {s : Settings} {d : Declaration} (h : ErrorType.build s d = .ok t) :
    ((variantsOf t).map (·.ident)).Nodup := by
  unfold variantsOf
  cases ErrorType.build_shaped h with
  | struct hd hf hdesc ht =>
    rw [ht]
    exact List.nodup_nil
  | enum hd hv hnames ht =>
    rw [ht]
    rwa [map_eq_of_forall₂ hv fun _ _ h => (ErrorType.buildVariant_eq_ok h).1.symm] at hnames

/-- In a type that is built no field has a reserved name and variants have different names, but what variants are
called is not checked against the members of the classes that they are attached to. The members of the context
class are all kept exactly when no variant is called like one of them, and those of the base class of the kinds
when no case is called like one of them, or is spelled there like another case. -/
theorem kept_iff {s : Settings} {d : Declaration} (h : ErrorType.build s d = .ok g.type) :
    (∀ c ∈ g.type.kindCases, ∀ n ∈ attributes c.allFields.entries, n ∉ ErrorType.reservedFields) ∧
    ((variantsOf g.type).map (·.ident)).Nodup ∧
    (ContextKept g ↔ ∀ v ∈ variantsOf g.type, Undotted v.ident ∧ v.ident ∉ contextMembers) ∧
    (KindKept g.type ↔ (∀ c ∈ g.type.kindCases, Undotted c.ident ∧ c.ident ∉ kindMembers) ∧
      ∀ c ∈ g.type.kindCases, ∀ c' ∈ g.type.kindCases,
        nameIn g.type.namespaceName c.ident = nameIn g.type.namespaceName c'.ident → c.ident = c'.ident) :=
  ⟨not_reserved_of_build h, nodup_variants_of_build h, contextKept_iff, kindKept_iff⟩

/-- An enum with a variant that is called like a method of its context class. -/
def kindEnum : Declaration :=
  let description : RawAttribute :=
    { tokens := [⟨.name, "faultline", none⟩, ⟨.leftParen, "(", none⟩, ⟨.name, "description", none⟩,
        ⟨.equal, "=", none⟩, ⟨.string, "\"a\"", none⟩, ⟨.rightParen, ")", none⟩] }
  { ident := "E"
    visibility := .pub
    shape := .enum [{ ident := "kind", fields := .unit, attrs := [description] }] }

theorem generate_kindEnum : ∃ t g, ErrorType.build {} kindEnum = .ok t ∧ GeneratedType.ofErrorType t = .ok g ∧
    g.type = t ∧ g.type.ident = "E" ∧ (variantsOf g.type).map (·.ident) = ["kind"] ∧
      g.type.kindCases.map (·.ident) = ["kind"] := by
  have h : (ErrorType.build {} kindEnum).toOption.any (fun t => (GeneratedType.ofErrorType t).toOption.any fun g =>
      g.type.ident == "E" && ((variantsOf g.type).map (·.ident) == ["kind"] &&
        g.type.kindCases.map (·.ident) == ["kind"])) = true := by
    decide +kernel
  obtain ⟨t, ht, h⟩ := exists_of_any_toOption h
  obtain ⟨g, hg, h⟩ := exists_of_any_toOption h
  simp only [Bool.and_eq_true, beq_iff_eq] at h
  exact ⟨t, g, ht, hg, ErrorType.ofErrorType_type hg, h⟩

/-- The context class does not keep its members. The kinds, which have no such method, do. -/
theorem kindEnum_kept : ∃ g, ErrorType.build {} kindEnum = .ok g.type ∧ ¬ ContextKept g ∧ KindKept g.type := by
  obtain ⟨t, g, ht, -, rfl, -, hvariants, hcases⟩ := generate_kindEnum
  obtain ⟨-, -, hcontext, hkind⟩ := kept_iff ht
  have hident : ∀ c ∈ g.type.kindCases, c.ident = "kind" := by
    intro c hc
    have hmem := List.mem_map_of_mem (f := (·.ident)) hc
    rw [hcases] at hmem
    exact List.mem_singleton.mp hmem
  refine ⟨g, ht, fun hkept => ?_, hkind.mpr ⟨fun c hc => ?_, fun c hc c' hc' _ => ?_⟩⟩
  · obtain ⟨v, hv, hname⟩ : ∃ v ∈ variantsOf g.type, v.ident = "kind" := by
      rw [← List.mem_map, hvariants]
      exact List.mem_singleton_self _
    exact (hcontext.mp hkept v hv).2 (hname ▸ by decide)
  · rw [hident c hc]
    decide
  · rw [hident c hc, hident c' hc']

/-- The variant displaces the method. -/
theorem kindEnum_displaces : ∃ t g, ErrorType.build {} kindEnum = .ok t ∧ GeneratedType.ofErrorType t = .ok g ∧
    contextMember g "kind" = some (.assigned (.name "_E_kind")) := by
  obtain ⟨t, g, ht, hg, -, hident, hvariants, -⟩ := generate_kindEnum
  refine ⟨t, g, ht, hg, ?_⟩
  rw [contextMember_eq, if_neg (by decide), if_pos ⟨by decide, hvariants ▸ List.mem_singleton_self _⟩, hident]
  rfl

end Generation
end TypedErrors
