import TypedErrors.Proofs.Execution.Classify
import TypedErrors.Proofs.Execution.Display

/-! # Captured names

A name that some pattern of a function captures is local to all of it. Besides the fields of a case, the functions
of an enum refer to the classes that their patterns match and to what they call. Which of these names its patterns
capture (`clashes_iff`), and what becomes of a function that captures the name of the enum. -/

namespace TypedErrors

/-! ### What a function needs -/

namespace Code

mutual

/-- The names that the functions of calls are reached by. -/
def Expr.called : Expr → List String
  | .constant _ | .raw _ | .name _ => []
  | .attribute value _ => value.called
  | .call f args keywords => f.names ++ Expr.calledAll args ++ Keyword.calledAll keywords
  | .subscript value index => value.called ++ Expr.calledAll index
  | .tuple xs | .list xs => Expr.calledAll xs

def Expr.calledAll : List Expr → List String
  | [] => []
  | x :: xs => x.called ++ Expr.calledAll xs

def Keyword.calledAll : List Keyword → List String
  | [] => []
  | .mk _ v :: ks => v.called ++ Keyword.calledAll ks

end

mutual

/-- The names of the classes that a statement of a function matches, and of what it calls. -/
def Stmt.needed : Stmt → List String
  | .ret value => (value.map Expr.called).getD []
  | .raise x => x.called
  | .select subject cases => subject.called ++ Case.needed cases
  | _ => []

def Stmt.neededAll : List Stmt → List String
  | [] => []
  | s :: ss => s.needed ++ Stmt.neededAll ss

def Case.needed : List Case → List String
  | [] => []
  | .mk pattern body :: cs => pattern.names ++ Stmt.neededAll body ++ Case.needed cs

end

/-- The body of a function. -/
def Stmt.functionBody : Stmt → List Stmt
  | .function _ _ body _ _ _ => body
  | _ => []

end Code

namespace Execution

open Code Generated Generation

variable {α : Type} {g : GeneratedType} {t : ErrorType} {m : Frame} {i : Nat} {c : KindCase} {n : String}
  {vals : List Value}

/-- A function captures a name that it also needs for something else. -/
def Clashes (f : Stmt) (n : String) : Prop :=
  n ∈ Stmt.capturesAll f.functionBody ∧ n ∈ Stmt.neededAll f.functionBody

instance (f : Stmt) (n : String) : Decidable (Clashes f n) := inferInstanceAs (Decidable (_ ∧ _))

/-- The function of an error type that gives the text of a context. -/
def textFunction? (t : ErrorType) : Option Stmt := (contexts t).head?.bind (method? "__str__")

theorem mem_calledAll {xs : List Expr} : n ∈ Expr.calledAll xs ↔ ∃ x ∈ xs, n ∈ x.called := by
  induction xs with
  | nil => simp [Expr.calledAll]
  | cons x xs ih => simp only [Expr.calledAll, List.mem_append, ih, List.mem_cons, exists_eq_or_imp]

theorem mem_keywordsCalled {items : List α} {key : α → String} {value : α → Expr} :
    n ∈ Keyword.calledAll (items.map fun x => .mk (key x) (value x)) ↔ ∃ x ∈ items, n ∈ (value x).called := by
  induction items with
  | nil => simp [Keyword.calledAll]
  | cons x items ih =>
    simp only [List.map_cons, Keyword.calledAll, List.mem_append, ih, List.mem_cons, exists_eq_or_imp]

/-! ### Patterns -/

theorem namesAll_captures (items : List α) (f : α → Option String) :
    Pattern.namesAll (items.map fun x => .capture (f x)) = [] := by
  induction items with
  | nil => rfl
  | cons x items ih => exact ih

theorem keywordNamesAll_captures (items : List α) (key : α → String) (f : α → Option String) :
    KeywordPattern.namesAll (items.map fun x => .mk (key x) (.capture (f x))) = [] := by
  induction items with
  | nil => rfl
  | cons x items ih => exact ih

theorem names_caseType (t : ErrorType) (ident : String) : (caseType t ident).names = [rootName t.ident] := by
  rw [caseType, names_dotted, rootName_append_dot]

theorem names_kindPattern (hc : c ∈ t.kindCases) : (kindPattern t c).names = [rootName t.ident] := by
  generalize kindPattern t c = pattern, kindPattern_eq hc = hpattern
  cases hpattern with
  | keywords => rw [Pattern.names, names_caseType, keywordNamesAll_captures]; rfl
  | positions => rw [Pattern.names, names_caseType, namesAll_captures]; rfl
  | bare => rw [Pattern.names, names_caseType]; rfl

theorem names_variantPattern (t : ErrorType) (v : ErrorVariant) :
    (variantPattern t v).names = [rootName t.ident] := by
  generalize variantPattern t v = pattern, variantPattern_eq t v = hpattern
  cases hpattern with
  | keywords => rw [Pattern.names, names_caseType, keywordNamesAll_captures]; rfl
  | positions => rw [Pattern.names, names_caseType, namesAll_captures]; rfl
  | bare => rw [Pattern.names, names_caseType]; rfl

/-! ### Values -/

theorem called_kindArg (e : FieldKey × ErrorField) :
    n ∈ (kindArg .name e).called ↔ n = "copy" ∧ e.2.method = .clone := by
  unfold kindArg duplicated
  cases e.2.method with
  | copy => simp [Expr.called]
  | clone =>
    have hroot : rootName "copy.copy" = "copy" := by decide
    simp [Expr.apply, Expr.called, Expr.calledAll, Keyword.calledAll, hroot]

theorem names_kindType (t : ErrorType) (c : KindCase) : (kindType t c).names = [rootName t.namespaceName] := by
  have hpath : kindPath t = t.namespaceName ++ "." ++ "ErrorKind" := append_dot_literal (by decide)
  rw [kindType, names_dotted, rootName_append_dot, hpath, rootName_append_dot]

theorem called_kindValue : n ∈ (kindValue t c .name).called ↔ n = rootName t.namespaceName ∨
    n = "copy" ∧ ∃ e ∈ c.included.entries, e.2.method = .clone := by
  have hargs : (∃ e ∈ c.included.entries, n ∈ (kindArg .name e).called) ↔
      n = "copy" ∧ ∃ e ∈ c.included.entries, e.2.method = .clone := by
    simp only [called_kindArg]
    exact ⟨fun ⟨e, he, hn, hclone⟩ => ⟨hn, e, he, hclone⟩, fun ⟨hn, e, he, hclone⟩ => ⟨e, he, hn, hclone⟩⟩
  rw [← hargs]
  rcases kindValue_eq t c .name with hvalue | hvalue
  · rw [hvalue, Expr.called, names_kindType, Expr.calledAll, List.append_nil, List.mem_append, List.mem_singleton,
      mem_keywordsCalled]
  · rw [hvalue, Expr.called, names_kindType, Keyword.calledAll, List.append_nil, List.mem_append,
      List.mem_singleton, mem_calledAll]
    simp only [List.mem_map, exists_exists_and_eq_and]

theorem called_descriptionExpr {b : BoundDescription} (h : ∀ x ∈ b.args, x.called = []) :
    (descriptionExpr b).called = [] := by
  unfold descriptionExpr
  split
  · rfl
  · have hargs : Expr.calledAll b.args = [] := by
      refine List.eq_nil_iff_forall_not_mem.mpr fun n hn => ?_
      obtain ⟨x, hx, hn⟩ := mem_calledAll.mp hn
      rw [h x hx] at hn
      cases hn
    rw [Expr.apply, Expr.called, hargs]
    rfl

/-! ### Functions -/

theorem mem_needed_selectOrRaise {x : String} {items : List α} {pattern : α → Pattern} {value : α → Expr} :
    n ∈ Stmt.neededAll (selectOrRaise x (items.map (returning pattern value))) ↔
      n ∈ ["TypeError", "type"] ∨ ∃ y ∈ items, n ∈ (pattern y).names ∨ n ∈ (value y).called := by
  have hcases : n ∈ Case.needed (items.map (returning pattern value)) ↔
      ∃ y ∈ items, n ∈ (pattern y).names ∨ n ∈ (value y).called := by
    induction items with
    | nil => simp [Case.needed]
    | cons y items ih =>
      rw [List.map_cons, returning, Case.needed, List.mem_append, ih]
      simp [Stmt.neededAll, Stmt.needed]
  rw [← hcases]
  cases items with
  | nil =>
    show n ∈ ["TypeError", "type"] ++ [] ↔ _
    simp [Case.needed]
  | cons y items =>
    rw [selectOrRaise, if_neg (by simp)]
    show n ∈ (Expr.name x).called ++ Case.needed _ ++ (["TypeError", "type"] ++ []) ↔ _
    rw [List.mem_append, or_comm]
    rfl

theorem isCopy_eq_false_iff :
    t.isCopy = false ↔ ∃ c ∈ t.kindCases, ∃ e ∈ c.included.entries, e.2.method = .clone := by
  have hclone (m : CopyMethod) : m ≠ .copy ↔ m = .clone := by cases m <;> simp
  simp [ErrorType.isCopy, KindCase.isCopy, Fields.values, hclone]

/-- What classification needs: the classes of the cases and of the kinds, what it raises, and the copier. -/
def classificationNeeds (t : ErrorType) : List String :=
  [rootName t.ident, rootName t.namespaceName, "type", "TypeError"] ++ if t.isCopy then [] else ["copy"]

/-- What the text of a context needs: the classes of the cases, and what it raises. -/
def textNeeds (t : ErrorType) : List String := [rootName t.ident, "type", "TypeError"]

theorem functionBody_classification (hs : t.isStruct = false) : (classification t).functionBody =
    selectOrRaise "context" (t.kindCases.map (returning (kindPattern t) fun c => kindValue t c .name)) := by
  show (if t.isStruct then _ else _) = _
  rw [if_neg (by rw [hs]; exact Bool.false_ne_true)]
  rfl

theorem mem_captures : n ∈ captures t ↔ (∃ c ∈ t.kindCases, n ∈ attributes c.included.entries) ∧ n ≠ "_" := by
  simp only [captures, List.mem_flatMap, List.mem_filter, decide_eq_true_eq]
  constructor
  · rintro ⟨c, hc, hn, hne⟩
    exact ⟨⟨c, hc, hn⟩, hne⟩
  · rintro ⟨⟨c, hc, hn⟩, hne⟩
    exact ⟨c, hc, hn, hne⟩

theorem mem_textCaptures :
    n ∈ textCaptures t ↔ (∃ c ∈ t.kindCases, n ∈ attributes c.allFields.entries) ∧ n ≠ "_" := by
  simp only [textCaptures, List.mem_flatMap, List.mem_filter, decide_eq_true_eq]
  constructor
  · rintro ⟨c, hc, hn, hne⟩
    exact ⟨⟨c, hc, hn⟩, hne⟩
  · rintro ⟨⟨c, hc, hn⟩, hne⟩
    exact ⟨c, hc, hn, hne⟩

theorem capturesAll_classification (hs : t.isStruct = false) :
    Stmt.capturesAll (classification t).functionBody = captures t := by
  rw [functionBody_classification hs, capturesAll_selectOrRaise, captures]
  exact List.flatMap_congr fun c hc => patternNames_kindPattern hc

theorem clashes_classification_iff (hs : t.isStruct = false) :
    Clashes (classification t) n ↔ n ∈ captures t ∧ n ∈ classificationNeeds t := by
  rw [Clashes, capturesAll_classification hs]
  refine and_congr_right fun hcaptured => ?_
  obtain ⟨⟨c₀, hc₀, -⟩, -⟩ := mem_captures.mp hcaptured
  rw [functionBody_classification hs, mem_needed_selectOrRaise]
  constructor
  · rintro (hraised | ⟨c, hc, hn | hn⟩)
    · rcases List.mem_cons.mp hraised with rfl | hraised
      · simp [classificationNeeds]
      · rw [List.mem_singleton.mp hraised]
        simp [classificationNeeds]
    · rw [names_kindPattern hc, List.mem_singleton] at hn
      simp [classificationNeeds, hn]
    · rcases called_kindValue.mp hn with hn | ⟨hn, e, he, hclone⟩
      · simp [classificationNeeds, hn]
      · have hcopy := isCopy_eq_false_iff.mpr ⟨c, hc, e, he, hclone⟩
        simp [classificationNeeds, hn, hcopy]
  · intro hn
    rw [classificationNeeds, List.mem_append] at hn
    rcases hn with hn | hn
    · rcases List.mem_cons.mp hn with hn | hn
      · exact .inr ⟨c₀, hc₀, .inl (by rw [names_kindPattern hc₀, hn]; exact List.mem_singleton_self _)⟩
      · rcases List.mem_cons.mp hn with hn | hn
        · exact .inr ⟨c₀, hc₀, .inr (called_kindValue.mpr (.inl hn))⟩
        · exact .inl (List.Perm.mem_iff (List.Perm.swap _ _ []) |>.mp hn)
    · cases hcopy : t.isCopy with
      | true =>
        rw [hcopy] at hn
        cases hn
      | false =>
        rw [hcopy] at hn
        obtain ⟨c, hc, e, he, hclone⟩ := isCopy_eq_false_iff.mp hcopy
        exact .inr ⟨c, hc, .inr (called_kindValue.mpr (.inr ⟨List.mem_singleton.mp hn, e, he, hclone⟩))⟩

theorem textFunction?_enum {variants : List ErrorVariant} (hshape : t.shape = .enum variants) :
    textFunction? t = some (textMethod (selectOrRaise "self" (variants.map
      (returning (variantPattern t) fun v => descriptionExpr v.description)))) := by
  obtain ⟨doc, hdoc⟩ := enumBase_eq (t := t) variants
  have hhead : (contexts t).head? = some (enumBase t variants) := by rw [contexts, hshape]; rfl
  rw [textFunction?, hhead, hdoc]
  exact @method?_context t [] t.ident [.dotted "runtime.ErrorContext"] [] _ doc

theorem functionBody_textMethod (body : List Stmt) : (textMethod body).functionBody = body := rfl

theorem clashes_text_iff {variants : List ErrorVariant} (hshape : t.shape = .enum variants)
    (hcalled : ∀ v ∈ variants, (descriptionExpr v.description).called = []) :
    ∃ f, textFunction? t = some f ∧ ∀ n, Clashes f n ↔ n ∈ textCaptures t ∧ n ∈ textNeeds t := by
  refine ⟨_, textFunction?_enum hshape, fun n => ?_⟩
  have hcaptures : Stmt.capturesAll (selectOrRaise "self" (variants.map
      (returning (variantPattern t) fun v => descriptionExpr v.description))) = textCaptures t := by
    rw [capturesAll_selectOrRaise, textCaptures, ErrorType.kindCases_enum hshape, List.flatMap_map]
    exact List.flatMap_congr fun v _ => patternNames_variantPattern _ v
  rw [Clashes, functionBody_textMethod, hcaptures]
  refine and_congr_right fun hcaptured => ?_
  obtain ⟨⟨c, hc, -⟩, -⟩ := mem_textCaptures.mp hcaptured
  rw [ErrorType.kindCases_enum hshape] at hc
  obtain ⟨v₀, hv₀, -⟩ := List.mem_map.mp hc
  rw [mem_needed_selectOrRaise]
  constructor
  · rintro (hraised | ⟨v, hv, hn | hn⟩)
    · rcases List.mem_cons.mp hraised with rfl | hraised
      · simp [textNeeds]
      · rw [List.mem_singleton.mp hraised]
        simp [textNeeds]
    · rw [names_variantPattern, List.mem_singleton] at hn
      simp [textNeeds, hn]
    · rw [hcalled v hv] at hn
      cases hn
  · intro hn
    rcases List.mem_cons.mp hn with hn | hn
    · exact .inr ⟨v₀, hv₀, .inl (by rw [names_variantPattern, hn]; exact List.mem_singleton_self _)⟩
    · exact .inl (List.Perm.mem_iff (List.Perm.swap _ _ []) |>.mp hn)

/-! ### Clashes -/

/-- The arguments of the description of a variant are captured names. -/
theorem called_description_of_build {s : Settings} {d : Declaration} (h : ErrorType.build s d = .ok t)
    {variants : List ErrorVariant} (hshape : t.shape = .enum variants) :
    ∀ v ∈ variants, (descriptionExpr v.description).called = [] := by
  intro v hv
  cases ErrorType.build_shaped h with
  | struct hd hf hdesc ht =>
    rw [hshape] at ht
    cases ht
  | enum hd hbuilt hnames ht =>
    obtain rfl := ErrorShape.enum.inj (hshape.symm.trans ht)
    obtain ⟨declared, -, hbuild⟩ := exists_left_of_forall₂ hbuilt v hv
    obtain ⟨desc, -, hbind⟩ := (ErrorType.buildVariant_eq_ok hbuild).2.2
    refine called_descriptionExpr fun x hx => ?_
    obtain ⟨ref, -, key, -, rfl⟩ := exists_left_of_forall₂ (accesses_of_bind hbind).2 x hx
    rfl

/-- In an enum that is generated, a captured name clashes exactly when a field is called like something that the
function needs. Classification captures the included fields, and the text of a context all fields, in both cases
but for `_`. -/
theorem clashes_iff {s : Settings} {d : Declaration} {variants : List Variant} (hg : generate s d = .ok g)
    (hd : d.shape = .enum variants) :
    (∀ n, Clashes (classification g.type) n ↔
      (∃ c ∈ g.type.kindCases, n ∈ attributes c.included.entries) ∧ n ≠ "_" ∧ n ∈ classificationNeeds g.type) ∧
    ∃ f, textFunction? g.type = some f ∧ ∀ n, Clashes f n ↔
      (∃ c ∈ g.type.kindCases, n ∈ attributes c.allFields.entries) ∧ n ≠ "_" ∧ n ∈ textNeeds g.type := by
  obtain ⟨t, ht, hg⟩ := bind_eq_ok.mp hg
  obtain rfl := ErrorType.ofErrorType_type hg
  obtain ⟨built, hshape⟩ : ∃ built, g.type.shape = .enum built := by
    cases ErrorType.build_shaped ht with
    | struct hd' => rw [hd] at hd'; cases hd'
    | enum _ _ _ ht => exact ⟨_, ht⟩
  have hs : g.type.isStruct = false := by rw [ErrorType.isStruct, hshape]
  constructor
  · intro n
    rw [clashes_classification_iff hs, mem_captures, and_assoc]
  · obtain ⟨f, hf, hclashes⟩ := clashes_text_iff hshape (called_description_of_build ht hshape)
    refine ⟨f, hf, fun n => ?_⟩
    rw [hclashes, mem_textCaptures, and_assoc]

/-- When classification captures the name of the enum, no value of any case has a kind. -/
theorem Stands.classify_of_captured (h : Stands g m) (hs : g.type.isStruct = false)
    (hident : g.type.ident ∈ captures g.type) (hne : g.type.ident ≠ "context") (hc : g.type.kindCases[i]? = some c)
    (hlen : vals.length = c.allFields.size) : classify m g.type i vals = none := by
  refine Option.eq_none_iff_forall_not_mem.mpr fun r hr => ?_
  have hfirst := (h.classify_enum hs hc hlen).mp hr
  exact h.ident_not_mem_of_firstMatch rfl (kindPattern_names g.type) (fun _ => hne) hfirst hident

/-- When the function for the text captures the name of the enum, no value of any case has a text. -/
theorem Stands.describe_of_captured (h : Stands g m) {variants : List ErrorVariant}
    (hshape : g.type.shape = .enum variants) (hident : g.type.ident ∈ textCaptures g.type)
    (hne : g.type.ident ≠ "self") (hc : g.type.kindCases[i]? = some c) (hlen : vals.length = c.allFields.size) :
    describe m g.type i vals = none := by
  have hitems : variants.map (·.ident) = g.type.kindCases.map (·.ident) := by
    rw [ErrorType.kindCases_enum hshape, List.map_map]
    rfl
  refine Option.eq_none_iff_forall_not_mem.mpr fun r hr => ?_
  have hfirst := (h.describe_enum hshape hc hlen).mp hr
  exact h.ident_not_mem_of_firstMatch hitems (variantPattern_names g.type) (fun _ => hne) hfirst hident

/-- An enum with a field that is called like the enum. -/
def clashingEnum : Declaration :=
  let description : RawAttribute :=
    { tokens := [⟨.name, "faultline", none⟩, ⟨.leftParen, "(", none⟩, ⟨.name, "description", none⟩,
        ⟨.equal, "=", none⟩, ⟨.string, "\"a\"", none⟩, ⟨.rightParen, ")", none⟩] }
  { ident := "E"
    visibility := .pub
    shape := .enum
      [{ ident := "A"
         fields := .named [("E", { name := some "E", type := .union (.plain ⟨"int", []⟩) [] })]
         attrs := [description] }] }

theorem generate_clashingEnum : ∃ g, generate {} clashingEnum = .ok g ∧ g.type.ident = "E" ∧
    g.type.kindCases.flatMap (fun c => attributes c.allFields.entries) = ["E"] ∧
      (textFunction? g.type).any (decide <| Clashes · "E") = true := by
  have h : (generate {} clashingEnum).toOption.any (fun g => g.type.ident == "E" &&
      (g.type.kindCases.flatMap (fun c => attributes c.allFields.entries) == ["E"] &&
        (textFunction? g.type).any (decide <| Clashes · "E"))) = true := by
    decide +kernel
  obtain ⟨g, hg, h⟩ := exists_of_any_toOption h
  simp only [Bool.and_eq_true, beq_iff_eq] at h
  exact ⟨g, hg, h⟩

/-- That name is the only one that the function for the text captures and needs. -/
theorem clashingEnum_clashes : ∃ g f, generate {} clashingEnum = .ok g ∧ textFunction? g.type = some f ∧
    ∀ n, Clashes f n ↔ n = "E" := by
  obtain ⟨g, hg, hident, hfields, -⟩ := generate_clashingEnum
  obtain ⟨-, f, hf, hclashes⟩ := clashes_iff hg rfl
  refine ⟨g, f, hg, hf, fun n => ?_⟩
  have hfield : (∃ c ∈ g.type.kindCases, n ∈ attributes c.allFields.entries) ↔ n = "E" := by
    rw [← List.mem_flatMap, hfields, List.mem_singleton]
  rw [hclashes, hfield, textNeeds, hident, rootName_of_undotted (by decide)]
  refine and_iff_left_of_imp ?_
  rintro rfl
  decide

/-- The function for the text captures the name of the enum, which its patterns need. -/
theorem clash_clashingEnum : ∃ g f, generate {} clashingEnum = .ok g ∧ textFunction? g.type = some f ∧
    Clashes f "E" := by
  obtain ⟨g, hg, -, -, hclash⟩ := generate_clashingEnum
  obtain ⟨f, hf, hclash⟩ := (Option.any_eq_true ..).mp hclash
  exact ⟨g, f, hg, hf, of_decide_eq_true hclash⟩

end Execution
end TypedErrors
