import Mathlib.Data.List.TFAE
import TypedErrors.Proofs.Execution.Captured
import TypedErrors.Proofs.Generation.Members

/-! # Copied fields

A kind holds the included fields of its case as they are or as copies. Whether some field is copied shows in four
places: the data classes of the kinds are not frozen, their base class does not copy as itself, the function from a
context to its kind calls the copier, and the module imports it. All of them agree, and fields that the kinds do not
include have no part in it (`copies_agree`). -/

namespace TypedErrors

namespace Code

/-! ### Calls -/

mutual

/-- What the calls in an expression call. -/
def Expr.callees : Expr → List Expr
  | .constant _ | .raw _ | .name _ => []
  | .attribute value _ => value.callees
  | .call f args keywords => f :: (f.callees ++ Expr.calleesAll args ++ Keyword.calleesAll keywords)
  | .subscript value index => value.callees ++ Expr.calleesAll index
  | .tuple xs | .list xs => Expr.calleesAll xs

def Expr.calleesAll : List Expr → List Expr
  | [] => []
  | x :: xs => x.callees ++ Expr.calleesAll xs

def Keyword.calleesAll : List Keyword → List Expr
  | [] => []
  | .mk _ v :: ks => v.callees ++ Keyword.calleesAll ks

end

mutual

def Pattern.callees : Pattern → List Expr
  | .capture _ => []
  | .cls type args keywords => type.callees ++ Pattern.calleesAll args ++ KeywordPattern.calleesAll keywords

def Pattern.calleesAll : List Pattern → List Expr
  | [] => []
  | p :: ps => p.callees ++ Pattern.calleesAll ps

def KeywordPattern.calleesAll : List KeywordPattern → List Expr
  | [] => []
  | .mk _ p :: ks => p.callees ++ KeywordPattern.calleesAll ks

end

def Param.callees (p : Param) : List Expr := (p.type.map Expr.callees).getD []

mutual

def Stmt.callees : Stmt → List Expr
  | .pass | .importModule .. | .importFrom .. => []
  | .ret value => (value.map Expr.callees).getD []
  | .raise x => x.callees
  | .assign target value => target.callees ++ value.callees
  | .annotate _ type value => type.callees ++ (value.map Expr.callees).getD []
  | .delete targets => Expr.calleesAll targets
  | .select subject cases => subject.callees ++ Case.calleesAll cases
  | .function _ params body returns decorators _ =>
    params.flatMap Param.callees ++ Stmt.calleesAll body ++ (returns.map Expr.callees).getD [] ++
      Expr.calleesAll decorators
  | .cls _ bases body decorators _ =>
    Expr.calleesAll bases ++ Stmt.calleesAll body ++ Expr.calleesAll decorators

def Stmt.calleesAll : List Stmt → List Expr
  | [] => []
  | s :: ss => s.callees ++ Stmt.calleesAll ss

def Case.calleesAll : List Case → List Expr
  | [] => []
  | .mk pattern body :: cs => pattern.callees ++ Stmt.calleesAll body ++ Case.calleesAll cs

end

/-! The names of what is called are names of the code. -/

section Names

variable {f : Expr} {n : String}

theorem mem_append_of_parts {α β : Type} {a : α} {b : β} {l₁ l₂ : List α} {m₁ m₂ : List β} (h : a ∈ l₁ ++ l₂)
    (h₁ : a ∈ l₁ → b ∈ m₁) (h₂ : a ∈ l₂ → b ∈ m₂) : b ∈ m₁ ++ m₂ :=
  List.mem_append.mpr ((List.mem_append.mp h).imp h₁ h₂)

mutual

theorem Expr.mem_names_of_callees (hn : n ∈ f.names) : ∀ {x : Expr}, f ∈ x.callees → n ∈ x.names
  | .constant _, h | .raw _, h | .name _, h => by cases h
  | .attribute value _, h => Expr.mem_names_of_callees hn (x := value) h
  | .call g args keywords, h => by
    rcases List.mem_cons.mp h with rfl | h
    · exact List.mem_append_left _ (List.mem_append_left _ hn)
    · refine mem_append_of_parts h (fun h => mem_append_of_parts h ?_ ?_) ?_
      · exact Expr.mem_names_of_callees hn
      · exact Expr.mem_namesAll_of_callees hn
      · exact Keyword.mem_namesAll_of_callees hn
  | .subscript value index, h =>
    mem_append_of_parts h (Expr.mem_names_of_callees hn) (Expr.mem_namesAll_of_callees hn)
  | .tuple xs, h | .list xs, h => Expr.mem_namesAll_of_callees hn (show f ∈ Expr.calleesAll xs from h)

theorem Expr.mem_namesAll_of_callees (hn : n ∈ f.names) : ∀ {xs : List Expr}, f ∈ Expr.calleesAll xs →
    n ∈ Expr.namesAll xs
  | [], h => by cases h
  | _ :: _, h => mem_append_of_parts h (Expr.mem_names_of_callees hn) (Expr.mem_namesAll_of_callees hn)

theorem Keyword.mem_namesAll_of_callees (hn : n ∈ f.names) : ∀ {ks : List Keyword}, f ∈ Keyword.calleesAll ks →
    n ∈ Keyword.namesAll ks
  | [], h => by cases h
  | .mk _ _ :: _, h => mem_append_of_parts h (Expr.mem_names_of_callees hn) (Keyword.mem_namesAll_of_callees hn)

end

theorem Expr.mem_names_of_callees? (hn : n ∈ f.names) {x? : Option Expr} (h : f ∈ (x?.map Expr.callees).getD []) :
    n ∈ (x?.map Expr.names).getD [] := by
  cases x? with
  | none => cases h
  | some x => exact Expr.mem_names_of_callees hn h

mutual

theorem Pattern.mem_names_of_callees (hn : n ∈ f.names) : ∀ {p : Pattern}, f ∈ p.callees → n ∈ p.names
  | .capture _, h => by cases h
  | .cls type args keywords, h => by
    refine mem_append_of_parts h (fun h => mem_append_of_parts h ?_ ?_) ?_
    · exact Expr.mem_names_of_callees hn
    · exact Pattern.mem_namesAll_of_callees hn
    · exact KeywordPattern.mem_namesAll_of_callees hn

theorem Pattern.mem_namesAll_of_callees (hn : n ∈ f.names) : ∀ {ps : List Pattern}, f ∈ Pattern.calleesAll ps →
    n ∈ Pattern.namesAll ps
  | [], h => by cases h
  | _ :: _, h => mem_append_of_parts h (Pattern.mem_names_of_callees hn) (Pattern.mem_namesAll_of_callees hn)

theorem KeywordPattern.mem_namesAll_of_callees (hn : n ∈ f.names) : ∀ {ks : List KeywordPattern},
    f ∈ KeywordPattern.calleesAll ks → n ∈ KeywordPattern.namesAll ks
  | [], h => by cases h
  | .mk _ _ :: _, h =>
    mem_append_of_parts h (Pattern.mem_names_of_callees hn) (KeywordPattern.mem_namesAll_of_callees hn)

end

theorem Param.mem_names_of_callees (hn : n ∈ f.names) {ps : List Param} (h : f ∈ ps.flatMap Param.callees) :
    n ∈ ps.flatMap Param.names := by
  obtain ⟨p, hp, h⟩ := List.mem_flatMap.mp h
  exact List.mem_flatMap.mpr ⟨p, hp, Expr.mem_names_of_callees? hn h⟩

mutual

theorem Stmt.mem_names_of_callees (hn : n ∈ f.names) : ∀ {s : Stmt}, f ∈ s.callees → n ∈ s.names
  | .pass, h | .importModule .., h | .importFrom .., h => by cases h
  | .ret _, h => Expr.mem_names_of_callees? hn h
  | .raise x, h => Expr.mem_names_of_callees hn (x := x) h
  | .assign target value, h =>
    mem_append_of_parts h (Expr.mem_names_of_callees hn) (Expr.mem_names_of_callees hn)
  | .annotate _ type value, h =>
    mem_append_of_parts h (Expr.mem_names_of_callees hn) (Expr.mem_names_of_callees? hn)
  | .delete targets, h => Expr.mem_namesAll_of_callees hn (show f ∈ Expr.calleesAll targets from h)
  | .select subject cases, h =>
    mem_append_of_parts h (Expr.mem_names_of_callees hn) (Case.mem_namesAll_of_callees hn)
  | .function _ params body returns decorators _, h => by
    refine mem_append_of_parts h (fun h => mem_append_of_parts h (fun h => mem_append_of_parts h ?_ ?_) ?_) ?_
    · exact Param.mem_names_of_callees hn
    · exact Stmt.mem_namesAll_of_callees hn
    · exact Expr.mem_names_of_callees? hn
    · exact Expr.mem_namesAll_of_callees hn
  | .cls _ bases body decorators _, h => by
    refine mem_append_of_parts h (fun h => mem_append_of_parts h ?_ ?_) ?_
    · exact Expr.mem_namesAll_of_callees hn
    · exact Stmt.mem_namesAll_of_callees hn
    · exact Expr.mem_namesAll_of_callees hn

theorem Stmt.mem_namesAll_of_callees (hn : n ∈ f.names) : ∀ {ss : List Stmt}, f ∈ Stmt.calleesAll ss →
    n ∈ Stmt.namesAll ss
  | [], h => by cases h
  | _ :: _, h => mem_append_of_parts h (Stmt.mem_names_of_callees hn) (Stmt.mem_namesAll_of_callees hn)

theorem Case.mem_namesAll_of_callees (hn : n ∈ f.names) : ∀ {cs : List Case}, f ∈ Case.calleesAll cs →
    n ∈ Case.namesAll cs
  | [], h => by cases h
  | .mk pattern body :: cs, h => by
    refine mem_append_of_parts h (fun h => mem_append_of_parts h ?_ ?_) ?_
    · exact Pattern.mem_names_of_callees hn
    · exact Stmt.mem_namesAll_of_callees hn
    · exact Case.mem_namesAll_of_callees hn

end

end Names

/-! ### Classes -/

/-- The draft of a class. -/
def Stmt.class? : Stmt → Option ClassDraft
  | .cls name bases body decorators doc => some ⟨name, bases, decorators, body, doc⟩
  | _ => none

def Stmt.classes (ss : List Stmt) : List ClassDraft := ss.filterMap Stmt.class?

/-- The options of the decorator of a data class. -/
def Expr.dataclassOptions? : Expr → Option (List Keyword)
  | .name n => if n = "dataclass" then some [] else none
  | .call (.name n) _ options => if n = "dataclass" then some options else none
  | _ => none

def Keyword.freezes : Keyword → Bool
  | .mk option (.constant (.bool b)) => option = "frozen" && b
  | _ => false

/-- Whether a data class is frozen. -/
def ClassDraft.frozen? (c : ClassDraft) : Option Bool :=
  (c.decorators.findSome? Expr.dataclassOptions?).map (·.any Keyword.freezes)

end Code

namespace Fields
variable {α : Type}

theorem filter_filter (fs : Fields α) (q : α → Bool) : (fs.filter q).filter q = fs.filter q := by
  cases fs with
  | unit => rfl
  | named items => simp [filter]
  | unnamed items => simp [filter]

end Fields

/-! ### Fields that are not included -/

/-- A variant without the fields that its kind does not include. Its description stays as it is bound. -/
def ErrorVariant.onlyIncluded (v : ErrorVariant) : ErrorVariant := { v with fields := v.fields.filter (·.isIncluded) }

def ErrorShape.onlyIncluded : ErrorShape → ErrorShape
  | .struct fields description sources => .struct (fields.filter (·.isIncluded)) description sources
  | .enum variants => .enum (variants.map (·.onlyIncluded))

def ErrorType.onlyIncluded (t : ErrorType) : ErrorType := { t with shape := t.shape.onlyIncluded }

def GeneratedType.onlyIncluded (g : GeneratedType) : GeneratedType := { g with type := g.type.onlyIncluded }

def KindCase.onlyIncluded (c : KindCase) : KindCase := { c with allFields := c.included }

namespace Generation

open Code Generated Execution

variable {t t' : ErrorType} {g : GeneratedType} {c : KindCase} {types types' : List GeneratedType} {n : String}

theorem onlyIncluded_ofFields (ident : String) (fields : Fields ErrorField) :
    KindCase.ofFields ident (fields.filter (·.isIncluded)) = (KindCase.ofFields ident fields).onlyIncluded := by
  simp only [KindCase.ofFields, KindCase.onlyIncluded, Fields.filter_filter]

theorem kindCases_onlyIncluded (t : ErrorType) : t.onlyIncluded.kindCases = t.kindCases.map (·.onlyIncluded) := by
  unfold ErrorType.kindCases ErrorType.onlyIncluded ErrorShape.onlyIncluded
  cases t.shape with
  | struct fields description sources => exact congrArg ([·]) (onlyIncluded_ofFields t.ident fields)
  | enum variants =>
    simp only [List.map_map]
    exact List.map_congr_left fun v _ => onlyIncluded_ofFields v.ident v.fields

theorem isCopy_onlyIncluded (t : ErrorType) : t.onlyIncluded.isCopy = t.isCopy := by
  rw [ErrorType.isCopy, kindCases_onlyIncluded, List.all_map]
  rfl

theorem isStruct_onlyIncluded (t : ErrorType) : t.onlyIncluded.isStruct = t.isStruct := by
  unfold ErrorType.isStruct ErrorType.onlyIncluded ErrorShape.onlyIncluded
  cases t.shape <;> rfl

theorem kindBase_onlyIncluded (t : ErrorType) : kindBase t.onlyIncluded = kindBase t := by
  unfold kindBase
  rw [isCopy_onlyIncluded]
  rfl

theorem kindCase_onlyIncluded (t : ErrorType) (c : KindCase) :
    kindCase t.onlyIncluded c.onlyIncluded = kindCase t c := by
  unfold kindCase
  rw [isCopy_onlyIncluded]
  rfl

theorem generatedCases_onlyIncluded (t : ErrorType) : kindCases t.onlyIncluded = kindCases t := by
  rw [kindCases, kindCases_onlyIncluded, List.flatMap_map]
  exact List.flatMap_congr fun c _ => kindCase_onlyIncluded t c

/-- The classes of the kinds depend on the included fields alone. -/
theorem kinds_onlyIncluded (t : ErrorType) : kinds t.onlyIncluded = kinds t := by
  rw [kinds, kinds, kindBase_onlyIncluded, generatedCases_onlyIncluded]

/-! ### The classes of a namespace -/

variable {k : ClassDraft}

/-- The classes of a namespace: the base class of the kinds, the data class of each case, and the exception type. -/
inductive NamespaceClass (t : ErrorType) : ClassDraft → Prop
  | base : NamespaceClass t ((kindBase t).add [classification t])
  | case {c : KindCase} {k : ClassDraft} (hc : c ∈ t.kindCases) (hk : k ∈ Stmt.classes (kindCase t c)) :
    NamespaceClass t k
  | error {k : ClassDraft} (hk : k ∈ Stmt.classes [errorClass t]) : NamespaceClass t k

theorem mem_classes_append {ss ss' : List Stmt} :
    k ∈ Stmt.classes (ss ++ ss') ↔ k ∈ Stmt.classes ss ∨ k ∈ Stmt.classes ss' := by
  rw [Stmt.classes, List.filterMap_append, List.mem_append]
  rfl

theorem classes_namespaceExports (t : ErrorType) : Stmt.classes (namespaceExports t) = [] := by
  unfold namespaceExports
  cases t.namespaceVisibility <;> rfl

theorem classes_conversionFunctions (t : ErrorType) : Stmt.classes (conversionFunctions t) = [] := by
  rw [Stmt.classes, conversionFunctions, List.filterMap_map, List.filterMap_eq_nil_iff]
  exact fun _ _ => rfl

theorem classes_wrapper (t : ErrorType) : Stmt.classes (wrapper t) = Stmt.classes [errorClass t] := by
  unfold wrapper conversionRegistry
  split_ifs <;> rfl

theorem mem_classes_kindCases :
    k ∈ Stmt.classes (kindCases t) ↔ ∃ c ∈ t.kindCases, k ∈ Stmt.classes (kindCase t c) := by
  rw [Stmt.classes, kindCases, List.filterMap_flatMap, List.mem_flatMap]
  rfl

theorem mem_classes_namespaceBody : k ∈ Stmt.classes (namespaceBody t) ↔ NamespaceClass t k := by
  have hbody : k ∈ Stmt.classes (namespaceBody t) ↔ k = (kindBase t).add [classification t] ∨
      (∃ c ∈ t.kindCases, k ∈ Stmt.classes (kindCase t c)) ∨ k ∈ Stmt.classes [errorClass t] := by
    have hcons (d : ClassDraft) (ss : List Stmt) : Stmt.classes (d.build :: ss) = d :: Stmt.classes ss := rfl
    rw [namespaceBody, mem_classes_append, mem_classes_append, mem_classes_append, hcons, List.mem_cons,
      mem_classes_kindCases, classes_namespaceExports, classes_conversionFunctions, classes_wrapper]
    simp [or_assoc]
  rw [hbody]
  constructor
  · rintro (rfl | ⟨c, hc, hk⟩ | hk)
    · exact .base
    · exact .case hc hk
    · exact .error hk
  · intro h
    cases h with
    | base => exact .inl rfl
    | case hc hk => exact .inr (.inl ⟨_, hc, hk⟩)
    | error hk => exact .inr (.inr hk)

/-- The base class of the kinds copies as itself if no field is copied. -/
theorem kindBase_draft (t : ErrorType) : ((kindBase t).add [classification t]).name = "ErrorKind" ∧
    ((kindBase t).add [classification t]).frozen? = none ∧
      Stmt.touched ((kindBase t).add [classification t]).body = kindMethodNames t := by
  obtain ⟨bases, body, doc, hbase, hbody⟩ := kindBase_methods t
  have hdraft : (kindBase t).add [classification t] = ⟨"ErrorKind", bases, [], body, doc⟩ :=
    Option.some.inj (congrArg Stmt.class? hbase)
  rw [hdraft]
  exact ⟨rfl, rfl, hbody⟩

/-- The data class of a case is frozen if no field of any case is copied. -/
theorem classes_kindCase (t : ErrorType) (c : KindCase) :
    ∃ k, Stmt.classes (kindCase t c) = [k] ∧ k.name = (kindAttachment c).temporary ∧ k.frozen? = some t.isCopy := by
  refine ⟨_, rfl, rfl, ?_⟩
  cases t.isCopy <;> rfl

theorem classes_errorClass (t : ErrorType) :
    ∃ k, Stmt.classes [errorClass t] = [k] ∧ k.name = "Error" ∧ k.frozen? = none := by
  obtain ⟨_, _, _, _, doc, herror⟩ := errorClass_eq (t := t)
  rw [herror]
  exact ⟨_, rfl, rfl, rfl⟩

/-- Only the classes of the cases are data classes. -/
theorem NamespaceClass.isCopy_of_frozen? {b : Bool} (h : NamespaceClass t k) (hfrozen : k.frozen? = some b) :
    b = t.isCopy := by
  cases h with
  | base => exact nomatch (kindBase_draft t).2.1.symm.trans hfrozen
  | @case c k hc hk =>
    obtain ⟨k', hk', -, hcase⟩ := classes_kindCase t c
    rw [hk', List.mem_singleton] at hk
    exact Option.some.inj (hfrozen.symm.trans (hk ▸ hcase))
  | error hk =>
    obtain ⟨k', hk', -, herror⟩ := classes_errorClass t
    rw [hk', List.mem_singleton] at hk
    exact nomatch (hk ▸ herror).symm.trans hfrozen

theorem exists_frozen? (h : t.kindCases ≠ []) : ∃ k, NamespaceClass t k ∧ k.frozen? = some t.isCopy := by
  obtain ⟨c, hc⟩ := List.exists_mem_of_ne_nil _ h
  obtain ⟨k, hk, -, hfrozen⟩ := classes_kindCase t c
  exact ⟨k, .case hc (hk ▸ List.mem_singleton_self k), hfrozen⟩

/-- There is one class `ErrorKind`. -/
theorem NamespaceClass.eq_base_of_name (h : NamespaceClass t k) (hname : k.name = "ErrorKind") :
    k = (kindBase t).add [classification t] := by
  cases h with
  | base => rfl
  | @case c k hc hk =>
    obtain ⟨k', hk', hcase, -⟩ := classes_kindCase t c
    rw [hk', List.mem_singleton] at hk
    rw [hk, hcase] at hname
    exact absurd hname (temporary_ne_kind c)
  | error hk =>
    obtain ⟨k', hk', herror, -⟩ := classes_errorClass t
    rw [hk', List.mem_singleton] at hk
    rw [hk, herror] at hname
    exact absurd hname (by decide)

/-! ### Calls of the copier -/

/-- The function that copies a value. -/
def copier : Expr := .dotted "copy.copy"

section Calls
variable {α : Type} {f : Expr}

/-- What is collected from a list is what is collected from its elements. -/
theorem eq_flatMap_of_cons {β : Type} (all : List α → List β) (one : α → List β) (hnil : all [] = [])
    (hcons : ∀ x xs, all (x :: xs) = one x ++ all xs) (xs : List α) : all xs = xs.flatMap one := by
  induction xs with
  | nil => exact hnil
  | cons x xs ih => rw [hcons, ih, List.flatMap_cons]

theorem callees_foldl_attribute (e : Expr) (parts : List String) : (parts.foldl .attribute e).callees = e.callees := by
  induction parts generalizing e with
  | nil => rfl
  | cons p parts ih => exact ih (.attribute e p)

@[simp] theorem callees_dotted (path : String) : (Expr.dotted path).callees = [] := by
  obtain ⟨parts, hparts⟩ := exists_dottedParts path
  rw [Expr.dotted, hparts]
  exact callees_foldl_attribute (.name (rootName path)) parts

theorem mem_calleesAll {xs : List Expr} : f ∈ Expr.calleesAll xs ↔ ∃ x ∈ xs, f ∈ x.callees := by
  rw [eq_flatMap_of_cons Expr.calleesAll Expr.callees rfl (fun _ _ => rfl), List.mem_flatMap]

theorem mem_keywordCallees {items : List α} {key : α → String} {value : α → Expr} :
    f ∈ Keyword.calleesAll (items.map fun x => .mk (key x) (value x)) ↔ ∃ x ∈ items, f ∈ (value x).callees := by
  have hcallees := eq_flatMap_of_cons (fun items => Keyword.calleesAll (items.map fun x => .mk (key x) (value x)))
    (fun x => (value x).callees) rfl (fun _ _ => rfl) items
  rw [hcallees, List.mem_flatMap]

theorem mem_stmtCallees {ss : List Stmt} : f ∈ Stmt.calleesAll ss ↔ ∃ s ∈ ss, f ∈ s.callees := by
  rw [eq_flatMap_of_cons Stmt.calleesAll Stmt.callees rfl (fun _ _ => rfl), List.mem_flatMap]

/-- A kind is named by three parts or more. -/
theorem kindType_ne_copier (t : ErrorType) (c : KindCase) : kindType t c ≠ copier := by
  intro h
  have hpath : kindPath t = t.namespaceName ++ "." ++ "ErrorKind" := append_dot_literal (by decide)
  have hkind : dottedParts "ErrorKind" = ["ErrorKind"] := dottedParts_eq_singleton (by decide)
  have hcopier : dottedParts "copy.copy" = ["copy", "copy"] := by decide
  obtain ⟨ns, hns⟩ := exists_dottedParts t.namespaceName
  obtain ⟨cs, hcs⟩ := exists_dottedParts c.ident
  have hparts := congrArg Expr.parts? h
  rw [kindType, copier, Expr.parts?_dotted, Expr.parts?_dotted, dottedParts_append_dot, hpath, dottedParts_append_dot,
    hkind, hcopier, hns, hcs] at hparts
  have hlength := congrArg List.length (Option.some.inj hparts)
  simp at hlength
  omega

theorem copier_mem_kindArg (access : String → Expr) (haccess : ∀ k, (access k).callees = [])
    (e : FieldKey × ErrorField) : copier ∈ (kindArg access e).callees ↔ e.2.method = .clone := by
  unfold kindArg duplicated
  cases e.2.method with
  | copy => simp [haccess]
  | clone =>
    refine iff_of_true ?_ rfl
    exact List.mem_cons_self ..

/-- A kind is built with a copy exactly if an included field is cloned. -/
theorem copier_mem_kindValue (access : String → Expr) (haccess : ∀ k, (access k).callees = []) (t : ErrorType)
    (c : KindCase) : copier ∈ (kindValue t c access).callees ↔ ∃ e ∈ c.included.entries, e.2.method = .clone := by
  have hkind : copier ≠ kindType t c := (kindType_ne_copier t c).symm
  have htype : (kindType t c).callees = [] := callees_dotted _
  rcases kindValue_eq t c access with hvalue | hvalue
  · rw [hvalue, Expr.callees, htype, Expr.calleesAll, List.append_nil, List.nil_append, List.mem_cons,
      or_iff_right hkind, mem_keywordCallees]
    simp only [copier_mem_kindArg access haccess]
  · rw [hvalue, Expr.callees, htype, Keyword.calleesAll, List.append_nil, List.nil_append, List.mem_cons,
      or_iff_right hkind, mem_calleesAll]
    simp only [List.mem_map, exists_exists_and_eq_and, copier_mem_kindArg access haccess]

theorem calleesAll_captures (items : List α) (name : α → Option String) :
    Pattern.calleesAll (items.map fun x => .capture (name x)) = [] := by
  induction items with
  | nil => rfl
  | cons x items ih => exact ih

theorem keywordCallees_captures (items : List α) (key : α → String) (name : α → Option String) :
    KeywordPattern.calleesAll (items.map fun x => .mk (key x) (.capture (name x))) = [] := by
  induction items with
  | nil => rfl
  | cons x items ih => exact ih

theorem callees_kindPattern (hc : c ∈ t.kindCases) : (kindPattern t c).callees = [] := by
  have htype : (caseType t c.ident).callees = [] := callees_dotted _
  generalize kindPattern t c = pattern, kindPattern_eq hc = hpattern
  cases hpattern with
  | keywords => rw [Pattern.callees, htype, keywordCallees_captures]; rfl
  | positions => rw [Pattern.callees, htype, calleesAll_captures]; rfl
  | bare => rw [Pattern.callees, htype]; rfl

theorem copier_mem_selectOrRaise {x : String} {items : List α} {pattern : α → Pattern} {value : α → Expr}
    (hpattern : ∀ y ∈ items, (pattern y).callees = []) :
    copier ∈ Stmt.calleesAll (selectOrRaise x (items.map (returning pattern value))) ↔
      ∃ y ∈ items, copier ∈ (value y).callees := by
  have hraise : copier ∉ (raiseUnknown x).callees := by
    have hcopier : copier = .attribute (.name "copy") "copy" := dotted_pair rfl (by decide) (by decide)
    simp [raiseUnknown, Stmt.callees, Expr.apply, Expr.callees, Expr.calleesAll, Keyword.calleesAll, hcopier]
  have hcases : copier ∈ Case.calleesAll (items.map (returning pattern value)) ↔
      ∃ y ∈ items, copier ∈ (value y).callees := by
    induction items with
    | nil => simp [Case.calleesAll]
    | cons y items ih =>
      obtain ⟨hy, hitems⟩ := List.forall_mem_cons.mp hpattern
      rw [List.map_cons, returning, Case.calleesAll, hy, List.mem_append, ih hitems]
      simp [Stmt.calleesAll, Stmt.callees]
  rw [← hcases]
  cases items with
  | nil => simp [selectOrRaise, Stmt.calleesAll, Case.calleesAll, hraise]
  | cons y items =>
    rw [selectOrRaise, if_neg (by simp)]
    simp only [Stmt.calleesAll, List.append_nil, List.mem_append, or_iff_left hraise]
    rfl

/-- Classification calls the copier exactly if an included field of some case is cloned. -/
theorem copier_mem_classification (t : ErrorType) : copier ∈ (classification t).callees ↔ t.isCopy = false := by
  have hframe (body : List Stmt) : copier ∈ (Stmt.function "from_context" [.ofText "context" t.ident] body
      (some (.dotted (kindPath t))) [.name "staticmethod"] none).callees ↔ copier ∈ Stmt.calleesAll body := by
    have hparam : [Param.ofText "context" t.ident].flatMap Param.callees = [] := by
      rw [List.flatMap_singleton, Param.callees, Param.ofText]
      split <;> rfl
    rw [Stmt.callees, hparam]
    simp [Expr.calleesAll, Expr.callees]
  rw [isCopy_eq_false_iff, classification, hframe]
  split
  · rw [mem_stmtCallees]
    simp only [List.mem_map, exists_exists_and_eq_and, Stmt.callees, Option.map_some, Option.getD_some]
    simp only [copier_mem_kindValue (.attribute <| .name "context") fun _ => rfl]
  · refine (copier_mem_selectOrRaise fun c hc => callees_kindPattern hc).trans ?_
    simp only [copier_mem_kindValue .name fun _ => rfl]

theorem callees_cls_of_mem {name : String} {bases : List Expr} {body : List Stmt} {decorators : List Expr}
    {doc : Option String} {s : Stmt} (hs : s ∈ body) (hf : f ∈ s.callees) :
    f ∈ (Stmt.cls name bases body decorators doc).callees :=
  List.mem_append_left _ (List.mem_append_right _ (mem_stmtCallees.mpr ⟨s, hs, hf⟩))

/-- Classification is part of the statements of its type. -/
theorem callees_statements_of_classification (h : f ∈ (classification g.type).callees) :
    f ∈ Stmt.calleesAll g.statements := by
  obtain ⟨_, hclass⟩ := namespaceClass_eq g.type
  have hbody : classification g.type ∈ ((kindBase g.type).add [classification g.type]).body :=
    List.mem_append_right _ (List.mem_singleton_self _)
  have hbase : ((kindBase g.type).add [classification g.type]).build ∈ namespaceBody g.type := by simp [namespaceBody]
  refine mem_stmtCallees.mpr ⟨namespaceClass g.type, ?_, ?_⟩
  · exact List.mem_append_right _ (List.mem_cons_self ..)
  · rw [hclass]
    exact callees_cls_of_mem hbase (callees_cls_of_mem hbody h)

end Calls

/-! ### The names of a type -/

section Names
variable {α : Type} {bases decorators : List Expr} {body body' : List Stmt} {doc doc' : Option String}

theorem namesAll_cons (s : Stmt) (ss : List Stmt) : Stmt.namesAll (s :: ss) = s.names ++ Stmt.namesAll ss := rfl

theorem names_cls_congr {name : String} (h : Stmt.namesAll body' = Stmt.namesAll body) :
    (Stmt.cls name bases body' decorators doc').names = (Stmt.cls name bases body decorators doc).names :=
  congrArg (fun names => Expr.namesAll bases ++ names ++ Expr.namesAll decorators) h

theorem names_function_congr {name : String} {params : List Param} {returns : Option Expr}
    (h : Stmt.namesAll body' = Stmt.namesAll body) :
    (Stmt.function name params body' returns decorators doc).names =
      (Stmt.function name params body returns decorators doc).names :=
  congrArg (fun names => params.flatMap Param.names ++ names ++ (returns.map Expr.names).getD [] ++
    Expr.namesAll decorators) h

theorem namesAll_eq_flatMap (ss : List Stmt) : Stmt.namesAll ss = ss.flatMap Stmt.names :=
  eq_flatMap_of_cons Stmt.namesAll Stmt.names rfl (fun _ _ => rfl) ss

theorem namesAll_append (ss ss' : List Stmt) : Stmt.namesAll (ss ++ ss') = Stmt.namesAll ss ++ Stmt.namesAll ss' := by
  rw [namesAll_eq_flatMap, List.flatMap_append, ← namesAll_eq_flatMap, ← namesAll_eq_flatMap]

theorem namesAll_flatMap (xs : List α) (stmts : α → List Stmt) :
    Stmt.namesAll (xs.flatMap stmts) = xs.flatMap fun x => Stmt.namesAll (stmts x) := by
  rw [namesAll_eq_flatMap, List.flatMap_assoc]
  exact List.flatMap_congr fun x _ => (namesAll_eq_flatMap (stmts x)).symm

theorem namesAll_fieldStmts (entries : List (FieldKey × ErrorField)) : Stmt.namesAll (entries.map fieldStmt) = [] := by
  induction entries with
  | nil => rfl
  | cons e entries ih => exact ih

theorem namesAll_attach {base : String} {decorator : Expr} {path : String} (k : Attachment)
    (h : IsDataclass decorator) : Stmt.namesAll (attach base decorator path doc k) =
      [base, "__qualname__", "dataclass", rootName base, k.temporary, k.temporary] := by
  have hdecorator : decorator.names = ["dataclass"] := by cases h <;> rfl
  show [base] ++ ("__qualname__" :: Stmt.namesAll (k.entries.map fieldStmt)) ++ (decorator.names ++ []) ++
    ((Expr.dotted (base ++ "." ++ k.name)).names ++ [k.temporary] ++ [k.temporary]) = _
  rw [namesAll_fieldStmts, hdecorator, names_dotted, rootName_append_dot]
  rfl

theorem namesAll_variantContext (t : ErrorType) (v : ErrorVariant) : Stmt.namesAll (variantContext t v) =
    [t.ident, "__qualname__", "dataclass", rootName t.ident, "_" ++ t.ident ++ "_" ++ v.ident,
      "_" ++ t.ident ++ "_" ++ v.ident] := by
  obtain ⟨decorator, path, doc, hdecorator, hstmts⟩ := variantContext_attaches (t := t) v
  rw [hstmts, namesAll_attach _ hdecorator]
  rfl

/-- What a selection refers to is what its patterns and its values refer to. -/
theorem namesAll_selectOrRaise (x : String) (items : List α) (pattern : α → Pattern) (value : α → Expr) :
    Stmt.namesAll (selectOrRaise x (items.map (returning pattern value))) =
      (if items = [] then [] else x :: items.flatMap fun y => (pattern y).names ++ (value y).names) ++
        (raiseUnknown x).names := by
  have hcases : Case.namesAll (items.map (returning pattern value)) =
      items.flatMap fun y => (pattern y).names ++ (value y).names := by
    induction items with
    | nil => rfl
    | cons y items ih =>
      show (pattern y).names ++ ((value y).names ++ []) ++ Case.namesAll (items.map (returning pattern value)) = _
      rw [List.append_nil, ih, List.flatMap_cons]
  cases items with
  | nil => exact List.append_nil (raiseUnknown x).names
  | cons y items =>
    rw [if_neg (List.cons_ne_nil y items), ← hcases]
    show x :: Case.namesAll _ ++ ((raiseUnknown x).names ++ []) = _
    rw [List.append_nil]

theorem namesAll_selectOrRaise_map (x : String) {items : List α} (f : α → α) (pattern pattern' : α → Pattern)
    (value value' : α → Expr) (hpattern : ∀ y ∈ items, (pattern' (f y)).names = (pattern y).names)
    (hvalue : ∀ y ∈ items, (value' (f y)).names = (value y).names) :
    Stmt.namesAll (selectOrRaise x ((items.map f).map (returning pattern' value'))) =
      Stmt.namesAll (selectOrRaise x (items.map (returning pattern value))) := by
  have hitems : (items.map f).flatMap (fun y => (pattern' y).names ++ (value' y).names) =
      items.flatMap fun y => (pattern y).names ++ (value y).names := by
    rw [List.flatMap_map]
    exact List.flatMap_congr fun y hy => by rw [hpattern y hy, hvalue y hy]
  rw [namesAll_selectOrRaise, namesAll_selectOrRaise, hitems]
  simp only [List.map_eq_nil_iff]

theorem namesAll_contextMethods_congr (h : Stmt.namesAll body' = Stmt.namesAll body) :
    Stmt.namesAll (contextMethods t.onlyIncluded body') = Stmt.namesAll (contextMethods t body) :=
  congrArg (fun names => (kindMethod t).names ++ (names ++ ["__repr__", "__str__"])) (names_function_congr h)

theorem namesAll_contexts (t : ErrorType) :
    Stmt.namesAll (contexts t.onlyIncluded) = Stmt.namesAll (contexts t) := by
  cases hshape : t.shape with
  | struct fields description sources =>
    have hshape' : t.onlyIncluded.shape = .struct (fields.filter (·.isIncluded)) description sources := by
      rw [ErrorType.onlyIncluded, hshape, ErrorShape.onlyIncluded]
    obtain ⟨doc, hdoc⟩ := structContext_eq (t := t) fields description
    obtain ⟨doc', hdoc'⟩ := structContext_eq (t := t.onlyIncluded) (fields.filter (·.isIncluded)) description
    rw [contexts, contexts, hshape, hshape']
    refine congrArg (· ++ []) ?_
    rw [hdoc, hdoc']
    refine names_cls_congr ?_
    rw [namesAll_append, namesAll_append, namesAll_fieldStmts, namesAll_fieldStmts, namesAll_contextMethods_congr rfl]
  | enum variants =>
    have hshape' : t.onlyIncluded.shape = .enum (variants.map (·.onlyIncluded)) := by
      rw [ErrorType.onlyIncluded, hshape, ErrorShape.onlyIncluded]
    obtain ⟨doc, hdoc⟩ := enumBase_eq (t := t) variants
    obtain ⟨doc', hdoc'⟩ := enumBase_eq (t := t.onlyIncluded) (variants.map (·.onlyIncluded))
    rw [contexts, contexts, hshape, hshape']
    simp only [namesAll_cons, namesAll_flatMap, List.flatMap_map, namesAll_variantContext]
    rw [hdoc, hdoc']
    refine congrArg (· ++ _) (names_cls_congr (namesAll_contextMethods_congr ?_))
    refine namesAll_selectOrRaise_map "self" ErrorVariant.onlyIncluded (variantPattern t) _
      (fun v => descriptionExpr v.description) _ (fun v _ => ?_) fun _ _ => rfl
    rw [names_variantPattern, names_variantPattern]
    rfl

theorem names_classification (t : ErrorType) : (classification t.onlyIncluded).names = (classification t).names := by
  refine names_function_congr ?_
  rw [isStruct_onlyIncluded, kindCases_onlyIncluded]
  cases t.isStruct with
  | true =>
    rw [List.map_map]
    rfl
  | false =>
    refine namesAll_selectOrRaise_map "context" KindCase.onlyIncluded (kindPattern t) (kindPattern t.onlyIncluded)
      (fun c => kindValue t c .name) (fun c => kindValue t.onlyIncluded c .name) (fun c hc => ?_) fun _ _ => rfl
    have hc' : c.onlyIncluded ∈ t.onlyIncluded.kindCases := kindCases_onlyIncluded t ▸ List.mem_map_of_mem hc
    rw [names_kindPattern hc, names_kindPattern hc']
    rfl

theorem namesAll_namespaceBody (t : ErrorType) :
    Stmt.namesAll (namespaceBody t.onlyIncluded) = Stmt.namesAll (namespaceBody t) := by
  obtain ⟨doc, hbase⟩ := kindBase_eq (t := t)
  obtain ⟨doc', hbase'⟩ := kindBase_eq (t := t.onlyIncluded)
  have hclass : ((kindBase t.onlyIncluded).add [classification t.onlyIncluded]).build.names =
      ((kindBase t).add [classification t]).build.names := by
    rw [hbase, hbase', isCopy_onlyIncluded]
    refine names_cls_congr ?_
    rw [namesAll_append, namesAll_append, namesAll_cons, namesAll_cons, names_classification]
  simp only [namespaceBody, generatedCases_onlyIncluded, namesAll_append, namesAll_cons, hclass]
  rfl

/-- Fields that are not included bring no names with them. -/
theorem namesAll_statements (g : GeneratedType) :
    Stmt.namesAll g.onlyIncluded.statements = Stmt.namesAll g.statements := by
  obtain ⟨doc, hclass⟩ := namespaceClass_eq g.type
  obtain ⟨doc', hclass'⟩ := namespaceClass_eq g.type.onlyIncluded
  have hnamespace : (namespaceClass g.type.onlyIncluded).names = (namespaceClass g.type).names := by
    rw [hclass, hclass']
    exact names_cls_congr (namesAll_namespaceBody g.type)
  have htype : g.onlyIncluded.type = g.type.onlyIncluded := rfl
  rw [GeneratedType.statements, GeneratedType.statements, htype]
  simp only [namesAll_append, namesAll_cons, namesAll_contexts, hnamespace]
  rfl

end Names

/-! ### Modules -/

/-- What a module has before the statements of its types. -/
def beforeTypes (s : Settings) (imports : List Import) (types : List GeneratedType) : List Stmt :=
  opening types ++ imports.map importStmt ++ conversionImports (imports.map (·.boundName)) types ++ closing s ++
    exportList types

theorem module_body_append (s : Settings) (filename : String) (imports : List Import) (types : List GeneratedType) :
    (module s filename imports types).body = beforeTypes s imports types ++ types.flatMap (·.statements) := by
  simp only [module, beforeTypes, opening, closing, exportList, List.append_assoc, List.cons_append, List.nil_append]

theorem opening_onlyIncluded (types : List GeneratedType) : opening (types.map (·.onlyIncluded)) = opening types := by
  have hnames : Stmt.namesAll ((types.map (·.onlyIncluded)).flatMap (·.statements)) =
      Stmt.namesAll (types.flatMap (·.statements)) := by
    rw [List.flatMap_map, namesAll_flatMap, namesAll_flatMap]
    exact List.flatMap_congr fun g _ => namesAll_statements g
  rw [opening, hnames, opening]

theorem beforeTypes_onlyIncluded (s : Settings) (imports : List Import) (types : List GeneratedType) :
    beforeTypes s imports (types.map (·.onlyIncluded)) = beforeTypes s imports types := by
  have hconversions (bound : List String) :
      conversionImports bound (types.map (·.onlyIncluded)) = conversionImports bound types := by
    rw [conversionImports, List.flatMap_map]
    rfl
  have hexports : exportList (types.map (·.onlyIncluded)) = exportList types := by
    rw [exportList, List.flatMap_map]
    rfl
  rw [beforeTypes, opening_onlyIncluded, hconversions, hexports, beforeTypes]

/-- A module whose types call the copier imports it. -/
theorem importCopy_mem_beforeTypes (s : Settings) (imports : List Import)
    (h : ∃ g ∈ types, copier ∈ Stmt.calleesAll g.statements) :
    .importModule "copy" none ∈ beforeTypes s imports types := by
  obtain ⟨g, hg, hcall⟩ := h
  have hcopy : "copy" ∈ copier.names := by decide
  have hname : "copy" ∈ Stmt.namesAll (types.flatMap (·.statements)) := by
    rw [namesAll_flatMap]
    exact List.mem_flatMap.mpr ⟨g, hg, Stmt.mem_namesAll_of_callees hcopy hcall⟩
  simp [beforeTypes, opening, hname]

/-! ### Agreement -/

theorem exists_cloned_iff : (∃ c ∈ t.kindCases, ∃ f ∈ c.allFields.values, f.isIncluded = true ∧ f.method = .clone) ↔
    t.isCopy = false := by
  rw [isCopy_eq_false_iff]
  refine exists_congr fun c => and_congr_right fun hc => ?_
  rw [kindCases_included hc, Fields.values]
  simp only [List.mem_map, List.mem_filter]
  constructor
  · rintro ⟨f, ⟨e, he, rfl⟩, hincluded, hclone⟩
    exact ⟨e, ⟨he, hincluded⟩, hclone⟩
  · rintro ⟨e, ⟨he, hincluded⟩, hclone⟩
    exact ⟨e.2, ⟨e, he, rfl⟩, hincluded, hclone⟩

theorem exists_unfrozen_iff (h : t.kindCases ≠ []) :
    (∃ k ∈ Stmt.classes (namespaceBody t), k.frozen? = some false) ↔ t.isCopy = false := by
  simp only [mem_classes_namespaceBody]
  constructor
  · rintro ⟨k, hk, hfrozen⟩
    exact (hk.isCopy_of_frozen? hfrozen).symm
  · intro hcopy
    exact hcopy ▸ exists_frozen? h

theorem forall_not_frozen_iff (h : t.kindCases ≠ []) :
    (∀ k ∈ Stmt.classes (namespaceBody t), k.frozen? ≠ some true) ↔ t.isCopy = false := by
  simp only [mem_classes_namespaceBody]
  constructor
  · intro hall
    obtain ⟨k, hk, hfrozen⟩ := exists_frozen? h
    rw [← Bool.not_eq_true]
    exact fun hcopy => hall k hk (hcopy ▸ hfrozen)
  · intro hcopy k hk hfrozen
    exact nomatch (hk.isCopy_of_frozen? hfrozen).trans hcopy

theorem not_copies_iff : (∀ k ∈ Stmt.classes (namespaceBody t), k.name = "ErrorKind" →
    "__copy__" ∉ Stmt.touched k.body) ↔ t.isCopy = false := by
  obtain ⟨hname, -, hbody⟩ := kindBase_draft t
  have hbase : "__copy__" ∉ Stmt.touched ((kindBase t).add [classification t]).body ↔ t.isCopy = false := by
    rw [hbody, kindMethodNames]
    cases t.isCopy <;> simp
  rw [← hbase]
  simp only [mem_classes_namespaceBody]
  constructor
  · exact fun h => h _ .base hname
  · intro h k hk hk'
    rwa [hk.eq_base_of_name hk']

/-- Where it shows whether an error type copies fields into its kinds. -/
structure CopiesAgree (t : ErrorType) : Prop where
  alike : List.TFAE [
    ∃ c ∈ t.kindCases, ∃ f ∈ c.allFields.values, f.isIncluded = true ∧ f.method = .clone,
    ∃ k ∈ Stmt.classes (namespaceBody t), k.frozen? = some false,
    ∀ k ∈ Stmt.classes (namespaceBody t), k.frozen? ≠ some true,
    ∀ k ∈ Stmt.classes (namespaceBody t), k.name = "ErrorKind" → "__copy__" ∉ Stmt.touched k.body,
    copier ∈ (classification t).callees]
  /-- Types with the same included fields have the same kinds, and copy fields alike. -/
  of_included : ∀ t' : ErrorType, t'.onlyIncluded = t.onlyIncluded →
    kinds t' = kinds t ∧ (copier ∈ (classification t').callees ↔ copier ∈ (classification t).callees)
  statements : ∀ g : GeneratedType, g.type = t → copier ∈ (classification t).callees →
    copier ∈ Stmt.calleesAll g.statements
  /-- A module with a type that calls the copier imports it in front of all types. What stands there depends on their
  included fields alone. -/
  modules : ∀ (s : Settings) (filename : String) (imports : List Import) (types : List GeneratedType), ∃ front,
    (∀ types' : List GeneratedType, types'.map (·.onlyIncluded) = types.map (·.onlyIncluded) →
      (module s filename imports types').body = front ++ types'.flatMap (·.statements)) ∧
    ((∃ g ∈ types, copier ∈ Stmt.calleesAll g.statements) → .importModule "copy" none ∈ front)

/-- An error type that has cases copies some included field, or else shares all kinds, and this shows alike in the
classes of the kinds, in their base class, in classification and in the imports of its module. -/
theorem copies_agree (h : t.kindCases ≠ []) : CopiesAgree t where
  alike := by
    refine List.tfae_of_forall (t.isCopy = false) _ ?_
    simp only [List.forall_mem_cons]
    exact ⟨exists_cloned_iff, exists_unfrozen_iff h, forall_not_frozen_iff h, not_copies_iff,
      copier_mem_classification t, by simp⟩
  of_included t' ht' := by
    have hcopy : t'.isCopy = t.isCopy := by rw [← isCopy_onlyIncluded, ht', isCopy_onlyIncluded]
    rw [copier_mem_classification, copier_mem_classification, hcopy, ← kinds_onlyIncluded t', ht', kinds_onlyIncluded]
    exact ⟨rfl, Iff.rfl⟩
  statements := by
    rintro g rfl hcall
    exact callees_statements_of_classification hcall
  modules s filename imports types := by
    refine ⟨beforeTypes s imports types, fun types' htypes => ?_, importCopy_mem_beforeTypes s imports⟩
    rw [module_body_append, ← beforeTypes_onlyIncluded s imports types', htypes, beforeTypes_onlyIncluded]

/-- An enum with a field that is cloned and one that is not included. -/
def clonedEnum : ErrorType where
  ident := "E"
  visibility := .pub
  shape := .enum
    [{ ident := "A"
       fields := .named
        [("x", { type := .union (.plain ⟨"list", []⟩) [], isIncluded := true, method := .clone }),
          ("y", { type := .union (.plain ⟨"int", []⟩) [], method := .clone })]
       description := default },
      { ident := "B", fields := .unit, description := default }]
  aliases := {}
  namespaceName := "faultline_e"
  namespaceVisibility := .pub

/-- No kind of it is frozen, and its module imports the copier. -/
theorem clonedEnum_copies : (∀ k ∈ Stmt.classes (namespaceBody clonedEnum), k.frozen? ≠ some true) ∧
    copier ∈ (classification clonedEnum).callees ∧
      ∃ front, (module {} "a.rs" [] [⟨clonedEnum, []⟩]).body =
        front ++ [⟨clonedEnum, []⟩].flatMap GeneratedType.statements ∧ .importModule "copy" none ∈ front := by
  have h := copies_agree (t := clonedEnum) (by decide)
  have hcloned : ∃ c ∈ clonedEnum.kindCases, ∃ f ∈ c.allFields.values, f.isIncluded = true ∧ f.method = .clone :=
    ⟨_, List.mem_cons_self .., _, List.mem_cons_self .., rfl, rfl⟩
  have hcall := (h.alike.out 0 4).mp hcloned
  obtain ⟨front, hbody, himport⟩ := h.modules {} "a.rs" [] [⟨clonedEnum, []⟩]
  exact ⟨(h.alike.out 0 2).mp hcloned, hcall, front, hbody _ rfl,
    himport ⟨_, List.mem_singleton_self _, h.statements _ rfl hcall⟩⟩

end Generation
end TypedErrors
