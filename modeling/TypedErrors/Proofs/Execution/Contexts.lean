import TypedErrors.Proofs.Execution.Attach
import TypedErrors.Proofs.Generation.Run

/-! # The context classes of a module -/

namespace TypedErrors
namespace Execution

open Code Generated

/-- What a module binds before its types. -/
def prelude : Env :=
  [(.plain "copy", .copyModule), (.plain "dataclass", .dataclass), (.plain "TypeVar", .foreign),
    (.plain "Union", .foreign), (.plain "T", .foreign), (.plain "runtime", .foreign)]

/-- The module in which a type stands alone, if its statements run to the end. -/
def moduleOf (g : GeneratedType) : Option Frame := loadAll { heap := [], bindings := prelude } g.statements

variable {t : ErrorType} {f f' : Frame}

/-! ### The classes of a type -/

def variantAttachment (t : ErrorType) (v : ErrorVariant) : Attachment :=
  ⟨v.ident, "_" ++ t.ident ++ "_" ++ v.ident, v.fields.entries⟩

def kindAttachment (c : KindCase) : Attachment := ⟨c.ident, "_ErrorKind_" ++ c.ident, c.included.entries⟩

/-- What is attached to the context class: the variants of an enum. -/
def contextCases (t : ErrorType) : List Attachment :=
  match t.shape with
  | .struct .. => []
  | .enum variants => variants.map (variantAttachment t)

/-- The functions of a context class. -/
def contextFunctions : Env :=
  [(.plain "__repr__", .function), (.plain "__str__", .function), (.plain "kind", .function)]

/-- The context class, the first one, before anything is attached to it. -/
def contextBase (t : ErrorType) : ClassObject where
  ancestors := [0]
  fields :=
    match t.shape with
    | .struct fields .. => some (dataKeys t.ident (attributes fields.entries))
    | .enum _ => none
  attrs := contextFunctions

/-- The class of the values of a case. -/
def contextClass (t : ErrorType) (i : Nat) : ClassId := if t.isStruct then 0 else i + 1

/-- The base class of the kinds. -/
def kindsClass (t : ErrorType) : ClassId := (contextCases t).length + 1

def kindClass (t : ErrorType) (i : Nat) : ClassId := kindsClass t + 1 + i

/-! ### Contexts -/

theorem loadAll_contextMethods {text : List Stmt} :
    loadAll f (contextMethods t text) = some { f with bindings := contextFunctions ++ f.bindings } := by
  have hkind : isPrivate "kind" = false := by decide
  have hstr : isPrivate "__str__" = false := by decide
  have hrepr : isPrivate "__repr__" = false := by decide
  simp [contextMethods, kindMethod, loadAll, load, Frame.bind, eval, Frame.scope, contextFunctions,
    Key.within_eq_plain hkind, Key.within_eq_plain hstr, Key.within_eq_plain hrepr]

theorem annotated_contextMethods {text : List Stmt} : annotated (contextMethods t text) = [] := rfl

theorem document_eq (c : ClassDraft) (doc : Option String) : ∃ d, c.document doc = { c with doc := d } := by
  unfold ClassDraft.document
  split
  · split
    · exact ⟨_, rfl⟩
    · exact ⟨_, rfl⟩
  · exact ⟨_, rfl⟩

/-- A class below one of the libraries. -/
theorem load_cls_runtime {name base a : String} {body : List Stmt} {decorators : List Expr} {doc : Option String}
    (himports : Imports f) (hbase : base = "runtime" ++ "." ++ a) (ha : Undotted a)
    (h : load f (.cls name [.dotted base] body decorators doc) = some f') :
    Undotted name ∧ ∃ ds b, evalAll f.scope decorators = some ds ∧ loadAll (f.body name) body = some b ∧
      f' = { f with heap := b.heap ++ [madeClass b name [.foreign] ds body] }.bind name (.cls b.heap.length) := by
  obtain ⟨hu, bs, ds, b, hbs, hds, hb, rfl⟩ := load_cls_eq_some h
  have hbs : bs = [.foreign] := by
    rw [dotted_pair hbase (by decide) ha] at hbs
    simpa [evalAll, himports.eval_runtime] using hbs.symm
  subst hbs
  exact ⟨hu, ds, b, hds, hb, rfl⟩

/-- The frame in which a module begins. -/
def start : Frame := { heap := [], bindings := prelude }

theorem start_imports : Imports start := ⟨rfl, rfl⟩

/-- The frame after the context class. -/
def baseFrame (t : ErrorType) : Frame :=
  { heap := [contextBase t], bindings := (.plain t.ident, .cls 0) :: prelude }

/-- The frame after the classes of all contexts. -/
def contextsFrame (t : ErrorType) : Frame := (baseFrame t).withCases 0 (contextCases t)

theorem baseFrame_imports (hd : t.ident ≠ "dataclass") (hr : t.ident ≠ "runtime") : Imports (baseFrame t) := by
  have h := start_imports.bind (n := t.ident) (v := .cls 0) hd hr
  unfold Frame.bind at h
  rw [show start.owner = "" from rfl, Key.within_empty] at h
  exact ⟨h.dataclass, h.runtime⟩

theorem structContext_eq (fields : Fields ErrorField) (d : BoundDescription) : ∃ doc,
    structContext t fields d = .cls t.ident [.dotted "runtime.ErrorContext"]
      (fields.entries.map fieldStmt ++ contextMethods t [.ret (some (descriptionExpr d))]) [dataclass] doc := by
  obtain ⟨doc, hdoc⟩ := document_eq
    { name := t.ident, bases := [.dotted "runtime.ErrorContext"], decorators := [dataclass] }
    (documentation t.docs)
  refine ⟨doc, ?_⟩
  rw [structContext, hdoc]
  rfl

theorem enumBase_eq (variants : List ErrorVariant) : ∃ doc,
    enumBase t variants = .cls t.ident [.dotted "runtime.ErrorContext"]
      (contextMethods t (selectOrRaise "self" (variants.map fun v =>
        .mk (variantPattern t v) [.ret (some (descriptionExpr v.description))]))) [] doc := by
  obtain ⟨doc, hdoc⟩ := document_eq { name := t.ident, bases := [.dotted "runtime.ErrorContext"] }
    (documentation t.docs)
  refine ⟨doc, ?_⟩
  rw [enumBase, hdoc]
  rfl

theorem variantContext_attaches (v : ErrorVariant) :
    Attaches t.ident (variantContext t) (variantAttachment t) v := by
  obtain ⟨doc, hdoc⟩ := document_eq
    { name := "_" ++ t.ident ++ "_" ++ v.ident, bases := [.name t.ident], decorators := [dataclass] }
    (documentation v.docs)
  refine ⟨dataclass, t.ident ++ "." ++ v.ident, doc, .call _ _, ?_⟩
  rw [variantContext, hdoc]
  rfl

theorem load_contextBase (entries : List (FieldKey × ErrorField)) {text : List Stmt} {decorators : List Expr}
    {ds : List Value} {doc : Option String} (hds : evalAll start.scope decorators = some ds)
    (hfields : (contextBase t).fields =
      if ds.any (·.isDataclass) then some (dataKeys t.ident (attributes entries)) else none)
    (h : load start (.cls t.ident [.dotted "runtime.ErrorContext"]
      (entries.map fieldStmt ++ contextMethods t text) decorators doc) = some f') :
    Undotted t.ident ∧ f' = baseFrame t := by
  obtain ⟨hu, ds', b, hds', hb, rfl⟩ :=
    load_cls_runtime (a := "ErrorContext") start_imports (by decide) (by decide) h
  obtain rfl := Option.some.inj (hds.symm.trans hds')
  rw [loadAll_fields, loadAll_contextMethods] at hb
  obtain rfl := Option.some.inj hb
  refine ⟨hu, ?_⟩
  unfold madeClass
  rw [annotated_fields, annotated_contextMethods, List.append_nil, ← hfields]
  unfold Frame.bind
  rw [show start.owner = "" from rfl, Key.within_empty]
  rfl

theorem prelude_names : prelude.map (·.1) = preludeNames.map Key.plain := rfl

theorem ne_underscore_append {n s : String} (h : n.toList.head? ≠ some '_') : n ≠ "_" ++ s := by
  rintro rfl
  simp at h

theorem ne_of_length_lt {a b : String} (h : a.length < b.length) : a ≠ b := by
  rintro rfl
  exact Nat.lt_irrefl _ h

theorem prelude_ne_underscore {s : String} {p : Key × Value} (hp : p ∈ prelude) : p.1 ≠ .plain ("_" ++ s) := by
  have hmem : p.1 ∈ preludeNames.map Key.plain := prelude_names ▸ List.mem_map_of_mem hp
  obtain ⟨n, hn, hpn⟩ := List.mem_map.mp hmem
  have hhead : ∀ n ∈ preludeNames, n.toList.head? ≠ some '_' := by decide
  rw [← hpn, Ne, Key.plain_inj]
  exact ne_underscore_append (hhead n hn)

theorem variant_attachable (v : ErrorVariant) :
    Attachable (baseFrame t) t.ident (variantAttachment t v) := by
  have htmp : (variantAttachment t v).temporary = "_" ++ (t.ident ++ "_" ++ v.ident) := by
    simp [variantAttachment, String.append_assoc]
  have hne : Key.plain t.ident ≠ .plain (variantAttachment t v).temporary := by
    rw [Ne, Key.plain_inj, htmp]
    refine ne_of_length_lt ?_
    simp only [String.length_append, show "_".length = 1 from rfl]
    omega
  have howner : Key.within (baseFrame t).owner = Key.plain := funext fun _ => Key.within_empty
  constructor
  · intro h
    exact (undotted_append.mp h).2
  · rw [howner]
    exact hne
  · intro p hp
    rw [howner]
    rcases List.mem_cons.mp hp with rfl | hp
    · exact hne
    · rw [htmp]
      exact prelude_ne_underscore hp

/-- The context classes of a type, when they are made, are the base and what is attached to it. -/
theorem loadAll_contexts (hd : t.ident ≠ "dataclass") (hr : t.ident ≠ "runtime")
    (h : loadAll start (contexts t) = some f') :
    Undotted t.ident ∧ (∀ c ∈ contextCases t, Undotted c.temporary) ∧ f' = contextsFrame t := by
  unfold contexts at h
  unfold contextsFrame
  split at h
  · next fields d sources hshape =>
    obtain ⟨doc, hdoc⟩ := structContext_eq (t := t) fields d
    obtain ⟨f₁, h₁, hnil⟩ := loadAll_cons_eq_some.mp h
    obtain rfl : f₁ = f' := by simpa using hnil
    rw [hdoc] at h₁
    have hds : evalAll start.scope [dataclass] = some [.dataclass] := by
      simp [evalAll, start_imports.eval_dataclass (d := dataclass) (.call _ _)]
    obtain ⟨hu, rfl⟩ := load_contextBase _ hds (by rw [contextBase, hshape]; rfl) h₁
    have hcases : contextCases t = [] := by rw [contextCases, hshape]
    rw [hcases, Frame.withCases_nil]
    exact ⟨hu, List.forall_mem_nil _, rfl⟩
  · next variants hshape =>
    obtain ⟨doc, hdoc⟩ := enumBase_eq (t := t) variants
    obtain ⟨f₁, h₁, h₂⟩ := loadAll_cons_eq_some.mp h
    rw [hdoc] at h₁
    obtain ⟨hu, rfl⟩ := load_contextBase [] rfl (by rw [contextBase, hshape]; rfl) h₁
    have himports := baseFrame_imports hd hr
    have hlook : (baseFrame t).scope.look (.within (baseFrame t).owner t.ident) = some (.cls 0) := by
      rw [show (baseFrame t).owner = "" from rfl, Key.within_empty]
      simp [Frame.scope, baseFrame]
    obtain ⟨hus, rfl⟩ := loadAll_attachments himports hu hlook Nat.zero_lt_one
      (fun v _ => variantContext_attaches v) (fun v _ => variant_attachable v) h₂
    have hcases : contextCases t = variants.map (variantAttachment t) := by rw [contextCases, hshape]
    rw [hcases]
    exact ⟨hu, by simpa using hus, rfl⟩

end Execution
end TypedErrors
