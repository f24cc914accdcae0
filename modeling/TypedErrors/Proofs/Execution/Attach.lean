import TypedErrors.Generated.Namespace
import TypedErrors.Proofs.Execution.Semantics

/-! # Attached classes

Variants and kinds are data classes that are created one after another, each attached to a base class and its
temporary name deleted. Running them adds the classes and their attachments, and changes nothing else. -/

namespace TypedErrors
namespace Execution

open Code Generated

variable {f f' : Frame} {s : Stmt} {ss : List Stmt}

/-! ### Running statements -/

@[simp] theorem loadAll_nil : loadAll f [] = some f := by simp [loadAll]

theorem loadAll_cons_eq_some : loadAll f (s :: ss) = some f' ↔
    ∃ f₁, load f s = some f₁ ∧ loadAll f₁ ss = some f' := by
  simp [loadAll, Option.bind_eq_some_iff]

theorem loadAll_append_eq_some {rs : List Stmt} : loadAll f (ss ++ rs) = some f' ↔
    ∃ f₁, loadAll f ss = some f₁ ∧ loadAll f₁ rs = some f' := by
  induction ss generalizing f with
  | nil => simp
  | cons s ss ih =>
    simp only [List.cons_append, loadAll_cons_eq_some, ih]
    constructor
    · rintro ⟨f₁, h₁, f₂, h₂, h₃⟩
      exact ⟨f₂, ⟨f₁, h₁, h₂⟩, h₃⟩
    · rintro ⟨f₂, ⟨f₁, h₁, h₂⟩, h₃⟩
      exact ⟨f₁, h₁, f₂, h₂, h₃⟩

theorem load_cls_eq_some {name : String} {bases : List Expr} {body : List Stmt} {decorators : List Expr}
    {doc : Option String} (h : load f (.cls name bases body decorators doc) = some f') :
    Undotted name ∧ ∃ bs ds b, evalAll f.scope bases = some bs ∧ evalAll f.scope decorators = some ds ∧
      loadAll (f.body name) body = some b ∧
      f' = { f with heap := b.heap ++ [madeClass b name bs ds body] }.bind name (.cls b.heap.length) := by
  rw [load] at h
  split at h
  · cases h
  · next hn =>
    simp only [Option.bind_eq_bind, Option.bind_eq_some_iff] at h
    obtain ⟨bs, hbs, ds, hds, b, hb, h⟩ := h
    split at h
    · exact ⟨by simpa [Undotted] using hn, bs, ds, b, hbs, hds, hb, (Option.some.inj h).symm⟩
    · cases h

theorem load_assign_attribute {target value : Expr} {a : String} {id : ClassId} {v : Value}
    (hv : eval f.scope value = some v) (ht : eval f.scope target = some (.cls id)) :
    load f (.assign (.attribute target a) value) = some (f.setAttr id a v) := by
  simp [load, hv, ht]

theorem load_assign_name {n : String} {value : Expr} {v : Value} (hv : eval f.scope value = some v)
    (hn : n ≠ "__qualname__") : load f (.assign (.name n) value) = some (f.bind n v) := by
  simp [load, hv, hn]

theorem load_delete_bind {n : String} {v : Value} (hn : ∀ p ∈ f.bindings, p.1 ≠ .within f.owner n) :
    load (f.bind n v) (.delete [.name n]) = some f := by
  have hfilter : f.bindings.filter (fun p => !([Key.within f.owner n].contains p.1)) = f.bindings :=
    List.filter_eq_self.mpr fun p hp => by simpa using hn p hp
  have hload : load (f.bind n v) (.delete [.name n]) =
      some { f with bindings := f.bindings.filter fun p => !([Key.within f.owner n].contains p.1) } := by
    simp [load, Frame.bind]
  rw [hload, hfilter]

/-! ### Fields -/

/-- The names of the attributes that hold the fields. -/
def attributes (entries : List (FieldKey × ErrorField)) : List String := entries.map (·.1.attribute)

theorem loadAll_fields (entries : List (FieldKey × ErrorField)) :
    loadAll f (entries.map fieldStmt ++ ss) = loadAll f ss := by
  induction entries with
  | nil => rfl
  | cons e es ih => simpa [loadAll, fieldStmt, load] using ih

theorem annotated_fields (entries : List (FieldKey × ErrorField)) :
    annotated (entries.map fieldStmt ++ ss) = attributes entries ++ annotated ss := by
  simp [annotated, attributes, fieldStmt, List.filterMap_map, Function.comp_def, List.filterMap_append]

/-! ### Attributes -/

namespace Heap
variable {h : Heap} {id : ClassId} {c : ClassObject} {a : Key} {v : Value} {env env' : Env}

/-- The heap with more attributes on a class, which come before those it has. -/
def addAttrs (h : Heap) (id : ClassId) (env : Env) : Heap :=
  h.modify id fun c => { c with attrs := env ++ c.attrs }

theorem setAttr_eq_addAttrs : h.setAttr id a v = h.addAttrs id [(a, v)] := rfl

@[simp] theorem length_addAttrs : (h.addAttrs id env).length = h.length := List.length_modify ..

theorem addAttrs_nil : h.addAttrs id [] = h := List.modify_id ..

theorem addAttrs_addAttrs : (h.addAttrs id env).addAttrs id env' = h.addAttrs id (env' ++ env) := by
  simp [addAttrs, List.modify_modify_eq, Function.comp_def]

theorem addAttrs_append {h' : Heap} (hid : id < h.length) :
    Heap.addAttrs (h ++ h') id env = h.addAttrs id env ++ h' := by
  induction h generalizing id with
  | nil => cases hid
  | cons c h ih =>
    cases id with
    | zero => rfl
    | succ id => exact congrArg (c :: ·) (ih (Nat.lt_of_succ_lt_succ hid))

theorem addAttrs_length {h' : Heap} :
    Heap.addAttrs (h ++ c :: h') h.length env = h ++ { c with attrs := env ++ c.attrs } :: h' := by
  induction h with
  | nil => rfl
  | cons b h ih => exact congrArg (b :: ·) ih

theorem ancestors_addAttrs (j : ClassId) : (h.addAttrs id env).ancestors j = h.ancestors j := by
  unfold addAttrs ancestors
  rw [List.getElem?_modify]
  split <;> cases h[j]? <;> rfl

theorem ancestors_append {h' : Heap} (hid : id < h.length) : ancestors (h ++ h') id = h.ancestors id := by
  unfold ancestors
  rw [List.getElem?_append_left hid]

theorem ancestors_length {h' : Heap} : ancestors (h ++ c :: h') h.length = c.ancestors := by
  simp [ancestors]

theorem attr?_of_ancestors (hc : h[id]? = some c) (ha : c.ancestors = [id]) : h.attr? id a = c.attrs.lookup a := by
  simp [attr?, ancestors, hc, ha]

end Heap

/-! ### Imports -/

theorem lookup_cons_of_ne {k k' : Key} {v : Value} {env : Env} (h : k ≠ k') :
    List.lookup k ((k', v) :: env) = List.lookup k env := by
  rw [List.lookup_cons, beq_false_of_ne h]

theorem Frame.look_bind_of_ne {n : String} {v : Value} {k : Key} (h : k ≠ .within f.owner n) :
    (f.bind n v).scope.look k = f.scope.look k := by
  unfold Frame.scope Frame.bind
  simp only [lookup_cons_of_ne h]

theorem Frame.look_bind_self (f : Frame) (n : String) (v : Value) :
    (f.bind n v).scope.look (.within f.owner n) = some v := by
  simp [Frame.scope, Frame.bind]

/-- The imported names that classes are made with are those of the libraries. -/
structure Imports (f : Frame) : Prop where
  dataclass : f.scope.look (.plain "dataclass") = some .dataclass
  runtime : f.scope.look (.plain "runtime") = some .foreign

theorem Imports.bind {n : String} {v : Value} (h : Imports f) (hd : n ≠ "dataclass") (hr : n ≠ "runtime") :
    Imports (f.bind n v) := by
  constructor
  · rw [Frame.look_bind_of_ne (Key.plain_ne_within hd.symm)]
    exact h.dataclass
  · rw [Frame.look_bind_of_ne (Key.plain_ne_within hr.symm)]
    exact h.runtime

/-- The decorator of a data class, with or without a setting. -/
inductive IsDataclass : Expr → Prop
  | name : IsDataclass (.name "dataclass")
  | call (k : String) (c : Constant) : IsDataclass (.call (.name "dataclass") [] [.mk k (.constant c)])

theorem Imports.eval_dataclass {d : Expr} (h : Imports f) (hd : IsDataclass d) :
    eval f.scope d = some .dataclass := by
  have hname : f.scope.look (.within f.scope.owner "dataclass") = some .dataclass := by
    rw [Key.within_eq_plain (by decide)]
    exact h.dataclass
  cases hd with
  | name => exact hname
  | call k c =>
    have hc : ∃ v, eval f.scope (.constant c) = some v := by cases c <;> exact ⟨_, rfl⟩
    obtain ⟨v, hv⟩ := hc
    simp [eval, evalAll, evalKeywords, hname, hv, Value.apply]

theorem Imports.eval_runtime (h : Imports f) (a : String) :
    eval f.scope (.attribute (.name "runtime") a) = some .foreign := by
  rw [eval, eval, Key.within_eq_plain (by decide), show f.scope.look (.plain "runtime") = _ from h.runtime]
  rfl

/-! ### One attachment -/

/-- A class that is attached to a base. -/
structure Attachment where
  name : String
  temporary : String
  entries : List (FieldKey × ErrorField)

/-- A data class below `base` that is attached to it and then forgotten. -/
def attach (base : String) (decorator : Expr) (path : String) (doc : Option String) (c : Attachment) : List Stmt :=
  [.cls c.temporary [.name base] (.assign (.name "__qualname__") (.text path) :: c.entries.map fieldStmt)
      [decorator] doc,
    .assign (.dotted (base ++ "." ++ c.name)) (.name c.temporary),
    .delete [.name c.temporary]]

/-- The data class of a case, as number `id` and below the classes `above`. -/
def caseClass (above : List ClassId) (id : ClassId) (c : Attachment) : ClassObject where
  ancestors := id :: above
  fields := some (dataKeys c.temporary (attributes c.entries))

/-- The attributes by which a base has the classes that are attached to it, the last one first; `first` is the
number of the first class. -/
def attached (owner : String) (first : ClassId) : List Attachment → Env
  | [] => []
  | c :: cs => attached owner (first + 1) cs ++ [(.within owner c.name, .cls first)]

def caseClasses (above : List ClassId) (first : ClassId) : List Attachment → List ClassObject
  | [] => []
  | c :: cs => caseClass above first c :: caseClasses above (first + 1) cs

/-- The frame with all classes made and attached. -/
def Frame.withCases (f : Frame) (b : ClassId) (cs : List Attachment) : Frame :=
  let heap := f.heap.addAttrs b (attached f.owner f.heap.length cs)
  { f with heap := heap ++ caseClasses (f.heap.ancestors b) f.heap.length cs }

theorem Frame.withCases_nil {b : ClassId} : f.withCases b [] = f := by
  unfold Frame.withCases
  simp only [attached, Heap.addAttrs_nil, caseClasses, List.append_nil]

theorem Frame.withCases_cons {b : ClassId} {c : Attachment} {cs : List Attachment} (hb : b < f.heap.length) :
    (f.withCases b [c]).withCases b cs = f.withCases b (c :: cs) := by
  have hlt : ∀ env, b < (f.heap.addAttrs b env).length := fun env => by
    rw [Heap.length_addAttrs]
    exact hb
  unfold Frame.withCases
  simp only [Heap.addAttrs_append (hlt _), Heap.addAttrs_addAttrs, Heap.ancestors_append (hlt _),
    Heap.ancestors_addAttrs, List.length_append, Heap.length_addAttrs, List.length_singleton,
    attached, caseClasses, List.append_assoc, List.singleton_append, List.nil_append]

/-- A case can be attached in a frame: its names are not in the way of others. -/
structure Attachable (f : Frame) (base : String) (c : Attachment) : Prop where
  undotted : Undotted c.temporary → Undotted c.name
  ne_base : Key.within f.owner base ≠ .within f.owner c.temporary
  fresh : ∀ p ∈ f.bindings, p.1 ≠ .within f.owner c.temporary

variable {base path : String} {decorator : Expr} {doc : Option String} {c : Attachment} {b : ClassId}

/-- The frame with a class for the attachment, before it is attached. -/
def Frame.withCase (f : Frame) (b : ClassId) (c : Attachment) : Frame :=
  { f with heap := f.heap ++ [caseClass (f.heap.ancestors b) f.heap.length c] }

theorem load_attach_cls (himports : Imports f) (hdec : IsDataclass decorator)
    (hlook : f.scope.look (.within f.owner base) = some (.cls b))
    (h : load f (.cls c.temporary [.name base]
      (.assign (.name "__qualname__") (.text path) :: c.entries.map fieldStmt) [decorator] doc) = some f') :
    Undotted c.temporary ∧ f' = (f.withCase b c).bind c.temporary (.cls f.heap.length) := by
  obtain ⟨hu, bs, ds, body, hbs, hds, hbody, rfl⟩ := load_cls_eq_some h
  have hbs : bs = [.cls b] := by
    have he : eval f.scope (.name base) = some (.cls b) := hlook
    simpa [evalAll, he] using hbs.symm
  have hds : ds = [.dataclass] := by simpa [evalAll, himports.eval_dataclass hdec] using hds.symm
  have hbody : body = f.body c.temporary := by
    have hfields : loadAll (f.body c.temporary) (c.entries.map fieldStmt ++ []) = some (f.body c.temporary) := by
      rw [loadAll_fields, loadAll_nil]
    have houter : (f.body c.temporary).outer.isSome = true := rfl
    rw [List.append_nil] at hfields
    simpa [loadAll, load, eval, Expr.text, houter, hfields] using hbody.symm
  subst hbs hds hbody
  have hmade : madeClass (f.body c.temporary) c.temporary [.cls b] [.dataclass]
      (.assign (.name "__qualname__") (.text path) :: c.entries.map fieldStmt) =
      caseClass (f.heap.ancestors b) f.heap.length c := by
    have hfields : annotated (c.entries.map fieldStmt ++ []) = attributes c.entries ++ annotated [] :=
      annotated_fields _
    rw [List.append_nil] at hfields
    simp [madeClass, caseClass, Value.classId?, Value.isDataclass, Frame.body, annotated] at hfields ⊢
    rw [hfields]
  refine ⟨hu, ?_⟩
  rw [hmade]
  rfl

theorem loadAll_attach (himports : Imports f) (hdec : IsDataclass decorator) (hbase : Undotted base)
    (hlook : f.scope.look (.within f.owner base) = some (.cls b)) (hb : b < f.heap.length)
    (hc : Attachable f base c) (h : loadAll f (attach base decorator path doc c) = some f') :
    Undotted c.temporary ∧ f' = f.withCases b [c] := by
  obtain ⟨f₁, h₁, hrest⟩ := loadAll_cons_eq_some.mp h
  obtain ⟨f₂, h₂, hlast⟩ := loadAll_cons_eq_some.mp hrest
  obtain ⟨f₃, h₃, hnil⟩ := loadAll_cons_eq_some.mp hlast
  obtain ⟨hu, rfl⟩ := load_attach_cls himports hdec hlook h₁
  obtain rfl : f₃ = f' := by simpa using hnil
  refine ⟨hu, ?_⟩
  rw [dotted_pair rfl hbase (hc.undotted hu)] at h₂
  have hvalue : eval ((f.withCase b c).bind c.temporary (.cls f.heap.length)).scope (.name c.temporary) =
      some (.cls f.heap.length) := Frame.look_bind_self (f.withCase b c) _ _
  have htarget : eval ((f.withCase b c).bind c.temporary (.cls f.heap.length)).scope (.name base) =
      some (.cls b) := by
    rw [← hlook]
    exact Frame.look_bind_of_ne hc.ne_base
  rw [load_assign_attribute hvalue htarget] at h₂
  obtain rfl := Option.some.inj h₂
  have hdelete : load (((f.withCase b c).setAttr b c.name (.cls f.heap.length)).bind c.temporary
      (.cls f.heap.length)) (.delete [.name c.temporary]) =
      some ((f.withCase b c).setAttr b c.name (.cls f.heap.length)) := load_delete_bind hc.fresh
  obtain rfl := Option.some.inj (hdelete.symm.trans h₃)
  unfold Frame.setAttr Frame.withCase
  rw [Heap.setAttr_eq_addAttrs, Heap.addAttrs_append hb]
  rfl

/-! ### All attachments -/

/-- The statements of `x` attach a data class below `base`. -/
def Attaches {β : Type} (base : String) (stmts : β → List Stmt) (item : β → Attachment) (x : β) : Prop :=
  ∃ decorator path doc, IsDataclass decorator ∧ stmts x = attach base decorator path doc (item x)

theorem loadAll_attachments {β : Type} {stmts : β → List Stmt} {item : β → Attachment} {xs : List β}
    (himports : Imports f) (hbase : Undotted base) (hlook : f.scope.look (.within f.owner base) = some (.cls b))
    (hb : b < f.heap.length) (hstmts : ∀ x ∈ xs, Attaches base stmts item x)
    (hitem : ∀ x ∈ xs, Attachable f base (item x)) (h : loadAll f (xs.flatMap stmts) = some f') :
    (∀ x ∈ xs, Undotted (item x).temporary) ∧ f' = f.withCases b (xs.map item) := by
  induction xs generalizing f with
  | nil =>
    obtain rfl : f = f' := by simpa using h
    exact ⟨nofun, Frame.withCases_nil.symm⟩
  | cons x xs ih =>
    rw [List.flatMap_cons, loadAll_append_eq_some] at h
    obtain ⟨f₁, h₁, h₂⟩ := h
    obtain ⟨decorator, path, doc, hdec, hx⟩ := hstmts x (List.mem_cons_self ..)
    rw [hx] at h₁
    obtain ⟨hu, rfl⟩ := loadAll_attach himports hdec hbase hlook hb (hitem x (List.mem_cons_self ..)) h₁
    have himports₁ : Imports (f.withCases b [item x]) := ⟨himports.dataclass, himports.runtime⟩
    have hb₁ : b < (f.withCases b [item x]).heap.length := by
      show b < List.length (f.heap.addAttrs b _ ++ _)
      rw [List.length_append, Heap.length_addAttrs]
      exact Nat.lt_add_right _ hb
    have hitem₁ : ∀ y ∈ xs, Attachable (f.withCases b [item x]) base (item y) := fun y hy =>
      have h := hitem y (List.mem_cons_of_mem _ hy)
      ⟨h.undotted, h.ne_base, h.fresh⟩
    obtain ⟨hus, rfl⟩ := ih himports₁ hlook hb₁ (fun y hy => hstmts y (List.mem_cons_of_mem _ hy)) hitem₁ h₂
    exact ⟨List.forall_mem_cons.mpr ⟨hu, hus⟩, Frame.withCases_cons hb⟩

end Execution
end TypedErrors
