import TypedErrors.Proofs.ErrorType.Abort

/-! # Declared descriptions

The description of a context is the first one among its attributes, bound to its fields. -/

namespace TypedErrors

namespace Extract
variable {α β : Type} {x : Extract α} {f : α → Extract β} {es es' : Entries}

theorem run_bind_eq_ok {b : β} : (x >>= f).run es = (.ok b, es') ↔
    ∃ a es₁, x.run es = (.ok a, es₁) ∧ (f a).run es₁ = (.ok b, es') := by
  rw [run_bind]
  rcases x.run es with ⟨e | v, es₁⟩
  · exact ⟨nofun, nofun⟩
  · constructor
    · exact fun h => ⟨v, es₁, rfl, h⟩
    · rintro ⟨_, _, ⟨⟩, h⟩
      exact h

theorem ofAttributes_eq_ok {ns : String} {attrs : List RawAttribute} {v : α} (h : ofAttributes ns attrs x = .ok v) :
    ∃ es es', Entries.ofAttributes ns attrs = .ok es ∧ x.run es = (.ok v, es') := by
  obtain ⟨es, hes, hx⟩ := bind_eq_ok.mp h
  exact ⟨es, (x.run es).2, hes, Prod.ext hx rfl⟩

end Extract

namespace Entries

/-- The node of the first entry of a name. -/
def first? (es : Entries) (name : String) : Option AttrNode := (es.items.find? (·.name = name)).map (·.node)

/-- The entries are the same, up to their marks. -/
def Unmarked (es es' : Entries) : Prop := ∀ name, es'.first? name = es.first? name

theorem takeFirst_eq_some {name : String} {items items' : List Entry} {n : AttrNode}
    (h : takeFirst name items = some (n, items')) :
    (items.find? (·.name = name)).map (·.node) = some n ∧
      ∀ m : String, (items'.find? (·.name = m)).map (·.node) = (items.find? (·.name = m)).map (·.node) := by
  induction items generalizing items' with
  | nil => cases h
  | cons e items ih =>
    rw [takeFirst] at h
    split at h
    · next heq =>
      obtain ⟨rfl, rfl⟩ := Prod.mk.inj (Option.some.inj h)
      refine ⟨by rw [List.find?_cons_of_pos (by simpa using heq)]; rfl, fun m => ?_⟩
      by_cases hm : e.name = m
      · rw [List.find?_cons_of_pos (by simpa using hm), List.find?_cons_of_pos (by simpa using hm)]
        rfl
      · rw [List.find?_cons_of_neg (by simpa using hm), List.find?_cons_of_neg (by simpa using hm)]
    · next hne =>
      obtain ⟨⟨n', items₁⟩, hrest, heq⟩ := Option.map_eq_some_iff.mp h
      obtain ⟨rfl, rfl⟩ := Prod.mk.inj heq
      obtain ⟨hfirst, hsame⟩ := ih hrest
      refine ⟨by rwa [List.find?_cons_of_neg (by simpa using hne)], fun m => ?_⟩
      by_cases hm : e.name = m
      · rw [List.find?_cons_of_pos (by simpa using hm), List.find?_cons_of_pos (by simpa using hm)]
      · rw [List.find?_cons_of_neg (by simpa using hm), List.find?_cons_of_neg (by simpa using hm)]
        exact hsame m

end Entries

namespace Extract
open Entries
variable {α : Type} {a : Adapter α} {name : String} {es es' : Entries}

/-- An optional value is that of the first entry of its name. -/
theorem optional_run_eq_ok {v : Option α} (h : (optional name a).run es = (.ok v, es')) :
    Unmarked es es' ∧ ∀ x, v = some x → ∃ n, es.first? name = some n ∧ a.node n = .ok x := by
  cases hfirst : takeFirst name es.items with
  | none =>
    rw [optional_run_of_none hfirst] at h
    obtain ⟨hv, rfl⟩ := Prod.mk.inj h
    obtain rfl := Except.ok.inj hv
    refine ⟨fun _ => rfl, ?_⟩
    rintro x ⟨⟩
  | some found =>
    obtain ⟨n, items⟩ := found
    rw [optional_run_of_some hfirst] at h
    obtain ⟨hv, rfl⟩ := Prod.mk.inj h
    obtain ⟨hnode, hsame⟩ := takeFirst_eq_some hfirst
    refine ⟨hsame, ?_⟩
    rintro x rfl
    refine ⟨n, hnode, ?_⟩
    obtain ⟨y, hy, hgiven⟩ := map_eq_ok.mp hv
    split at hgiven
    · rw [hy, Option.some.inj hgiven]
    · cases hgiven

theorem required_run_eq_ok {anchor : Option Span} {x : α} (h : (required name a anchor).run es = (.ok x, es')) :
    ∃ n, es.first? name = some n ∧ a.node n = .ok x := by
  obtain ⟨v, es₁, hv, h⟩ := run_bind_eq_ok.mp h
  cases v with
  | none => cases h
  | some y =>
    cases h
    exact (optional_run_eq_ok hv).2 x rfl

end Extract

namespace ErrorType
open Entries
variable {s : Settings} {owner : String} {es es' : Entries}

theorem readAlias_unmarked {name : String} {v : AliasSetting} (h : (readAlias name).run es = (.ok v, es')) :
    Unmarked es es' := by
  obtain ⟨o, es₁, ho, h⟩ := Extract.run_bind_eq_ok.mp h
  cases h
  exact (Extract.optional_run_eq_ok ho).1

theorem readAliases_unmarked {v : AliasSettings} (h : readAliases.run es = (.ok v, es')) : Unmarked es es' := by
  obtain ⟨v₁, es₁, h₁, h⟩ := Extract.run_bind_eq_ok.mp h
  obtain ⟨v₂, es₂, h₂, h⟩ := Extract.run_bind_eq_ok.mp h
  obtain ⟨v₃, es₃, h₃, h⟩ := Extract.run_bind_eq_ok.mp h
  cases h
  intro name
  rw [readAlias_unmarked h₃, readAlias_unmarked h₂, readAlias_unmarked h₁]

/-- The description that attributes declare: the first one. -/
def declaredDescription (ns : String) (attrs : List RawAttribute) : Option Description :=
  match Entries.ofAttributes ns attrs with
  | .ok es => (es.first? "description").bind fun n => (Adapter.description.node n).toOption
  | .error _ => none

/-- A bound description is the one that attributes declare, bound to fields. -/
def Describes (ns : String) (attrs : List RawAttribute) (access : FieldAccess) (fields : Fields ErrorField)
    (b : BoundDescription) : Prop :=
  ∃ desc, declaredDescription ns attrs = some desc ∧ desc.bind access fields = .ok b

theorem describes_of_readContext {ns : String} {attrs : List RawAttribute} {access : FieldAccess}
    {fields : Fields ErrorField} {anchor : Option Span} {b : BoundDescription} {sources : List SymbolPath}
    {es₁ : Entries} (hes : Entries.ofAttributes ns attrs = .ok es) (hsame : Unmarked es es₁)
    (h : (readContext access fields anchor).run es₁ = (.ok (b, sources), es')) :
    Describes ns attrs access fields b := by
  obtain ⟨desc, es₂, hdesc, h⟩ := Extract.run_bind_eq_ok.mp h
  obtain ⟨bound, es₃, hbound, h⟩ := Extract.run_bind_eq_ok.mp h
  obtain ⟨from_, es₄, -, h⟩ := Extract.run_bind_eq_ok.mp h
  obtain ⟨_, es₅, -, h⟩ := Extract.run_bind_eq_ok.mp h
  cases h
  rw [Extract.run_ofExcept] at hbound
  obtain ⟨n, hn, hnode⟩ := Extract.required_run_eq_ok hdesc
  refine ⟨desc, ?_, (Prod.mk.inj hbound).1⟩
  rw [declaredDescription, hes]
  show (es.first? "description").bind _ = _
  rw [← hsame, hn]
  show (Adapter.description.node n).toOption = _
  rw [hnode]
  rfl

theorem buildVariant_eq_ok {v : Variant} {b : ErrorVariant} (h : buildVariant s owner v = .ok b) :
    b.ident = v.ident ∧ buildFields s s!"{owner}.{v.ident}" v.fields = .ok b.fields ∧
      Describes s.attributeNamespace v.attrs .capture b.fields b.description := by
  unfold buildVariant at h
  obtain ⟨fields, hfields, h⟩ := bind_eq_ok.mp h
  obtain ⟨⟨description, sources⟩, hcontext, h⟩ := bind_eq_ok.mp h
  obtain rfl := Except.ok.inj h
  obtain ⟨es, es', hes, hrun⟩ := Extract.ofAttributes_eq_ok hcontext
  exact ⟨rfl, hfields, describes_of_readContext hes (fun _ => rfl) hrun⟩

end ErrorType
end TypedErrors
