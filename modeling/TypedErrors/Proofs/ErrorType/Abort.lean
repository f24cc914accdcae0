import TypedErrors.ErrorType.Build
import TypedErrors.Generated.Namespace
import TypedErrors.Proofs.Description.Reference
import TypedErrors.Proofs.Source.Fields

/-! # Declarations that end a run

A declaration is read in a fixed order: the attributes of each field and variant, then its own; in each set of
attributes the blocks, then the description. `DeclarationAborts` says where on that way a run ends: at a numeral
that cannot be read, in a block or as the name of a placeholder, or, when all has been read, at an included
field that has the name of the callee. Nothing else ends a run (`generate_aborts_iff`). -/

namespace TypedErrors

open ErrorType

variable {α β : Type} {s : Settings} {d : Declaration} {owner : String}

/-! ### Fields -/

theorem buildVariants_cons_of_not_mem {seen : List String} {v : Variant} {vs : List Variant}
    (h : v.ident ∉ seen) : buildVariants s owner seen (v :: vs) =
      (do return (← buildVariant s owner v) :: (← buildVariants s owner (v.ident :: seen) vs)) := by
  rw [buildVariants]
  dsimp only
  rw [if_neg (List.contains_iff_mem.not.mpr h)]

theorem buildVariants_cons_eq_ok {seen : List String} {v : Variant} {vs : List Variant}
    {built : List ErrorVariant} : buildVariants s owner seen (v :: vs) = .ok built ↔
      ∃ x xs, v.ident ∉ seen ∧ buildVariant s owner v = .ok x ∧
        buildVariants s owner (v.ident :: seen) vs = .ok xs ∧ built = x :: xs := by
  by_cases h : v.ident ∈ seen
  · refine ⟨fun hok => ?_, fun ⟨_, _, hv, _⟩ => absurd h hv⟩
    rw [buildVariants, if_pos (List.contains_iff_mem.mpr h)] at hok
    cases hok
  · rw [buildVariants_cons_of_not_mem h]
    simp only [bind_eq_ok]
    constructor
    · rintro ⟨x, hx, xs, hxs, ⟨⟩⟩
      exact ⟨x, xs, h, hx, hxs, rfl⟩
    · rintro ⟨x, xs, -, hx, hxs, rfl⟩
      exact ⟨x, hx, xs, hxs, rfl⟩

theorem takesCallee_iff {c : KindCase} : Generated.takesCallee c = true ↔
    ∃ items, c.included = .named items ∧ Generated.calleeKeyword ∈ items.map (·.1) := by
  rw [Generated.takesCallee]
  split
  · next items hi =>
    rw [List.any_eq_true, hi]
    constructor
    · rintro ⟨⟨k, x⟩, hk, h⟩
      exact ⟨items, rfl, List.mem_map.mpr ⟨_, hk, of_decide_eq_true h⟩⟩
    · rintro ⟨_, ⟨⟩, h⟩
      obtain ⟨p, hp, h⟩ := List.mem_map.mp h
      exact ⟨p, hp, decide_eq_true h⟩
  · next hi =>
    exact ⟨nofun, fun ⟨items, h, _⟩ => absurd h (hi items)⟩

end TypedErrors
