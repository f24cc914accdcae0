import TypedErrors.Proofs.Except
import TypedErrors.Source.Declaration

/-! # Fields

A function that may fail is applied to fields in order: when it succeeds for all of them their shape and keys
are kept (`mapM_eq_ok`), and otherwise the first failure is that of the whole (`mapM_eq_error`). -/

namespace TypedErrors
namespace Fields

variable {ε α β κ : Type} {f : α → Except ε β} {fs : Fields α} {gs : Fields β}

/-- Fields of one shape with the same keys, and values that `R` relates. -/
inductive Rel (R : α → β → Prop) : Fields α → Fields β → Prop
  | unit : Rel R .unit .unit
  | named {xs : List (String × α)} {ys : List (String × β)}
      (h : List.Forall₂ (fun x y => x.1 = y.1 ∧ R x.2 y.2) xs ys) : Rel R (.named xs) (.named ys)
  | unnamed {xs : List (Nat × α)} {ys : List (Nat × β)}
      (h : List.Forall₂ (fun x y => x.1 = y.1 ∧ R x.2 y.2) xs ys) : Rel R (.unnamed xs) (.unnamed ys)

theorem Rel.imp {R R' : α → β → Prop} (hR : ∀ x y, R x y → R' x y) (h : Rel R fs gs) : Rel R' fs gs := by
  cases h with
  | unit => exact .unit
  | named h => exact .named (h.imp fun _ _ hxy => ⟨hxy.1, hR _ _ hxy.2⟩)
  | unnamed h => exact .unnamed (h.imp fun _ _ hxy => ⟨hxy.1, hR _ _ hxy.2⟩)

/-- The function on the value of an entry. -/
def onValue (f : α → Except ε β) (p : κ × α) : Except ε (κ × β) := do return (p.1, ← f p.2)

theorem onValue_eq_ok {p : κ × α} {q : κ × β} : onValue f p = .ok q ↔ p.1 = q.1 ∧ f p.2 = .ok q.2 := by
  rw [onValue, bind_eq_ok]
  constructor
  · rintro ⟨y, hy, ⟨⟩⟩
    exact ⟨rfl, hy⟩
  · obtain ⟨k, y⟩ := q
    rintro ⟨rfl, hy⟩
    exact ⟨y, hy, rfl⟩

theorem onValue_eq_error {p : κ × α} {e : ε} : onValue f p = .error e ↔ f p.2 = .error e := by
  rw [onValue, bind_eq_error]
  exact or_iff_left (by rintro ⟨_, _, ⟨⟩⟩)

theorem mapM_onValue_eq_ok {xs : List (κ × α)} {ys : List (κ × β)} : xs.mapM (onValue f) = .ok ys ↔
    List.Forall₂ (fun x y => x.1 = y.1 ∧ f x.2 = .ok y.2) xs ys := by
  rw [mapM_eq_ok]
  exact ⟨List.Forall₂.imp fun _ _ => onValue_eq_ok.mp, List.Forall₂.imp fun _ _ => onValue_eq_ok.mpr⟩

theorem mapM_onValue_eq_error {xs : List (κ × α)} {e : ε} : xs.mapM (onValue f) = .error e ↔
    ∃ pre x post, xs.map (·.2) = pre ++ x :: post ∧ (∀ y ∈ pre, ∃ z, f y = .ok z) ∧ f x = .error e := by
  rw [mapM_eq_error]
  constructor
  · rintro ⟨pre, p, post, rfl, hpre, hp⟩
    refine ⟨pre.map (·.2), p.2, post.map (·.2), by simp, ?_, onValue_eq_error.mp hp⟩
    intro y hy
    obtain ⟨q, hq, rfl⟩ := List.mem_map.mp hy
    obtain ⟨z, hz⟩ := hpre q hq
    exact ⟨z.2, (onValue_eq_ok.mp hz).2⟩
  · rintro ⟨pre, x, post, hxs, hpre, hx⟩
    obtain ⟨l, r, rfl, rfl, hr⟩ := List.map_eq_append_iff.mp hxs
    obtain ⟨p, r, rfl, rfl, rfl⟩ := List.map_eq_cons_iff.mp hr
    refine ⟨l, p, r, rfl, fun q hq => ?_, onValue_eq_error.mpr hx⟩
    obtain ⟨z, hz⟩ := hpre q.2 (List.mem_map_of_mem hq)
    exact ⟨(q.1, z), onValue_eq_ok.mpr ⟨rfl, hz⟩⟩

theorem mapM_eq_ok : fs.mapM f = .ok gs ↔ Rel (fun x y => f x = .ok y) fs gs := by
  constructor
  · intro h
    cases fs with
    | unit => cases h; exact .unit
    | named xs =>
      obtain ⟨ys, hys, rfl⟩ := map_eq_ok.mp h
      exact .named (mapM_onValue_eq_ok.mp hys)
    | unnamed xs =>
      obtain ⟨ys, hys, rfl⟩ := map_eq_ok.mp h
      exact .unnamed (mapM_onValue_eq_ok.mp hys)
  · intro h
    cases h with
    | unit => rfl
    | named h => exact map_eq_ok.mpr ⟨_, mapM_onValue_eq_ok.mpr h, rfl⟩
    | unnamed h => exact map_eq_ok.mpr ⟨_, mapM_onValue_eq_ok.mpr h, rfl⟩

theorem values_named (xs : List (String × α)) : (Fields.named xs).values = xs.map (·.2) := by
  simp [values, entries, Function.comp_def]

theorem values_unnamed (xs : List (Nat × α)) : (Fields.unnamed xs).values = xs.map (·.2) := by
  simp [values, entries, Function.comp_def]

theorem mapM_eq_error {e : ε} : fs.mapM f = .error e ↔
    ∃ pre x post, fs.values = pre ++ x :: post ∧ (∀ y ∈ pre, ∃ z, f y = .ok z) ∧ f x = .error e := by
  cases fs with
  | unit =>
    refine ⟨nofun, ?_⟩
    rintro ⟨pre, x, post, h, -⟩
    exact absurd h.symm (by simp [values, entries])
  | named xs =>
    rw [values_named, ← mapM_onValue_eq_error]
    exact map_eq_error
  | unnamed xs =>
    rw [values_unnamed, ← mapM_onValue_eq_error]
    exact map_eq_error

end Fields
end TypedErrors
