import Mathlib.Data.List.Forall2
import Mathlib.Tactic.SplitIfs

/-! # Computations that may fail

When a computation that may fail succeeds, and where it fails: a sequence fails where its first failing part
does. -/

namespace TypedErrors

/-! ### Lists in relation -/

section
variable {α β γ : Type} {R : α → β → Prop} {xs : List α} {ys : List β}

theorem map_eq_of_forall₂ {f : α → γ} {g : β → γ} (h : List.Forall₂ R xs ys) (hR : ∀ x y, R x y → f x = g y) :
    xs.map f = ys.map g := by
  induction h with
  | nil => rfl
  | cons hxy _ ih => rw [List.map_cons, List.map_cons, hR _ _ hxy, ih]

theorem exists_left_of_forall₂ (h : List.Forall₂ R xs ys) : ∀ y ∈ ys, ∃ x ∈ xs, R x y := by
  induction h with
  | nil => exact nofun
  | cons hxy _ ih =>
    refine List.forall_mem_cons.mpr ⟨⟨_, List.mem_cons_self .., hxy⟩, fun y hy => ?_⟩
    obtain ⟨x, hx, hR⟩ := ih y hy
    exact ⟨x, List.mem_cons_of_mem _ hx, hR⟩

end

/-! ### Results -/

variable {ε ε' α β : Type}

theorem bind_eq_ok {x : Except ε α} {f : α → Except ε β} {b : β} :
    x >>= f = .ok b ↔ ∃ a, x = .ok a ∧ f a = .ok b := by
  cases x with
  | error e => exact ⟨nofun, nofun⟩
  | ok a => exact ⟨fun h => ⟨a, rfl, h⟩, by rintro ⟨_, ⟨⟩, h⟩; exact h⟩

theorem bind_eq_error {x : Except ε α} {f : α → Except ε β} {e : ε} :
    x >>= f = .error e ↔ x = .error e ∨ ∃ a, x = .ok a ∧ f a = .error e := by
  cases x with
  | error e' => exact ⟨by rintro ⟨⟩; exact .inl rfl, by rintro (⟨⟨⟩⟩ | ⟨_, ⟨⟩, _⟩); rfl⟩
  | ok a => exact ⟨fun h => .inr ⟨a, rfl, h⟩, by rintro (⟨⟨⟩⟩ | ⟨_, ⟨⟩, h⟩); exact h⟩

theorem map_eq_ok {x : Except ε α} {f : α → β} {b : β} : f <$> x = .ok b ↔ ∃ a, x = .ok a ∧ f a = b := by
  cases x with
  | error e => exact ⟨nofun, nofun⟩
  | ok a => exact ⟨by rintro ⟨⟩; exact ⟨a, rfl, rfl⟩, by rintro ⟨_, ⟨⟩, rfl⟩; rfl⟩

theorem map_eq_error {x : Except ε α} {f : α → β} {e : ε} : f <$> x = .error e ↔ x = .error e := by
  cases x with
  | error e' => exact ⟨by rintro ⟨⟩; rfl, by rintro ⟨⟩; rfl⟩
  | ok a => exact ⟨nofun, nofun⟩

theorem pure_eq_ok {a b : α} : (pure b : Except ε α) = .ok a ↔ a = b := ⟨by rintro ⟨⟩; rfl, by rintro rfl; rfl⟩

/-- What a check guards succeeds if the check does not fail. -/
theorem ite_throw_eq_ok {p : Prop} [Decidable p] {x : Except ε α} {e : ε} {a : α} :
    (if p then throw e else x) = .ok a ↔ ¬p ∧ x = .ok a := by
  split_ifs with h
  · exact ⟨by rintro ⟨⟩, fun h' => absurd h h'.1⟩
  · exact ⟨fun hx => ⟨h, hx⟩, And.right⟩

theorem toOption_eq_some_iff {x : Except ε α} {a : α} : x.toOption = some a ↔ x = .ok a := by
  cases x with
  | error e => exact ⟨nofun, nofun⟩
  | ok b => exact ⟨fun h => congrArg Except.ok (Option.some.inj h), by rintro ⟨⟩; rfl⟩

theorem exists_of_any_toOption {x : Except ε α} {p : α → Bool} (h : x.toOption.any p = true) :
    ∃ a, x = .ok a ∧ p a = true := by
  cases x with
  | error e => cases h
  | ok a => exact ⟨a, rfl, h⟩

/-- All parts succeed. -/
theorem mapM_eq_ok {f : α → Except ε β} :
    ∀ {xs : List α} {ys : List β}, xs.mapM f = .ok ys ↔ List.Forall₂ (fun x y => f x = .ok y) xs ys
  | [], ys => by
    rw [List.mapM_nil, List.forall₂_nil_left_iff]
    exact ⟨by rintro ⟨⟩; rfl, by rintro rfl; rfl⟩
  | x :: xs, ys => by
    rw [List.mapM_cons, bind_eq_ok, List.forall₂_cons_left_iff]
    simp only [bind_eq_ok, mapM_eq_ok]
    constructor
    · rintro ⟨y, hy, ys', hys, ⟨⟩⟩
      exact ⟨y, ys', hy, hys, rfl⟩
    · rintro ⟨y, ys', hy, hys, rfl⟩
      exact ⟨y, hy, ys', hys, rfl⟩

/-- The first failing part fails, and all before it succeed. -/
theorem mapM_eq_error {f : α → Except ε β} {e : ε} : ∀ {l : List α}, l.mapM f = .error e ↔
    ∃ pre x post, l = pre ++ x :: post ∧ (∀ y ∈ pre, ∃ b, f y = .ok b) ∧ f x = .error e
  | [] => by simp [pure, Except.pure]
  | x :: xs => by
    rw [List.mapM_cons, bind_eq_error]
    simp only [bind_eq_error, mapM_eq_error (l := xs)]
    constructor
    · rintro (h | ⟨b, hb, ⟨pre, y, post, rfl, hpre, hy⟩ | ⟨_, _, ⟨⟩⟩⟩)
      · exact ⟨[], x, xs, rfl, by simp, h⟩
      · exact ⟨x :: pre, y, post, rfl, List.forall_mem_cons.mpr ⟨⟨b, hb⟩, hpre⟩, hy⟩
    · rintro ⟨pre, y, post, h, hpre, hy⟩
      cases pre with
      | nil => obtain ⟨rfl, rfl⟩ := List.cons.inj h; exact .inl hy
      | cons z pre =>
        obtain ⟨rfl, rfl⟩ := List.cons.inj h
        obtain ⟨⟨b, hb⟩, hpre⟩ := List.forall_mem_cons.mp hpre
        exact .inr ⟨b, hb, .inl ⟨pre, y, post, rfl, hpre, hy⟩⟩

end TypedErrors
