import Mathlib
import TypedErrors.Manifest

/-! # The number of nodes

A tree passes the check of its size just if it has no more nodes than the limit, and it is not walked to its end to find
that out: at most one node more than the limit is taken (`checkSize_counts`). -/

namespace TypedErrors
namespace Yaml
namespace Tree

mutual

/-- The number of nodes of a tree: itself, and those of the items of a sequence and the values of a mapping. -/
def nodes : Tree → Nat
  | .scalar _ => 1
  | .sequence items => 1 + nodesOfItems items
  | .mapping entries => 1 + nodesOfEntries entries

def nodesOfItems : List (Mark × Tree) → Nat
  | [] => 0
  | (_, t) :: items => t.nodes + nodesOfItems items

def nodesOfEntries : List (Key × Mark × Tree) → Nat
  | [] => 0
  | (_, _, t) :: entries => t.nodes + nodesOfEntries entries

end

/-- The number of nodes of all trees of a list. -/
def nodesOf (ts : List Tree) : Nat := (ts.map nodes).sum

variable {t : Tree} {ts us : List Tree} {room : Nat}

@[simp] theorem nodesOf_nil : nodesOf [] = 0 := rfl

@[simp] theorem nodesOf_cons : nodesOf (t :: ts) = t.nodes + nodesOf ts := by
  simp [nodesOf]

@[simp] theorem nodesOf_append : nodesOf (ts ++ us) = nodesOf ts + nodesOf us := by
  simp [nodesOf]

@[simp] theorem nodesOf_reverse : nodesOf ts.reverse = nodesOf ts := by
  simp [nodesOf, List.sum_reverse]

theorem nodesOfItems_eq (items : List (Mark × Tree)) : nodesOfItems items = nodesOf (items.map (·.2)) := by
  induction items with
  | nil => rfl
  | cons item items ih => rw [List.map_cons, nodesOf_cons, ← ih, nodesOfItems]

theorem nodesOfEntries_eq (entries : List (Key × Mark × Tree)) :
    nodesOfEntries entries = nodesOf (entries.map (·.2.2)) := by
  induction entries with
  | nil => rfl
  | cons entry entries ih => rw [List.map_cons, nodesOf_cons, ← ih, nodesOfEntries]

theorem nodes_eq (t : Tree) : t.nodes = 1 + nodesOf t.children := by
  cases t with
  | scalar s => rfl
  | sequence items => rw [nodes, nodesOfItems_eq, children]
  | mapping entries => rw [nodes, nodesOfEntries_eq, children]

/-- The stack fits just if all that is below its nodes does. -/
theorem fitsStack_iff : fitsStack room ts = true ↔ nodesOf ts ≤ room := by
  induction room generalizing ts with
  | zero =>
    cases ts with
    | nil => exact iff_of_true rfl (Nat.le_refl 0)
    | cons t ts =>
      rw [nodesOf_cons, nodes_eq]
      exact iff_of_false Bool.false_ne_true (by omega)
  | succ room ih =>
    cases ts with
    | nil => exact iff_of_true rfl (Nat.zero_le _)
    | cons t ts =>
      rw [fitsStack, ih, nodesOf_append, nodesOf_cons, nodes_eq t]
      omega

theorem fits_iff : t.fits room = true ↔ t.nodes ≤ room := by
  rw [fits, fitsStack_iff, nodesOf_cons, nodesOf_nil, Nat.add_zero]

end Tree
end Yaml

namespace Manifest

open Yaml

/-- The state of the count: the number of nodes taken, and the stack of those that wait, the next one first. -/
structure Count where
  taken : Nat
  stack : List Tree

/-- The nodes a count comes to: those taken, and all that wait and are below them. -/
def Count.total (c : Count) : Nat := c.taken + Tree.nodesOf c.stack

theorem Count.total_done (k : Nat) : (Count.mk k []).total = k := rfl

theorem Count.total_cons (k : Nat) (t : Tree) (ts : List Tree) :
    (Count.mk k (t :: ts)).total = k + 1 + Tree.nodesOf t.children + Tree.nodesOf ts := by
  rw [total, Tree.nodesOf_cons, Tree.nodes_eq]
  dsimp only
  omega

/-- The next node is within the limit, and its children wait before all others, the last one first. -/
inductive Turn (limit : Int) : Count → Count → Prop
  | take {k : Nat} {t : Tree} {ts : List Tree} (h : (k + 1 : Nat) ≤ limit) :
    Turn limit ⟨k, t :: ts⟩ ⟨k + 1, t.children.reverse ++ ts⟩

/-- The count from a state ends after so many nodes are taken: none is left, or the last one is beyond the limit. -/
inductive Counted (limit : Int) : Count → Nat → Except ManifestError Unit → Prop
  | done {k : Nat} : Counted limit ⟨k, []⟩ 0 (.ok ())
  | refused {k : Nat} {t : Tree} {ts : List Tree} (h : limit < (k + 1 : Nat)) :
    Counted limit ⟨k, t :: ts⟩ 1 (.error (.nodeCount limit))
  | turn {c c' : Count} {n : Nat} {r : Except ManifestError Unit} (h : Turn limit c c') (hrun : Counted limit c' n r) :
    Counted limit c (n + 1) r

variable {limit : Int} {c c' : Count} {n : Nat} {r : Except ManifestError Unit} {t : Tree}

/-! ### Turns -/

/-- A turn takes a node, and the nodes the count comes to stay the same. -/
theorem Turn.total_eq (h : Turn limit c c') : c'.taken = c.taken + 1 ∧ c'.total = c.total ∧ c'.taken ≤ limit := by
  obtain @⟨k, t, ts, h⟩ := h
  refine ⟨rfl, ?_, h⟩
  rw [Count.total_cons, Count.total, Tree.nodesOf_append, Tree.nodesOf_reverse]
  dsimp only
  omega

/-! ### The run -/

/-- From every state the count ends. -/
theorem Counted.exists_from (limit : Int) (c : Count) : ∃ n r, Counted limit c n r := by
  -- what waits gets smaller by the node taken
  induction hsize : Tree.nodesOf c.stack using Nat.strongRecOn generalizing c with
  | ind size ih =>
    obtain ⟨k, _ | ⟨t, ts⟩⟩ := c
    · exact ⟨_, _, .done⟩
    by_cases hk : (k + 1 : Nat) ≤ limit
    · have hturn : Turn limit ⟨k, t :: ts⟩ _ := .take hk
      have hless : Tree.nodesOf (t.children.reverse ++ ts) < size := by
        rw [← hsize, Tree.nodesOf_append, Tree.nodesOf_reverse, Tree.nodesOf_cons, Tree.nodes_eq t]
        omega
      obtain ⟨n, r, hrun⟩ := ih _ hless ⟨k + 1, t.children.reverse ++ ts⟩ rfl
      exact ⟨_, _, .turn hturn hrun⟩
    · exact ⟨_, _, .refused (by omega)⟩

/-- The count passes just if all nodes are within the limit, and otherwise it ends at the first one that is not. -/
theorem Counted.result (h : Counted limit c n r) (hc : c.taken ≤ limit.toNat) :
    (r = if (c.total : Int) ≤ max limit 0 then .ok () else .error (.nodeCount limit)) ∧
      c.taken + n = min c.total (limit.toNat + 1) := by
  induction h with
  | @done k =>
    rw [Count.total_done]
    dsimp only at hc ⊢
    exact ⟨(if_pos (by omega)).symm, by omega⟩
  | @refused k t ts hk =>
    rw [Count.total_cons]
    dsimp only at hc ⊢
    exact ⟨(if_neg (by omega)).symm, by omega⟩
  | @turn c c' n r hturn _ ih =>
    obtain ⟨htaken, htotal, hle⟩ := hturn.total_eq
    obtain ⟨hr, hn⟩ := ih (by omega)
    rw [htotal] at hr hn
    exact ⟨hr, by omega⟩

/-! ### The check -/

theorem checkSize_eq (limit : Int) (t : Tree) :
    checkSize limit t = if (t.nodes : Int) ≤ limit then .ok () else .error (.nodeCount limit) := by
  have hnodes := Tree.nodes_eq t
  have hiff : t.fits limit.toNat = true ↔ (t.nodes : Int) ≤ limit := by
    rw [Tree.fits_iff]
    omega
  rw [checkSize]
  exact if_congr hiff rfl rfl

/-- The count of a tree, from the tree on the stack, ends as the check does. -/
theorem Counted.eq_checkSize (h : Counted limit ⟨0, [t]⟩ n r) :
    n = min t.nodes (limit.toNat + 1) ∧ r = checkSize limit t := by
  have hnodes := Tree.nodes_eq t
  obtain ⟨hr, hn⟩ := h.result (Nat.zero_le _)
  rw [Count.total_cons, Tree.nodesOf_nil] at hr hn
  dsimp only at hn
  refine ⟨by omega, ?_⟩
  rw [hr, checkSize_eq]
  exact if_congr (by omega) rfl rfl

/-- A tree passes just if it has at most as many nodes as the limit says, and is refused otherwise. The count with a
stack ends, with the same result: it takes every node of the tree, or one more than the limit if the tree has more. -/
theorem checkSize_counts (limit : Int) (t : Tree) :
    (checkSize limit t = .ok () ↔ (t.nodes : Int) ≤ limit) ∧
      (checkSize limit t = .error (.nodeCount limit) ↔ limit < t.nodes) ∧
      ∃ steps : Nat, steps = min t.nodes (limit.toNat + 1) ∧ (steps : Int) ≤ max limit 0 + 1 ∧
        ∀ n r, Counted limit ⟨0, [t]⟩ n r ↔ n = steps ∧ r = checkSize limit t := by
  refine ⟨?_, ?_, _, rfl, by omega, fun n r => ⟨Counted.eq_checkSize, ?_⟩⟩
  · rw [checkSize_eq]
    split_ifs with h
    · exact iff_of_true rfl h
    · exact iff_of_false nofun h
  · rw [checkSize_eq, ← not_le]
    split_ifs with h
    · exact iff_of_false nofun (not_not_intro h)
    · exact iff_of_true rfl h
  · rintro ⟨rfl, rfl⟩
    obtain ⟨n, r, hrun⟩ := Counted.exists_from limit ⟨0, [t]⟩
    obtain ⟨rfl, rfl⟩ := hrun.eq_checkSize
    exact hrun

end Manifest
end TypedErrors
