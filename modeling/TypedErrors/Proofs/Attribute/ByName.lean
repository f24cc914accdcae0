import Mathlib.Logic.Function.Basic
import TypedErrors.Proofs.Attribute.Extract

/-! # Entries by name

What a reading gives, and which marks it leaves, depends on nothing but the entries of its name: their nodes in
order and their marks. -/

namespace TypedErrors
namespace Entries

/-- The nodes of the entries of a name, each with its mark. -/
def under (items : List Entry) (name : String) : List (AttrNode × Bool) :=
  (items.filter (·.name = name)).map fun e => (e.node, e.isUsed)

variable {name : String} {e : Entry} {items items' : List Entry}

theorem under_cons : under (e :: items) e.name = (e.node, e.isUsed) :: under items e.name := by
  rw [under, List.filter_cons_of_pos (by simp), List.map_cons, under]

theorem under_cons_of_ne (h : e.name ≠ name) : under (e :: items) name = under items name := by
  rw [under, List.filter_cons_of_neg (by simpa using h), under]

/-- An entry that is marked. -/
theorem under_cons_mark {l : List (AttrNode × Bool)} (h : under items' = Function.update (under items) e.name l) :
    under ({ e with isUsed := true } :: items') =
      Function.update (under (e :: items)) e.name ((e.node, true) :: l) := by
  have hmarked : under ({ e with isUsed := true } :: items') e.name = (e.node, true) :: under items' e.name :=
    under_cons
  funext m
  by_cases hm : m = e.name
  · subst hm
    rw [hmarked, h, Function.update_self, Function.update_self]
  · have hskip : under ({ e with isUsed := true } :: items') m = under items' m := under_cons_of_ne (Ne.symm hm)
    rw [hskip, h, Function.update_of_ne hm, Function.update_of_ne hm, under_cons_of_ne (Ne.symm hm)]

/-- An entry of another name stays as it is. -/
theorem under_cons_skip {l : List (AttrNode × Bool)} (hname : e.name ≠ name)
    (h : under items' = Function.update (under items) name l) :
    under (e :: items') = Function.update (under (e :: items)) name l := by
  funext m
  by_cases hm : m = e.name
  · subst hm
    rw [Function.update_of_ne hname, under_cons, under_cons, h, Function.update_of_ne hname]
  · by_cases hmn : m = name
    · subst hmn
      rw [Function.update_self, under_cons_of_ne hname, h, Function.update_self]
    · rw [Function.update_of_ne hmn, under_cons_of_ne (Ne.symm hm), under_cons_of_ne (Ne.symm hm), h,
        Function.update_of_ne hmn]

theorem under_eq_nil_iff : under items name = [] ↔ ∀ e ∈ items, e.name ≠ name := by
  rw [under, List.map_eq_nil_iff, List.filter_eq_nil_iff]
  simp

theorem mem_under (h : e ∈ items) : (e.node, e.isUsed) ∈ under items e.name :=
  List.mem_map_of_mem (List.mem_filter.mpr ⟨h, by simp⟩)

theorem forall_under_iff :
    (∀ name, ∀ p ∈ under items name, p.2 = true) ↔ ∀ e ∈ items, e.isUsed = true := by
  constructor
  · exact fun h e he => h e.name _ (mem_under he)
  · intro h name p hp
    obtain ⟨e, he, rfl⟩ := List.mem_map.mp hp
    exact h e (List.mem_of_mem_filter he)

theorem takeFirst_under {n : AttrNode} (h : takeFirst name items = some (n, items')) : ∃ b l,
    under items name = (n, b) :: l ∧ under items' = Function.update (under items) name ((n, true) :: l) := by
  induction items generalizing items' n with
  | nil => cases h
  | cons e items ih =>
    rw [takeFirst] at h
    split_ifs at h with hname
    · obtain ⟨rfl, rfl⟩ := Prod.mk.inj (Option.some.inj h)
      subst hname
      exact ⟨e.isUsed, under items e.name, under_cons,
        under_cons_mark (Function.update_eq_self ..).symm⟩
    · obtain ⟨⟨m, rest⟩, hrest, heq⟩ := Option.map_eq_some_iff.mp h
      obtain ⟨rfl, rfl⟩ := Prod.mk.inj heq
      obtain ⟨b, l, hl, hupdate⟩ := ih hrest
      exact ⟨b, l, (under_cons_of_ne hname).trans hl, under_cons_skip hname hupdate⟩

variable {α : Type} {read : AttrNode → Except Fault (List α)}

theorem takeEach_fst : (takeEach name read items).1 =
    List.flatten <$> ((under items name).map (·.1)).mapM read := by
  induction items with
  | nil => rfl
  | cons e items ih =>
    rw [takeEach]
    split_ifs with hname
    · subst hname
      rw [under_cons, List.map_cons, List.mapM_cons]
      cases read e.node with
      | error f => rfl
      | ok xs =>
        show Except.map (xs ++ ·) (takeEach e.name read items).1 = _
        rw [ih]
        cases ((under items e.name).map (·.1)).mapM read <;> rfl
    · rw [under_cons_of_ne hname]
      exact ih

/-- When each entry of a name is read, each is marked. -/
theorem takeEach_under {xs : List α} (h : (takeEach name read items).1 = .ok xs) :
    under (takeEach name read items).2 =
      Function.update (under items) name ((under items name).map fun p => (p.1, true)) := by
  induction items generalizing xs with
  | nil => exact (Function.update_eq_self ..).symm
  | cons e items ih =>
    rw [takeEach] at h ⊢
    split_ifs at h ⊢ with hname
    · subst hname
      cases hread : read e.node with
      | error f =>
        rw [hread] at h
        cases h
      | ok ys =>
        rw [hread] at h
        obtain ⟨zs, hzs, -⟩ := map_eq_ok.mp h
        rw [under_cons, List.map_cons]
        exact under_cons_mark (ih hzs)
    · rw [under_cons_of_ne hname]
      exact under_cons_skip hname (ih h)

end Entries

namespace Extract
open Entries
variable {α : Type} {name : String} {a : Adapter α} {es es' : Entries}

/-- An optional value is that of the first entry of its name, which is marked. -/
theorem optional_run_under (name : String) :
    under es.items name = [] ∧ (optional name a).run es = (.ok none, es.request name) ∨
    ∃ n b l items, under es.items name = (n, b) :: l ∧
      under items = Function.update (under es.items) name ((n, true) :: l) ∧ (optional name a).run es =
        ((a.node n).map fun x => if a.isGiven x then some x else none, { es.request name with items }) := by
  cases hfirst : takeFirst name es.items with
  | none => exact .inl ⟨under_eq_nil_iff.mpr (takeFirst_eq_none_iff.mp hfirst), optional_run_of_none hfirst⟩
  | some found =>
    obtain ⟨n, items⟩ := found
    obtain ⟨b, l, hl, hupdate⟩ := takeFirst_under hfirst
    exact .inr ⟨n, b, l, items, hl, hupdate, optional_run_of_some hfirst⟩

theorem all_run_fst : ((all name a).run es).1 =
    List.flatten <$> ((under es.items name).map (·.1)).mapM a.listOf.node := takeEach_fst

theorem all_run_under {xs : List α} (h : (all name a).run es = (.ok xs, es')) : under es'.items =
    Function.update (under es.items) name ((under es.items name).map fun p => (p.1, true)) := by
  obtain ⟨hxs, rfl⟩ := Prod.mk.inj h
  exact takeEach_under hxs

end Extract
end TypedErrors
