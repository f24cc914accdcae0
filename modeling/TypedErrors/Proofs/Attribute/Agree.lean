import TypedErrors.Proofs.Attribute.Alike
import TypedErrors.Proofs.Attribute.ByName

/-! # Extractions that agree

An extraction is run on two sets of entries that are alike: under each name the same nodes in the same order, with the
same marks. What it gives agrees, and the entries that it leaves are alike again (`Extract.Agrees`). -/

namespace TypedErrors

variable {α β γ δ : Type} {P : Span → Prop} {R : α → β → Prop} {Q : γ → δ → Prop}

/-- Under each name stand entries that are alike, with the same marks. -/
def Entries.Alike (P : Span → Prop) (es es' : Entries) : Prop :=
  ∀ name, List.Forall₂ (fun p q => p.1.Alike P q.1 ∧ p.2 = q.2) (Entries.under es.items name)
    (Entries.under es'.items name)

/-- What two extractions give, and the entries that they leave, agree. -/
inductive AgreeAfter (P : Span → Prop) (R : α → β → Prop) : Except Fault α × Entries → Except Fault β × Entries → Prop
  | ok {a : α} {b : β} {es es' : Entries} (h : R a b) (hes : es.Alike P es') : AgreeAfter P R (.ok a, es) (.ok b, es')
  | error {f g : Fault} {es es' : Entries} (hf : f.Placed P) (hg : g.Placed P) :
      AgreeAfter P R (.error f, es) (.error g, es')

namespace Extract

variable {x : Extract α} {y : Extract β} {a : Adapter α} {name : String} {S : α → α → Prop}

/-- Extractions that agree on entries that are alike. -/
def Agrees (P : Span → Prop) (R : α → β → Prop) (x : Extract α) (y : Extract β) : Prop :=
  ∀ es es', es.Alike P es' → AgreeAfter P R (x.run es) (y.run es')

theorem Agrees.fst (h : Agrees P R x y) {es es' : Entries} (hes : es.Alike P es') :
    Agree P R (x.run es).1 (y.run es').1 := by
  have hxy := h es es' hes
  revert hxy
  rcases x.run es with ⟨_ | _, _⟩ <;> rcases y.run es' with ⟨_ | _, _⟩ <;> rintro (⟨h, -⟩ | ⟨hf, hg⟩)
  · exact .error hf hg
  · exact .ok h

theorem Agrees.pure {v : α} {w : β} (h : R v w) : Agrees P R (Pure.pure v) (Pure.pure w) :=
  fun _ _ hes => .ok h hes

theorem Agrees.ofExcept {v : Except Fault α} {w : Except Fault β} (h : Agree P R v w) :
    Agrees P R (MonadExcept.ofExcept v) (MonadExcept.ofExcept w) := by
  intro es es' hes
  rw [run_ofExcept, run_ofExcept]
  cases h with
  | ok h => exact .ok h hes
  | error hf hg => exact .error hf hg

theorem Agrees.bind {f : α → Extract γ} {g : β → Extract δ} (h : Agrees P R x y)
    (hf : ∀ v w, R v w → Agrees P Q (f v) (g w)) : Agrees P Q (x >>= f) (y >>= g) := by
  intro es es' hes
  have hxy := h es es' hes
  rw [run_bind, run_bind]
  cases hx : x.run es with | mk rx ex =>
  cases hy : y.run es' with | mk ry ey =>
  rw [hx, hy] at hxy
  cases hxy with
  | ok hvw hes => exact hf _ _ hvw _ _ hes
  | error hf hg => exact .error hf hg

theorem Agrees.throw {f g : Fault} (hf : f.Placed P) (hg : g.Placed P) :
    Agrees P R (throw f : Extract α) (throw g : Extract β) :=
  fun _ _ _ => .error hf hg

theorem alike_update {es es' : Entries} {items items' : List Entry} {l l' : List (AttrNode × Bool)}
    (h : es.Alike P es') (hl : List.Forall₂ (fun p q => p.1.Alike P q.1 ∧ p.2 = q.2) l l')
    (hitems : Entries.under items = Function.update (Entries.under es.items) name l)
    (hitems' : Entries.under items' = Function.update (Entries.under es'.items) name l')
    {requested requested' : List String} : Entries.Alike P ⟨items, requested⟩ ⟨items', requested'⟩ := by
  intro m
  show List.Forall₂ _ (Entries.under items m) (Entries.under items' m)
  rw [hitems, hitems']
  by_cases hm : m = name
  · subst hm
    rwa [Function.update_self, Function.update_self]
  · rw [Function.update_of_ne hm, Function.update_of_ne hm]
    exact h m

theorem Agrees.optional (ha : ∀ {m n}, m.Alike P n → Agree P S (a.node m) (a.node n))
    (hgiven : ∀ v, a.isGiven v = true) :
    Agrees P (Option.Rel S) (Extract.optional name a) (Extract.optional name a) := by
  intro es es' hes
  have hname := hes name
  -- the lists under the name are equally long, so both sides find an entry or neither does
  rcases optional_run_under name with ⟨hnil, hrun⟩ | ⟨n, b, l, items, hl, hitems, hrun⟩ <;>
    rcases optional_run_under name with ⟨hnil', hrun'⟩ | ⟨n', b', l', items', hl', hitems', hrun'⟩
  · rw [hrun, hrun']
    exact .ok .none hes
  · rw [hnil, hl'] at hname
    cases hname
  · rw [hl, hnil'] at hname
    cases hname
  · rw [hl, hl'] at hname
    obtain ⟨⟨hn, -⟩, hrest⟩ := List.forall₂_cons.mp hname
    have hread : List.Forall₂ (fun p q => p.1.Alike P q.1 ∧ p.2 = q.2) ((n, true) :: l) ((n', true) :: l') :=
      .cons ⟨hn, rfl⟩ hrest
    have hafter : Entries.Alike P ⟨items, name :: es.requested⟩ ⟨items', name :: es'.requested⟩ :=
      alike_update hes hread hitems hitems'
    have hvalue := ha hn
    rw [hrun, hrun']
    revert hvalue
    rcases a.node n with _ | v <;> rcases a.node n' with _ | v' <;> rintro (h | ⟨hf, hg⟩)
    · exact .error hf hg
    · refine .ok ?_ hafter
      dsimp only
      rw [if_pos (hgiven v), if_pos (hgiven v')]
      exact .some h

theorem Agrees.required (ha : ∀ {m n}, m.Alike P n → Agree P S (a.node m) (a.node n))
    (hgiven : ∀ v, a.isGiven v = true) {anchor anchor' : Option Span} (hs : Placed P anchor)
    (hs' : Placed P anchor') :
    Agrees P S (Extract.required name a anchor) (Extract.required name a anchor') := by
  refine (Agrees.optional ha hgiven).bind fun v w hvw => ?_
  cases hvw with
  | some h => exact .pure h
  | none => exact .throw (Fault.placed_report rfl hs) (Fault.placed_report rfl hs')

theorem Agrees.all (ha : ∀ {m n}, m.Alike P n → Agree P (List.Forall₂ S) (a.listOf.node m) (a.listOf.node n)) :
    Agrees P (List.Forall₂ S) (Extract.all name a) (Extract.all name a) := by
  intro es es' hes
  have hname := hes name
  have hvalues : Agree P (List.Forall₂ S) ((Extract.all name a).run es).1 ((Extract.all name a).run es').1 := by
    rw [all_run_fst, all_run_fst]
    refine (Agree.mapM (Q := List.Forall₂ S) ?_).map fun _ _ h => List.rel_flatten h
    exact List.forall₂_map_left_iff.mpr (List.forall₂_map_right_iff.mpr (hname.imp fun _ _ hn => ha hn.1))
  cases hrun : (Extract.all name a).run es with | mk r left =>
  cases hrun' : (Extract.all name a).run es' with | mk r' left' =>
  rw [hrun, hrun'] at hvalues
  cases hvalues with
  | error hf hg => exact .error hf hg
  | ok h =>
    refine .ok h (alike_update hes ?_ (all_run_under hrun) (all_run_under hrun'))
    exact List.forall₂_map_left_iff.mpr (List.forall₂_map_right_iff.mpr (hname.imp fun _ _ hn => ⟨hn.1, rfl⟩))

theorem marked_congr {es es' : Entries} (h : es.Alike P es') :
    (∀ e ∈ es.items, e.isUsed = true) ↔ ∀ e ∈ es'.items, e.isUsed = true := by
  rw [← Entries.forall_under_iff, ← Entries.forall_under_iff]
  refine forall_congr' fun name => ?_
  have hmarks := map_eq_of_forall₂ (h name) fun _ _ hpq => hpq.2
  rw [← List.forall_mem_map (P := (· = true)), hmarks, List.forall_mem_map]

theorem finish_placed {es : Entries} (h : ∀ e ∈ es.items, Placed P e.node.path.span) :
    Extract.finish.run es = (.ok (), es) ∨ ∃ f, f.Placed P ∧ Extract.finish.run es = (.error f, es) := by
  rw [run_finish]
  split
  · exact .inl rfl
  · next e he => exact .inr ⟨_, Fault.placed_report rfl (h e (List.mem_of_find?_eq_some he)), rfl⟩

/-- What is left unread is refused at its own path. -/
theorem Agrees.finish : Agrees P Eq Extract.finish Extract.finish := by
  intro es es' hes
  have hleft : ∀ e ∈ es.items, Placed P e.node.path.span := by
    intro e he
    obtain ⟨q, -, hq⟩ := exists_left_of_forall₂ (hes e.name).flip _ (Entries.mem_under he)
    exact hq.1.path.left
  have hright : ∀ e ∈ es'.items, Placed P e.node.path.span := by
    intro e he
    obtain ⟨p, -, hp⟩ := exists_left_of_forall₂ (hes e.name) _ (Entries.mem_under he)
    exact hp.1.path.right
  -- the entries that the two sides refuse may have different names, as only those of one name keep their order
  rcases finish_placed hleft with hok | ⟨f, hf, herror⟩
  · have hmarked := (marked_congr hes).mp (finish_run_eq_ok_iff.mp hok).1
    rw [hok, finish_run_eq_ok_iff.mpr ⟨hmarked, rfl⟩]
    exact .ok rfl hes
  · rcases finish_placed hright with hok | ⟨g, hg, herror'⟩
    · have hmarked := (marked_congr hes).mpr (finish_run_eq_ok_iff.mp hok).1
      cases herror.symm.trans (finish_run_eq_ok_iff.mpr ⟨hmarked, rfl⟩)
    · rw [herror, herror']
      exact .error hf hg

end Extract

/-! ### Blocks -/

/-- Blocks whose entries are alike, or that are refused. -/
def AttrsAlike (P : Span → Prop) (ns : String) (attrs attrs' : List RawAttribute) : Prop :=
  Agree P (Entries.Alike P) (Entries.ofAttributes ns attrs) (Entries.ofAttributes ns attrs')

theorem AttrsAlike.agree {ns : String} {attrs attrs' : List RawAttribute} {x : Extract α} {y : Extract β}
    (h : AttrsAlike P ns attrs attrs') (hxy : Extract.Agrees P R x y) :
    Agree P R (Extract.ofAttributes ns attrs x) (Extract.ofAttributes ns attrs' y) :=
  h.bind fun _ _ hes => hxy.fst hes

end TypedErrors
