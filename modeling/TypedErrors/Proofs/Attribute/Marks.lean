import TypedErrors.Proofs.Attribute.Extract

/-! # The history of marks

Entries are asked for one call after another, and a call that is refused leaves its marks all the same. After any
calls an entry is marked just when one of them reached it, and `Extract.finish` refuses the first entry that none
reached (`tracks_calls`). -/

namespace TypedErrors

/-! ### Marks -/

namespace Entries

/-- What entries hold: a name and a node each. -/
def contents (es : List Entry) : List (String × AttrNode) := es.map fun e => (e.name, e.node)

/-- Entries that nobody has read. -/
def ofContents (l : List (String × AttrNode)) : Entries := { items := l.map fun (name, node) => { name, node } }

/-- The entry at the index has a mark. -/
def MarkedAt (es : List Entry) (i : Nat) : Prop := ∃ e, es[i]? = some e ∧ e.isUsed = true

/-- A search for a name comes to the entry at the index: it has the name, and the search goes on after those of
the name before it. -/
def ReachedBy (name : String) (goesOn : AttrNode → Prop) (l : List (String × AttrNode)) (i : Nat) : Prop :=
  (∃ n, l[i]? = some (name, n)) ∧ ∀ j < i, ∀ n, l[j]? = some (name, n) → goesOn n

variable {name : String} {goesOn : AttrNode → Prop} {l : List (String × AttrNode)} {q : String × AttrNode} {i : Nat}

theorem reachedBy_cons_zero : ReachedBy name goesOn (q :: l) 0 ↔ q.1 = name := by
  constructor
  · rintro ⟨⟨n, hn⟩, -⟩
    rw [Option.some.inj hn]
  · rintro rfl
    exact ⟨⟨q.2, rfl⟩, nofun⟩

theorem reachedBy_cons_succ :
    ReachedBy name goesOn (q :: l) (i + 1) ↔ (q.1 = name → goesOn q.2) ∧ ReachedBy name goesOn l i := by
  constructor
  · rintro ⟨hn, hbefore⟩
    refine ⟨?_, hn, fun j hj n hjn => hbefore (j + 1) (Nat.succ_lt_succ hj) n hjn⟩
    rintro rfl
    exact hbefore 0 (Nat.succ_pos i) q.2 rfl
  · rintro ⟨hq, hn, hbefore⟩
    refine ⟨hn, fun j hj n hjn => ?_⟩
    cases j with
    | zero =>
      obtain rfl := Option.some.inj hjn
      exact hq rfl
    | succ j => exact hbefore j (Nat.lt_of_succ_lt_succ hj) n hjn

/-- The entries hold the same, and those that the search comes to are marked besides. -/
structure Marks (name : String) (goesOn : AttrNode → Prop) (es es' : List Entry) : Prop where
  contents : contents es' = contents es
  marked : ∀ i, MarkedAt es' i ↔ MarkedAt es i ∨ ReachedBy name goesOn (Entries.contents es) i

namespace Marks

variable {e : Entry} {es es' : List Entry}

theorem of_absent (h : ∀ e ∈ es, e.name ≠ name) : Marks name goesOn es es := by
  refine ⟨rfl, fun i => (or_iff_left ?_).symm⟩
  rintro ⟨⟨n, hn⟩, -⟩
  obtain ⟨e, he, heq⟩ := List.mem_map.mp (List.mem_of_getElem? hn)
  exact h e he (Prod.mk.inj heq).1

theorem skip (hname : e.name ≠ name) (h : Marks name goesOn es es') : Marks name goesOn (e :: es) (e :: es') := by
  refine ⟨congrArg ((e.name, e.node) :: ·) h.contents, fun i => ?_⟩
  cases i with
  | zero => exact (or_iff_left fun hr => hname (reachedBy_cons_zero.mp hr)).symm
  | succ i =>
    refine (h.marked i).trans (or_congr_right ?_)
    exact (reachedBy_cons_succ.trans (and_iff_right fun heq => absurd heq hname)).symm

theorem stop (hname : e.name = name) (hend : ¬ goesOn e.node) :
    Marks name goesOn (e :: es) ({ e with isUsed := true } :: es) := by
  refine ⟨rfl, fun i => ?_⟩
  cases i with
  | zero => exact iff_of_true ⟨_, rfl, rfl⟩ (.inr (reachedBy_cons_zero.mpr hname))
  | succ i => exact (or_iff_left fun hr => hend ((reachedBy_cons_succ.mp hr).1 hname)).symm

theorem next (hname : e.name = name) (hon : goesOn e.node) (h : Marks name goesOn es es') :
    Marks name goesOn (e :: es) ({ e with isUsed := true } :: es') := by
  refine ⟨congrArg ((e.name, e.node) :: ·) h.contents, fun i => ?_⟩
  cases i with
  | zero => exact iff_of_true ⟨_, rfl, rfl⟩ (.inr (reachedBy_cons_zero.mpr hname))
  | succ i => exact (h.marked i).trans (or_congr_right (reachedBy_cons_succ.trans (and_iff_right fun _ => hon)).symm)

end Marks

/-- One reading of a name comes to its first entry. -/
theorem takeFirst_marks {n : AttrNode} {es es' : List Entry} (h : takeFirst name es = some (n, es')) :
    Marks name (fun _ => False) es es' := by
  induction es generalizing es' n with
  | nil => cases h
  | cons e es ih =>
    rw [takeFirst] at h
    split_ifs at h with hname
    · obtain ⟨-, rfl⟩ := Prod.mk.inj (Option.some.inj h)
      exact .stop hname not_false
    · obtain ⟨⟨m, rest⟩, hrest, heq⟩ := Option.map_eq_some_iff.mp h
      obtain ⟨-, rfl⟩ := Prod.mk.inj heq
      exact .skip hname (ih hrest)

/-- Reading all entries of a name comes to each of them, up to the first that is refused. -/
theorem takeEach_marks {α : Type} {read : AttrNode → Except Fault (List α)} (es : List Entry) :
    Marks name (fun n => ∃ xs, read n = .ok xs) es (takeEach name read es).2 := by
  induction es with
  | nil => exact .of_absent nofun
  | cons e es ih =>
    rw [takeEach]
    split_ifs with hname
    · split
      · next f hf =>
        refine .stop hname ?_
        rintro ⟨xs, hxs⟩
        cases hf.symm.trans hxs
      · next xs hxs => exact .next hname ⟨xs, hxs⟩ ih
    · exact .skip hname ih

end Entries

/-! ### Calls -/

open Entries

/-- A call that asks for entries. A type of value that has no adapter is refused before any entry is looked at. -/
inductive Call where
  | optional {α : Type} (name : String) (a : Adapter α)
  | required {α : Type} (name : String) (a : Adapter α) (anchor : Option Span)
  | all {α : Type} (name : String) (a : Adapter α)
  | unadapted (name : String)

namespace Call

def name : Call → String
  | optional name _ | required name _ _ | all name _ | unadapted name => name

/-- The entries after a call, whatever becomes of it. -/
def after (es : Entries) : Call → Entries
  | optional name a => ((Extract.optional name a).run es).2
  | required name a anchor => ((Extract.required name a anchor).run es).2
  | all name a => ((Extract.all name a).run es).2
  | unadapted name => es.request name

/-- A call comes to the entry at the index: the first of its name, or, if it asks for all, each of its name up to
the first that is refused. -/
def Reaches (l : List (String × AttrNode)) (i : Nat) : Call → Prop
  | optional name _ | required name _ _ => ReachedBy name (fun _ => False) l i
  | all name a => ReachedBy name (fun n => ∃ xs, a.listOf.node n = .ok xs) l i
  | unadapted _ => False

/-- The entries after calls in order, refused or not. -/
def afterAll (es : Entries) (cs : List Call) : Entries := cs.foldl after es

end Call

namespace Extract

variable {α : Type} (name : String) (a : Adapter α) (es : Entries)

theorem optional_after : Marks name (fun _ => False) es.items ((optional name a).run es).2.items ∧
    ((optional name a).run es).2.requested = name :: es.requested := by
  cases hfirst : takeFirst name es.items with
  | none =>
    rw [optional_run_of_none hfirst]
    exact ⟨.of_absent (takeFirst_eq_none_iff.mp hfirst), rfl⟩
  | some found =>
    rw [optional_run_of_some hfirst]
    exact ⟨takeFirst_marks hfirst, rfl⟩

/-- A value that is missing or not given changes no entry. -/
theorem required_after (anchor : Option Span) :
    ((required name a anchor).run es).2 = ((optional name a).run es).2 := by
  rw [required, run_bind]
  rcases (optional name a).run es with ⟨_ | _ | _, es'⟩ <;> rfl

end Extract

namespace Call

variable {l : List (String × AttrNode)} {c : Call} {es : Entries} {i : Nat}

/-- One call marks what it reaches, keeps all other marks, and notes its name. -/
theorem after_marks (h : contents es.items = l) : contents (c.after es).items = l ∧
    (∀ i, MarkedAt (c.after es).items i ↔ MarkedAt es.items i ∨ c.Reaches l i) ∧
    (c.after es).requested = c.name :: es.requested := by
  subst h
  cases c with
  | optional name a =>
    obtain ⟨hmarks, hrequested⟩ := Extract.optional_after name a es
    exact ⟨hmarks.contents, hmarks.marked, hrequested⟩
  | required name a anchor =>
    obtain ⟨hmarks, hrequested⟩ := Extract.optional_after name a es
    rw [← Extract.required_after name a es anchor] at hmarks hrequested
    exact ⟨hmarks.contents, hmarks.marked, hrequested⟩
  | all name a =>
    have hmarks : Marks name (fun n => ∃ xs, a.listOf.node n = .ok xs) es.items (Call.after es (.all name a)).items :=
      takeEach_marks es.items
    exact ⟨hmarks.contents, hmarks.marked, rfl⟩
  | unadapted name => exact ⟨rfl, fun i => (or_iff_left not_false).symm, rfl⟩

theorem afterAll_marks (h : contents es.items = l) (cs : List Call) : contents (afterAll es cs).items = l ∧
    (∀ i, MarkedAt (afterAll es cs).items i ↔ MarkedAt es.items i ∨ ∃ c ∈ cs, c.Reaches l i) ∧
    (afterAll es cs).requested = (cs.map name).reverse ++ es.requested := by
  induction cs generalizing es with
  | nil => exact ⟨h, fun i => by simp [afterAll], rfl⟩
  | cons c cs ih =>
    obtain ⟨hl, hmarked, hrequested⟩ := after_marks (c := c) h
    obtain ⟨hl', hmarked', hrequested'⟩ := ih hl
    refine ⟨hl', fun i => ?_, ?_⟩
    · show MarkedAt (afterAll (c.after es) cs).items i ↔ _
      rw [hmarked', hmarked, or_assoc, List.exists_mem_cons_iff]
    · show (afterAll (c.after es) cs).requested = _
      rw [hrequested', hrequested, List.map_cons, List.reverse_cons, List.append_assoc]
      rfl

end Call

/-! ### Entries that nobody reads -/

theorem Entries.forall_isUsed_iff {es : List Entry} :
    (∀ e ∈ es, e.isUsed = true) ↔ ∀ i < es.length, MarkedAt es i := by
  constructor
  · exact fun h i hi => ⟨es[i], List.getElem?_eq_getElem hi, h _ (List.getElem_mem hi)⟩
  · intro h e he
    obtain ⟨i, hi, rfl⟩ := List.getElem_of_mem he
    obtain ⟨e, he, hused⟩ := h i hi
    rwa [(List.getElem?_eq_some_iff.mp he).2]

/-- What the entries `l` are after the calls `cs`, and how `Extract.finish` finds them. -/
structure Tracks (l : List (String × AttrNode)) (cs : List Call) (es : Entries) : Prop where
  contents : contents es.items = l
  /-- An entry is marked just when some call has reached it. -/
  marked : ∀ i, MarkedAt es.items i ↔ ∃ c ∈ cs, c.Reaches l i
  /-- No call takes a mark away. -/
  kept : ∀ i, MarkedAt es.items i → ∀ c : Call, MarkedAt (c.after es).items i
  /-- Looking for entries that are not marked changes nothing. -/
  unchanged : (Extract.finish.run es).2 = es
  finished : (Extract.finish.run es).1 = .ok () ↔ ∀ i < l.length, MarkedAt es.items i
  /-- The first entry without a mark is refused, at its path. -/
  refused : ∀ i name node, l[i]? = some (name, node) → ¬ MarkedAt es.items i → (∀ j < i, MarkedAt es.items j) →
    (Extract.finish.run es).1 = .error (.report ((Diagnostic.unknownField name
      (suggestSimilar (Text.ofString name) (sortedNames (cs.map Call.name).reverse))).withSpan node.path.span))

namespace Entries

theorem not_markedAt_ofContents (l : List (String × AttrNode)) (i : Nat) : ¬ MarkedAt (ofContents l).items i := by
  rintro ⟨e, he, hused⟩
  obtain ⟨q, -, rfl⟩ := List.mem_map.mp (List.mem_of_getElem? he)
  cases hused

/-- The search for an entry without a mark comes to the first. -/
theorem find?_unmarked {es : List Entry} {i : Nat} {name : String} {node : AttrNode}
    (hi : (contents es)[i]? = some (name, node)) (hnot : ¬ MarkedAt es i) (hbefore : ∀ j < i, MarkedAt es j) :
    ∃ e, es.find? (!·.isUsed) = some e ∧ e.name = name ∧ e.node = node := by
  rw [contents, List.getElem?_map, Option.map_eq_some_iff] at hi
  obtain ⟨e, he, heq⟩ := hi
  obtain ⟨hlt, hget⟩ := List.getElem?_eq_some_iff.mp he
  refine ⟨e, List.find?_eq_some_iff_getElem.mpr ⟨?_, i, hlt, hget, fun j hj => ?_⟩, Prod.mk.inj heq⟩
  · rw [Bool.eq_false_iff.mpr fun hused => hnot ⟨e, he, hused⟩]
    rfl
  · obtain ⟨e', he', hused⟩ := hbefore j hj
    rw [(List.getElem?_eq_some_iff.mp he').2, hused]
    rfl

theorem contents_ofContents (l : List (String × AttrNode)) : contents (ofContents l).items = l := by
  rw [contents, ofContents, List.map_map]
  exact List.map_id _

end Entries

/-- Whatever was asked for, refused or not. -/
theorem tracks_calls (l : List (String × AttrNode)) (cs : List Call) :
    Tracks l cs (Call.afterAll (ofContents l) cs) := by
  obtain ⟨hl, hmarked, hrequested⟩ := Call.afterAll_marks (contents_ofContents l) cs
  -- the rest follows from what the entries are now, whatever calls led to them
  generalize Call.afterAll (ofContents l) cs = es at hl hmarked hrequested
  replace hrequested : es.requested = (cs.map Call.name).reverse := hrequested.trans (List.append_nil _)
  refine ⟨hl, fun i => ?_, fun i hi c => ?_, ?_, ?_, fun i name node hi hnot hbefore => ?_⟩
  · exact (hmarked i).trans (or_iff_right (not_markedAt_ofContents l i))
  · exact ((Call.after_marks hl).2.1 i).mpr (.inl hi)
  · exact Extract.finish_run_snd
  · rw [Extract.finish_run_fst_eq_ok_iff, forall_isUsed_iff, ← hl, contents, List.length_map]
  · obtain ⟨e, he, rfl, rfl⟩ := find?_unmarked (hl.symm ▸ hi) hnot hbefore
    rw [Extract.run_finish, he, ← hrequested]

end TypedErrors
