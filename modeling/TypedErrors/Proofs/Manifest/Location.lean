import TypedErrors.Proofs.Manifest.Form

/-! # Locations in a document

A location is the keys and indices on the way to a key or an item (`Leads`). What is recorded of a document is the path
and the place of each of its keys and items (`places_eq`), and what is refused has the location of one of them, or of a
file name that a target lacks (`reported_of_targetsOf`). -/

namespace TypedErrors
namespace Manifest

open Yaml

variable {entries : List (Key × Mark × Tree)} {items : List (Mark × Tree)} {t u v : Tree} {k : Key} {m m' : Mark}
  {s : Segment} {l l' base location : List Segment} {i : Nat} {e : Misfit}

/-- In the tree the location leads to a key or an item that starts at the mark, and to its value. -/
inductive Leads : Tree → List Segment → Mark → Tree → Prop
  | key {entries : List (Key × Mark × Tree)} {k : Key} {m : Mark} {t : Tree} (h : (k, m, t) ∈ entries) :
      Leads (.mapping entries) [.key k.text] m t
  | item {items : List (Mark × Tree)} {i : Nat} {m : Mark} {t : Tree} (h : items[i]? = some (m, t)) :
      Leads (.sequence items) [.index i] m t
  | step {t u v : Tree} {s : Segment} {l : List Segment} {m m' : Mark} (h : Leads t [s] m u) (hl : Leads u l m' v) :
      Leads t (s :: l) m' v

mutual

/-- The keys and items of a tree by their locations, with the places where they start, in the order of the document. -/
def parts (base : List Segment) : Tree → List (List Segment × Mark)
  | .scalar _ => []
  | .sequence items => itemParts base 0 items
  | .mapping entries => entryParts base entries

def itemParts (base : List Segment) (i : Nat) : List (Mark × Tree) → List (List Segment × Mark)
  | [] => []
  | (m, t) :: items =>
    (base ++ [.index i], m) :: (parts (base ++ [.index i]) t ++ itemParts base (i + 1) items)

def entryParts (base : List Segment) : List (Key × Mark × Tree) → List (List Segment × Mark)
  | [] => []
  | (k, m, t) :: entries =>
    (base ++ [.key k.text], m) :: (parts (base ++ [.key k.text]) t ++ entryParts base entries)

end

/-! ### What is recorded -/

@[simp] theorem pathOf_append_key (l : List Segment) (name : Text) :
    pathOf (l ++ [.key name]) = keyPath (pathOf l) name := by
  simp [pathOf]

@[simp] theorem pathOf_append_index (l : List Segment) (i : Nat) : pathOf (l ++ [.index i]) = itemPath (pathOf l) i := by
  simp [pathOf]

/-- A part by its path. -/
def byPath (p : List Segment × Mark) : Text × Mark := (pathOf p.1, p.2)

mutual

/-- Of a document the paths of its parts are recorded with their places. -/
theorem places_eq (base : List Segment) : ∀ t : Tree, places (pathOf base) t = (parts base t).map byPath
  | .scalar _ => rfl
  | .sequence items => itemPlaces_eq base 0 items
  | .mapping entries => entryPlaces_eq base entries

theorem itemPlaces_eq (base : List Segment) (i : Nat) :
    ∀ items : List (Mark × Tree), itemPlaces (pathOf base) i items = (itemParts base i items).map byPath
  | [] => rfl
  | (m, t) :: items => by
    have ht := places_eq (base ++ [.index i]) t
    rw [pathOf_append_index] at ht
    rw [itemPlaces, itemParts, ht, itemPlaces_eq base (i + 1) items, List.map_cons, List.map_append, byPath,
      pathOf_append_index]

theorem entryPlaces_eq (base : List Segment) :
    ∀ entries : List (Key × Mark × Tree), entryPlaces (pathOf base) entries = (entryParts base entries).map byPath
  | [] => rfl
  | (k, m, t) :: entries => by
    have ht := places_eq (base ++ [.key k.text]) t
    rw [pathOf_append_key] at ht
    rw [entryPlaces, entryParts, ht, entryPlaces_eq base entries, List.map_cons, List.map_append, byPath,
      pathOf_append_key]

end

/-! ### Parts -/

theorem Leads.ne_nil (h : Leads t l m u) : l ≠ [] := by
  cases h <;> exact List.cons_ne_nil _ _

theorem mem_itemParts : (l, m) ∈ itemParts base i items ↔ ∃ j m' u, items[j]? = some (m', u) ∧
    ((l = base ++ [.index (i + j)] ∧ m = m') ∨ (l, m) ∈ parts (base ++ [.index (i + j)]) u) := by
  induction items generalizing i with
  | nil => simp [itemParts]
  | cons item items ih =>
    obtain ⟨m', u⟩ := item
    simp only [itemParts, List.mem_cons, List.mem_append, Prod.mk.injEq, ih]
    constructor
    · rintro (⟨rfl, rfl⟩ | h | ⟨j, m'', w, hj, h⟩)
      · exact ⟨0, m, u, rfl, .inl ⟨rfl, rfl⟩⟩
      · exact ⟨0, m', u, rfl, .inr h⟩
      · rw [Nat.add_right_comm] at h
        exact ⟨j + 1, m'', w, hj, h⟩
    · rintro ⟨_ | j, m'', w, hj, h⟩
      · obtain ⟨rfl, rfl⟩ := Prod.mk.inj (Option.some.inj hj)
        rcases h with h | h
        · exact .inl h
        · exact .inr (.inl h)
      · rw [show i + (j + 1) = i + 1 + j by omega] at h
        exact .inr (.inr ⟨j, m'', w, hj, h⟩)

theorem mem_entryParts : (l, m) ∈ entryParts base entries ↔ ∃ k m' u, (k, m', u) ∈ entries ∧
    ((l = base ++ [.key k.text] ∧ m = m') ∨ (l, m) ∈ parts (base ++ [.key k.text]) u) := by
  induction entries with
  | nil => simp [entryParts]
  | cons entry entries ih =>
    obtain ⟨k, m', u⟩ := entry
    simp only [entryParts, List.mem_cons, List.mem_append, Prod.mk.injEq, ih]
    constructor
    · rintro (⟨rfl, rfl⟩ | h | ⟨k', m'', w, hmem, h⟩)
      · exact ⟨k, m, u, .inl ⟨rfl, rfl, rfl⟩, .inl ⟨rfl, rfl⟩⟩
      · exact ⟨k, m', u, .inl ⟨rfl, rfl, rfl⟩, .inr h⟩
      · exact ⟨k', m'', w, .inr hmem, h⟩
    · rintro ⟨k', m'', w, ⟨rfl, rfl, rfl⟩ | hmem, h⟩
      · rcases h with h | h
        · exact .inl h
        · exact .inr (.inl h)
      · exact .inr (.inr ⟨k', m'', w, hmem, h⟩)

/-- What a location leads to is among the parts. -/
theorem Leads.mem_parts (h : Leads t l m u) (base : List Segment) : (base ++ l, m) ∈ parts base t := by
  induction h generalizing base with
  | key h => exact mem_entryParts.mpr ⟨_, _, _, h, .inl ⟨rfl, rfl⟩⟩
  | @item items i m t h => exact mem_itemParts.mpr ⟨i, m, t, h, .inl ⟨by rw [Nat.zero_add], rfl⟩⟩
  | @step t u v s l m m' h hl _ ih =>
    have hmem := ih (base ++ [s])
    rw [List.append_assoc] at hmem
    cases h with
    | key h => exact mem_entryParts.mpr ⟨_, _, _, h, .inr hmem⟩
    | @item items i m t h => exact mem_itemParts.mpr ⟨i, m, u, h, .inr (by rw [Nat.zero_add]; exact hmem)⟩
    | step _ hl' => exact absurd rfl hl'.ne_nil

/-- A part is what its location leads to. -/
theorem leads_of_mem_parts (base : List Segment) :
    ∀ t : Tree, (l, m) ∈ parts base t → ∃ l' u, l = base ++ l' ∧ Leads t l' m u
  | .scalar _, h => nomatch h
  | .sequence items, h => by
    obtain ⟨j, m', u, hj, h⟩ := mem_itemParts.mp h
    rw [Nat.zero_add] at h
    have hlt : sizeOf u < sizeOf items := by
      have hitem := List.sizeOf_lt_of_mem (List.mem_of_getElem? hj)
      rw [Prod.mk.sizeOf_spec] at hitem
      omega
    rcases h with ⟨rfl, rfl⟩ | h
    · exact ⟨_, u, rfl, .item hj⟩
    · obtain ⟨l', v, rfl, hl'⟩ := leads_of_mem_parts _ u h
      exact ⟨.index j :: l', v, List.append_assoc .., .step (.item hj) hl'⟩
  | .mapping entries, h => by
    obtain ⟨k, m', u, hmem, h⟩ := mem_entryParts.mp h
    have hlt : sizeOf u < sizeOf entries := by
      have hentry := List.sizeOf_lt_of_mem hmem
      rw [Prod.mk.sizeOf_spec, Prod.mk.sizeOf_spec] at hentry
      omega
    rcases h with ⟨rfl, rfl⟩ | h
    · exact ⟨_, u, rfl, .key hmem⟩
    · obtain ⟨l', v, rfl, hl'⟩ := leads_of_mem_parts _ u h
      exact ⟨.key k.text :: l', v, List.append_assoc .., .step (.key hmem) hl'⟩
termination_by t => sizeOf t
decreasing_by
  all_goals simp only [Tree.sequence.sizeOf_spec, Tree.mapping.sizeOf_spec]; omega

theorem mem_parts_iff : (l, m) ∈ parts [] t ↔ ∃ u, Leads t l m u := by
  constructor
  · intro h
    obtain ⟨l', u, rfl, hl'⟩ := leads_of_mem_parts [] t h
    exact ⟨u, hl'⟩
  · rintro ⟨u, h⟩
    exact h.mem_parts []

/-! ### What is refused -/

/-- The location leads to a key or an item, or is that of a file name in an item of the targets. -/
inductive Reported (t : Tree) : List Segment → Prop
  | named {l : List Segment} {m : Mark} {u : Tree} (h : Leads t l m u) : Reported t l
  | field {i : Nat} {m : Mark} {u : Tree} {field : String}
      (h : Leads t [.key (Text.ofString "targets"), .index i] m u) (hfield : field ∈ ["source", "output"]) :
      Reported t [.key (Text.ofString "targets"), .index i, .key (Text.ofString field)]

theorem location_of_fileName {field suffix : String} (h : fileName entries location field suffix = .error e) :
    e.location = location ++ [.key (Text.ofString field)] := by
  rw [fileName] at h
  split at h
  · cases h
    rfl
  · split_ifs at h
    cases h
    rfl
  · cases h
    rfl

theorem location_of_onlyKeys {names : List String} (h : onlyKeys names location entries = .error e) :
    ∃ k m u, (k, m, u) ∈ entries ∧ e.location = location ++ [.key k.text] := by
  rw [onlyKeys] at h
  split at h
  · cases h
  · next entry hfind =>
    obtain ⟨k, m, u⟩ := entry
    cases h
    exact ⟨k, m, u, List.mem_of_find?_eq_some hfind, rfl⟩

/-- An item is refused itself, or at one of the file names, or at a key of it. -/
theorem location_of_target (h : target location t = .error e) : e.location = location ∨
    (∃ field ∈ ["source", "output"], e.location = location ++ [.key (Text.ofString field)]) ∨
    ∃ s m u, Leads t [s] m u ∧ e.location = location ++ [s] := by
  cases t with
  | mapping entries =>
    rcases bind_eq_error.mp h with h | ⟨source, -, h⟩
    · exact .inr (.inl ⟨_, List.mem_cons_self, location_of_fileName h⟩)
    rcases bind_eq_error.mp h with h | ⟨output, -, h⟩
    · exact .inr (.inl ⟨_, List.mem_cons_of_mem _ List.mem_cons_self, location_of_fileName h⟩)
    rcases bind_eq_error.mp h with h | ⟨u, -, h⟩
    · obtain ⟨k, m, u, hmem, he⟩ := location_of_onlyKeys h
      exact .inr (.inr ⟨_, m, u, .key hmem, he⟩)
    · cases h
  | _ =>
    cases h
    exact .inl rfl

theorem target_of_targetsFrom (h : targetsFrom i items = .error e) :
    ∃ j m u, items[j]? = some (m, u) ∧ target [.key (Text.ofString "targets"), .index (i + j)] u = .error e := by
  induction items generalizing i with
  | nil => cases h
  | cons item items ih =>
    obtain ⟨m, u⟩ := item
    rcases bind_eq_error.mp h with h | ⟨first, -, h⟩
    · exact ⟨0, m, u, rfl, h⟩
    rcases bind_eq_error.mp h with h | ⟨rest, -, h⟩
    · obtain ⟨j, m', u', hj, h⟩ := ih h
      rw [show i + 1 + j = i + (j + 1) by omega] at h
      exact ⟨j + 1, m', u', hj, h⟩
    · cases h

theorem Holds.leads {name : String} (h : Holds entries name t) :
    ∃ m, Leads (.mapping entries) [.key (Text.ofString name)] m t := by
  obtain ⟨pre, k, m, post, rfl, hk, -⟩ := h
  exact ⟨m, hk ▸ .key (List.mem_append_right _ List.mem_cons_self)⟩

/-- What is wrong with a document is at a location of it. -/
theorem reported_of_targetsOf (h : targetsOf entries = .error e) : Reported (.mapping entries) e.location := by
  have hkeys (h : onlyKeys ["targets", "root"] [] entries = .error e) : Reported (.mapping entries) e.location := by
    obtain ⟨k, m, u, hmem, he⟩ := location_of_onlyKeys h
    exact he ▸ .named (.key hmem)
  have hrest {ts : List Target}
      (h : (onlyKeys ["targets", "root"] [] entries >>= fun _ => pure ts) = .error e) :
      Reported (.mapping entries) e.location := by
    rcases bind_eq_error.mp h with h | ⟨u, -, h⟩
    · exact hkeys h
    · cases h
  rw [targetsOf] at h
  split at h
  · exact hrest h
  · next items hitems =>
    rcases bind_eq_error.mp h with h | ⟨ts, -, h⟩
    · obtain ⟨m, htargets⟩ := (valueOf?_eq_some.mp hitems).leads
      obtain ⟨j, m', u, hj, h⟩ := target_of_targetsFrom h
      rw [Nat.zero_add] at h
      have hitem := Leads.step htargets (.item hj)
      rcases location_of_target h with he | ⟨field, hfield, he⟩ | ⟨s, m'', w, hs, he⟩
      · exact he ▸ .named hitem
      · exact he ▸ .field hitem hfield
      · exact he ▸ .named (.step htargets (.step (.item hj) hs))
    · exact hrest h
  · next v _ hvalue =>
    obtain ⟨m, htargets⟩ := (valueOf?_eq_some.mp hvalue).leads
    rcases bind_eq_error.mp h with h | ⟨ts, hts, h⟩
    · cases h
      exact .named htargets
    · cases hts

variable {file : String} {root : FilePath} {document path reason : Text} {place : Option Span}

/-- The place in a file where a mark is. -/
def spanAt (file : String) (m : Mark) : Span := { file, line := m.line + 1, column := m.column + 1 }

theorem ofTree_invalid (h : ofTree file root t = .error (.invalid path reason place)) :
    ∃ entries e, t = .mapping entries ∧ targetsOf entries = .error e ∧ path = pathOf e.location ∧ reason = e.reason ∧
      place = (nearest? (places [] t) (path.length + 1) path).map (spanAt file) := by
  cases t with
  | mapping entries =>
    rcases bind_eq_error.mp h with h | ⟨u, -, h⟩
    · rw [checkSize] at h
      split_ifs at h
      cases h
    · cases htargets : targetsOf entries with
      | ok ts =>
        rw [htargets] at h
        cases h
      | error e =>
        rw [htargets] at h
        cases h
        exact ⟨entries, e, rfl, htargets, rfl, rfl, rfl⟩
  | _ => cases h

/-- What is refused as invalid is a mapping, and its path and its reason are those of what is wrong with it. -/
theorem ofText_invalid (h : ofText file root document = .error (.refused (.invalid path reason place))) :
    ∃ entries e, Tree.ofText document = .ok (some (.mapping entries)) ∧ targetsOf entries = .error e ∧
      path = pathOf e.location ∧ reason = e.reason ∧
      place = (nearest? (places [] (.mapping entries)) (path.length + 1) path).map (spanAt file) := by
  rw [ofText] at h
  split_ifs at h
  · cases h
  · cases h
  split at h
  iterate 5 (next => cases h)
  next t hnull htree =>
  cases htried : ofTree file root t with
  | ok m =>
    rw [htried] at h
    cases h
  | error e =>
    rw [htried] at h
    cases h
    obtain ⟨entries, e, rfl, he⟩ := ofTree_invalid htried
    exact ⟨entries, e, htree, he⟩

end Manifest
end TypedErrors
