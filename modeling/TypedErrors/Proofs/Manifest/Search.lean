import Mathlib
import TypedErrors.Proofs.Manifest.Location

/-! # The search for a place

Where a path has no place, its last segment is taken off and the search goes on, which on some paths it does for ever
(`Search.not_of_stuck`). For the locations of a document it ends (`Reported.search`), and so it does whenever a document
is refused. -/

namespace TypedErrors
namespace Manifest

open Yaml

variable {front last path base name rest : Text} {table : List (Text × Mark)} {x : CodePoint} {r r' : Option Mark}
  {m : Mark} {t : Tree} {l : List Segment}

/-! ### Paths -/

theorem eq_of_isSign (hx : isSign x = true) : x = .char '.' ∨ x = .char '[' := by
  simpa [isSign] using hx

/-- A path has no sign, or it is parted at its last one. -/
theorem unsigned_or_parted (path : Text) : (∀ p ∈ path, isSign p = false) ∨
    ∃ front x last, path = front ++ x :: last ∧ isSign x = true ∧ ∀ p ∈ last, isSign p = false := by
  cases hfind : path.reverse.find? isSign with
  | none =>
    refine .inl fun p hp => ?_
    have h := List.find?_eq_none.mp hfind p (List.mem_reverse.mpr hp)
    rwa [Bool.not_eq_true] at h
  | some x =>
    obtain ⟨hx, last, front, hsplit, hlast⟩ := List.find?_eq_some_iff_append.mp hfind
    refine .inr ⟨front.reverse, x, last.reverse, ?_, hx, fun p hp => ?_⟩
    · have h := congrArg List.reverse hsplit
      simpa using h
    · have h := hlast p (List.mem_reverse.mp hp)
      simpa using h

theorem parentPath_unsigned (h : ∀ p ∈ path, isSign p = false) : parentPath path = path := by
  have hsegment : (path.reverse.takeWhile fun p => !isSign p).reverse = path := by
    rw [List.takeWhile_eq_self_iff.mpr fun p hp => by rw [h p (List.mem_reverse.mp hp)]; rfl, List.reverse_reverse]
  rw [parentPath, hsegment]
  split
  · next hdot => cases h _ (List.mem_of_getElem? hdot)
  · next hbracket => cases h _ (List.mem_of_getElem? hbracket)
  · rfl

/-- The last segment of a path is what stands behind its last sign. -/
theorem parentPath_parted (hx : isSign x = true) (hlast : ∀ p ∈ last, isSign p = false) :
    parentPath (front ++ x :: last) =
      if x = .char '.' then if last.isEmpty then front ++ x :: last else front
      else ((afterIndex? last).map (front ++ ·)).getD (front ++ x :: last) := by
  have hsegment : (((front ++ x :: last).reverse.takeWhile fun p => !isSign p).reverse) = last := by
    rw [List.reverse_append, List.reverse_cons, List.append_assoc, List.takeWhile_append_of_pos, List.singleton_append,
      List.takeWhile_cons_of_neg (by rw [hx]; exact Bool.false_ne_true), List.append_nil, List.reverse_reverse]
    intro p hp
    rw [hlast p (List.mem_reverse.mp hp)]
    rfl
  have hlength : (front ++ x :: last).length - last.length - 1 = front.length := by
    rw [List.length_append, List.length_cons]
    omega
  rw [parentPath]
  simp only [hsegment, hlength, List.getElem?_append_right (Nat.le_refl _), Nat.sub_self, List.getElem?_cons_zero,
    List.take_left]
  rcases eq_of_isSign hx with rfl | rfl <;> rfl

theorem parentPath_dot (hlast : ∀ p ∈ last, isSign p = false) :
    parentPath (front ++ .char '.' :: last) = if last.isEmpty then front ++ .char '.' :: last else front :=
  parentPath_parted rfl hlast

theorem parentPath_bracket (hlast : ∀ p ∈ last, isSign p = false) :
    parentPath (front ++ .char '[' :: last) = ((afterIndex? last).map (front ++ ·)).getD (front ++ .char '[' :: last) :=
  parentPath_parted rfl hlast

theorem length_of_afterIndex? (h : afterIndex? last = some rest) : rest.length ≤ last.length := by
  rw [afterIndex?] at h
  split at h
  next index rest' hpair =>
  dsimp only at h
  split_ifs at h with hindex
  cases h
  split at hpair
  · next hlast =>
    cases hpair
    exact List.length_pos_of_mem (List.mem_of_getLast? hlast)
  · cases hpair
    exact Nat.zero_le _

/-- A path stays as it is, or it gets shorter. -/
theorem parentPath_shorter (path : Text) : parentPath path = path ∨ (parentPath path).length < path.length := by
  rcases unsigned_or_parted path with h | ⟨front, x, last, rfl, hx, hlast⟩
  · exact .inl (parentPath_unsigned h)
  rcases eq_of_isSign hx with rfl | rfl
  · rw [parentPath_dot hlast]
    split_ifs with hempty
    · exact .inl rfl
    · refine .inr ?_
      simp
  · rw [parentPath_bracket hlast]
    cases hafter : afterIndex? last with
    | none => exact .inl rfl
    | some rest =>
      have hrest := length_of_afterIndex? hafter
      refine .inr ?_
      simp
      omega

/-- A name behind a path is taken off again. -/
theorem parentPath_keyPath (hbase : base ≠ []) (hname : name ≠ []) (hsigns : ∀ p ∈ name, isSign p = false) :
    parentPath (keyPath base name) = base := by
  rw [keyPath, if_neg (by simpa using hbase), parentPath_dot hsigns, if_neg (by simpa using hname)]

/-! ### The search -/

/-- The search for a path ends with a place, or with the empty path and none. -/
inductive Search (table : List (Text × Mark)) : Text → Option Mark → Prop
  | empty : Search table [] none
  | found {path : Text} {m : Mark} (hpath : path ≠ []) (h : placeOf? table path = some m) : Search table path (some m)
  | up {path : Text} {r : Option Mark} (hpath : path ≠ []) (h : placeOf? table path = none)
      (hr : Search table (parentPath path) r) : Search table path r

theorem Search.unique (h : Search table path r) (h' : Search table path r') : r = r' := by
  induction h with
  | empty =>
    cases h' with
    | empty => rfl
    | found hpath _ => exact absurd rfl hpath
    | up hpath _ _ => exact absurd rfl hpath
  | found hpath hm =>
    cases h' with
    | empty => exact absurd rfl hpath
    | found _ hm' => exact hm.symm.trans hm'
    | up _ hnone _ => cases hm.symm.trans hnone
  | up hpath hnone _ ih =>
    cases h' with
    | empty => exact absurd rfl hpath
    | found _ hm => cases hm.symm.trans hnone
    | up _ _ hr => exact ih hr

/-- On a path that has no place and stays as it is, the search has no end. -/
theorem Search.not_of_stuck (hpath : path ≠ []) (hplace : placeOf? table path = none) (hstuck : parentPath path = path) :
    ¬ Search table path r := by
  -- the search from the path would be a part of itself
  suffices hloop : ∀ {path'}, Search table path' r → path' ≠ path from fun h => hloop h rfl
  intro path' h
  induction h with
  | empty => exact hpath.symm
  | found _ hm =>
    rintro rfl
    cases hm.symm.trans hplace
  | up _ _ _ ih =>
    rintro rfl
    exact ih hstuck

/-- As many steps as the path has characters are enough for a search that ends. -/
theorem Search.nearest? {fuel : Nat} (h : Search table path r) (hfuel : path.length < fuel) :
    nearest? table fuel path = r := by
  induction h generalizing fuel with
  | empty =>
    cases fuel with
    | zero => rfl
    | succ fuel => rfl
  | @found path m hpath hm =>
    cases fuel with
    | zero => omega
    | succ fuel =>
      rw [Manifest.nearest?, if_neg (by simpa using hpath), hm]
  | @up path r hpath hnone hr ih =>
    cases fuel with
    | zero => omega
    | succ fuel =>
      rw [Manifest.nearest?, if_neg (by simpa using hpath), hnone]
      refine ih ?_
      rcases parentPath_shorter path with hstuck | hshorter
      · exact absurd (hstuck ▸ hr) (Search.not_of_stuck hpath hnone hstuck)
      · omega

/-! ### Recorded places -/

theorem exists_placeOf? (h : (path, m) ∈ table) : ∃ m', placeOf? table path = some m' := by
  rw [← Option.ne_none_iff_exists', placeOf?]
  intro hnone
  have hne := List.lookup_eq_none_iff.mp hnone (path, m) (List.mem_reverse.mpr h)
  exact absurd rfl (bne_iff_ne.mp hne)

theorem mem_places (h : (l, m) ∈ parts [] t) : (pathOf l, m) ∈ places [] t := by
  have hplaces : places [] t = (parts [] t).map byPath := places_eq [] t
  rw [hplaces]
  exact List.mem_map_of_mem (f := byPath) h

theorem exists_search (h : (path, m) ∈ table) : ∃ r, Search table path r := by
  by_cases hpath : path = []
  · exact ⟨none, hpath ▸ .empty⟩
  · obtain ⟨m', hm'⟩ := exists_placeOf? h
    exact ⟨some m', .found hpath hm'⟩

/-- Where a file name of a target belongs is below the target. -/
theorem pathOf_field {field : String} (i : Nat) (hfield : field ∈ ["source", "output"]) :
    pathOf [.key (Text.ofString "targets"), .index i] ≠ [] ∧
      pathOf [.key (Text.ofString "targets"), .index i, .key (Text.ofString field)] ≠ [] ∧
      parentPath (pathOf [.key (Text.ofString "targets"), .index i, .key (Text.ofString field)]) =
        pathOf [.key (Text.ofString "targets"), .index i] := by
  have hitem : pathOf [.key (Text.ofString "targets"), .index i] ≠ [] :=
    List.append_ne_nil_of_left_ne_nil (by decide : Text.ofString "targets" ≠ []) _
  have hname : Text.ofString field ≠ [] ∧ ∀ p ∈ Text.ofString field, isSign p = false := by
    simp only [List.mem_cons, List.not_mem_nil, or_false] at hfield
    rcases hfield with rfl | rfl <;> decide
  have hfield := pathOf_append_key [.key (Text.ofString "targets"), .index i] (Text.ofString field)
  rw [List.cons_append, List.singleton_append] at hfield
  rw [hfield, parentPath_keyPath hitem hname.1 hname.2, keyPath, if_neg (by simpa using hitem)]
  exact ⟨hitem, List.append_ne_nil_of_right_ne_nil _ (List.cons_ne_nil _ _), rfl⟩

/-- The search for a location that may be refused ends. -/
theorem Reported.search (h : Reported t l) : ∃ r, Search (places [] t) (pathOf l) r := by
  cases h with
  | named h => exact exists_search (mem_places (h.mem_parts []))
  | @field i m u field h hfield =>
    obtain ⟨-, hpath, hparent⟩ := pathOf_field i hfield
    cases hplace : placeOf? (places [] t)
        (pathOf [.key (Text.ofString "targets"), .index i, .key (Text.ofString field)]) with
    | some m' => exact ⟨some m', .found hpath hplace⟩
    | none =>
      obtain ⟨r, hr⟩ := exists_search (mem_places (h.mem_parts []))
      exact ⟨r, .up hpath hplace (hparent ▸ hr)⟩

/-- The search ends for all that may be refused in a tree, and for what a document is refused for it ends with the place
that is reported. -/
theorem search_ends (file : String) (root : FilePath) :
    (∀ t l, Reported t l → ∃ r, Search (places [] t) (pathOf l) r) ∧
      ∀ document path reason place, ofText file root document = .error (.refused (.invalid path reason place)) →
        ∃ entries location r, Tree.ofText document = .ok (some (.mapping entries)) ∧
          targetsOf entries = .error ⟨location, reason⟩ ∧ Reported (.mapping entries) location ∧
          path = pathOf location ∧ Search (places [] (.mapping entries)) path r ∧ place = r.map (spanAt file) := by
  refine ⟨fun t l h => h.search, fun document path reason place h => ?_⟩
  obtain ⟨entries, e, htree, he, rfl, rfl, rfl⟩ := ofText_invalid h
  have hreported := reported_of_targetsOf he
  obtain ⟨r, hr⟩ := hreported.search
  refine ⟨entries, e.location, r, htree, he, hreported, rfl, hr, ?_⟩
  rw [hr.nearest? (Nat.lt_succ_self _)]

/-- A target without an output. -/
def outputlessDocument : Text := Text.ofString "targets:\n- source: a.fl\n"

/-- The search for a missing output ends at the target. -/
theorem outputlessDocument_search :
    (∃ r, Search (places [] (.mapping [(.scalar (.text (Text.ofString "targets")), {},
      .sequence [({}, .mapping [])])])) (Text.ofString "targets[0].output") r) ∧
      ofText "f" {} outputlessDocument = .error (.refused (.invalid (Text.ofString "targets[0].output")
        (Text.ofString "Field required") (some { file := "f", line := 2, column := 3 }))) ∧
      ∃ entries location r, Tree.ofText outputlessDocument = .ok (some (.mapping entries)) ∧
        targetsOf entries = .error ⟨location, Text.ofString "Field required"⟩ ∧ Reported (.mapping entries) location ∧
        Text.ofString "targets[0].output" = pathOf location ∧
        Search (places [] (.mapping entries)) (Text.ofString "targets[0].output") r ∧
        some { file := "f", line := 2, column := 3 } = r.map (spanAt "f") := by
  have hrefused : ofText "f" {} outputlessDocument = .error (.refused (.invalid (Text.ofString "targets[0].output")
      (Text.ofString "Field required") (some { file := "f", line := 2, column := 3 }))) := by cbv
  refine ⟨?_, hrefused, (search_ends "f" {}).2 _ _ _ _ hrefused⟩
  have hitem : Leads (.sequence [({}, .mapping [])]) [.index 0] {} (.mapping []) := .item rfl
  exact (search_ends "f" {}).1 _ _ (.field (.step (.key List.mem_cons_self) hitem) (.tail _ (.head _)))

end Manifest
end TypedErrors
