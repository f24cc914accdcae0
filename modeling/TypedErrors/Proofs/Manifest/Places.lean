import TypedErrors.Proofs.Manifest.Search

/-! # Reported places

What a document is refused for stands at a key or an item, or at the nearest one above it (`StandsAt`). The place that
is reported is found by a path, and two locations can have one path: then it is the place of the last part of the
document with that path (`Found`), and for an empty path there is none. Where all keys are plain, locations have
different paths (`pathOf_injective`). -/

namespace TypedErrors
namespace Manifest

open Yaml

variable {t u : Tree} {l l' : List Segment} {s s' : Segment} {m m' : Mark} {p q : List Segment × Mark}
  {base front front' last last' path reason name name' : Text} {i i' : Nat} {x x' : CodePoint}

/-! ### Paths of plain locations -/

/-- The name is not empty, and no sign of a path is in it. -/
def Plain (name : Text) : Prop := name ≠ [] ∧ ∀ x ∈ name, isSign x = false

/-- All keys on the way are plain. -/
def PlainKeys (l : List Segment) : Prop := ∀ name, .key name ∈ l → Plain name

theorem PlainKeys.of_append (h : PlainKeys (l ++ l')) : PlainKeys l ∧ PlainKeys l' :=
  ⟨fun name hname => h name (List.mem_append_left _ hname), fun name hname => h name (List.mem_append_right _ hname)⟩

/-- What stands between the brackets of an index, and the closing one. -/
def indexText (i : Nat) : Text := (Nat.toDigits 10 i).map .char ++ [.char ']']

theorem itemPath_eq (base : Text) (i : Nat) : itemPath base i = base ++ .char '[' :: indexText i := by
  have hindex : s!"[{i}]".toList = '[' :: (Nat.toDigits 10 i ++ [']']) := by
    have hdigits : i.repr.toList = Nat.toDigits 10 i := by
      rw [Nat.repr_eq_ofList_toDigits, String.toList_ofList]
    show ("[" ++ i.repr ++ "]").toList = _
    rw [String.toList_append, String.toList_append, hdigits, List.append_assoc]
    rfl
  rw [itemPath, Text.ofString, hindex, indexText]
  simp [Text.ofChars]

theorem isSign_indexText : ∀ x ∈ indexText i, isSign x = false := by
  intro x hx
  rcases List.mem_append.mp hx with hx | hx
  · obtain ⟨c, hc, rfl⟩ := List.mem_map.mp hx
    have hdigit := Nat.isDigit_of_mem_toDigits (by decide) (by decide) hc
    by_contra hsign
    rcases eq_of_isSign (eq_true_of_ne_false hsign) with h | h <;> cases h <;> cases hdigit
  · rw [List.mem_singleton.mp hx]
    rfl

theorem indexText_injective (h : indexText i = indexText i') : i = i' := by
  have hchars := List.append_cancel_right h
  have hdigits : Nat.toDigits 10 i = Nat.toDigits 10 i' :=
    List.map_injective_iff.mpr (fun _ _ h => CodePoint.char.inj h) hchars
  rw [← Nat.ofDigitChars_ten_toDigits (n := i), ← Nat.ofDigitChars_ten_toDigits (n := i'), hdigits]

/-- A path is parted at its last sign in one way. -/
theorem parted_unique (hx : isSign x = true) (hx' : isSign x' = true) (hlast : ∀ y ∈ last, isSign y = false)
    (hlast' : ∀ y ∈ last', isSign y = false) (h : front ++ x :: last = front' ++ x' :: last') :
    front = front' ∧ x = x' ∧ last = last' := by
  have hnot {y z : CodePoint} {a b c : Text} (hy : isSign y = true) (hc : ∀ v ∈ c, isSign v = false) :
      z :: c ≠ (z :: a) ++ y :: b := fun heq => by
    have hmem : y ∈ c := (List.cons.inj heq).2 ▸ List.mem_append_right _ List.mem_cons_self
    cases hy.symm.trans (hc y hmem)
  rcases List.append_eq_append_iff.mp h with ⟨_ | ⟨z, a⟩, hfront, hrest⟩ | ⟨_ | ⟨z, a⟩, hfront, hrest⟩
  · obtain ⟨hsign, hsegment⟩ := List.cons.inj hrest
    exact ⟨by rw [hfront, List.append_nil], hsign, hsegment⟩
  · obtain rfl := (List.cons.inj hrest).1
    exact absurd hrest (hnot hx' hlast)
  · obtain ⟨hsign, hsegment⟩ := List.cons.inj hrest
    exact ⟨by rw [hfront, List.append_nil], hsign.symm, hsegment.symm⟩
  · obtain rfl := (List.cons.inj hrest).1
    exact absurd hrest (hnot hx hlast')

/-- The path of a plain location that is not empty is not empty. -/
theorem pathOf_ne_nil (hplain : PlainKeys l) (hl : l ≠ []) : pathOf l ≠ [] := by
  obtain ⟨front, s, rfl⟩ := (List.eq_nil_or_concat' l).resolve_left hl
  cases s with
  | key name =>
    rw [pathOf_append_key, keyPath]
    split_ifs
    · exact (hplain name (List.mem_append_right _ (List.mem_singleton_self _))).1
    · exact List.append_ne_nil_of_right_ne_nil _ (List.cons_ne_nil _ _)
  | index i =>
    rw [pathOf_append_index, itemPath_eq]
    exact List.append_ne_nil_of_right_ne_nil _ (List.cons_ne_nil _ _)

/-- The path of a plain location is a name, or the path of what is above it, a sign and a segment. -/
theorem pathOf_concat (hplain : PlainKeys (l ++ [s])) :
    (∃ name, l = [] ∧ s = .key name ∧ pathOf (l ++ [s]) = name ∧ ∀ x ∈ name, isSign x = false) ∨
    ∃ x last, isSign x = true ∧ (∀ y ∈ last, isSign y = false) ∧ pathOf (l ++ [s]) = pathOf l ++ x :: last ∧
      (if x = .char '.' then s = .key last else ∃ i, s = .index i ∧ last = indexText i) := by
  cases s with
  | key name =>
    have hname := hplain name (List.mem_append_right _ (List.mem_singleton_self _))
    rw [pathOf_append_key, keyPath]
    by_cases hl : l = []
    · subst hl
      exact .inl ⟨name, rfl, rfl, rfl, hname.2⟩
    · have hpath := pathOf_ne_nil hplain.of_append.1 hl
      refine .inr ⟨.char '.', name, rfl, hname.2, ?_, rfl⟩
      rw [if_neg (by simpa using hpath)]
  | index i =>
    rw [pathOf_append_index, itemPath_eq]
    exact .inr ⟨.char '[', indexText i, rfl, isSign_indexText, rfl, i, rfl, rfl⟩

/-- Plain locations differ in their paths. -/
theorem pathOf_injective (hl : PlainKeys l) (hl' : PlainKeys l') (h : pathOf l = pathOf l') : l = l' := by
  induction l using List.reverseRecOn generalizing l' with
  | nil =>
    by_contra hne
    exact pathOf_ne_nil hl' (Ne.symm hne) h.symm
  | append_singleton l s ih =>
    rcases List.eq_nil_or_concat' l' with rfl | ⟨l', s', rfl⟩
    · exact absurd h (pathOf_ne_nil hl (List.append_ne_nil_of_right_ne_nil _ (List.cons_ne_nil _ _)))
    -- a name without signs is not parted
    have hcontra {name front last : Text} {x : CodePoint} (hname : ∀ y ∈ name, isSign y = false)
        (hx : isSign x = true) : name ≠ front ++ x :: last := by
      rintro rfl
      cases hx.symm.trans (hname x (List.mem_append_right _ List.mem_cons_self))
    rcases pathOf_concat hl with ⟨name, rfl, rfl, hpath, hname⟩ | ⟨x, last, hx, hlast, hpath, hs⟩ <;>
    rcases pathOf_concat hl' with ⟨name', rfl, rfl, hpath', hname'⟩ | ⟨x', last', hx', hlast', hpath', hs'⟩ <;>
    rw [hpath, hpath'] at h
    · rw [h]
    · exact absurd h (hcontra hname hx')
    · exact absurd h.symm (hcontra hname' hx)
    · obtain ⟨hfront, rfl, rfl⟩ := parted_unique hx hx' hlast hlast' h
      rw [ih hl.of_append.1 hl'.of_append.1 hfront]
      congr 2
      split_ifs at hs hs'
      · rw [hs, hs']
      · obtain ⟨i, rfl, hi⟩ := hs
        obtain ⟨i', rfl, hi'⟩ := hs'
        rw [indexText_injective (hi.symm.trans hi')]

/-! ### Where a location stands -/

/-- What the location names starts at the mark, or it names nothing and the nearest part above it does. -/
inductive StandsAt (t : Tree) : List Segment → Mark → Prop
  | named {l : List Segment} {m : Mark} {u : Tree} (h : Leads t l m u) : StandsAt t l m
  | above {l : List Segment} {s : Segment} {m : Mark} (hnone : ∀ m' u, ¬ Leads t (l ++ [s]) m' u)
      (h : StandsAt t l m) : StandsAt t (l ++ [s]) m

/-- The last part of the tree that has the path of the location. -/
def LastAt (t : Tree) (l : List Segment) (p : List Segment × Mark) : Prop :=
  ∃ pre post, parts [] t = pre ++ p :: post ∧ pathOf p.1 = pathOf l ∧ ∀ q ∈ post, pathOf q.1 ≠ pathOf l

/-- The last part that has the path of the location, or where there is none, of the nearest location above it. -/
inductive Found (t : Tree) : List Segment → List Segment × Mark → Prop
  | last {l : List Segment} {p : List Segment × Mark} (h : LastAt t l p) : Found t l p
  | above {l : List Segment} {s : Segment} {p : List Segment × Mark}
      (hnone : ∀ q ∈ parts [] t, pathOf q.1 ≠ pathOf (l ++ [s])) (h : Found t l p) : Found t (l ++ [s]) p

theorem placeOf?_eq_some : placeOf? (places [] t) (pathOf l) = some m ↔ ∃ l', LastAt t l (l', m) := by
  have hplaces : places [] t = (parts [] t).map byPath := places_eq [] t
  rw [placeOf?, hplaces, ← List.map_reverse, List.lookup_eq_some_iff]
  constructor
  · rintro ⟨pre, post, hsplit, hpre⟩
    obtain ⟨pre, rest, hreverse, rfl, hrest⟩ := List.map_eq_append_iff.mp hsplit
    obtain ⟨⟨l', m'⟩, post, rfl, hbyPath, rfl⟩ := List.map_eq_cons_iff.mp hrest
    obtain ⟨hpath, rfl⟩ := Prod.mk.inj hbyPath
    refine ⟨l', post.reverse, pre.reverse, ?_, hpath, fun q hq => ?_⟩
    · have h := congrArg List.reverse hreverse
      simpa using h
    · have h := hpre (byPath q) (List.mem_map_of_mem (List.mem_reverse.mp hq))
      exact (bne_iff_ne.mp h).symm
  · rintro ⟨l', pre, post, hparts, hpath, hpost⟩
    refine ⟨post.reverse.map byPath, pre.reverse.map byPath, ?_, ?_⟩
    · rw [hparts]
      simp [byPath, hpath]
    · intro _ hmem
      obtain ⟨q, hq, rfl⟩ := List.mem_map.mp hmem
      exact bne_iff_ne.mpr (hpost q (List.mem_reverse.mp hq)).symm

theorem placeOf?_eq_none : placeOf? (places [] t) (pathOf l) = none ↔ ∀ q ∈ parts [] t, pathOf q.1 ≠ pathOf l := by
  have hplaces : places [] t = (parts [] t).map byPath := places_eq [] t
  rw [placeOf?, hplaces, List.lookup_eq_none_iff]
  constructor
  · intro h q hq
    have hne := h (byPath q) (List.mem_reverse.mpr (List.mem_map_of_mem hq))
    exact (bne_iff_ne.mp hne).symm
  · intro h _ hmem
    obtain ⟨q, hq, rfl⟩ := List.mem_map.mp (List.mem_reverse.mp hmem)
    exact bne_iff_ne.mpr (h q hq).symm

theorem LastAt.unique (h : LastAt t l p) (h' : LastAt t l q) : p = q := by
  obtain ⟨pre, post, hparts, hpath, hpost⟩ := h
  obtain ⟨pre', post', hparts', hpath', hpost'⟩ := h'
  rcases List.append_eq_append_iff.mp (hparts.symm.trans hparts') with ⟨_ | ⟨z, a⟩, -, hrest⟩ | ⟨_ | ⟨z, a⟩, -, hrest⟩
  · exact (List.cons.inj hrest).1
  · exact absurd hpath' (hpost q ((List.cons.inj hrest).2 ▸ List.mem_append_right _ List.mem_cons_self))
  · exact (List.cons.inj hrest).1.symm
  · exact absurd hpath (hpost' p ((List.cons.inj hrest).2 ▸ List.mem_append_right _ List.mem_cons_self))

theorem Found.unique (h : Found t l p) (h' : Found t l q) : p = q := by
  have hnot {l : List Segment} {p : List Segment × Mark} (h : LastAt t l p)
      (hnone : ∀ q ∈ parts [] t, pathOf q.1 ≠ pathOf l) : False := by
    obtain ⟨pre, post, hparts, hpath, -⟩ := h
    exact hnone p (hparts ▸ List.mem_append_right _ List.mem_cons_self) hpath
  induction h with
  | last h =>
    cases h' with
    | last h' => exact h.unique h'
    | above hnone _ => exact (hnot h hnone).elim
  | @above l s p hnone _ ih =>
    generalize hl : l ++ [s] = l' at h' hnone
    cases h' with
    | last h' => exact (hnot h' hnone).elim
    | above _ h' =>
      obtain ⟨rfl, -⟩ := List.append_inj' hl rfl
      exact ih h'

/-- The place reported for a location that may be refused is that of the part found by its path. -/
theorem Reported.found (h : Reported t l) (hpath : pathOf l ≠ []) :
    ∃ p, Found t l p ∧ Search (places [] t) (pathOf l) (some p.2) := by
  have hnamed {l : List Segment} {m : Mark} {u : Tree} (h : Leads t l m u) (hpath : pathOf l ≠ []) :
      ∃ p, Found t l p ∧ Search (places [] t) (pathOf l) (some p.2) := by
    obtain ⟨m', hm'⟩ := exists_placeOf? (mem_places (h.mem_parts []))
    obtain ⟨l', hlast⟩ := placeOf?_eq_some.mp hm'
    exact ⟨(l', m'), .last hlast, .found hpath hm'⟩
  cases h with
  | named h => exact hnamed h hpath
  | @field i m u field h hfield =>
    obtain ⟨hitem, -, hparent⟩ := pathOf_field i hfield
    cases hplace : placeOf? (places [] t)
        (pathOf [.key (Text.ofString "targets"), .index i, .key (Text.ofString field)]) with
    | some m' =>
      obtain ⟨l', hlast⟩ := placeOf?_eq_some.mp hplace
      exact ⟨(l', m'), .last hlast, .found hpath hplace⟩
    | none =>
      obtain ⟨p, hp, hsearch⟩ := hnamed h hitem
      exact ⟨p, Found.above (l := [.key (Text.ofString "targets"), .index i]) (placeOf?_eq_none.mp hplace) hp,
        .up hpath hplace (hparent ▸ hsearch)⟩

theorem Leads.exists_part (h : Leads t l m u) : ∃ q ∈ parts [] t, pathOf q.1 = pathOf l :=
  ⟨(l, m), h.mem_parts [], rfl⟩

/-- Where all keys are plain, a part with the path of a plain location is what the location names. -/
theorem LastAt.standsAt (hplain : ∀ l m u, Leads t l m u → PlainKeys l) (hl : PlainKeys l) (hp : LastAt t l p) :
    StandsAt t l p.2 := by
  obtain ⟨pre, post, hparts, hpath, -⟩ := hp
  have hmem : (p.1, p.2) ∈ parts [] t := hparts ▸ List.mem_append_right _ List.mem_cons_self
  obtain ⟨u, hu⟩ := mem_parts_iff.mp hmem
  rw [← pathOf_injective (hplain _ _ _ hu) hl hpath]
  exact .named hu

theorem Leads.standsAt_of_found (hplain : ∀ l m u, Leads t l m u → PlainKeys l) (h : Leads t l m u)
    (hp : Found t l p) : StandsAt t l p.2 := by
  cases hp with
  | last hp => exact hp.standsAt hplain (hplain _ _ _ h)
  | above hnone _ =>
    obtain ⟨q, hq, hpath⟩ := h.exists_part
    exact absurd hpath (hnone q hq)

/-- Where all keys are plain, what is found for a location that may be refused stands there. -/
theorem Reported.standsAt_of_found (hplain : ∀ l m u, Leads t l m u → PlainKeys l) (h : Reported t l)
    (hp : Found t l p) : StandsAt t l p.2 := by
  cases h with
  | named h => exact h.standsAt_of_found hplain hp
  | @field i m u field h hfield =>
    have hfieldPlain : Plain (Text.ofString field) := by
      simp only [List.mem_cons, List.not_mem_nil, or_false] at hfield
      rcases hfield with rfl | rfl <;> exact ⟨by decide, by decide⟩
    have hl : PlainKeys ([.key (Text.ofString "targets"), .index i] ++ [.key (Text.ofString field)]) := by
      intro name hname
      rcases List.mem_append.mp hname with hname | hname
      · exact hplain _ _ _ h name hname
      · obtain rfl := Segment.key.inj (List.mem_singleton.mp hname)
        exact hfieldPlain
    generalize hlocation : [Segment.key (Text.ofString "targets"), .index i, .key (Text.ofString field)] = location at hp
    cases hp with
    | last hp => exact hp.standsAt hplain (hlocation ▸ hl)
    | @above l s p hnone hp =>
      have hsplit : [Segment.key (Text.ofString "targets"), .index i] ++ [.key (Text.ofString field)] = l ++ [s] :=
        hlocation
      obtain ⟨rfl, -⟩ := List.append_inj' hsplit rfl
      refine .above (fun m' v hv => ?_) (h.standsAt_of_found hplain hp)
      obtain ⟨q, hq, hpath⟩ := hv.exists_part
      exact hnone q hq hpath

/-- The place reported for a location. It is none where the path is empty, and else that of what is found by the path.
That is where the location stands just if what is found starts there, as it does where all keys are plain. -/
structure Placed (file : String) (t : Tree) (l : List Segment) (place : Option Span) : Prop where
  found : pathOf l = [] ∧ place = none ∨ pathOf l ≠ [] ∧ ∃ p, Found t l p ∧ place = some (spanAt file p.2)
  standsAt_iff : (∃ m, StandsAt t l m ∧ place = some (spanAt file m)) ↔
    pathOf l ≠ [] ∧ ∃ p m, Found t l p ∧ StandsAt t l m ∧ spanAt file p.2 = spanAt file m
  standsAt_of_plain : (∀ l m u, Leads t l m u → PlainKeys l) → ∃ m, StandsAt t l m ∧ place = some (spanAt file m)

theorem Reported.placed (file : String) (h : Reported t l) :
    Placed file t l ((nearest? (places [] t) ((pathOf l).length + 1) (pathOf l)).map (spanAt file)) := by
  by_cases hpath : pathOf l = []
  · have hempty : Search (places [] t) (pathOf l) none := by
      rw [hpath]
      exact .empty
    rw [hempty.nearest? (Nat.lt_succ_self _)]
    refine ⟨.inl ⟨hpath, rfl⟩, ?_, fun hplain => ?_⟩
    · exact ⟨fun ⟨m, _, hm⟩ => (Option.some_ne_none _ hm.symm).elim, fun h => absurd hpath h.1⟩
    · cases h with
      | named h => exact absurd hpath (pathOf_ne_nil (hplain _ _ _ h) h.ne_nil)
      | @field i _ _ _ _ hfield => exact absurd hpath (pathOf_field i hfield).2.1
  · obtain ⟨p, hp, hsearch⟩ := h.found hpath
    rw [hsearch.nearest? (Nat.lt_succ_self _)]
    refine ⟨.inr ⟨hpath, p, hp, rfl⟩, ?_, fun hplain => ⟨p.2, h.standsAt_of_found hplain hp, rfl⟩⟩
    constructor
    · rintro ⟨m, hm, hplace⟩
      exact ⟨hpath, p, m, hp, hm, Option.some.inj hplace⟩
    · rintro ⟨-, q, m, hq, hm, hspan⟩
      obtain rfl := hp.unique hq
      exact ⟨m, hm, congrArg some hspan⟩

/-- A document that is refused as invalid is refused for a location of it, at the place that is found by its path. -/
theorem invalid_placed {file : String} {root : FilePath} {document : Text} {place : Option Span}
    (h : ofText file root document = .error (.refused (.invalid path reason place))) :
    ∃ entries location, Tree.ofText document = .ok (some (.mapping entries)) ∧
      targetsOf entries = .error ⟨location, reason⟩ ∧ path = pathOf location ∧
      Placed file (.mapping entries) location place := by
  obtain ⟨entries, e, htree, he, rfl, rfl, rfl⟩ := ofText_invalid h
  exact ⟨entries, e.location, htree, he, rfl, (reported_of_targetsOf he).placed file⟩

/-- A target with a wrong source. -/
def wrongSourceDocument : Text := Text.ofString "targets:\n- source: a\n"

theorem wrongSourceDocument_placed :
    ofText "f" {} wrongSourceDocument = .error (.refused (.invalid (Text.ofString "targets[0].source")
      (Text.ofString "Value error, source must be a .fl file, got 'a'") (some { file := "f", line := 2, column := 3 }))) ∧
    ∃ entries location, Tree.ofText wrongSourceDocument = .ok (some (.mapping entries)) ∧
      targetsOf entries = .error ⟨location, Text.ofString "Value error, source must be a .fl file, got 'a'"⟩ ∧
      Text.ofString "targets[0].source" = pathOf location ∧
      Placed "f" (.mapping entries) location (some { file := "f", line := 2, column := 3 }) := by
  have hrefused : ofText "f" {} wrongSourceDocument = .error (.refused (.invalid (Text.ofString "targets[0].source")
      (Text.ofString "Value error, source must be a .fl file, got 'a'")
      (some { file := "f", line := 2, column := 3 }))) := by cbv
  exact ⟨hrefused, invalid_placed hrefused⟩

/-- A target with a wrong source, and a key that reads like the path of that source. -/
def likePathDocument : Text := Text.ofString "targets:\n- source: a\n\"targets[0].source\": b\n"

def likePathEntries : List (Key × Mark × Tree) :=
  [(.scalar (.text (Text.ofString "targets")), {},
      .sequence [(⟨11, 1, 2⟩, .mapping [(.scalar (.text (Text.ofString "source")), ⟨11, 1, 2⟩,
        .scalar (.text (Text.ofString "a")))])]),
    (.scalar (.text (Text.ofString "targets[0].source")), ⟨21, 2, 0⟩, .scalar (.text (Text.ofString "b")))]

def sourceLocation : List Segment := [.key (Text.ofString "targets"), .index 0, .key (Text.ofString "source")]

/-- The wrong source stands on the second line, and the third is reported. -/
theorem likePathDocument_misplaced :
    Tree.ofText likePathDocument = .ok (some (.mapping likePathEntries)) ∧
      targetsOf likePathEntries =
        .error ⟨sourceLocation, Text.ofString "Value error, source must be a .fl file, got 'a'"⟩ ∧
      ofText "f" {} likePathDocument = .error (.refused (.invalid (Text.ofString "targets[0].source")
        (Text.ofString "Value error, source must be a .fl file, got 'a'")
        (some { file := "f", line := 3, column := 1 }))) ∧
      StandsAt (.mapping likePathEntries) sourceLocation ⟨11, 1, 2⟩ ∧
      ¬ ∃ m, StandsAt (.mapping likePathEntries) sourceLocation m ∧
        some { file := "f", line := 3, column := 1 } = some (spanAt "f" m) := by
  have hsource : Leads (.mapping likePathEntries) sourceLocation ⟨11, 1, 2⟩ (.scalar (.text (Text.ofString "a"))) :=
    .step (.key List.mem_cons_self) (.step (.item rfl) (.key List.mem_cons_self))
  refine ⟨by cbv, by cbv, by cbv, .named hsource, ?_⟩
  rintro ⟨m, hm, hplace⟩
  have hparts : ∀ p ∈ parts [] (.mapping likePathEntries), p.1 = sourceLocation →
      some { file := "f", line := 3, column := 1 } ≠ some (spanAt "f" p.2) := by decide
  generalize hlocation : sourceLocation = location at hm
  cases hm with
  | named h => exact hparts _ (h.mem_parts []) hlocation.symm hplace
  | above hnone _ => exact hnone _ _ (hlocation ▸ hsource)

end Manifest
end TypedErrors
