import Mathlib.Data.List.Induction
import TypedErrors.Proofs.Source.Fetched
import TypedErrors.Proofs.Source.Items
import TypedErrors.Source.Scope

/-! # What a visibility reaches

A restriction names a scope from where it stands (`Visibility.target?`). From an inner scope a visibility that is loaded
reaches the same, but for paths with a relative head, which gain one step up at any depth (`target?_within`). -/

namespace TypedErrors

/-! ### Scopes -/

/-- A scope: the names on the way to it from the root. -/
abbrev ScopePath := List String

namespace ScopePath

variable {s t : ScopePath} {name : String} {names : List String}

/-- The scope a step away: the parent, which the root has not, or the scope of this name within. -/
def step? (s : ScopePath) (name : String) : Option ScopePath :=
  if name = "super" then if s = [] then none else some s.dropLast else some (s ++ [name])

def walk? (s : ScopePath) (names : List String) : Option ScopePath := names.foldlM step? s

/-- The scope that a path names. A relative head starts at the scope itself, any other at the root. -/
def resolve? (s : ScopePath) : List String → Option ScopePath
  | [] => none
  | head :: names =>
    if head = "self" then s.walk? names
    else if head = "super" then s.walk? (head :: names)
    else if head = "crate" then walk? [] names
    else walk? [] (head :: names)

theorem walk?_cons (s : ScopePath) (name : String) (names : List String) :
    s.walk? (name :: names) = (s.step? name).bind fun t => t.walk? names :=
  List.foldlM_cons

theorem step?_super_append (s : ScopePath) {t : ScopePath} (ht : t ≠ []) :
    (s ++ t).step? "super" = some (s ++ t.dropLast) := by
  rw [step?, if_pos rfl, if_neg (List.append_ne_nil_of_right_ne_nil s ht), List.dropLast_append_of_ne_nil ht]

/-- As many steps up as there are scopes in between. -/
theorem walk?_supers (s t : ScopePath) (names : List String) :
    (s ++ t).walk? (List.replicate t.length "super" ++ names) = s.walk? names := by
  induction t using List.reverseRecOn with
  | nil => rw [List.append_nil, List.length_nil, List.replicate_zero, List.nil_append]
  | append_singleton t x ih =>
    have hne : t ++ [x] ≠ [] := List.append_ne_nil_of_right_ne_nil t (List.cons_ne_nil x [])
    rw [List.length_append, List.length_singleton, List.replicate_succ, List.cons_append, walk?_cons,
      step?_super_append s hne, List.dropLast_concat]
    exact ih

theorem length_of_step? (h : s.step? name = some t) :
    t.length + 2 * [name].count "super" = s.length + 1 := by
  rw [step?] at h
  split_ifs at h with hname hs
  · obtain rfl := Option.some.inj h
    have hpos := List.length_pos_iff.mpr hs
    rw [hname, List.count_singleton_self, List.length_dropLast]
    omega
  · obtain rfl := Option.some.inj h
    rw [List.count_eq_zero_of_not_mem (by simpa using Ne.symm hname), List.length_append, List.length_singleton]

/-- How deep a path leads depends on how deep it starts. -/
theorem length_of_walk? (h : s.walk? names = some t) :
    t.length + 2 * names.count "super" = s.length + names.length := by
  induction names generalizing s with
  | nil =>
    obtain rfl := Option.some.inj h
    rfl
  | cons name names ih =>
    rw [walk?_cons] at h
    obtain ⟨u, hu, h⟩ := Option.bind_eq_some_iff.mp h
    have hstep := length_of_step? hu
    have hrest := ih h
    rw [← List.singleton_append, List.count_append, List.length_append, List.length_singleton]
    omega

/-- From scopes of different depth a path does not lead to the same one. -/
theorem length_eq_of_walk? {s' : ScopePath} (h : s.walk? names = some t) (h' : s'.walk? names = some t) :
    s.length = s'.length := by
  have hlen := length_of_walk? h
  have hlen' := length_of_walk? h'
  omega

end ScopePath

/-! ### Visibilities -/

/-- All that there is, or what is within a scope. -/
inductive Reach where
  | everywhere
  | within (s : ScopePath)
deriving DecidableEq

namespace Visibility

variable {v w : Visibility} {r : Reach} {s t : ScopePath}

/-- What the visibility reaches when it stands in the scope, if it names a scope. -/
def target? (v : Visibility) (s : ScopePath) : Option Reach :=
  match v with
  | .pub => some .everywhere
  | .crate => some (.within [])
  | .inherited => some (.within s)
  | .restricted path _ => (s.resolve? path).map .within

/-- The visibility is a path after `in` that starts at the scope it stands in. -/
def isRelativePath : Visibility → Bool
  | .restricted (head :: _) true => head = "self" ∨ head = "super"
  | _ => false

/-- Where the visibility is looked at from, `t` being the scopes further in than `s`. -/
def origin (v : Visibility) (s t : ScopePath) : ScopePath := if v.isRelativePath then s ++ t.dropLast else s

/-- How a visibility can be written. -/
inductive Written : Visibility → Prop
  | pub : Written .pub
  | crate : Written .crate
  | inherited : Written .inherited
  | scope {name : String} (h : name = "self" ∨ name = "super") : Written (.restricted [name] false)
  | path {head : String} {names : List String} : Written (.restricted (head :: names) true)

theorem target?_self (byPath : Bool) (names : List String) :
    target? (.restricted ("self" :: names) byPath) s = (s.walk? names).map .within := by
  rw [target?, ScopePath.resolve?, if_pos rfl]

theorem target?_super (byPath : Bool) (names : List String) :
    target? (.restricted ("super" :: names) byPath) s = (s.walk? ("super" :: names)).map .within := by
  rw [target?, ScopePath.resolve?, if_neg (by decide), if_pos rfl]

/-- What a rooted path reaches is the same from anywhere. -/
theorem target?_rooted {head : String} (names : List String) (byPath : Bool) (hself : head ≠ "self")
    (hsuper : head ≠ "super") (s t : ScopePath) :
    target? (.restricted (head :: names) byPath) s = target? (.restricted (head :: names) byPath) t := by
  simp only [target?, ScopePath.resolve?, if_neg hself, if_neg hsuper]

/-- As many steps up as there are scopes in between, and then along the names. -/
theorem target?_supers_append (s : ScopePath) (ht : t ≠ []) (byPath : Bool) (names : List String) :
    target? (.restricted (List.replicate t.length "super" ++ names) byPath) (s ++ t) =
      (s.walk? names).map .within := by
  rw [← ScopePath.walk?_supers s t]
  obtain ⟨x, xs, rfl⟩ := List.exists_cons_of_ne_nil ht
  exact target?_super byPath _

theorem within_scope (name : String) (d : Int) : within (.restricted [name] false) d =
    if name = "self" then some (supers d) else if name = "super" then some (supers (d + 1))
    else some (.restricted [name] false) :=
  rfl

/-- A path is looked at from one scope further in, whatever the depth. -/
theorem within_path (head : String) (names : List String) (d : Int) : within (.restricted (head :: names) true) d =
    if head = "self" then some (.restricted ("super" :: names) true)
    else if head = "super" then some (.restricted ("super" :: head :: names) true)
    else some (.restricted (head :: names) true) := by
  cases names <;> rfl

theorem Written.within_target? (hv : v.Written) (s : ScopePath) (ht : t ≠ []) :
    ∃ w, v.within t.length = some w ∧ w.target? (s ++ t) = v.target? (v.origin s t) := by
  have hsupers := target?_supers_append s ht true []
  rw [List.append_nil] at hsupers
  have hstep (names : List String) : target? (.restricted ("super" :: names) true) (s ++ t) =
      ((s ++ t.dropLast).walk? names).map .within := by
    rw [target?_super, ScopePath.walk?_cons, ScopePath.step?_super_append s ht, Option.bind_some]
  cases hv with
  | pub => exact ⟨_, rfl, rfl⟩
  | crate => exact ⟨_, rfl, rfl⟩
  | inherited => exact ⟨_, rfl, hsupers⟩
  | scope h =>
    rcases h with rfl | rfl
    · exact ⟨_, (within_scope ..).trans (if_pos rfl), hsupers.trans (target?_self false []).symm⟩
    · refine ⟨supers (t.length + 1), within_scope "super" _, ?_⟩
      have hmore := target?_supers_append s ht true ["super"]
      rw [← List.replicate_succ'] at hmore
      exact hmore.trans (target?_super false []).symm
  | @path head names =>
    rw [within_path]
    split_ifs with hself hsuper
    · subst hself
      exact ⟨_, rfl, (hstep names).trans (target?_self true names).symm⟩
    · subst hsuper
      exact ⟨_, rfl, (hstep _).trans (target?_super true names).symm⟩
    · exact ⟨_, rfl, target?_rooted names true hself hsuper _ _⟩

/-- From another depth a relative path reaches something else. -/
theorem length_eq_of_target? (hrelative : v.isRelativePath = true) (h : v.target? s = some r)
    (h' : v.target? t = some r) : s.length = t.length := by
  have hwalk {names : List String} (h : (s.walk? names).map Reach.within = some r)
      (h' : (t.walk? names).map Reach.within = some r) : s.length = t.length := by
    obtain ⟨u, hu, rfl⟩ := Option.map_eq_some_iff.mp h
    obtain ⟨u', hu', heq⟩ := Option.map_eq_some_iff.mp h'
    obtain rfl := Reach.within.inj heq
    exact ScopePath.length_eq_of_walk? hu hu'
  match v, hrelative with
  | .restricted (head :: names) true, hrelative =>
    rcases of_decide_eq_true hrelative with rfl | rfl
    · exact hwalk (target?_self true names ▸ h) (target?_self true names ▸ h')
    · exact hwalk (target?_super true names ▸ h) (target?_super true names ▸ h')

theorem target?_origin_iff (ht : t ≠ []) (h : v.target? s = some r) :
    v.target? (v.origin s t) = some r ↔ t.length = 1 ∨ v.isRelativePath = false := by
  have hpos := List.length_pos_iff.mpr ht
  cases hrelative : v.isRelativePath with
  | false => simpa [origin, hrelative] using h
  | true =>
    rw [origin, if_pos hrelative, or_iff_left (by decide)]
    constructor
    · intro h'
      have hlen := length_eq_of_target? hrelative h h'
      rw [List.length_append, List.length_dropLast] at hlen
      omega
    · intro hlen
      obtain ⟨x, rfl⟩ := List.length_eq_one_iff.mp hlen
      rw [List.dropLast_singleton, List.append_nil]
      exact h

end Visibility

/-! ### Visibilities that are loaded -/

def Fields.visibilities (fs : Fields Field) : List Visibility := fs.values.map Field.visibility

def Shape.visibilities : Shape → List Visibility
  | .struct fs | .union fs => fs.visibilities
  | .enum vs => vs.flatMap fun v => v.fields.visibilities

/-- The visibilities of a declaration and of the fields in it. -/
def Declaration.visibilities (d : Declaration) : List Visibility := d.visibility :: d.shape.visibilities

variable {file : String}

/-- The restriction is read from one of its words. -/
theorem Lookahead.fetch_restriction {last : Option Token} {c : Cursor} {a : Lookahead}
    (h : fetch .restriction last c = .ok a) : ∃ t, a.token? = some t ∧
      (t.terminal = .inWord ∨ t.terminal = .crateWord ∨ t.text = "self" ∨ t.text = "super") := by
  obtain ⟨-, ⟨⟩, -⟩ | ⟨t, n, hread, rfl⟩ := fetch_eq_ok.mp h
  obtain ⟨hmem, s, hs, ⟨more, hrest⟩, rfl⟩ := Scan.word_of_terminal? (by decide) hread
  have htext : (Scan.take t s.length (Scan.skip Site.restriction.accepts c)).1.text = s := by
    rw [Scan.take, ← hrest, ← String.length_toList, List.take_left, String.ofList_toList]
  refine ⟨_, rfl, ?_⟩
  rw [htext]
  simp only [Site.restriction, List.mem_cons, List.not_mem_nil, or_false] at hmem
  obtain rfl | rfl | rfl | rfl := hmem
  · exact .inr (.inl rfl)
  · exact .inl rfl
  · exact .inr (.inr (.inl (Option.some.inj hs).symm))
  · exact .inr (.inr (.inr (Option.some.inj hs).symm))

namespace Parse

theorem written_of_restriction {n : Nat} {a b : Lookahead} {t : Token} {v : Visibility} (ht : a.token? = some t)
    (hword : t.terminal = .inWord ∨ t.terminal = .crateWord ∨ t.text = "self" ∨ t.text = "super")
    (h : restriction n a = .ok (v, b)) : v.Written := by
  obtain ⟨o, c, hpeek, h⟩ := bind_eq_ok.mp h
  obtain ⟨ho, rfl⟩ := Prod.mk.inj (Except.ok.inj hpeek)
  rw [ht, Option.map_some] at ho
  split at h
  · obtain ⟨_, _, _, h⟩ := bind_eq_ok.mp h
    obtain ⟨first, _, _, h⟩ := bind_eq_ok.mp h
    obtain ⟨names, _, _, h⟩ := bind_eq_ok.mp h
    obtain ⟨rfl, -⟩ := Prod.mk.inj (Except.ok.inj h)
    exact .path
  · obtain ⟨_, _, _, h⟩ := bind_eq_ok.mp h
    obtain ⟨rfl, -⟩ := Prod.mk.inj (Except.ok.inj h)
    exact .crate
  · next hin hcrate =>
    obtain ⟨u, _, hshift, h⟩ := bind_eq_ok.mp h
    obtain ⟨hu, -⟩ := shift_eq_ok.mp hshift
    obtain rfl := Option.some.inj (ht.symm.trans hu)
    obtain ⟨rfl, -⟩ := Prod.mk.inj (Except.ok.inj h)
    obtain hterminal | hterminal | htext := hword
    · exact absurd (ho.symm.trans (congrArg some hterminal)) hin
    · exact absurd (ho.symm.trans (congrArg some hterminal)) hcrate
    · exact .scope htext

theorem restriction_written (n : Nat) :
    Reads (do let _ ← shift .restriction; restriction n) fun _ v => v.Written := by
  intro a v b h
  obtain ⟨ts, hts, -⟩ := Reads.andThen .skip (fun _ => restriction_reads n) a v b h
  obtain ⟨_, c, hshift, h⟩ := bind_eq_ok.mp h
  obtain ⟨u, hu, hword⟩ := Lookahead.fetch_restriction (shift_eq_ok.mp hshift).2
  exact ⟨ts, hts, fun _ _ => written_of_restriction hu hword h⟩

theorem visibility_written (n : Nat) (next : Site) : Reads (visibility n next) fun _ v => v.Written := by
  have hend (v : Visibility) : Reads (do check next; return v) fun _ w => v.Written → w.Written :=
    .andThen .check fun _ => .pure fun _ => id
  refine .andThen .peek fun _ => ?_
  split
  · refine .andThen .skip fun _ => .andThen .peek fun _ => ?_
    split
    · rw [← bind_assoc]
      exact .bind (restriction_written n) fun v => .andThen .skip fun _ =>
        .bind (Q := fun _ w => v.Written → w.Written) (.pure fun _ => id) fun w =>
          (hend w).mono fun _ _ h hw hv => h (hw hv)
    · exact .bind (.pure fun _ => .pub) hend
  · exact .pure fun _ => .inherited

theorem namedField_written (n : Nat) : Reads (namedField file n) fun _ p => p.2.visibility.Written := by
  refine .andThen .here fun start => .andThen ((attrs_reads n).mono fun _ _ _ => trivial) fun p => ?_
  refine .andThen .check fun _ => ?_
  refine .bind (visibility_written n _) fun v => .andThen .skip fun _ => .andThen .skip fun _ => ?_
  exact .andThen ((typeExpr_reads n).mono fun _ _ _ => trivial) fun _ => .andThen .there fun _ => .pure fun _ => id

theorem unnamedField_written (n : Nat) : Reads (unnamedField file n) fun _ f => f.visibility.Written := by
  refine .andThen .here fun start => .andThen ((attrs_reads n).mono fun _ _ _ => trivial) fun p => ?_
  refine .andThen .check fun _ => ?_
  refine .bind (visibility_written n _) fun v => ?_
  exact .andThen ((typeExpr_reads n).mono fun _ _ _ => trivial) fun _ => .andThen .there fun _ => .pure fun _ => id

theorem namedFields_written (n : Nat) : Reads (namedFields file n) fun _ fs => ∀ v ∈ fs.visibilities, v.Written := by
  refine .andThen .skip fun _ => .bind (commaList_reads (namedField_written n) n) fun fs => ?_
  refine .andThen .skip fun _ => .pure fun _ hfs v hv => ?_
  obtain ⟨p, hp, rfl⟩ : ∃ p ∈ fs, p.2.visibility = v := by
    simpa [Fields.visibilities, Fields.values, Fields.entries] using hv
  exact hfs (List.forall_mem_nil _) p hp

theorem unnamedFields_written (n : Nat) :
    Reads (unnamedFields file n) fun _ fs => ∀ v ∈ fs.visibilities, v.Written := by
  refine .andThen .skip fun _ => .bind (commaList_reads (unnamedField_written n) n) fun fs => ?_
  refine .andThen .skip fun _ => .pure fun _ hfs => ?_
  rw [Fields.visibilities, Fields.values_ofList]
  exact List.forall_mem_map.mpr (hfs (List.forall_mem_nil _))

theorem variant_written (n : Nat) : Reads (variant file n) fun _ v => ∀ w ∈ v.fields.visibilities, w.Written := by
  refine .andThen ((attrs_reads n).mono fun _ _ _ => trivial) fun p => .andThen .check fun _ => ?_
  refine .andThen .skip fun t => ?_
  refine .andThen .peek fun _ => ?_
  split
  · exact .bind (namedFields_written n) fun _ => .pure fun _ => id
  · exact .bind (unnamedFields_written n) fun _ => .pure fun _ => id
  · exact .bind (Q := fun _ fs => ∀ w ∈ fs.visibilities, w.Written) (.pure fun _ => List.forall_mem_nil _) fun _ =>
      .pure fun _ => id

theorem shape_written (n : Nat) : Reads (shape file n) fun _ p => ∀ v ∈ p.2.visibilities, v.Written := by
  refine .andThen .peek fun _ => ?_
  split
  · refine .andThen .skip fun _ => .andThen .skip fun t => .andThen .peek fun _ => ?_
    split
    · exact .bind (namedFields_written n) fun _ => .andThen .check fun _ => .pure fun _ => id
    · exact .bind (unnamedFields_written n) fun _ => .andThen .check fun _ => .andThen .skip fun _ => .pure fun _ => id
    · exact .andThen .skip fun _ => .pure fun _ => List.forall_mem_nil _
  · refine .andThen .skip fun _ => .andThen .skip fun t => .andThen .skip fun _ => ?_
    refine .bind (commaList_reads (variant_written n) n) fun vs => .andThen .skip fun _ => .pure fun _ hvs v hv => ?_
    obtain ⟨w, hw, hv⟩ := List.mem_flatMap.mp hv
    exact hvs (List.forall_mem_nil _) w hw v hv
  · exact .andThen .skip fun _ => .andThen .skip fun t => .bind (namedFields_written n) fun _ =>
      .andThen .check fun _ => .pure fun _ => id

theorem declaration_written (n : Nat) : Reads (declaration file n) fun _ d => ∀ v ∈ d.visibilities, v.Written := by
  refine .andThen ((attrs_reads n).mono fun _ _ _ => trivial) fun p => .andThen .check fun _ => ?_
  refine .bind (visibility_written n _) fun v => .bind (shape_written n) fun q => .pure fun _ hq hv => ?_
  exact List.forall_mem_cons.mpr ⟨hv, hq⟩

end Parse

variable {limits : Limits} {source : String} {f : SourceFile} {d : Declaration} {v : Visibility}

theorem written_of_loadSource (h : loadSource limits file source = .ok f) (hd : d ∈ f.declarations) :
    ∀ v ∈ d.visibilities, v.Written := by
  obtain ⟨a, n, b, -, hread⟩ := (items_of_loadSource h).2 d hd
  obtain ⟨ts, -, hwritten⟩ := Parse.declaration_written n a d b hread
  exact hwritten (fun _ => True) fun _ _ => trivial

/-- From `t` further in, a visibility of `s` reaches what it would from `s`. But a relative path is taken for one of a
scope that is only one step out. -/
theorem target?_within (h : loadSource limits file source = .ok f) (hd : d ∈ f.declarations) (hv : v ∈ d.visibilities)
    (s t : ScopePath) (ht : t ≠ []) :
    ∃ w, v.within t.length = some w ∧ w.target? (s ++ t) = v.target? (v.origin s t) ∧
      ∀ r, v.target? s = some r → (w.target? (s ++ t) = some r ↔ t.length = 1 ∨ v.isRelativePath = false) := by
  obtain ⟨w, hwithin, htarget⟩ := (written_of_loadSource h hd v hv).within_target? s ht
  refine ⟨w, hwithin, htarget, fun r hr => ?_⟩
  rw [htarget]
  exact Visibility.target?_origin_iff ht hr

/-- The visibility is declared in the source. -/
def Declares (source : String) (v : Visibility) : Prop :=
  ∃ f d, loadSource {} "<string>" source = .ok f ∧ d ∈ f.declarations ∧ v ∈ d.visibilities

theorem declares_of_any {source : String} {v : Visibility}
    (h : ((loadSource {} "<string>" source).toOption.any fun f => f.declarations.any (v ∈ ·.visibilities)) = true) :
    Declares source v := by
  obtain ⟨f, hload, h⟩ := exists_of_any_toOption h
  obtain ⟨d, hd, hv⟩ := List.any_eq_true.mp h
  exact ⟨f, d, hload, hd, of_decide_eq_true hv⟩

/-- For the parent of the scope. -/
def parentOnly : Visibility := .restricted ["super"] false

/-- For the scope itself, which is written as a path. -/
def pathToSelf : Visibility := .restricted ["self"] true

theorem declares_parentOnly : Declares "pub(super) struct A;\n" parentOnly := declares_of_any (by decide +kernel)

theorem declares_pathToSelf : Declares "pub(in self) struct A;\n" pathToSelf := declares_of_any (by decide +kernel)

/-- From two scopes further in it is three steps to the parent. -/
theorem parentOnly_within : Declares "pub(super) struct A;\n" parentOnly ∧ ["b", "c"] ≠ [] ∧
    ∃ w, parentOnly.within 2 = some w ∧ w.target? ["a", "b", "c"] = parentOnly.target? ["a"] ∧
      ∀ r, parentOnly.target? ["a"] = some r →
        (w.target? ["a", "b", "c"] = some r ↔ ["b", "c"].length = 1 ∨ parentOnly.isRelativePath = false) := by
  obtain ⟨f, d, hload, hd, hv⟩ := declares_parentOnly
  exact ⟨declares_parentOnly, by decide, target?_within hload hd hv ["a"] ["b", "c"] (by decide)⟩

/-- From two scopes further in the path is one step up, which is too few. -/
theorem pathToSelf_within : Declares "pub(in self) struct A;\n" pathToSelf ∧
    pathToSelf.target? ["a"] = some (.within ["a"]) ∧
      ¬ ∃ w, pathToSelf.within 2 = some w ∧ w.target? ["a", "b", "c"] = some (.within ["a"]) := by
  refine ⟨declares_pathToSelf, by decide, ?_⟩
  rintro ⟨w, hw, htarget⟩
  obtain rfl := Option.some.inj hw
  exact absurd htarget (by decide)

end TypedErrors
