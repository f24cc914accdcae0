import TypedErrors.Manifest
import TypedErrors.Proofs.Except

/-! # The form of a manifest

A document is a manifest if it is empty or null, or a mapping with a list of targets, each of them a mapping of two file
names (`Manifest.Form`). `targetsOf_eq_ok` says that the check of a mapping accepts just this form, besides a key `root`
that has no effect. -/

namespace TypedErrors

open Yaml

/-- A source and an output by their suffixes. -/
def Target.Suffixed (t : Target) : Prop :=
  Text.ofString ".fl" <:+ t.source ∧ Text.ofString ".py" <:+ t.output

namespace Manifest

variable {entries : List (Key × Mark × Tree)} {items : List (Mark × Tree)} {location : List Segment} {name : String}
  {names : List String} {tree : Tree} {t : Target} {ts : List Target}

/-! ### Keys -/

/-- The mapping has the key with the value; of several keys that read the same the last counts. -/
def Holds (entries : List (Key × Mark × Tree)) (name : String) (value : Tree) : Prop :=
  ∃ pre k m post, entries = pre ++ (k, m, value) :: post ∧ k.text = Text.ofString name ∧
    ∀ e ∈ post, e.1.text ≠ Text.ofString name

/-- No key of the mapping is another one. -/
def KeysAmong (names : List String) (entries : List (Key × Mark × Tree)) : Prop :=
  ∀ e ∈ entries, ∃ n ∈ names, e.1.text = Text.ofString n

theorem valueOf?_eq_some : valueOf? entries name = some tree ↔ Holds entries name tree := by
  rw [valueOf?, Option.map_eq_some_iff]
  constructor
  · rintro ⟨⟨k, m, v⟩, hfind, rfl⟩
    obtain ⟨hk, post, pre, hsplit, hpost⟩ := List.find?_eq_some_iff_append.mp hfind
    refine ⟨pre.reverse, k, m, post.reverse, ?_, beq_iff_eq.mp hk, fun e he => ?_⟩
    · have h := congrArg List.reverse hsplit
      simpa using h
    · have h := hpost e (List.mem_reverse.mp he)
      simpa using h
  · rintro ⟨pre, k, m, post, rfl, hk, hpost⟩
    refine ⟨(k, m, tree), List.find?_eq_some_iff_append.mpr ⟨beq_iff_eq.mpr hk, post.reverse, pre.reverse, ?_, ?_⟩, rfl⟩
    · simp
    · intro e he
      simpa using hpost e (List.mem_reverse.mp he)

end Manifest

open Manifest in
/-- The tree is a mapping of the two file names and of nothing else. -/
inductive Target.Form : Tree → Target → Prop
  | mk {entries : List (Key × Mark × Tree)} {t : Target} (hsource : Holds entries "source" (.scalar (.text t.source)))
      (houtput : Holds entries "output" (.scalar (.text t.output))) (hsuffixed : t.Suffixed)
      (hkeys : KeysAmong ["source", "output"] entries) : Form (.mapping entries) t

namespace Manifest

/-- The document is empty, null or a mapping with a list of targets at most, and keys among the others. -/
inductive Form (others : List String) : Option Tree → List Target → Prop
  | empty : Form others none []
  | null : Form others (some (.scalar .null)) []
  | bare {entries : List (Key × Mark × Tree)} (hkeys : KeysAmong others entries) :
      Form others (some (.mapping entries)) []
  | targets {entries : List (Key × Mark × Tree)} {items : List (Mark × Tree)} {ts : List Target}
      (hts : Holds entries "targets" (.sequence items))
      (hforms : List.Forall₂ (fun item t => Target.Form item.2 t) items ts)
      (hkeys : KeysAmong ("targets" :: others) entries) : Form others (some (.mapping entries)) ts

variable {file : String} {root : FilePath} {document : Text} {m : Manifest}

/-- All targets have the suffixes that are asked for. -/
theorem Form.suffixed {tree? : Option Tree} (h : Form names tree? ts) : ∀ t ∈ ts, t.Suffixed := by
  cases h with
  | targets _ hforms _ =>
    intro t ht
    obtain ⟨item, -, hform⟩ := exists_left_of_forall₂ hforms t ht
    obtain ⟨place, tree⟩ := item
    cases hform with
    | mk _ _ hsuffixed _ => exact hsuffixed
  | _ => exact List.forall_mem_nil _

end Manifest
end TypedErrors
