import Mathlib.Data.List.TakeWhile
import Mathlib.Tactic.SplitIfs
import TypedErrors.Code.Names
import TypedErrors.Proofs.Text

/-! # Names in running code

A name that is written in a class may be private to that class. Dotted references are taken apart at their
dots. -/

namespace TypedErrors
namespace Execution

/-- Two underscores in front, and not two at the end. -/
def isPrivate (n : String) : Bool :=
  ['_', '_'].isPrefixOf n.toList && !(['_', '_'].isSuffixOf n.toList)

/-- A name as the code around it sees it. -/
structure Key where
  owner : List Char := []
  name : String
deriving DecidableEq

namespace Key
variable {c d n m : String}

def plain (n : String) : Key := { name := n }

/-- The name of a class as private names carry it: underscores in front do not count. -/
def stem (cls : String) : List Char := cls.toList.dropWhile (· = '_')

/-- A private name that is written in a class is a name of that class. -/
def within (cls n : String) : Key := { owner := if isPrivate n then stem cls else [], name := n }

@[simp] theorem within_name : (within c n).name = n := rfl

@[simp] theorem plain_inj : plain n = plain m ↔ n = m := by simp [plain]

theorem within_inj (h : within c n = within d m) : n = m := congrArg Key.name h

theorem plain_ne_within (h : m ≠ n) : plain m ≠ within c n := fun e => h (congrArg Key.name e)

theorem within_eq_plain_iff : within c n = plain m ↔ n = m ∧ (isPrivate n = true → stem c = []) := by
  unfold within plain
  cases isPrivate n <;> simp [and_comm]

theorem within_eq_plain (h : isPrivate n = false) : within c n = plain n :=
  within_eq_plain_iff.mpr ⟨rfl, by simp [h]⟩

@[simp] theorem within_empty : within "" n = plain n := within_eq_plain_iff.mpr ⟨rfl, fun _ => rfl⟩

/-- The name that a key is written as in the tables of attributes. -/
def written (k : Key) : String :=
  if k.owner = [] then k.name else String.ofList ('_' :: k.owner) ++ k.name

theorem written_within (h : isPrivate n = false) : (within c n).written = n := by
  rw [within_eq_plain h]
  rfl

theorem head_stem {x : Char} {l : List Char} (h : stem c = x :: l) : x ≠ '_' := by
  have hhead := List.head?_dropWhile_not (· = '_') c.toList
  rw [show c.toList.dropWhile (· = '_') = x :: l from h] at hhead
  simpa using hhead

/-- Private names are not written as names that do not begin with one underscore. -/
theorem written_within_eq_iff (hm : isPrivate m = false)
    (hfront : m.toList.head? = some '_' → m.toList[1]? = some '_') : (within c n).written = m ↔ n = m := by
  by_cases howner : (within c n).owner = []
  · rw [written, if_pos howner, within_name]
  · rw [written, if_neg howner, within_name]
    constructor
    · rintro rfl
      obtain ⟨x, l, hl⟩ := List.exists_cons_of_ne_nil howner
      have hx : x ≠ '_' := by
        have hstem : stem c = x :: l := by
          rw [← hl, within]
          split_ifs with hn
          · rfl
          · exact absurd (by rw [within, if_neg hn]) howner
        exact head_stem hstem
      rw [hl] at hfront
      simp [hx] at hfront
    · rintro rfl
      rw [within_eq_plain hm] at howner
      exact absurd rfl howner

end Key

theorem isPrivate_append_of_ne {s : String} {a b : Char} {n : String} (h : s.toList.take 2 = [a, b])
    (hb : b ≠ '_') : isPrivate (s ++ n) = false := by
  rcases hs : s.toList with _ | ⟨x, _ | ⟨y, l⟩⟩ <;> simp_all [isPrivate, List.isPrefixOf]
  exact fun _ h => absurd h.symm hb

/-! ### Dotted references -/

open Code

/-- A text without dots. -/
def Undotted (s : String) : Prop := '.' ∉ s.toList

instance (s : String) : Decidable (Undotted s) := inferInstanceAs (Decidable (_ ∉ _))

theorem undotted_append {a b : String} : Undotted (a ++ b) ↔ Undotted a ∧ Undotted b := by
  simp [Undotted]

theorem dottedParts_eq_singleton {a : String} (ha : Undotted a) : dottedParts a = [a] := by
  rw [dottedParts, List.splitOn_eq_singleton ha]
  simp

theorem dottedParts_cons {a b : String} (ha : Undotted a) :
    dottedParts (a ++ "." ++ b) = a :: dottedParts b := by
  have h : (a ++ "." ++ b).toList = a.toList ++ '.' :: b.toList := by simp
  rw [dottedParts, h, List.splitOn_append_cons_self_of_not_mem ha]
  simp [dottedParts]

theorem dottedParts_append_dot (a b : String) : dottedParts (a ++ "." ++ b) = dottedParts a ++ dottedParts b := by
  have hlist : (a ++ "." ++ b).toList = a.toList ++ '.' :: b.toList := by simp
  rw [dottedParts, hlist, List.splitOn_append_cons_self, List.map_append]
  rfl

theorem dottedParts_eq_singleton_iff {a b : String} : dottedParts a = [b] ↔ Undotted a ∧ a = b := by
  by_cases ha : Undotted a
  · rw [dottedParts_eq_singleton ha]
    simp [ha]
  · refine ⟨fun h => ?_, fun h => absurd h.1 ha⟩
    obtain ⟨front, back, hlist, -⟩ := List.eq_append_cons_of_mem (not_not.mp ha)
    rw [dottedParts, hlist, List.splitOn_append_cons_self, List.map_append] at h
    have hlength := congrArg List.length h
    have hfront := List.length_pos_iff.mpr (List.splitOn_ne_nil '.' front)
    have hback := List.length_pos_iff.mpr (List.splitOn_ne_nil '.' back)
    simp only [List.length_append, List.length_map, List.length_singleton] at hlength
    omega

/-- Parts without dots are taken apart again. -/
theorem dottedParts_intercalate {parts : List String} (hne : parts ≠ []) (h : ∀ a ∈ parts, Undotted a) :
    dottedParts (".".intercalate parts) = parts := by
  have hdots : ∀ l ∈ parts.map String.toList, '.' ∉ l := List.forall_mem_map.mpr h
  have hlists : parts.map String.toList ≠ [] := fun hnil => hne (List.map_eq_nil_iff.mp hnil)
  have hdot : ".".toList = ['.'] := rfl
  rw [dottedParts, String.toList_intercalate, hdot, List.splitOn_intercalate '.' hdots hlists, List.map_map]
  simp [Function.comp_def]

theorem dotted_pair {s a b : String} (hs : s = a ++ "." ++ b) (ha : Undotted a) (hb : Undotted b) :
    Expr.dotted s = .attribute (.name a) b := by
  rw [Expr.dotted, hs, dottedParts_cons ha, dottedParts_eq_singleton hb]
  rfl

theorem dotted_triple {s a b c : String} (hs : s = a ++ "." ++ b ++ "." ++ c) (ha : Undotted a)
    (hb : Undotted b) (hc : Undotted c) : Expr.dotted s = .attribute (.attribute (.name a) b) c := by
  have h : a ++ "." ++ b ++ "." ++ c = a ++ "." ++ (b ++ "." ++ c) := by simp [String.append_assoc]
  rw [Expr.dotted, hs, h, dottedParts_cons ha, dottedParts_cons hb, dottedParts_eq_singleton hc]
  rfl

/-- The part before the first dot. -/
def rootName (path : String) : String := String.ofList (path.toList.takeWhile (· ≠ '.'))

theorem takeWhile_append_dot {front : List Char} (h : '.' ∉ front) (back : List Char) :
    (front ++ '.' :: back).takeWhile (· ≠ '.') = front := by
  rw [List.takeWhile_append_of_pos, List.takeWhile_cons_of_neg (by decide), List.append_nil]
  intro c hc
  have hne : c ≠ '.' := fun heq => h (heq ▸ hc)
  simpa using hne

theorem rootName_of_undotted {a : String} (ha : Undotted a) : rootName a = a := by
  have hall : a.toList.takeWhile (· ≠ '.') = a.toList := by
    refine List.takeWhile_eq_self_iff.mpr fun c hc => ?_
    have hne : c ≠ '.' := fun heq => ha (heq ▸ hc)
    simpa using hne
  rw [rootName, hall, String.ofList_toList]

theorem rootName_append_dot (a b : String) : rootName (a ++ "." ++ b) = rootName a := by
  have hlist : (a ++ "." ++ b).toList = a.toList ++ '.' :: b.toList := by simp
  by_cases hdot : '.' ∈ a.toList
  · obtain ⟨front, back, ha, hfront⟩ := List.eq_append_cons_of_mem hdot
    rw [rootName, rootName, hlist, ha, List.append_assoc, List.cons_append, takeWhile_append_dot hfront,
      takeWhile_append_dot hfront]
  · rw [rootName_of_undotted hdot, rootName, hlist, takeWhile_append_dot hdot, String.ofList_toList]

theorem exists_dottedParts (path : String) : ∃ parts, dottedParts path = rootName path :: parts := by
  by_cases hdot : '.' ∈ path.toList
  · obtain ⟨front, back, hpath, hfront⟩ := List.eq_append_cons_of_mem hdot
    refine ⟨(back.splitOn '.').map String.ofList, ?_⟩
    rw [dottedParts, hpath, List.splitOn_append_cons_self_of_not_mem hfront, rootName, hpath,
      takeWhile_append_dot hfront]
    rfl
  · exact ⟨[], by rw [dottedParts_eq_singleton hdot, rootName_of_undotted hdot]⟩

theorem names_foldl_attribute (e : Expr) (parts : List String) : (parts.foldl .attribute e).names = e.names := by
  induction parts generalizing e with
  | nil => rfl
  | cons p parts ih => exact ih (.attribute e p)

/-- A dotted reference looks up the part before its first dot, and nothing else. -/
@[simp] theorem names_dotted (path : String) : (Expr.dotted path).names = [rootName path] := by
  obtain ⟨parts, hparts⟩ := exists_dottedParts path
  rw [Expr.dotted, hparts]
  exact names_foldl_attribute (.name (rootName path)) parts

theorem append_dot_literal {a s b : String} (h : s = "." ++ b) : a ++ s = a ++ "." ++ b := by
  rw [h, String.append_assoc]

end Execution
end TypedErrors
