import Mathlib.Data.List.Infix
import Mathlib.Data.List.Perm.Subperm
import Mathlib.Tactic.SplitIfs
import TypedErrors.Text.Similar

/-! # How suggestions are ranked

The ranking is a stable sort by distance, and the suggestions are its front. A candidate related to the name has distance
zero. Another one is measured by the code points of the name that it has; one that occurs several times in the name is
counted each time, so this distance can be negative as well (`excess`), and then it comes before the related ones. -/

namespace TypedErrors
namespace Similar

open List

/-- One of the two texts contains the other, letter case aside. -/
def Related (name : Text) (candidate : String) : Prop :=
  name.lower <:+: (Text.ofString candidate).lower ∨ (Text.ofString candidate).lower <:+: name.lower

/-- How many code points of the name the candidate has. -/
def shared (name : Text) (candidate : String) : Nat := name.lower.countP ((Text.ofString candidate).lower.contains ·)

/-- A candidate that is suggested without being related. -/
def MerelySimilar (name : Text) (candidate : String) : Prop :=
  ¬ Related name candidate ∧ max name.length (Text.ofString candidate).length ≤ shared name candidate * 2

/-- The distance of a candidate that is merely similar. -/
def excess (name : Text) (candidate : String) : Int :=
  (name.length : Int) + (Text.ofString candidate).length - 2 * shared name candidate

variable {name needle : Text} {candidate a b c r : String} {candidates : List String}

instance : Decidable (Related name candidate) := inferInstanceAs (Decidable (_ ∨ _))

instance : Decidable (MerelySimilar name candidate) := inferInstanceAs (Decidable (_ ∧ _))

/-! ### Distances -/

theorem occursIn_iff : ∀ {t : Text}, occursIn needle t = true ↔ needle <:+: t
  | [] => by rw [occursIn, List.isEmpty_iff, List.infix_nil]
  | c :: cs => by rw [occursIn, Bool.or_eq_true, List.isPrefixOf_iff_prefix, occursIn_iff, List.infix_cons_iff]

theorem distance?_of_related (h : Related name candidate) : distance? name (Text.ofString candidate) = some 0 := by
  rw [Related, ← occursIn_iff, ← occursIn_iff, ← Bool.or_eq_true] at h
  exact if_pos h

theorem distance?_of_not_related (h : ¬ Related name candidate) : distance? name (Text.ofString candidate) =
    if MerelySimilar name candidate then some (excess name candidate) else none := by
  have hsimilar : MerelySimilar name candidate ↔
      max name.length (Text.ofString candidate).length ≤ shared name candidate * 2 := and_iff_right h
  rw [Related, ← occursIn_iff, ← occursIn_iff, ← Bool.or_eq_true] at h
  rw [if_congr hsimilar rfl rfl]
  exact if_neg h

theorem distance?_of_merelySimilar (h : MerelySimilar name candidate) :
    distance? name (Text.ofString candidate) = some (excess name candidate) := by
  rw [distance?_of_not_related h.1, if_pos h]

theorem isSome_distance? (name : Text) (candidate : String) :
    (distance? name (Text.ofString candidate)).isSome = decide (Related name candidate ∨ MerelySimilar name candidate) := by
  by_cases hrelated : Related name candidate
  · rw [distance?_of_related hrelated, Option.isSome_some, decide_eq_true (.inl hrelated)]
  · rw [distance?_of_not_related hrelated]
    by_cases hsimilar : MerelySimilar name candidate <;> simp [hrelated, hsimilar]

/-! ### The ranking -/

/-- The distance of a candidate that is suggested. -/
def key (name : Text) (candidate : String) : Int := (distance? name (Text.ofString candidate)).getD 0

/-- The candidates that are suggested, in the order given. -/
def near (name : Text) (candidates : List String) : List String :=
  candidates.filter fun c => Related name c ∨ MerelySimilar name c

theorem scored_eq (name : Text) (candidates : List String) :
    scored name candidates = (near name candidates).map fun c => (key name c, c) := by
  induction candidates with
  | nil => rfl
  | cons c cs ih =>
    rw [scored] at ih
    rw [scored, List.filterMap_cons, near, List.filter_cons, ← isSome_distance?, ih]
    cases h : distance? name (Text.ofString c) with
    | none => rfl
    | some d =>
      have hkey : key name c = d := by rw [key, h, Option.getD_some]
      rw [← hkey]
      rfl

theorem ranked_eq (name : Text) (candidates : List String) :
    ranked name candidates = (near name candidates).mergeSort fun a b => key name a ≤ key name b := by
  rw [ranked, scored_eq, ← List.map_mergeSort (r := fun a b => decide (key name a ≤ key name b)), List.map_map]
  · exact List.map_id _
  · intro a _ b _
    rfl

theorem ranked_perm (name : Text) (candidates : List String) : ranked name candidates ~ near name candidates := by
  rw [ranked_eq]
  exact List.mergeSort_perm _ _

theorem key_trans (a b c : String) (hab : decide (key name a ≤ key name b) = true)
    (hbc : decide (key name b ≤ key name c) = true) : decide (key name a ≤ key name c) = true :=
  decide_eq_true (Int.le_trans (of_decide_eq_true hab) (of_decide_eq_true hbc))

theorem key_total (a b : String) : (decide (key name a ≤ key name b) || decide (key name b ≤ key name a)) = true := by
  rw [Bool.or_eq_true, decide_eq_true_iff, decide_eq_true_iff]
  exact Int.le_total _ _

/-- Nearer candidates come first. -/
theorem pairwise_ranked (name : Text) (candidates : List String) :
    (ranked name candidates).Pairwise fun a b => key name a ≤ key name b := by
  rw [ranked_eq]
  exact (List.pairwise_mergeSort key_trans key_total _).imp of_decide_eq_true

/-- Candidates at one distance stay in the order given. -/
theorem filter_ranked (name : Text) (candidates : List String) (d : Int) :
    (ranked name candidates).filter (key name · = d) = (near name candidates).filter (key name · = d) := by
  have hsorted : ((near name candidates).filter (key name · = d)).Pairwise
      fun a b => decide (key name a ≤ key name b) = true := by
    refine List.pairwise_of_forall_mem_list fun a ha b hb => ?_
    rw [of_decide_eq_true (List.mem_filter.mp ha).2, of_decide_eq_true (List.mem_filter.mp hb).2]
    exact decide_eq_true (Int.le_refl d)
  have hkept : (near name candidates).filter (key name · = d) <+ ranked name candidates := by
    rw [ranked_eq]
    exact List.sublist_mergeSort key_trans key_total hsorted List.filter_sublist
  have hfilter := hkept.filter (key name · = d)
  simp only [List.filter_filter, Bool.and_self] at hfilter
  exact (hfilter.eq_of_length ((ranked_perm name candidates).filter _).length_eq.symm).symm

theorem pair_sublist_or (ha : a ∈ candidates) (hb : b ∈ candidates) (hne : a ≠ b) :
    [a, b] <+ candidates ∨ [b, a] <+ candidates := by
  obtain ⟨front, back, rfl⟩ := List.append_of_mem ha
  rcases List.mem_append.mp hb with hfront | hback
  · exact .inr ((List.singleton_sublist.mpr hfront).append (List.singleton_sublist.mpr (List.mem_cons_self ..)))
  · have hback := (List.mem_cons.mp hback).resolve_left hne.symm
    exact .inl (((List.singleton_sublist.mpr hback).cons_cons a).trans (List.sublist_append_right front _))

theorem mem_ranked : c ∈ ranked name candidates ↔ c ∈ candidates ∧ (Related name c ∨ MerelySimilar name c) := by
  rw [(ranked_perm name candidates).mem_iff, near, List.mem_filter, decide_eq_true_iff]

theorem key_of_related (h : Related name r) : key name r = 0 := by
  rw [key, distance?_of_related h, Option.getD_some]

theorem key_of_merelySimilar (h : MerelySimilar name c) : key name c = excess name c := by
  rw [key, distance?_of_merelySimilar h, Option.getD_some]

/-- What puts a merely similar candidate before a related one: a negative distance, or the distance zero and the place
that it was given. -/
theorem before_related_iff (hr : r ∈ candidates) (hrelated : Related name r) (hc : c ∈ candidates)
    (hsimilar : MerelySimilar name c) :
    [c, r] <+ ranked name candidates ↔ excess name c < 0 ∨ excess name c = 0 ∧ [c, r] <+ candidates := by
  have hkeyr := key_of_related hrelated
  have hkeyc := key_of_merelySimilar hsimilar
  have hzero (hexcess : excess name c = 0) : [c, r].filter (key name · = 0) = [c, r] := by simp [hkeyr, hkeyc, hexcess]
  have hnear : [c, r].filter (fun c => Related name c ∨ MerelySimilar name c) = [c, r] := by simp [hrelated, hsimilar]
  constructor
  · intro h
    have hle : excess name c ≤ 0 := by
      simpa [hkeyr, hkeyc] using (pairwise_ranked name candidates).sublist h
    rcases Int.lt_or_eq_of_le hle with hlt | hexcess
    · exact .inl hlt
    · have hfilter := h.filter (key name · = 0)
      rw [hzero hexcess, filter_ranked] at hfilter
      exact .inr ⟨hexcess, hfilter.trans (List.filter_sublist.trans List.filter_sublist)⟩
  · rintro (hlt | ⟨hexcess, h⟩)
    · have hne : c ≠ r := fun h => hsimilar.1 (h ▸ hrelated)
      refine (pair_sublist_or (mem_ranked.mpr ⟨hc, .inr hsimilar⟩) (mem_ranked.mpr ⟨hr, .inl hrelated⟩) hne).resolve_right
        fun h => ?_
      have hle : 0 ≤ excess name c := by
        simpa [hkeyr, hkeyc] using (pairwise_ranked name candidates).sublist h
      omega
    · have hfilter := (h.filter fun c => Related name c ∨ MerelySimilar name c).filter (key name · = 0)
      rw [hnear, hzero hexcess] at hfilter
      rw [← near, ← filter_ranked] at hfilter
      exact hfilter.trans List.filter_sublist

end Similar

open TypedErrors.Similar List

theorem suggestSimilar_eq_take (name : Text) (candidates : List String) (most : Nat) :
    suggestSimilar name candidates most = (ranked name candidates).take most := by
  rw [suggestSimilar, takeSigned, if_pos (Int.natCast_nonneg most), Int.toNat_natCast]

/-- There are no more suggestions than asked for, and each is a candidate of its own. They are the front of a ranking of
all candidates that are related to the name or merely similar. A related one is behind a merely similar one, and left out
in favour of it, just when the distance of the latter is negative, or zero and it was given first. -/
theorem suggestSimilar_ranked (name : Text) (candidates : List String) (most : Nat) :
    (suggestSimilar name candidates most).length ≤ most ∧
      suggestSimilar name candidates most <+~ candidates ∧
      suggestSimilar name candidates most = (ranked name candidates).take most ∧
      ranked name candidates ~ candidates.filter (fun c => Related name c ∨ MerelySimilar name c) ∧
      (∀ r ∈ candidates, Related name r → ∀ c ∈ candidates, MerelySimilar name c →
        ([c, r] <+ ranked name candidates ↔ excess name c < 0 ∨ excess name c = 0 ∧ [c, r] <+ candidates)) ∧
      ∀ r ∈ candidates, Related name r → r ∉ suggestSimilar name candidates most →
        ∀ c ∈ suggestSimilar name candidates most, ¬ Related name c →
          excess name c < 0 ∨ excess name c = 0 ∧ [c, r] <+ candidates := by
  have htake := suggestSimilar_eq_take name candidates most
  refine ⟨?_, ?_, htake, ranked_perm name candidates,
    fun r hr hrelated c hc hsimilar => before_related_iff hr hrelated hc hsimilar, ?_⟩
  · rw [htake]
    exact List.length_take_le _ _
  · rw [htake]
    exact (List.take_sublist _ _).subperm.trans
      ((ranked_perm name candidates).subperm.trans List.filter_sublist.subperm)
  · intro r hr hrelated hout c hin hunrelated
    rw [htake] at hout hin
    obtain ⟨hc, hnear⟩ := mem_ranked.mp (List.mem_of_mem_take hin)
    have hranked : r ∈ ranked name candidates := mem_ranked.mpr ⟨hr, .inl hrelated⟩
    rw [← List.take_append_drop most (ranked name candidates)] at hranked
    have hdrop := (List.mem_append.mp hranked).resolve_left hout
    have hpair : [c, r] <+ ranked name candidates := by
      rw [← List.take_append_drop most (ranked name candidates)]
      exact (List.singleton_sublist.mpr hin).append (List.singleton_sublist.mpr hdrop)
    exact (before_related_iff hr hrelated hc (hnear.resolve_left hunrelated)).mp hpair

/-- Each of the four letters of the name is one of the two of `ba`, which therefore comes before the name itself. -/
theorem aabb_after_ba : Related "aabb" "aabb" ∧ MerelySimilar "aabb" "ba" ∧ excess "aabb" "ba" = -2 ∧
    ["ba", "aabb"] <+ ranked "aabb" ["aabb", "ba"] := by
  have hrelated : Related "aabb" "aabb" := by decide
  have hsimilar : MerelySimilar "aabb" "ba" := by decide
  have hexcess : excess "aabb" "ba" = -2 := by decide
  obtain ⟨-, -, -, -, hbefore, -⟩ := suggestSimilar_ranked "aabb" ["aabb", "ba"] 1
  refine ⟨hrelated, hsimilar, hexcess, (hbefore "aabb" (by simp) hrelated "ba" (by simp) hsimilar).mpr (.inl ?_)⟩
  rw [hexcess]
  decide

/-- With one suggestion asked for, the name itself is left out. -/
theorem aabb_displaced : Related "aabb" "aabb" ∧ ¬ Related "aabb" "ba" ∧
    suggestSimilar "aabb" ["aabb", "ba"] 1 = ["ba"] := by
  have hrelated : Related "aabb" "aabb" := by decide
  have hsimilar : MerelySimilar "aabb" "ba" := by decide
  have hexcess : excess "aabb" "ba" < 0 := by decide
  have hfirst : ["ba", "aabb"] <+ ranked "aabb" ["aabb", "ba"] :=
    (before_related_iff (by simp) hrelated (by simp) hsimilar).mpr (.inl hexcess)
  have hlength : (ranked "aabb" ["aabb", "ba"]).length = 2 := (ranked_perm _ _).length_eq
  have hranked := hfirst.eq_of_length hlength.symm
  refine ⟨hrelated, hsimilar.1, (suggestSimilar_eq_take "aabb" ["aabb", "ba"] 1).trans ?_⟩
  rw [← hranked]
  rfl

end TypedErrors
