import Mathlib.Data.List.Induction
import TypedErrors.FileSystem
import TypedErrors.Proofs.Except

/-! # Places in a file system

Two file systems of one working directory, the second with more directories, agree on where a path leads, as long as
the first can walk it. A path without two dots that leads to a file of the first can be walked in the first: the
places on its way are above the file. -/

namespace TypedErrors
namespace FileSystem

variable {fs fs' : FileSystem} {here there place dir : List Text} {segments names xs ys : List Text} {s : Text}
  {p : FilePath} {content : String}

/-- What is above a directory or a file is a directory, and no place holds both. -/
structure WellFormed (fs : FileSystem) : Prop where
  above_directory : ∀ place, fs.isDirectory place → fs.isDirectory place.dropLast
  above_file : ∀ place, (fs.content? place).isSome → fs.isDirectory place.dropLast
  not_file : ∀ place, fs.isDirectory place → fs.content? place = none

/-- A file system of the same working directory with the same directories and perhaps more. -/
structure Grows (fs fs' : FileSystem) : Prop where
  trail : fs'.trail = fs.trail
  refusals : fs'.refusals = fs.refusals
  isDirectory : ∀ place, fs.isDirectory place → fs'.isDirectory place

theorem Grows.refl (fs : FileSystem) : Grows fs fs := ⟨rfl, rfl, fun _ => id⟩

theorem Grows.trans {fs'' : FileSystem} (h : Grows fs fs') (h' : Grows fs' fs'') : Grows fs fs'' :=
  ⟨h'.trail.trans h.trail, h'.refusals.trans h.refusals, fun place hplace => h'.isDirectory place (h.isDirectory place hplace)⟩

/-! ### Directories -/

theorem isDirectory_of_isAbove (h : isAbove place = true) : fs.isDirectory place = true := by
  rw [isDirectory, h, Bool.true_or]

theorem isAbove_append : isAbove (xs ++ ys) = (isAbove xs && isAbove ys) := List.all_append

theorem isAbove_dropLast (h : isAbove place = true) : isAbove place.dropLast = true := by
  rw [isAbove, List.all_eq_true] at h ⊢
  exact fun s hs => h s (List.dropLast_subset place hs)

theorem WellFormed.isDirectory_of_prefix (hfs : fs.WellFormed) (h : dir <+: place) (hplace : fs.isDirectory place) :
    fs.isDirectory dir := by
  obtain ⟨rest, rfl⟩ := h
  induction rest using List.reverseRecOn with
  | nil => rwa [List.append_nil] at hplace
  | append_singleton rest s ih =>
    have habove := hfs.above_directory _ hplace
    rw [← List.append_assoc, List.dropLast_concat] at habove
    exact ih habove

/-- What a file is in, directly or not, is a directory. -/
theorem WellFormed.isDirectory_above_file (hfs : fs.WellFormed) (hfile : (fs.content? place).isSome) (h : dir <+: place)
    (hne : dir ≠ place) : fs.isDirectory dir := by
  refine hfs.isDirectory_of_prefix ?_ (hfs.above_file place hfile)
  obtain ⟨rest, rfl⟩ := h
  induction rest using List.reverseRecOn with
  | nil => exact absurd (List.append_nil dir).symm hne
  | append_singleton rest s _ =>
    rw [← List.append_assoc, List.dropLast_concat]
    exact List.prefix_append dir rest

theorem step_eq_ok : fs.step here s = .ok there ↔
    byteLength s ≤ nameLimit ∧ there = if s = upward then fs.leave here else fs.enter here s := by
  rw [step]
  by_cases h : nameLimit < byteLength s
  · rw [if_pos h]
    constructor
    · rintro ⟨⟩
    · rintro ⟨hle, -⟩
      omega
  · rw [if_neg h, Except.ok.injEq, eq_comm, and_iff_right (Nat.le_of_not_lt h)]

theorem step_congr (h : fs'.trail = fs.trail) : fs'.step here s = fs.step here s := by
  rw [step, step, leave, leave, enter, enter, h]

theorem WellFormed.isDirectory_leave (hfs : fs.WellFormed) (h : fs.isDirectory here) : fs.isDirectory (fs.leave here) := by
  rw [leave]
  split_ifs with habove
  · refine isDirectory_of_isAbove ?_
    rw [isAbove_append, habove]
    decide
  · exact h
  · exact hfs.above_directory here h

/-- A name leads back towards the working directory or into a directory. -/
theorem enter_cases (fs : FileSystem) (here : List Text) (s : Text) :
    isAbove here = true ∧ isAbove (fs.enter here s) = true ∨ fs.enter here s = here ++ [s] := by
  rw [enter]
  split_ifs with h
  · simp only [Bool.and_eq_true] at h
    exact .inl ⟨h.1.1, isAbove_dropLast h.1.1⟩
  · exact .inr rfl

/-! ### Walks -/

theorem walk_cons : fs.walk here (s :: segments) = .ok place ↔
    ∃ there, fs.step here s = .ok there ∧ (segments ≠ [] → fs.isDirectory there) ∧ fs.walk there segments = .ok place := by
  cases segments with
  | nil =>
    show fs.step here s = _ ↔ _
    constructor
    · intro h
      exact ⟨place, h, fun h => absurd rfl h, rfl⟩
    · rintro ⟨there, h, -, ⟨⟩⟩
      exact h
  | cons t segments =>
    rw [walk, bind_eq_ok]
    · refine exists_congr fun there => and_congr_right fun _ => ?_
      constructor
      · intro h
        split_ifs at h with hdir
        exact ⟨fun _ => hdir, h⟩
      · rintro ⟨hdir, h⟩
        rw [if_pos (hdir (List.cons_ne_nil t segments)), h]
    · exact List.cons_ne_nil t segments

/-- Between two parts of a walk stands a directory. -/
theorem walk_append (hhere : fs.isDirectory here) : fs.walk here (xs ++ ys) = .ok place ↔
    ∃ there, fs.walk here xs = .ok there ∧ (ys ≠ [] → fs.isDirectory there) ∧ fs.walk there ys = .ok place := by
  induction xs generalizing here with
  | nil =>
    constructor
    · intro h
      exact ⟨here, rfl, fun _ => hhere, h⟩
    · rintro ⟨there, ⟨⟩, -, h⟩
      exact h
  | cons s xs ih =>
    rw [List.cons_append, walk_cons]
    constructor
    · rintro ⟨mid, hstep, hdir, hwalk⟩
      by_cases hempty : xs ++ ys = []
      · obtain ⟨rfl, rfl⟩ := List.append_eq_nil_iff.mp hempty
        exact ⟨place, walk_cons.mpr ⟨mid, hstep, hdir, hwalk⟩, fun h => absurd rfl h, rfl⟩
      · obtain ⟨there, hxs, hthere, hys⟩ := (ih (hdir hempty)).mp hwalk
        refine ⟨there, walk_cons.mpr ⟨mid, hstep, fun hne => hdir fun h => hne ?_, hxs⟩, hthere, hys⟩
        exact (List.append_eq_nil_iff.mp h).1
    · rintro ⟨there, hxs, hthere, hys⟩
      obtain ⟨mid, hstep, hdir, hxs⟩ := walk_cons.mp hxs
      by_cases hempty : xs = []
      · subst hempty
        cases hxs
        exact ⟨there, hstep, hthere, hys⟩
      · exact ⟨mid, hstep, fun _ => hdir hempty, (ih (hdir hempty)).mpr ⟨there, hxs, hthere, hys⟩⟩

theorem Grows.walk (h : Grows fs fs') (hwalk : fs.walk here segments = .ok place) :
    fs'.walk here segments = .ok place := by
  induction segments generalizing here with
  | nil => exact hwalk
  | cons s segments ih =>
    obtain ⟨there, hstep, hdir, hwalk⟩ := walk_cons.mp hwalk
    exact walk_cons.mpr ⟨there, step_congr h.trail ▸ hstep, fun hne => h.isDirectory there (hdir hne), ih hwalk⟩

/-- A walk ends in a directory or right behind one, under the last name of the path. -/
theorem WellFormed.walk_end (hfs : fs.WellFormed) (hhere : fs.isDirectory here) (hwalk : fs.walk here segments = .ok place) :
    fs.isDirectory place = true ∨ ∃ dir s, place = dir ++ [s] ∧ fs.isDirectory dir ∧ segments.getLast? = some s := by
  induction segments generalizing here with
  | nil =>
    cases hwalk
    exact .inl hhere
  | cons s segments ih =>
    obtain ⟨there, hstep, hdir, hwalk⟩ := walk_cons.mp hwalk
    cases segments with
    | nil =>
      cases hwalk
      obtain ⟨-, rfl⟩ := step_eq_ok.mp hstep
      split_ifs
      · exact .inl (hfs.isDirectory_leave hhere)
      · obtain ⟨-, habove⟩ | henter := fs.enter_cases here s
        · exact .inl (isDirectory_of_isAbove habove)
        · exact .inr ⟨here, s, henter, hhere, rfl⟩
    | cons t segments =>
      obtain hplace | ⟨dir, u, hplace, hdir, hlast⟩ := ih (hdir (List.cons_ne_nil t segments)) hwalk
      · exact .inl hplace
      · exact .inr ⟨dir, u, hplace, hdir, by rw [List.getLast?_cons_cons, hlast]⟩

/-- Names lead from a place downwards, unless it is above the working directory. -/
theorem prefix_of_walk (hnames : upward ∉ names) (hwalk : fs.walk here names = .ok place) :
    isAbove here = true ∨ here <+: place ∧ (names ≠ [] → here ≠ place) := by
  induction names generalizing here with
  | nil =>
    cases hwalk
    exact .inr ⟨List.prefix_rfl, fun h => absurd rfl h⟩
  | cons s names ih =>
    obtain ⟨hs, hnames⟩ := not_or.mp (List.mem_cons.not.mp hnames)
    obtain ⟨there, hstep, -, hwalk⟩ := walk_cons.mp hwalk
    obtain ⟨-, rfl⟩ := step_eq_ok.mp hstep
    rw [if_neg (Ne.symm hs)] at hwalk
    obtain ⟨habove, -⟩ | henter := fs.enter_cases here s
    · exact .inl habove
    · rw [henter] at hwalk
      obtain habove | ⟨⟨rest, rfl⟩, -⟩ := ih hnames hwalk
      · rw [isAbove_append, Bool.and_eq_true] at habove
        exact .inl habove.1
      · refine .inr ⟨⟨s :: rest, by rw [List.append_assoc, List.singleton_append]⟩, fun _ h => ?_⟩
        have hlength := congrArg List.length h
        simp only [List.length_append, List.length_cons, List.length_nil] at hlength
        omega

/-- Names that lead to a file in some file system do so where the file is. -/
theorem WellFormed.walk_of_file (hfs : fs.WellFormed) (htrail : fs'.trail = fs.trail) (hnames : upward ∉ names)
    (hwalk : fs'.walk here names = .ok place) (hfile : (fs.content? place).isSome) :
    fs.walk here names = .ok place := by
  induction names generalizing here with
  | nil => exact hwalk
  | cons s names ih =>
    obtain ⟨there, hstep, -, hwalk⟩ := walk_cons.mp hwalk
    have hnames' : upward ∉ names := fun h => hnames (List.mem_cons_of_mem s h)
    refine walk_cons.mpr ⟨there, step_congr htrail ▸ hstep, fun hne => ?_, ih hnames' hwalk⟩
    obtain habove | ⟨hbelow, hproper⟩ := prefix_of_walk hnames' hwalk
    · exact isDirectory_of_isAbove habove
    · exact hfs.isDirectory_above_file hfile hbelow (hproper hne)

end FileSystem
end TypedErrors
