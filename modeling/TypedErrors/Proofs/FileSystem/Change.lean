import Mathlib.Data.List.Basic
import TypedErrors.Proofs.FileSystem.Walk

/-! # Changes of a file system

Writing a file and making a directory keep a file system well-formed and let it grow. What is read stays as long as
the content at places of its name stays: a path that the new directories open leads to no file. -/

namespace TypedErrors
namespace FileSystem

variable {fs fs' : FileSystem} {place q : List Text} {names : List Text} {p : FilePath} {content : String}

/-! ### Locating -/

/-- Where the walk along a path starts. -/
def start (fs : FileSystem) (root : PathRoot) : List Text := if root = .relative then [] else fs.rootPlace

theorem isDirectory_start (fs : FileSystem) (root : PathRoot) : fs.isDirectory (fs.start root) = true := by
  refine isDirectory_of_isAbove ?_
  rw [start]
  split_ifs
  · rfl
  · rw [rootPlace, isAbove, List.all_replicate]
    simp

theorem locate_eq_ok : fs.locate p = .ok place ↔
    pathFault? 0 p.text = none ∧ byteLength p.text ≤ pathLimit ∧ fs.walk (fs.start p.root) p.segments = .ok place := by
  rw [locate]
  cases pathFault? 0 p.text with
  | some e =>
    constructor
    · rintro ⟨⟩
    · rintro ⟨⟨⟩, -⟩
  | none =>
    show (if pathLimit < byteLength p.text then _ else fs.walk (fs.start p.root) p.segments) = _ ↔ _
    split_ifs with h
    · constructor
      · rintro ⟨⟩
      · rintro ⟨-, hle, -⟩
        omega
    · rw [and_iff_right rfl, and_iff_right (Nat.le_of_not_lt h)]

theorem Grows.start (h : Grows fs fs') (root : PathRoot) : fs'.start root = fs.start root := by
  rw [FileSystem.start, FileSystem.start, rootPlace, rootPlace, h.trail]

theorem Grows.locate (h : Grows fs fs') (hlocate : fs.locate p = .ok place) : fs'.locate p = .ok place := by
  obtain ⟨hfault, hlength, hwalk⟩ := locate_eq_ok.mp hlocate
  exact locate_eq_ok.mpr ⟨hfault, hlength, h.start p.root ▸ h.walk hwalk⟩

/-- A path ends in a directory or right behind one, under its last name. -/
theorem WellFormed.locate_end (hfs : fs.WellFormed) (hlocate : fs.locate p = .ok place) :
    fs.isDirectory place = true ∨ ∃ dir s, place = dir ++ [s] ∧ fs.isDirectory dir ∧ p.segments.getLast? = some s :=
  hfs.walk_end (fs.isDirectory_start p.root) (locate_eq_ok.mp hlocate).2.2

/-! ### Reading -/

theorem read_eq_ok : fs.read p = .ok content ↔
    ∃ place, fs.locate p = .ok place ∧ ¬fs.isDirectory place ∧ fs.content? place = some content ∧
      fs.refusals.lookup place = none := by
  rw [read, bind_eq_ok]
  refine exists_congr fun place => and_congr_right fun _ => ite_throw_eq_ok.trans (and_congr_right fun _ => ?_)
  cases fs.content? place with
  | none =>
    constructor
    · rintro ⟨⟩
    · rintro ⟨⟨⟩, -⟩
  | some c =>
    cases fs.refusals.lookup place with
    | some kind =>
      constructor
      · rintro ⟨⟩
      · rintro ⟨-, ⟨⟩⟩
    | none =>
      constructor
      · rintro ⟨⟩
        exact ⟨rfl, rfl⟩
      · rintro ⟨⟨⟩, -⟩
        rfl

/-! ### Writing -/

theorem write_eq_ok : fs.write p content = .ok fs' ↔
    ∃ place, fs.locate p = .ok place ∧ ¬fs.isDirectory place ∧ fs' = fs.put place content := by
  rw [write, bind_eq_ok]
  exact exists_congr fun place => and_congr_right fun _ => ite_throw_eq_ok.trans (and_congr_right fun _ => pure_eq_ok)

theorem put_directories (fs : FileSystem) (place : List Text) (content : String) :
    (fs.put place content).directories = fs.directories ∧ (fs.put place content).refusals = fs.refusals ∧
      (fs.put place content).trail = fs.trail := by
  rw [put]
  split_ifs <;> exact ⟨rfl, rfl, rfl⟩

theorem isDirectory_put (fs : FileSystem) (place : List Text) (content : String) (q : List Text) :
    (fs.put place content).isDirectory q = fs.isDirectory q := by
  rw [isDirectory, isDirectory, (fs.put_directories place content).1]

theorem grows_put (fs : FileSystem) (place : List Text) (content : String) : Grows fs (fs.put place content) :=
  ⟨(fs.put_directories place content).2.2, (fs.put_directories place content).2.1,
    fun q hq => (fs.isDirectory_put place content q).trans hq⟩

theorem lookup_replace (files : List (List Text × String)) (place q : List Text) (content : String) :
    (files.map fun f => if f.1 == place then (place, content) else f).lookup q =
      if q = place then (files.lookup q).map fun _ => content else files.lookup q := by
  induction files with
  | nil => split_ifs <;> rfl
  | cons f files ih =>
    rw [List.map_cons]
    by_cases hf : f.1 = place
    · rw [if_pos (beq_iff_eq.mpr hf)]
      by_cases hq : q = place
      · rw [if_pos hq, List.lookup_cons, List.lookup_cons, beq_iff_eq.mpr hq, beq_iff_eq.mpr (hq.trans hf.symm)]
        rfl
      · have hne : (q == place) = false := beq_eq_false_iff_ne.mpr hq
        rw [if_neg hq, List.lookup_cons, List.lookup_cons, hf, hne, ih, if_neg hq]
    · rw [if_neg (fun h => hf (beq_iff_eq.mp h)), List.lookup_cons, List.lookup_cons, ih]
      cases hqf : q == f.1 with
      | true =>
        have hne : q ≠ place := fun h => hf ((beq_iff_eq.mp hqf).symm.trans h)
        rw [if_neg hne, if_neg hne]
      | false => rfl

/-- What is put at a place is there, and nothing else changes. -/
theorem content?_put (fs : FileSystem) (place : List Text) (content : String) (q : List Text) :
    (fs.put place content).content? q = if q = place then some content else fs.content? q := by
  rw [content?, content?, put]
  split_ifs with hany hq hq
  · rw [lookup_replace, if_pos hq]
    obtain ⟨f, hf, hfplace⟩ := List.any_eq_true.mp hany
    cases hlookup : fs.files.lookup q with
    | none =>
      have hne := List.lookup_eq_none_iff.mp hlookup f hf
      rw [beq_iff_eq] at hfplace
      simp [hfplace, hq] at hne
    | some c => rfl
  · rw [lookup_replace, if_neg hq]
  · have hnone : fs.files.lookup q = none := by
      refine List.lookup_eq_none_iff.mpr fun f hf => ?_
      rw [bne_iff_ne]
      rintro rfl
      exact hany (List.any_eq_true.mpr ⟨f, hf, beq_iff_eq.mpr hq⟩)
    rw [List.lookup_append, hnone, Option.none_or, List.lookup_cons, beq_iff_eq.mpr hq]
  · have hne : (q == place) = false := beq_eq_false_iff_ne.mpr hq
    rw [List.lookup_append, List.lookup_cons, hne, List.lookup_nil, Option.or_none]

theorem WellFormed.put (hfs : fs.WellFormed) (hplace : ¬fs.isDirectory place) (habove : fs.isDirectory place.dropLast) :
    (fs.put place content).WellFormed := by
  refine ⟨fun q hq => ?_, fun q hq => ?_, fun q hq => ?_⟩
  · rw [isDirectory_put] at hq ⊢
    exact hfs.above_directory q hq
  · rw [isDirectory_put]
    rw [content?_put] at hq
    split_ifs at hq with h
    · rwa [h]
    · exact hfs.above_file q hq
  · rw [isDirectory_put] at hq
    rw [content?_put, if_neg]
    · exact hfs.not_file q hq
    · rintro rfl
      exact hplace hq

/-! ### Making directories -/

/-- The walk along a path comes to a directory, and only some names are left. -/
def Anchored (fs : FileSystem) (p : FilePath) (names : List Text) : Prop :=
  ∃ base dir, p.segments = base ++ names ∧ fs.walk (fs.start p.root) base = .ok dir ∧ fs.isDirectory dir

theorem Anchored.mono (hp : Anchored fs p names) (h : Grows fs fs') : Anchored fs' p names := by
  obtain ⟨base, dir, hbase, hwalk, hdir⟩ := hp
  exact ⟨base, dir, hbase, h.start p.root ▸ h.walk hwalk, h.isDirectory dir hdir⟩

/-- What is read stays when directories are added and the files of the same name keep their content. -/
theorem read_iff_of_grows (hfs : fs.WellFormed) (hfs' : fs'.WellFormed) (hgrows : Grows fs fs')
    (hp : Anchored fs p names) (hnames : upward ∉ names)
    (hsame : ∀ place, place.getLast? = p.segments.getLast? → fs'.content? place = fs.content? place) :
    fs'.read p = .ok content ↔ fs.read p = .ok content := by
  have hplace {fs : FileSystem} {place : List Text} (hfs : fs.WellFormed) (hlocate : fs.locate p = .ok place)
      (hnot : ¬fs.isDirectory place) : place.getLast? = p.segments.getLast? := by
    obtain hdir | ⟨dir, s, rfl, -, hlast⟩ := hfs.locate_end hlocate
    · exact absurd hdir hnot
    · rw [hlast, List.getLast?_concat]
  have hfile {fs : FileSystem} {place : List Text} (hfs : fs.WellFormed) (hcontent : fs.content? place = some content) :
      ¬fs.isDirectory place := fun hdir => by
    rw [hfs.not_file place hdir] at hcontent
    cases hcontent
  constructor
  · intro h
    obtain ⟨place, hlocate, hnot, hcontent, hrefusal⟩ := read_eq_ok.mp h
    rw [hsame place (hplace hfs' hlocate hnot)] at hcontent
    obtain ⟨hfault, hlength, hwalk⟩ := locate_eq_ok.mp hlocate
    obtain ⟨base, dir, hbase, hwalkbase, hdir⟩ := hp
    rw [hbase, walk_append (fs'.isDirectory_start p.root)] at hwalk
    obtain ⟨there, hthere, -, hwalk⟩ := hwalk
    rw [hgrows.start p.root, hgrows.walk hwalkbase, Except.ok.injEq] at hthere
    subst hthere
    refine read_eq_ok.mpr ⟨place, locate_eq_ok.mpr ⟨hfault, hlength, ?_⟩, hfile hfs hcontent, hcontent,
      hgrows.refusals ▸ hrefusal⟩
    rw [hbase, walk_append (fs.isDirectory_start p.root)]
    exact ⟨dir, hwalkbase, fun _ => hdir, hfs.walk_of_file hgrows.trail hnames hwalk (by rw [hcontent]; rfl)⟩
  · intro h
    obtain ⟨place, hlocate, hnot, hcontent, hrefusal⟩ := read_eq_ok.mp h
    rw [← hsame place (hplace hfs hlocate hnot)] at hcontent
    exact read_eq_ok.mpr ⟨place, hgrows.locate hlocate, hfile hfs' hcontent, hcontent, hgrows.refusals ▸ hrefusal⟩

/-- The place of a beginning of a path is a directory already or lies above the place of the path. -/
theorem Anchored.isDirectory_or_prefix (hp : Anchored fs p names) (hnames : upward ∉ names) (hgrows : Grows fs fs')
    (hlocate : fs'.locate p = .ok place) {front back : List Text} (hfront : p.segments = front ++ back) (hback : back ≠ [])
    (hwalk : fs'.walk (fs'.start p.root) front = .ok q) : fs.isDirectory q = true ∨ q <+: place ∧ q ≠ place := by
  obtain ⟨base, dir, hbase, hwalkbase, hdir⟩ := hp
  obtain ⟨rest, hrest⟩ | ⟨rest, hrest⟩ := List.prefix_or_prefix_of_prefix
    (List.prefix_append front back) (hfront ▸ hbase ▸ List.prefix_append base names)
  · left
    rw [← hrest, walk_append (fs.isDirectory_start p.root)] at hwalkbase
    obtain ⟨there, hthere, hdir', hwalkrest⟩ := hwalkbase
    rw [hgrows.start p.root, hgrows.walk hthere, Except.ok.injEq] at hwalk
    subst hwalk
    by_cases hnil : rest = []
    · subst hnil
      cases hwalkrest
      exact hdir
    · exact hdir' hnil
  · obtain ⟨-, -, hwalkall⟩ := locate_eq_ok.mp hlocate
    rw [hfront, walk_append (fs'.isDirectory_start p.root)] at hwalkall
    obtain ⟨there, hthere, -, hwalkback⟩ := hwalkall
    rw [hwalk, Except.ok.injEq] at hthere
    subst hthere
    have hnamesEq : names = rest ++ back := by
      have happend : base ++ names = base ++ (rest ++ back) := by rw [← hbase, hfront, ← hrest, List.append_assoc]
      exact List.append_cancel_left happend
    have hback' : upward ∉ back := fun h => hnames (hnamesEq ▸ List.mem_append_right rest h)
    obtain habove | ⟨hbelow, hproper⟩ := prefix_of_walk hback' hwalkback
    · exact .inl (isDirectory_of_isAbove habove)
    · exact .inr ⟨hbelow, hproper hback⟩

/-- Of directories on the way of a path, those that have been made for it. -/
structure Made (p : FilePath) (fs fs' : FileSystem) : Prop where
  grows : Grows fs fs'
  wellFormed : fs'.WellFormed
  content? : ∀ place, fs'.content? place = fs.content? place
  directories : ∀ q, fs'.isDirectory q → fs.isDirectory q = true ∨
    ∃ front, front <+: p.segments ∧ fs'.walk (fs'.start p.root) front = .ok q

theorem Made.refl (hfs : fs.WellFormed) (p : FilePath) : Made p fs fs :=
  ⟨.refl fs, hfs, fun _ => rfl, fun _ => .inl⟩

theorem Made.trans {fs'' : FileSystem} (h : Made p fs fs') (h' : Made p fs' fs'') : Made p fs fs'' := by
  refine ⟨h.grows.trans h'.grows, h'.wellFormed, fun place => (h'.content? place).trans (h.content? place), fun q hq => ?_⟩
  obtain hq | hq := h'.directories q hq
  · obtain hq | ⟨front, hfront, hwalk⟩ := h.directories q hq
    · exact .inl hq
    · exact .inr ⟨front, hfront, h'.grows.start p.root ▸ h'.grows.walk hwalk⟩
  · exact .inr hq

/-- A file has been written and the directories above it have been made, and nothing else. -/
structure Written (p : FilePath) (content : String) (fs fs' : FileSystem) (place : List Text) : Prop where
  grows : Grows fs fs'
  wellFormed : fs'.WellFormed
  locate : fs'.locate p = .ok place
  last : place.getLast? = p.segments.getLast?
  content? : ∀ q, fs'.content? q = if q = place then some content else fs.content? q
  directories : ∀ q, fs'.isDirectory q = true ↔ fs.isDirectory q = true ∨ q <+: place ∧ q ≠ place

theorem Made.write {fs'' : FileSystem} (hmade : Made p.parent fs fs') (hp : Anchored fs p names) (hnames : upward ∉ names)
    (hwrite : fs'.write p content = .ok fs'') : ∃ place, Written p content fs fs'' place := by
  obtain ⟨place, hlocate, hnot, rfl⟩ := write_eq_ok.mp hwrite
  obtain hdir | ⟨dir, s, hplace, hdir, hlast⟩ := hmade.wellFormed.locate_end hlocate
  · exact absurd hdir hnot
  have habove : place.dropLast = dir := by rw [hplace, List.dropLast_concat]
  have hwellFormed : (fs'.put place content).WellFormed := hmade.wellFormed.put hnot (habove ▸ hdir)
  have hgrows := fs'.grows_put place content
  refine ⟨place, hmade.grows.trans hgrows, hwellFormed, hgrows.locate hlocate, ?_, fun q => ?_, fun q => ?_⟩
  · rw [hlast, hplace, List.getLast?_concat]
  · rw [content?_put, hmade.content?]
  · rw [isDirectory_put]
    constructor
    · intro hq
      obtain hq | ⟨front, ⟨mid, hfront⟩, hwalk⟩ := hmade.directories q hq
      · exact .inl hq
      · have hsegments : p.segments = front ++ (mid ++ [s]) := by
          rw [← List.append_assoc, hfront, FilePath.parent, List.dropLast_append_getLast? s hlast]
        exact hp.isDirectory_or_prefix hnames hmade.grows hlocate hsegments (by simp) hwalk
    · rintro (hq | ⟨hq, hne⟩)
      · exact hmade.grows.isDirectory q hq
      · rw [← isDirectory_put fs' place content]
        exact hwellFormed.isDirectory_above_file (by rw [content?_put, if_pos rfl]; rfl) hq hne

end FileSystem
end TypedErrors
