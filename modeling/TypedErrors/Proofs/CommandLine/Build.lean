import Mathlib
import TypedErrors.Proofs.CommandLine.Action
import TypedErrors.Proofs.Generation.Bound
import TypedErrors.Proofs.Manifest

/-! # Building the targets of a manifest

The targets of a manifest are built one after another in one file system. A target writes under a name that no source
has and makes directories only, so every target is generated from what its source held at the beginning. -/

namespace TypedErrors

/-- A target with the suffixes of a manifest and paths that lead nowhere upwards. -/
structure Target.Downward (t : Target) : Prop where
  suffixed : t.Suffixed
  source : FileSystem.upward ∉ (FilePath.ofText t.source).segments
  output : FileSystem.upward ∉ (FilePath.ofText t.output).segments

namespace CommandLine

open FileSystem Generation

variable {w w' : World} {fs fs' fs'' : FileSystem} {path root : FilePath} {t : Target} {ts : List Target}
  {s : Session (StateM World)}

/-! ### Making directories -/

theorem anchored_join (hroot : Anchored fs root []) (p : FilePath) : Anchored fs (root.join p) p.segments := by
  rw [FilePath.join]
  split_ifs
  · obtain ⟨base, dir, hbase, hwalk, hdir⟩ := hroot
    rw [List.append_nil] at hbase
    exact ⟨root.segments, dir, rfl, hbase ▸ hwalk, hdir⟩
  · exact ⟨[], fs.start p.root, rfl, rfl, fs.isDirectory_start p.root⟩

theorem getLast?_join {p : FilePath} {s : Text} (hp : p.segments.getLast? = some s) (root : FilePath) :
    (root.join p).segments.getLast? = some s := by
  rw [FilePath.join]
  split_ifs
  · rw [List.getLast?_append, hp]
    rfl
  · exact hp

/-- The file systems that runs come to from a first one: well-formed, grown, and with the same sources. -/
structure Since (fs fs' : FileSystem) : Prop where
  grows : Grows fs fs'
  wellFormed : fs'.WellFormed
  sources : ∀ place name, place.getLast? = some name → Text.ofString ".fl" <:+ name →
    fs'.content? place = fs.content? place

theorem Since.refl (hfs : fs.WellFormed) : Since fs fs := ⟨.refl fs, hfs, fun _ _ _ _ => rfl⟩

/-- The code of a target does not change. -/
theorem Since.code? (h : Since fs fs') (hfs : fs.WellFormed) (hroot : Anchored fs root []) (ht : t.Downward)
    (settings : Settings) :
    Session.code? settings fs' (t.sourcePath root) = Session.code? settings fs (t.sourcePath root) := by
  obtain ⟨name, hlast, hname⟩ := FilePath.getLast?_segments (by decide) (by decide) ht.suffixed.1
  have hread : (fs'.read (t.sourcePath root)).toOption = (fs.read (t.sourcePath root)).toOption := by
    refine Option.ext fun content => ?_
    rw [toOption_eq_some_iff, toOption_eq_some_iff]
    refine read_iff_of_grows hfs h.wellFormed h.grows (anchored_join hroot _) ht.source fun place hplace => ?_
    rw [Target.sourcePath, getLast?_join hlast root] at hplace
    exact h.sources place name hplace hname
  rw [Session.code?, Session.code?, Session.text?, Session.text?, hread]

/-- A target is written under a name that no source has. -/
theorem Since.written (h : Since fs fs') {code : String} {place : List Text} (ht : t.Suffixed)
    (hwritten : Written (t.outputPath root) code fs' fs'' place) : Since fs fs'' := by
  refine ⟨h.grows.trans hwritten.grows, hwritten.wellFormed, fun q name hq hname => ?_⟩
  rw [hwritten.content?, if_neg, h.sources q name hq hname]
  rintro rfl
  obtain ⟨output, hlast, houtput⟩ := FilePath.getLast?_segments (by decide) (by decide) ht.2
  rw [hwritten.last, Target.outputPath, getLast?_join hlast root, Option.some.injEq] at hq
  subst hq
  have hsuffix := List.suffix_of_suffix_length_le hname houtput (by decide)
  exact absurd (hsuffix.eq_of_length (by decide)) (by decide)

namespace Session

/-- The line that is printed for a target. -/
def targetLine (t : Target) : Text := line (t.source ++ Text.ofString " -> " ++ t.output)

/-- What building some targets does, when the code of each is known beforehand. -/
structure Built (root : FilePath) (code? : Target → Option String) (ts : List Target) (w w' : World) (status : Nat) :
    Prop where
  grows : Grows w.files w'.files
  /-- The run goes well if every target does. -/
  status_eq : status = if ∀ t ∈ ts, (code? t).isSome then 0 else 1
  /-- The file of a target holds its code, unless a later target that goes well has the same file. -/
  written : ∀ before t after code, ts = before ++ t :: after → code? t = some code →
    (∀ u ∈ after, (code? u).isSome → w'.files.locate (u.outputPath root) ≠ w'.files.locate (t.outputPath root)) →
    ∃ place, w'.files.locate (t.outputPath root) = .ok place ∧ w'.files.content? place = some code
  /-- Other places keep what they hold. -/
  kept : ∀ place, (∀ t ∈ ts, (code? t).isSome → w'.files.locate (t.outputPath root) ≠ .ok place) →
    w'.files.content? place = w.files.content? place
  /-- The directories are those from before and those above the files that were written. -/
  directories : ∀ q, w'.files.isDirectory q = true ↔ w.files.isDirectory q = true ∨
    ∃ t ∈ ts, (code? t).isSome ∧ ∃ place, w'.files.locate (t.outputPath root) = .ok place ∧ q <+: place ∧ q ≠ place
  /-- A line is printed for each target that goes well, in their order. -/
  printed : w'.output = w.output ++ (ts.filter fun t => (code? t).isSome).flatMap targetLine

theorem Built.nil (root : FilePath) (code? : Target → Option String) (w : World) : Built root code? [] w w 0 where
  grows := .refl w.files
  status_eq := (if_pos fun t ht => absurd ht List.not_mem_nil).symm
  written before t after _ h := by cases before <;> cases h
  kept _ _ := rfl
  directories q := ⟨.inl, by rintro (h | ⟨t, ht, -⟩); exacts [h, absurd ht List.not_mem_nil]⟩
  printed := (List.append_nil _).symm

end Session
end CommandLine
end TypedErrors
