import Mathlib.Data.List.Basic
import TypedErrors.CommandLine.Run
import TypedErrors.Proofs.FileSystem.Change

/-! # What actions do to files

Parts of a run in a world that is kept in a value. Reading and reporting change neither the files nor the output. -/

namespace TypedErrors
namespace CommandLine

variable {α β : Type} {w w' : World} {b : β}

/-- The result of an action in a world, and the world after it. -/
def outcome (x : Action (StateM World) α) (w : World) : Except Failure α × World := x w

theorem outcome_bind {x : Action (StateM World) α} {f : α → Action (StateM World) β} {r : Except Failure α} {w₁ : World}
    (hx : outcome x w = (r, w₁)) : outcome (x >>= f) w = ExceptT.bindCont f r w₁ := by
  have hrun : outcome (x >>= f) w = ExceptT.bindCont f (outcome x w).1 (outcome x w).2 := rfl
  rw [hrun, hx]

/-- Two worlds with the same files and the same output. What was reported may differ. -/
structure Same (w w' : World) : Prop where
  files : w'.files = w.files
  output : w'.output = w.output

theorem Same.refl (w : World) : Same w w := ⟨rfl, rfl⟩

theorem Same.trans {w₁ w₂ w₃ : World} (h : Same w₁ w₂) (h' : Same w₂ w₃) : Same w₁ w₃ :=
  ⟨h'.files.trans h.files, h'.output.trans h.output⟩

/-- Neither the files nor the output change. -/
def Quiet (x : Action (StateM World) α) : Prop := ∀ w, Same w (outcome x w).2

theorem Quiet.of_eq {x : Action (StateM World) α} {r : Except Failure α} (hx : Quiet x) (h : outcome x w = (r, w')) :
    Same w w' := by
  have hw := hx w
  rwa [h] at hw

theorem Quiet.pure (a : α) : Quiet (Pure.pure a) := Same.refl

theorem Quiet.throw (e : Failure) : Quiet (throw e : Action (StateM World) α) := Same.refl

theorem Quiet.bind {x : Action (StateM World) α} {f : α → Action (StateM World) β} (hx : Quiet x) (hf : ∀ a, Quiet (f a)) :
    Quiet (x >>= f) := by
  intro w
  obtain ⟨r, w₁, hr⟩ : ∃ r w₁, outcome x w = (r, w₁) := ⟨_, _, rfl⟩
  have hw := hx.of_eq hr
  rw [outcome_bind hr]
  cases r with
  | error e => exact hw
  | ok a => exact hw.trans (hf a w₁)

theorem Quiet.forM {f : α → Action (StateM World) Unit} (hf : ∀ a, Quiet (f a)) : ∀ as : List α, Quiet (as.forM f)
  | [] => .pure ()
  | a :: as => (hf a).bind fun _ => Quiet.forM hf as

namespace Session

variable {s : Session (StateM World)} {path : FilePath} {name : Text}

/-- The text of a file with its line ends unified. -/
def text? (fs : FileSystem) (path : FilePath) : Option String :=
  (fs.read path).toOption.map fun content => String.ofList (unifyLineEnds content.toList)

/-- The code of a source file in a file system, if it can be read and is generated without reports. -/
def code? (settings : Settings) (fs : FileSystem) (path : FilePath) : Option String := do
  let source ← text? fs path
  let r ← (Generation.ofSource settings path.string source).toOption
  if r.isOk then some r.code else none

end Session
end CommandLine
end TypedErrors
