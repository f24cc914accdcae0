/-! # Sorted names -/

namespace TypedErrors

/-- Names in code point order, each once. -/
def sortedNames (names : List String) : List String :=
  (names.mergeSort fun a b => decide (a ≤ b)).eraseReps

end TypedErrors
