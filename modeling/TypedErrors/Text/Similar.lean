import TypedErrors.Text.LowerCase

/-! # Similar names

Candidates for a misspelled name. A candidate that contains the name, or is contained in it, has
distance zero, letter case aside; any other counts the code points of the name that it lacks. -/

namespace TypedErrors
namespace Similar

def occursIn (needle : Text) : Text → Bool
  | [] => needle.isEmpty
  | c :: cs => needle.isPrefixOf (c :: cs) || occursIn needle cs

/-- The distance of a candidate, if it is near enough to be worth a suggestion. -/
def distance? (name candidate : Text) : Option Int :=
  let n := name.lower
  let c := candidate.lower
  if occursIn n c || occursIn c n then some 0
  else
    let common := n.countP (c.contains ·)
    if max name.length candidate.length ≤ common * 2 then
      some ((name.length : Int) + candidate.length - 2 * common)
    else none

def scored (name : Text) (candidates : List String) : List (Int × String) :=
  candidates.filterMap fun c => (distance? name (Text.ofString c)).map fun d => (d, c)

/-- The near candidates, nearest first and otherwise in the order given. -/
def ranked (name : Text) (candidates : List String) : List String :=
  ((scored name candidates).mergeSort fun a b => a.1 ≤ b.1).map (·.2)

end Similar

/-- The front of a list, or, for a negative `count`, all but the last ones. -/
def takeSigned {α : Type} (count : Int) (xs : List α) : List α :=
  if 0 ≤ count then xs.take count.toNat else xs.take (xs.length - (-count).toNat)

/-- At most three suggestions for a misspelled name, unless another number is asked for. -/
def suggestSimilar (name : Text) (candidates : List String) (most : Int := 3) : List String :=
  takeSigned most (Similar.ranked name candidates)

end TypedErrors
