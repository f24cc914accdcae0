/-! # Grouped numbers

Decimal digits in groups of three, parted by commas. -/

namespace TypedErrors

/-- Puts a comma before each group of three, counting from the end of the digits. -/
def groupDigits : (digits : List Char) → List Char
  | [] => []
  | [c] => [c]
  | c :: cs =>
    if cs.length % 3 = 0 then c :: ',' :: groupDigits cs else c :: groupDigits cs

def grouped (n : Nat) : String := String.ofList (groupDigits (toString n).toList)

end TypedErrors
