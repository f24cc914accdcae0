import TypedErrors.Text.LowerCase

/-! # Snake case

Two passes put an underscore before a capital: first where a capitalised word follows any character
but an underscore, then where a capital follows a small letter or a digit. -/

namespace TypedErrors
namespace SnakeCase

def isSmall (c : Char) : Bool := 'a' ≤ c && c ≤ 'z'

def isCapital (c : Char) : Bool := 'A' ≤ c && c ≤ 'Z'

/-- `inWord`: the text so far ends within a capitalised word that has just been set off. -/
def breakWords (inWord : Bool) : List Char → List Char
  | [] => []
  | [a] => [a]
  | a :: b :: cs =>
    if inWord && isSmall a then a :: breakWords true (b :: cs)
    else if a ≠ '_' && isCapital b && (cs.head?.map isSmall).getD false then
      a :: '_' :: b :: breakWords true cs
    else a :: breakWords false (b :: cs)

def breakTails : List Char → List Char
  | a :: b :: cs =>
    if (isSmall a || a.isDigit) && isCapital b then a :: '_' :: b :: breakTails cs
    else a :: breakTails (b :: cs)
  | cs => cs

end SnakeCase

/-- `JSONDecodeError` becomes `json_decode_error`. -/
def snakeCase (s : String) : String :=
  lowerString (String.ofList (SnakeCase.breakTails (SnakeCase.breakWords false s.toList)))

end TypedErrors
