import TypedErrors.Source.Declaration

/-! # Visibility from inner scopes

What a declaration's visibility has to say when it is written some scopes further in, so that it reaches no
more and no less. -/

namespace TypedErrors
namespace Visibility

/-- So many scopes up. -/
def supers (depth : Int) : Visibility := .restricted (List.replicate depth.toNat "super") true

/-- The visibility as seen from `depth` scopes further in. Relative restrictions gain steps up, rooted ones
stay. A restriction that names no scope has none. -/
def within (v : Visibility) (depth : Int) : Option Visibility :=
  match v with
  | .pub => some .pub
  | .crate => some .crate
  | .inherited => some (supers depth)
  | .restricted [scope] false =>
    if scope = "self" then some (supers depth)
    else if scope = "super" then some (supers (depth + 1))
    else some v
  | .restricted [] _ => none
  | .restricted (scope :: more) _ =>
    if scope = "self" then some (.restricted ("super" :: more) true)
    else if scope = "super" then some (.restricted ("super" :: scope :: more) true)
    else some (.restricted (scope :: more) true)

end Visibility
end TypedErrors
