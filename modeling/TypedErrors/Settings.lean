import TypedErrors.Source.Load

/-! # Settings -/

namespace TypedErrors

structure Settings where
  logLevel : String := "INFO"
  /-- The namespace of the attribute blocks that are read. -/
  attributeNamespace : String := "faultline"
  /-- What the names of generated namespaces start with. -/
  modulePrefix : String := "faultline_"
  /-- The module with the base classes of generated ones. -/
  runtimeModule : String := "faultline.runtime"
  limits : Limits := {}
deriving DecidableEq, Inhabited

end TypedErrors
