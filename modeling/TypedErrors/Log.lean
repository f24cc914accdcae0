import TypedErrors.Text.CodePoint

/-! # Log records -/

namespace TypedErrors

inductive LogLevel where
  | debug
  | info
deriving DecidableEq, Inhabited

namespace LogLevel

def name : LogLevel → String
  | .debug => "DEBUG"
  | .info => "INFO"

/-- Records below a threshold are not shown. -/
def severity : LogLevel → Nat
  | .debug => 10
  | .info => 20

end LogLevel

structure LogRecord where
  level : LogLevel
  logger : String
  message : Text
deriving DecidableEq, Inhabited

namespace LogRecord

/-- `LEVEL:logger:message`. -/
def text (r : LogRecord) : Text := Text.ofString (r.level.name ++ ":" ++ r.logger ++ ":") ++ r.message

end LogRecord
end TypedErrors
