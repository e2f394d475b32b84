namespace GoAtlas

inductive LogLevel where
  | debug
  | info
  | warning
  | error
  deriving DecidableEq, Repr

namespace LogLevel

def text : LogLevel → String
  | .debug => "DEBUG"
  | .info => "INFO"
  | .warning => "WARNING"
  | .error => "ERROR"

def rank : LogLevel → Nat
  | .debug => 0
  | .info => 1
  | .warning => 2
  | .error => 3

end LogLevel

/-- A message from one of the parts of the analysis. -/
structure LogRecord where
  level : LogLevel
  source : String
  message : String
  deriving DecidableEq, Repr

namespace LogRecord

/-- A record as a line of text. -/
def line (r : LogRecord) : String :=
  r.level.text ++ " " ++ r.source ++ ": " ++ r.message ++ "\n"

end LogRecord

end GoAtlas
