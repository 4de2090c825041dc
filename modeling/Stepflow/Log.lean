/-!
# Stepflow.Log — records for the operator

What the library reports about its own work, in the order in which it happens.
-/

namespace Stepflow

/-- How much a record matters. -/
inductive Level where
  | debug
  | info
  | warning
  | error
deriving DecidableEq

/-- The name of a level. -/
def Level.name : Level → String
  | .debug => "DEBUG"
  | .info => "INFO"
  | .warning => "WARNING"
  | .error => "ERROR"

/-- A record of the log. -/
structure LogEntry where
  level : Level
  message : String
deriving DecidableEq

end Stepflow
