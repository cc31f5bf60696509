/-!
# Log events

What a component reports while it works: a level, a message and named values. A function that logs
returns its events, oldest first, beside its result.
-/

namespace WalletApi

/-- How much an event matters. -/
inductive LogLevel
  | debug
  | info
  | warn
deriving DecidableEq

/-- The name of a level. -/
def LogLevel.name : LogLevel → String
  | .debug => "DEBUG"
  | .info => "INFO"
  | .warn => "WARN"

/-- **A log event.** -/
structure LogEvent where
  level : LogLevel
  message : String
  fields : List (String × String)
deriving DecidableEq

end WalletApi
