/-!
# Log records

What reading and running a program report to a log: a record has a level, says what it is about, and carries named texts.
-/

namespace Scriptlet

/-- How much detail a log record is about. -/
inductive Level where
  | trace | debug
  deriving DecidableEq

/-- The name of a level. -/
def Level.name : Level → String
  | trace => "TRACE"
  | debug => "DEBUG"

/-- A log record. -/
structure Record where
  level : Level
  /-- `event`, or the start or end of a span of time. -/
  what : String
  /-- Names with texts, in the order in which they are reported; a name can come twice. -/
  fields : List (String × String)
  deriving DecidableEq

end Scriptlet
