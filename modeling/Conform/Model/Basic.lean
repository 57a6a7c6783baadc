import Conform.Model.Issue
import Conform.Display.Options
import Conform.Trace

namespace Conform

/-- How a model takes a value: the log records it writes on the way, and a record, the issues it
finds, or a fault of its own. -/
structure Reading where
  log : List LogRecord
  result : Except Fault (Except (List Issue) Value)

structure Model where
  name : String
  read : Display.Options → Value → Reading

end Conform
