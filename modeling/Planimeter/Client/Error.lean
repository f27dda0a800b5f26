import Planimeter.Calculation
import Planimeter.Rpc.Status
/-!
# Errors of a client

A client fails in one of four ways, whether it asks a remote service or calculates in its own
process.
-/
namespace Planimeter

inductive ClientError where
  | invalidShape (inner : String)
  | timeout (inner : String)
  | transport (inner : String)
  | internal (inner : String)
  deriving DecidableEq, Repr

namespace ClientError

def inner : ClientError → String
  | invalidShape s => s
  | timeout s => s
  | transport s => s
  | internal s => s

def message : ClientError → String
  | invalidShape s => s!"invalid shape: {s}"
  | timeout s => s!"deadline exceeded: {s}"
  | transport s => s!"gRPC transport error: {s}"
  | internal s => s!"internal error: {s}"

/-- The error that a status of a remote call amounts to. -/
def ofStatus (s : Status) : ClientError :=
  if s.isDeadlineExceeded then timeout s.message
  else if s.code = .invalidArgument then invalidShape s.message
  else transport s!"{s.code.text}: {s.message}"

def ofAreaError (e : AreaError) : ClientError := invalidShape e.message

end ClientError

end Planimeter
