/-!
# Statuses of remote calls

A failed call ends with a status: a code, a message, and the chain of errors behind it, outermost
first.
-/
namespace Planimeter

inductive Code where
  | ok | cancelled | unknown | invalidArgument | deadlineExceeded | notFound | alreadyExists
  | permissionDenied | resourceExhausted | failedPrecondition | aborted | outOfRange
  | unimplemented | internal | unavailable | dataLoss | unauthenticated
  deriving DecidableEq, Repr

namespace Code

/-- The codes in the order of their numbers from zero. -/
def all : List Code :=
  [ok, cancelled, unknown, invalidArgument, deadlineExceeded, notFound, alreadyExists,
    permissionDenied, resourceExhausted, failedPrecondition, aborted, outOfRange,
    unimplemented, internal, unavailable, dataLoss, unauthenticated]

def toNat (c : Code) : Nat := all.idxOf c

/-- The code of a number; a number without a code is `unknown`. -/
def ofInt : Int → Code
  | .ofNat n => (all[n]?).getD unknown
  | .negSucc _ => unknown

def text : Code → String
  | ok => "The operation completed successfully"
  | cancelled => "The operation was cancelled"
  | unknown => "Unknown error"
  | invalidArgument => "Client specified an invalid argument"
  | deadlineExceeded => "Deadline expired before operation could complete"
  | notFound => "Some requested entity was not found"
  | alreadyExists => "Some entity that we attempted to create already exists"
  | permissionDenied => "The caller does not have permission to execute the specified operation"
  | resourceExhausted => "Some resource has been exhausted"
  | failedPrecondition => "The system is not in a state required for the operation's execution"
  | aborted => "The operation was aborted"
  | outOfRange => "Operation was attempted past the valid range"
  | unimplemented => "Operation is not implemented or not supported"
  | internal => "Internal error"
  | unavailable => "The service is currently unavailable"
  | dataLoss => "Unrecoverable data loss or corruption"
  | unauthenticated => "The request does not have valid authentication credentials"

end Code

/-- An error behind a status. -/
inductive Source where
  | timeoutExpired
  | other (text : String)
  deriving DecidableEq, Repr

structure Status where
  code : Code
  message : String
  sources : List Source := []
  deriving DecidableEq, Repr

namespace Status

/-- Whether the call ran out of time, as the peer reports it or as the caller noticed it. -/
def isDeadlineExceeded (s : Status) : Bool :=
  s.code == .deadlineExceeded || s.sources.contains .timeoutExpired

/-- Whether the same call may succeed when it is sent again. -/
def isRetryable (s : Status) : Bool := s.code == .unavailable || s.isDeadlineExceeded

end Status

end Planimeter
