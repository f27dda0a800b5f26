import Planimeter.Fault
import Planimeter.Log.Event
/-!
# Settings of a client

How long a client waits for a connection and for an answer, how often it tries again, and how long
it pauses in between: after the first attempt one step, after the second two, up to a bound.
-/
namespace Planimeter

/-- A span of time in nanoseconds, less than two to the power of 64 seconds. -/
structure Duration where
  nanos : Nat
  nanos_lt : nanos < UInt64.size * 1000000000
  deriving DecidableEq, Repr

namespace Duration

def ofNanos? (nanos : Nat) : Option Duration :=
  if h : nanos < UInt64.size * 1000000000 then some ⟨nanos, h⟩ else none

def seconds (n : Nat) (h : n < UInt64.size := by decide) : Duration :=
  ⟨n * 1000000000, Nat.mul_lt_mul_of_pos_right h (by decide)⟩

def millis (n : Nat) (h : n < UInt64.size := by decide) : Duration :=
  ⟨n * 1000000, Nat.mul_lt_mul_of_lt_of_le h (by decide) (by decide)⟩

/-- The whole milliseconds, at most two to the power of 64 less one. -/
def wholeMillis (d : Duration) : Nat := min (d.nanos / 1000000) (UInt64.size - 1)

/-- A multiple, if it is still a duration. -/
def times? (d : Duration) (n : Nat) : Option Duration := ofNanos? (d.nanos * n)

def min (a b : Duration) : Duration := if a.nanos ≤ b.nanos then a else b

end Duration

structure ClientSettings where
  connectTimeout : Duration := .seconds 10
  rpcTimeout : Duration := .seconds 30
  /-- Attempts after the first, below two to the power of 32. -/
  maxRetries : Nat := 3
  baseBackoff : Duration := .millis 100
  maxBackoff : Duration := .seconds 5
  serviceName : String := "area_calculator.v1.Calculator"
  deriving DecidableEq, Repr

namespace ClientSettings

/-- The pause after the attempt with the given number. -/
def backoff (s : ClientSettings) (attempt : Nat) : Except Fault Duration :=
  match s.baseBackoff.times? attempt with
  | some d => .ok (d.min s.maxBackoff)
  | none => .error .durationOverflow

end ClientSettings

end Planimeter
