import Planimeter.Rpc.Handler
import Planimeter.Wire.Message
/-!
# Frames and exchanges

A message travels in a frame: a flag byte, the length in four bytes, and the message. This file has
the frames, and the answer of the service to one request with a path, headers and a body of frames.
-/
namespace Planimeter.Rpc

/-- A message may be at most this long when it is received. -/
def messageLimit : Nat := 4194304

def tooLarge (length : Nat) : Status where
  code := .outOfRange
  message := s!"Error, decoded message length too large: found {length} bytes, "
    ++ s!"the limit is: {messageLimit} bytes"

/-- The status for bytes that are no message. -/
def undecodable (f : Wire.Failure) : Status := { code := .internal, message := f.message }

/-- The number that bytes write, the highest first. -/
def bigEndian (bytes : List UInt8) : Nat := bytes.foldl (fun n b => 256 * n + b.toNat) 0

def encodeFrame (message : List UInt8) : List UInt8 :=
  let n := message.length
  0 :: .ofNat (n / 16777216) :: .ofNat (n / 65536) :: .ofNat (n / 256) :: .ofNat n :: message

/-- Checks the flag of a frame. -/
def checkFlag (flag : UInt8) : Except Status Unit :=
  if flag = 0 then .ok ()
  else if flag = 1 then
    .error { code := .internal, message :=
      "protocol error: received message with compressed-flag but no grpc-encoding was specified" }
  else
    .error { code := .internal, message :=
      s!"protocol error: received message with invalid compression flag: {flag.toNat} "
        ++ "(valid flags are 0 and 1), while sending request" }

def endOfStream : Status :=
  { code := .internal, message := "Unexpected EOF decoding stream." }

/-- The messages of all frames of a body. A header at the very end announces a message that never
comes and is passed over; any other cut in a frame is an error. -/
def decodeFrames (decode : List UInt8 → Except Wire.Failure α) (body : List UInt8) :
    Except Status (List α) :=
  match body with
  | [] => .ok []
  | flag :: a :: b :: c :: d :: rest => do
    checkFlag flag
    let length := bigEndian [a, b, c, d]
    if messageLimit < length then throw (tooLarge length)
    if length ≤ rest.length then
      let message ← (decode (rest.take length)).mapError undecodable
      return message :: (← decodeFrames decode (rest.drop length))
    else if rest.isEmpty then return []
    else throw endOfStream
  | _ => .error endOfStream
termination_by body.length
decreasing_by simp only [List.length_drop, List.length_cons]; omega

/-- The first message of a body; the frames after it have to be whole as well. -/
def decodeBody (decode : List UInt8 → Except Wire.Failure α) (body : List UInt8) :
    Except Status α := do
  match ← decodeFrames decode body with
  | message :: _ => return message
  | [] => throw { code := .internal, message := "Missing request message." }

/-- The characters that a status message is written with as they are: visible ASCII without some. -/
def isPlainHeaderByte (b : UInt8) : Bool :=
  0x20 < b && b < 0x7F && !(" \"#%<>?\x60\x7b\x7d".toUTF8.toList.contains b)

private def hexDigit (n : UInt8) : Char :=
  if n < 10 then .ofNat (48 + n.toNat) else .ofNat (55 + n.toNat)

/-- A status message as a header value, with all other bytes as `%` and two digits. -/
def encodeMessage (message : String) : String :=
  String.ofList <| message.toUTF8.toList.flatMap fun b =>
    if isPlainHeaderByte b then [.ofNat b.toNat] else ['%', hexDigit (b / 16), hexDigit (b % 16)]

/-- What the service sends back. Trailers follow a body; without a body there are none. -/
structure Reply where
  headers : List (String × String)
  body : List UInt8
  trailers : Option (List (String × String))
  deriving DecidableEq, Repr

private def contentType : String × String := ("content-type", "application/grpc")

def Reply.ofStatus (s : Status) (metadata : List (String × String)) : Reply where
  headers :=
    [contentType, ("grpc-status", toString s.code.toNat)]
      ++ (if s.message.isEmpty then [] else [("grpc-message", encodeMessage s.message)])
      ++ metadata
  body := []
  trailers := none

def Reply.ofAreas (values : List Binary32) : Reply where
  headers := [contentType]
  body := encodeFrame (Wire.encodeResponse values)
  trailers := some [("grpc-status", "0")]

/-- The reply to a path that names no method. -/
def Reply.unimplemented : Reply where
  headers := [contentType, ("grpc-status", "12")]
  body := []
  trailers := none

/-- The encoding that a request announces and the service does not support, if there is one. -/
def unsupportedEncoding? (headers : List (String × String)) : Option String :=
  match headers.lookup "grpc-encoding" with
  | some "identity" => none
  | other => other

/-- Reads the request of a method out of a body. -/
def readRequest? (path : String) : Option (List UInt8 → Except Status Request) :=
  match path with
  | "/area_calculator.v1.Calculator/CalculateOne" =>
    some fun body => (decodeBody Wire.decodeShape body).map Request.one
  | "/area_calculator.v1.Calculator/CalculateMulti" =>
    some fun body => (decodeBody Wire.decodeRequest body).map Request.multi
  | _ => none

/-- The reply of the service to a request; header names are in lower case. -/
def serve (path : String) (headers : List (String × String)) (body : List UInt8) : Logged Reply :=
  match readRequest? path with
  | none => ⟨[], .unimplemented⟩
  | some read =>
    match unsupportedEncoding? headers with
    | some encoding =>
      let status := {
        code := .unimplemented
        message := s!"Content is compressed with \x60{encoding}\x60 which isn't supported" }
      ⟨[], .ofStatus status [("grpc-accept-encoding", "identity")]⟩
    | none =>
      match read body with
      | .error status => ⟨[], .ofStatus status []⟩
      | .ok request => (handle request).map fun
        | .ok values => .ofAreas values
        | .error status => .ofStatus status []

end Planimeter.Rpc
