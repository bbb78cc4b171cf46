/-
Messages in their frames.

A base 1.0 frame is the message and a delimiter; a base 1.1 frame is the
message as one chunk, its length announced before it and an end-of-chunks
marker behind it.
-/
import NetconfWire.Chunk.Basic
import NetconfWire.Datum.Text
import NetconfWire.Fault.Basic

namespace NetconfWire.Frame

/-- The delimiter `]]>]]>` that ends a base 1.0 frame. -/
def delimiter : Octets :=
  [0x5D, 0x5D, 0x3E, 0x5D, 0x5D, 0x3E]

/-- A message in a base 1.0 frame. -/
def delimited (message : Octets) : Octets :=
  message ++ delimiter

/-- A message in a base 1.1 frame, as a single chunk. -/
def chunked (message : Octets) : Octets :=
  Chunk.header message.length ++ message ++ Chunk.terminator

/-- A message in the frame of a version. -/
def encode (version : Version) (message : Octets) : Octets :=
  match version with
  | .base10 => delimited message
  | .base11 => chunked message

/-- The octets of a payload; values of other kinds are refused. -/
def payload (given : Datum) : Except Fault Octets :=
  match given with
  | .octets _ b => .ok b
  | _ => .error (.payloadKind given)

/-- Frames a payload.  Only the version itself asks for chunks: what merely names it does not. -/
def ofPayload (version given : Datum) : Except Fault Octets := do
  let message ← payload given
  match version with
  | .version .base11 => return chunked message
  | _ => return delimited message

/-- The version that a value denotes: a version, or a value whose text is its number, with or
without a letter `v` before it. -/
def version (given : Datum) : Except Fault Version :=
  match given with
  | .version v => .ok v
  | _ =>
    if given.isWritable then
      match Version.ofLabel? given.display with
      | some v => .ok v
      | none => .error (.versionUnknown given)
    else .error (.numeral .tooLarge)

end NetconfWire.Frame
