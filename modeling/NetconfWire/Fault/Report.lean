/-
The wording of faults.

A report has the kind of a fault, its message, the kind of the fault that
caused it, and the facts that go with it by name.
-/
import NetconfWire.Datum.Text
import NetconfWire.Fault.Basic

namespace NetconfWire

/-- The kinds of fault that callers can tell apart. -/
inductive FaultKind
  /-- Any fault of a session. -/
  | session
  /-- Any fault of framing. -/
  | framing
  | closed
  | chunkHeader
  | chunkOverrun
  | frameIncomplete
  | frameTooLarge
  | helloEncoding
  | helloDecoding
  | value
  | kind
  | overflow
  | field
  | pattern
  | textEncoding
  | textDecoding
  | markup
  | link
  | linkReset
  | linkBroken
  | linkTimeout
  deriving DecidableEq, Repr

namespace FaultKind

/-- After a fault of this kind the position in the incoming stream cannot be trusted. -/
def isFraming : FaultKind → Bool
  | framing | chunkHeader | chunkOverrun | frameIncomplete | frameTooLarge => true
  | _ => false

/-- The fault is one of sessions, not one of values or of the link. -/
def isSession : FaultKind → Bool
  | session | closed | helloEncoding | helloDecoding => true
  | k => k.isFraming

end FaultKind

/-- The kind of trouble with a link. -/
def Trouble.kind : Trouble → FaultKind
  | failed => .link
  | reset => .linkReset
  | brokenPipe => .linkBroken
  | timedOut => .linkTimeout
  | refused => .value

/-- What callers learn of a fault. -/
structure Report where
  kind : FaultKind
  message : String
  cause : Option FaultKind
  facts : List (String × Datum)
  deriving Repr

namespace Report

/-- A report with a message only. -/
def plain (which : FaultKind) (message : String) : Report :=
  ⟨which, message, none, []⟩

/-- A report of which only some values are known: the message is the one value, or all of them in
parentheses. -/
def ofValues (which : FaultKind) (values : List Datum) : Report :=
  plain which <| match values with
    | [] => ""
    | [d] => d.display
    | _ => "(" ++ Datum.commaSeparated (values.map Datum.quoted) ++ ")"

/-- An invalid chunk header. -/
def chunkHeader (offset header decoded : Datum) : Report :=
  ⟨.chunkHeader, "Invalid chunk length " ++ header.quoted ++ " at offset " ++ offset.display, none,
    [("offset", offset), ("header", header), ("decoded", decoded)]⟩

/-- A chunk that is longer than its frame. -/
def chunkOverrun (offset length available decoded : Datum) : Report :=
  ⟨.chunkOverrun,
    "Chunk at offset " ++ offset.display ++ " declares " ++ length.display
      ++ " octets but only " ++ available.display ++ " are present",
    none,
    [("offset", offset), ("length", length), ("available", available), ("decoded", decoded)]⟩

/-- The message about a stream that ended inside a frame. -/
def endOfStream (buffered : Datum) : String :=
  "End of stream with " ++ buffered.display ++ " octets of an unterminated frame"

/-- A stream that ended inside a frame. -/
def frameIncomplete (buffered : Datum) : Report :=
  ⟨.frameIncomplete, endOfStream buffered, none, [("buffered", buffered)]⟩

/-- A frame beyond the limit. -/
def frameTooLarge (buffered limit : Datum) : Report :=
  ⟨.frameTooLarge,
    "No frame boundary within " ++ buffered.display ++ " octets (limit is " ++ limit.display ++ ")",
    none, [("buffered", buffered), ("max_size", limit)]⟩

/-- A document that is no acceptable `<hello>`. -/
def helloDecoding (raw : Datum) (message : String) (cause : Option FaultKind) : Report :=
  ⟨.helloDecoding, message, cause, [("raw", raw)]⟩

end Report

/-- The kind of a fault of content. -/
def ContentFault.kind : ContentFault → FaultKind
  | notText _ | notNumeric _ => .kind
  | characters | numeral _ | notANumber => .value

/-- The wording of a fault of content. -/
def ContentFault.message : ContentFault → String
  | notText kind => "Argument must be bytes or unicode, got '" ++ kind ++ "'"
  | characters =>
    "All strings must be XML compatible: Unicode or ASCII, no NULL bytes or control characters"
  | numeral why => why.message
  | notNumeric kind =>
    "int() argument must be a string, a bytes-like object or a real number, not '" ++ kind ++ "'"
  | notANumber => "cannot convert float NaN to integer"

/-- The wording of the refusal of a text that declares an encoding. -/
def declaredEncodingMessage : String :=
  "Unicode strings with encoding declaration are not supported. "
    ++ "Please use bytes input or XML fragments without declaration."

/-- The wording of a flaw of a `<hello>`. -/
def HelloFlaw.message : HelloFlaw → String
  | malformed => "Malformed <hello>: <XMLSyntaxError>"
  | declaresEncoding => "Malformed <hello>: " ++ declaredEncodingMessage
  | wrongRoot tag => "Expected <hello>, got " ++ tag
  | noCapability => "<hello> does not advertise any capability"
  | badSessionId text =>
    "Invalid session-id " ++ (match text with
      | some s => Text.quoted s
      | none => Datum.null.quoted)

/-- The kind of the fault that made a flaw known. -/
def HelloFlaw.cause : HelloFlaw → Option FaultKind
  | malformed => some .markup
  | declaresEncoding | badSessionId _ => some .value
  | wrongRoot _ | noCapability => none

/-- The kind of a fault of a pattern. -/
def PatternFault.kind : PatternFault → FaultKind
  | flawed _ _ => .pattern
  | repetitionTooLarge => .overflow
  | clashingFlags _ => .value

/-- The kind of a fault of a charset. -/
def CharsetFault.kind : CharsetFault → FaultKind
  | unencodable .. => .textEncoding
  | undecodable .. => .textDecoding

namespace Fault

/-- A count as a value. -/
def count (n : Nat) : Datum :=
  .integer n

/-- What callers learn of the fault. -/
def report : Fault → Report
  | sessionClosed => .plain .closed "Transport is closed"
  | chunkHeader offset header decoded =>
    .chunkHeader (count offset) (.octets .frozen header) (count decoded)
  | chunkOverrun offset length available decoded =>
    .chunkOverrun (count offset) (count length) (count available) (count decoded)
  | frameIncomplete buffered => .frameIncomplete (count buffered)
  | frameTooLarge buffered limit => .frameTooLarge (count buffered) (count limit)
  | helloEmpty => .plain .helloEncoding "A <hello> must advertise at least one capability"
  | helloUnwritable why =>
    ⟨.helloEncoding, "Cannot encode <hello>: " ++ why.message, some why.kind, []⟩
  | helloUnreadable raw why => .helloDecoding raw why.message why.cause
  | numeral why => .plain .value why.message
  | infiniteInteger => .plain .overflow "cannot convert float infinity to integer"
  | versionUnknown given =>
    .plain .value ("Unsupported message framing mode " ++ given.display)
  | payloadKind given =>
    .plain .kind ("NETCONF payloads must be bytes, not " ++ given.kindName)
  | delimiterEmpty => .plain .value "Delimiter must not be empty"
  | windowTooNarrow => .plain .value "buffer_size must be at least 2"
  | limitBelowWindow => .plain .value "max_frame_size must not be smaller than buffer_size"
  | notIterable kind => .plain .kind ("'" ++ kind ++ "' object is not iterable")
  | unfilable kind => .plain .kind ("unhashable type: '" ++ kind ++ "'")
  | charset why => .plain why.kind why.message
  | pattern source why => .plain why.kind (why.message source)
  | notAPattern => .plain .kind "first argument must be string or compiled pattern"
  | textPattern => .plain .kind "cannot use a string pattern on a bytes-like object"
  | malformedMarkup => .plain .markup ""
  | notADocument kind =>
    .plain .kind ("memoryview: a bytes-like object is required, not '" ++ kind ++ "'")
  | declaresEncoding => .plain .value declaredEncodingMessage
  | fixedField => .plain .field ""
  | classField kind =>
    .plain .kind ("__class__ must be set to a class, not '" ++ kind ++ "' object")
  | foreign trouble text => .plain trouble.kind text

end Fault

end NetconfWire
