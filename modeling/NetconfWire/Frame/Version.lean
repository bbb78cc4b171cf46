/-
The two ways of framing messages on a session.

Base 1.0 sessions end every message with a delimiter; base 1.1 sessions send
each message as chunks that announce their length.
-/

namespace NetconfWire

/-- The framing of a session, named for the base capability that asks for it. -/
inductive Version
  | base10
  | base11
  deriving DecidableEq, Repr

namespace Version

/-- The version number. -/
def label : Version → String
  | base10 => "1.0"
  | base11 => "1.1"

/-- The name of the version among its peers. -/
def name : Version → String
  | base10 => "V1_0"
  | base11 => "V1_1"

/-- All versions. -/
def all : List Version := [base10, base11]

/-- The version with the given number, which a letter `v` may precede. -/
def ofLabel? (text : String) : Option Version :=
  let number := match text.toList with
    | 'v' :: rest => String.ofList rest
    | _ => text
  all.find? fun v => v.label == number

end Version

end NetconfWire
