/-
Reading search patterns.

A pattern is read from the left with one lexeme of foresight; a lexeme is a
character, or a backslash with the character after it.  A pattern for octets has
characters below 256; a pattern for text may use the escapes for code points as
well.  A flaw names the position where it was found, counted in characters from
the start of the pattern.
-/
import NetconfWire.Number.Numeral
import NetconfWire.Pattern.Syntax
import NetconfWire.Text.Quoted

namespace NetconfWire

/-- Why a pattern was refused. -/
inductive PatternFault
  /-- A flaw in the pattern, with its text and its position if it has one. -/
  | flawed (text : String) (position : Option Nat)
  /-- A count of repetitions is beyond what can be counted. -/
  | repetitionTooLarge
  /-- Two flags exclude each other. -/
  | clashingFlags (text : String)
  deriving DecidableEq, Repr

/-- A flag that changes how a pattern matches or is read. -/
inductive PatternFlag
  | fold
  | locale
  | lines
  | dotAll
  | verbose
  | ascii
  | template
  | unicode
  deriving DecidableEq, Repr

namespace PatternFlag

/-- The flag that a letter stands for. -/
def ofLetter? (c : Char) : Option PatternFlag :=
  match c with
  | 'i' => some fold
  | 'L' => some locale
  | 'm' => some lines
  | 's' => some dotAll
  | 'x' => some verbose
  | 'a' => some ascii
  | 't' => some template
  | 'u' => some unicode
  | _ => none

/-- The flag chooses between kinds of characters. -/
def isType : PatternFlag → Bool
  | locale | ascii | unicode => true
  | _ => false

end PatternFlag

namespace PatternReader

/-- A character, or a backslash with the character after it. -/
inductive Lexeme
  | plain (c : Char)
  | escaped (c : Char)
  /-- A backslash at the end of the pattern. -/
  | dangling
  deriving DecidableEq, Repr

/-- The characters of a lexeme. -/
def Lexeme.chars : Lexeme → List Char
  | plain c => [c]
  | escaped c => ['\\', c]
  | dangling => ['\\']

/-- Splits a pattern into lexemes. -/
def lexemes : List Char → List Lexeme
  | [] => []
  | [c] => if c == '\\' then [.dangling] else [.plain c]
  | c :: d :: rest =>
    if c == '\\' then .escaped d :: lexemes rest else .plain c :: lexemes (d :: rest)

/-- What a reader keeps in mind. -/
structure Reading where
  /-- The pattern is one for text. -/
  forText : Bool
  /-- The number of characters read. -/
  position : Nat
  rest : List Lexeme
  flags : List PatternFlag
  /-- The number of groups opened, the whole pattern included. -/
  groups : Nat
  /-- The groups closed, with the width of those that have a fixed one. -/
  closed : List (Nat × Option Nat)
  names : List (String × Nat)
  /-- Groups from this index on belong to the pattern being looked for backwards. -/
  behind : Option Nat
  /-- Conditions on groups, with the position of the first condition on each. -/
  conditions : List (Nat × Nat)

/-- A step of reading. -/
abbrev Read := EStateM PatternFault Reading

/-- Refuses the pattern at a place `back` characters ago. -/
def refuse {α : Type} (text : String) (back : Nat) : Read α := do
  let s ← get
  let shown := if s.forText then text else
    String.ofList (text.toList.flatMap fun c =>
      if c.toNat < 128 then [c] else Text.codeEscape c.toNat)
  throw (.flawed shown (some (s.position - back)))

/-- Refuses the pattern if a lone backslash comes next. -/
def settle : Read Unit := do
  let s ← get
  if s.rest.head? == some .dangling then
    throw (.flawed "bad escape (end of pattern)" (some s.position))

/-- The next lexeme. -/
def peek : Read (Option Lexeme) := do
  return (← get).rest.head?

/-- The next lexeme, which is then read. -/
def advance : Read (Option Lexeme) := do
  let s ← get
  match s.rest with
  | [] => return none
  | x :: rest =>
    set { s with rest := rest, position := s.position + x.chars.length }
    settle
    return some x

/-- Reads the character if it comes next. -/
def accept (c : Char) : Read Bool := do
  if (← peek) == some (.plain c) then
    let _ ← advance
    return true
  else return false

/-- Reads at most `limit` characters that satisfy `p`. -/
def readWhile (p : Char → Bool) : (limit : Nat) → Read (List Char)
  | 0 => return []
  | limit + 1 => do
    match ← peek with
    | some (.plain c) =>
      if p c then
        let _ ← advance
        return c :: (← readWhile p limit)
      else return []
    | _ => return []

/-- Reads up to and with the character `last`; what stands before it is a name. -/
def readUntil (last : Char) (what : String) (read : List Char) : (fuel : Nat) → Read (List Char)
  | 0 => refuse ("missing " ++ what) 0
  | fuel + 1 => do
    match ← advance with
    | none =>
      if read.isEmpty then refuse ("missing " ++ what) 0
      else refuse ("missing " ++ String.ofList [last] ++ ", unterminated name") read.length
    | some x =>
      if x == .plain last then
        if read.isEmpty then refuse ("missing " ++ what) 1 else return read
      else readUntil last what (read ++ x.chars) fuel

/-- A number in the given base. -/
def numberIn (base : Nat) (digits : List Char) : Nat :=
  digits.foldl (fun n c => base * n + (Text.hexValue? c).getD 0) 0

/-- An octal digit. -/
def isOctal (c : Char) : Bool :=
  48 ≤ c.toNat && c.toNat ≤ 55

/-- A hexadecimal digit. -/
def isHex (c : Char) : Bool :=
  (Text.hexValue? c).isSome

/-- Digits of a number. -/
def digits (n : Nat) : String :=
  String.ofList (Numeral.decimal n)

/-- The code of an escape that stands for one character everywhere. -/
def plainEscape? (c : Char) : Option Nat :=
  match c with
  | 'a' => some 7
  | 'b' => some 8
  | 'f' => some 12
  | 'n' => some 10
  | 'r' => some 13
  | 't' => some 9
  | 'v' => some 11
  | '\\' => some 92
  | _ => none

/-- The class of octets that an escape stands for. -/
def classEscape? (c : Char) : Option ClassPart :=
  match c with
  | 'd' => some (.kind .digit false)
  | 'D' => some (.kind .digit true)
  | 's' => some (.kind .space false)
  | 'S' => some (.kind .space true)
  | 'w' => some (.kind .word false)
  | 'W' => some (.kind .word true)
  | _ => none

/-- The anchor that an escape stands for. -/
def anchorEscape? (c : Char) : Option Anchor :=
  match c with
  | 'A' => some .start
  | 'b' => some .wordEdge
  | 'B' => some .noWordEdge
  | 'Z' => some .stop
  | _ => none

/-- Refuses an escape. -/
def badEscape {α : Type} (seen : List Char) : Read α :=
  refuse ("bad escape " ++ String.ofList seen) seen.length

/-- Reads the rest of an escape that gives a code in exactly `width` hexadecimal digits. -/
def hexEscape (c : Char) (width : Nat) : Read Nat := do
  let found ← readWhile isHex width
  let seen := '\\' :: c :: found
  if found.length < width then
    refuse ("incomplete escape " ++ String.ofList seen) seen.length
  else if 0x110000 ≤ numberIn 16 found then badEscape seen
  else return numberIn 16 found

/-- Reads the rest of an escape by code that is written alike inside and outside of classes. -/
def codeEscape? (c : Char) : Read (Option Nat) := do
  let forText := (← get).forText
  if c == 'x' then return some (← hexEscape c 2)
  else if c == 'u' && forText then return some (← hexEscape c 4)
  else if c == 'U' && forText then return some (← hexEscape c 8)
  else return none

/-- The code of an escape that stands for the character itself. -/
def selfEscape (c : Char) : Read Nat := do
  if c.isAlphanum then badEscape ['\\', c] else return c.toNat

/-- Refuses an octal code beyond one octet. -/
def octalCode (seen : List Char) : Read Nat := do
  let n := numberIn 8 (seen.drop 1)
  if 0o377 < n then
    refuse ("octal escape value " ++ String.ofList seen ++ " outside of range 0-0o377") seen.length
  else return n

/-- Reads the rest of an escape inside a class. -/
def escapeInClass (c : Char) : Read ClassPart := do
  if let some n := plainEscape? c then return .code n
  if let some part := classEscape? c then return part
  if let some n ← codeEscape? c then return .code n
  if isOctal c then
    let more ← readWhile isOctal 2
    return .code (← octalCode ('\\' :: c :: more))
  return .code (← selfEscape c)

/-- Refers to a group from inside a pattern that is looked for backwards. -/
def checkBehind (index : Nat) : Read Unit := do
  let s ← get
  if let some first := s.behind then
    if !(s.closed.any (·.1 == index)) then refuse "cannot refer to an open group" 0
    if first ≤ index then
      refuse "cannot refer to group defined in the same lookbehind subpattern" 0

/-- A reference to a group that has to be closed. -/
def recallGroup (index back : Nat) (flags : List PatternFlag) : Read Pattern := do
  if !((← get).closed.any (·.1 == index)) then refuse "cannot refer to an open group" back
  checkBehind index
  return .backReference index (flags.contains .fold)

/-- A class with one code. -/
def codeClass (n : Nat) (flags : List PatternFlag) : Pattern :=
  .one ⟨false, [.code n], flags.contains .fold⟩

/-- What a member of a sequence is, for the repetition that may follow. -/
inductive Role
  | plain
  | anchor
  | repetition
  deriving DecidableEq

/-- A member of a sequence. -/
structure Member where
  pattern : Pattern
  role : Role

/-- Reads the rest of an escape outside of classes. -/
def escapeOutside (c : Char) (flags : List PatternFlag) : Read Member := do
  if let some a := anchorEscape? c then return ⟨.anchor a, .anchor⟩
  if let some part := classEscape? c then
    return ⟨.one ⟨false, [part], flags.contains .fold⟩, .plain⟩
  if let some n := plainEscape? c then return ⟨codeClass n flags, .plain⟩
  if let some n ← codeEscape? c then return ⟨codeClass n flags, .plain⟩
  if c == '0' then
    let more ← readWhile isOctal 2
    return ⟨codeClass (numberIn 8 more) flags, .plain⟩
  if c.isDigit then
    let second ← readWhile Char.isDigit 1
    if isOctal c && second.any isOctal && second.length == 1 then
      let third ← readWhile isOctal 1
      if third.length == 1 then
        return ⟨codeClass (← octalCode ('\\' :: c :: second ++ third)) flags, .plain⟩
    let seen := '\\' :: c :: second
    let index := numberIn 10 (c :: second)
    if index < (← get).groups then return ⟨← recallGroup index seen.length flags, .plain⟩
    refuse ("invalid group reference " ++ digits index) (seen.length - 1)
  return ⟨codeClass (← selfEscape c) flags, .plain⟩

/-- One end of a range in a class. -/
def classMember (x : Lexeme) : Read ClassPart :=
  match x with
  | .plain c => return .code c.toNat
  | .escaped c => escapeInClass c
  | .dangling => return .code 92

/-- Reads the parts of a class up to its closing bracket; the class was opened at `here`. -/
def classParts (here : Nat) (read : List ClassPart) : (fuel : Nat) → Read (List ClassPart)
  | 0 => refuse "unterminated character set" ((here : Nat))
  | fuel + 1 => do
    let unfinished {α : Type} : Read α := do
      refuse "unterminated character set" ((← get).position - here)
    match ← advance with
    | none => unfinished
    | some first =>
      if first == .plain ']' && !read.isEmpty then return read
      let low ← classMember first
      if ← accept '-' then
        match ← advance with
        | none => unfinished
        | some (.plain ']') => return read ++ [low, .code 45]
        | some second =>
          let high ← classMember second
          let bad {α : Type} : Read α :=
            refuse ("bad character range " ++ String.ofList first.chars ++ "-"
              ++ String.ofList second.chars) (first.chars.length + 1 + second.chars.length)
          match low, high with
          | .code lo, .code hi =>
            if hi < lo then bad else classParts here (read ++ [.range lo hi]) fuel
          | _, _ => bad
      else classParts here (read ++ [low]) fuel

/-- The bounds of a repetition: `none` if the brace that began it stands for itself. -/
def braceBounds (here : Nat) : Read (Option (Nat × Option Nat)) := do
  let limit := (← get).rest.length
  let lo ← readWhile Char.isDigit limit
  let comma ← accept ','
  let hi ← if comma then readWhile Char.isDigit limit else pure lo
  if !(← accept '}') then return none
  let bound := 4294967295
  let least := numberIn 10 lo
  let most := if hi.isEmpty then none else some (numberIn 10 hi)
  if bound ≤ least then throw .repetitionTooLarge
  if let some m := most then
    if bound ≤ m then throw .repetitionTooLarge
    if m < least then
      refuse "min repeat greater than max repeat" ((← get).position - here)
  return some (least, most)

/-- A letter, for the wording of a refusal. -/
def isLetter (c : Char) : Bool :=
  c.isAlpha || c == 'ª' || c == 'µ' || c == 'º' ||
    (0xC0 ≤ c.toNat && c != '×' && c != '÷' && Text.isPrintable c)

/-- The name can stand for a group: letters, digits and low lines, and no digit first. -/
def isName (name : List Char) : Bool :=
  let begins := fun c => isLetter c || c == '_'
  match name with
  | [] => false
  | c :: rest => begins c && rest.all fun d => begins d || d.isDigit || d == '·'

/-- Reads letters of flags up to one of the characters in `stops`, which is returned with them;
`first` has been read, and `check` looks at each flag and those before it. -/
def flagLetters (stops : List Char) (missing : String)
    (check : PatternFlag → List PatternFlag → Read Unit) (read : List PatternFlag)
    (first : PatternFlag) : (fuel : Nat) → Read (List PatternFlag × Char)
  | 0 => refuse missing 0
  | fuel + 1 => do
    check first read
    match ← advance with
    | none => refuse missing 0
    | some (.plain c) =>
      if stops.contains c then return (read ++ [first], c)
      match PatternFlag.ofLetter? c with
      | some next => flagLetters stops missing check (read ++ [first]) next fuel
      | none => refuse (if isLetter c then "unknown flag" else missing) 1
    | some x => refuse missing x.chars.length

/-- Checks a flag to be turned on against those before it. -/
def checkOn (flag : PatternFlag) (before : List PatternFlag) : Read Unit := do
  if (← get).forText then
    if flag == .locale then
      refuse "bad inline flags: cannot use 'L' flag with a str pattern" 0
  else if flag == .unicode then
    refuse "bad inline flags: cannot use 'u' flag with a bytes pattern" 0
  if flag.isType && before.any fun f => f.isType && f != flag then
    refuse "bad inline flags: flags 'a', 'u' and 'L' are incompatible" 0

/-- Checks a flag to be turned off. -/
def checkOff (flag : PatternFlag) (_ : List PatternFlag) : Read Unit := do
  if flag.isType then
    refuse "bad inline flags: cannot turn off flags 'a', 'u' and 'L'" 0

/-- The flags that a group turns on and off; `none` if they hold for the whole pattern. -/
def groupFlags (c : Char) : Read (Option (List PatternFlag × List PatternFlag)) := do
  let fuel := (← get).rest.length + 1
  let (on, last) ←
    match PatternFlag.ofLetter? c with
    | some first => flagLetters [')', '-', ':'] "missing -, : or )" checkOn [] first fuel
    | none => pure ([], '-')
  if last == ')' then
    modify fun s => { s with flags := s.flags ++ on }
    return none
  if on.contains .template then refuse "bad inline flags: cannot turn on global flag" 1
  if last != '-' then return some (on, [])
  match ← advance with
  | none => refuse "missing flag" 0
  | some (.plain d) =>
    match PatternFlag.ofLetter? d with
    | none => refuse (if isLetter d then "unknown flag" else "missing flag") 1
    | some first =>
      let (off, _) ← flagLetters [':'] "missing :" checkOff [] first fuel
      if off.contains .template then refuse "bad inline flags: cannot turn off global flag" 1
      if on.any off.contains then refuse "bad inline flags: flag turned on and off" 1
      return some (on, off)
  | some x => refuse "missing flag" x.chars.length

/-- The flags in force inside a group. -/
def combineFlags (flags on off : List PatternFlag) : List PatternFlag :=
  let base := if on.any PatternFlag.isType then flags.filter (!·.isType) else flags
  (base ++ on).filter fun f => !off.contains f

/-- Opens a group. -/
def openGroup (name : Option (List Char)) : Read Nat := do
  let s ← get
  let index := s.groups
  set { s with groups := index + 1 }
  if let some name := name then
    let key := String.ofList name
    if let some (_, old) := s.names.find? (·.1 == key) then
      refuse ("redefinition of group name " ++ Text.quoted key ++ " as group " ++ digits index
        ++ "; was group " ++ digits old) (name.length + 1)
    modify fun s => { s with names := s.names ++ [(key, index)] }
  return index

/-- The width of each closed group that has a fixed one. -/
def closedWidth (s : Reading) (index : Nat) : Option Nat :=
  (s.closed.find? (·.1 == index)).bind (·.2)

/-- The members of a sequence as one pattern. -/
def inRow (members : List Member) : Pattern :=
  members.foldr (fun m p => match p with
    | .empty => m.pattern
    | _ => .seq m.pattern p) .empty

/-- The branches of an alternation as one pattern. -/
def anyOf : List Pattern → Pattern
  | [] => .empty
  | [p] => p
  | p :: rest => .alt p (anyOf rest)

/-- Reads a group name that must be valid. -/
def groupName (last : Char) : Read (List Char) := do
  let fuel := (← get).rest.length + 1
  let name ← readUntil last "group name" [] fuel
  if !isName name then
    refuse ("bad character in group name " ++ Text.quoted (String.ofList name)) (name.length + 1)
  return name

/-- The group that a condition names. -/
def conditionGroup : Read Nat := do
  let fuel := (← get).rest.length + 1
  let name ← readUntil ')' "group name" [] fuel
  let key := String.ofList name
  if isName name then
    match (← get).names.find? (·.1 == key) with
    | some (_, index) => return index
    | none => refuse ("unknown group name " ++ Text.quoted key) (name.length + 1)
  else
    match Numeral.ofText key with
    | .ok (.ofNat index) =>
      if index == 0 then refuse "bad group number" (name.length + 1)
      if 1073741823 ≤ index then
        refuse ("invalid group reference " ++ digits index) (name.length + 1)
      let s ← get
      if !(s.conditions.any (·.1 == index)) then
        set { s with conditions := s.conditions ++ [(index, s.position - name.length - 1)] }
      return index
    | _ => refuse ("bad character in group name " ++ Text.quoted key) (name.length + 1)

/-- Reads a comment up to its closing parenthesis; its group was opened at `start`. -/
def comment (start : Nat) : (fuel : Nat) → Read Unit
  | 0 => refuse "missing ), unterminated comment" 0
  | fuel + 1 => do
    if (← peek).isNone then
      refuse "missing ), unterminated comment" ((← get).position - start)
    if (← advance) == some (.plain ')') then return ()
    comment start fuel

/-- Skips to the end of a line. -/
def skipLine : (fuel : Nat) → Read Unit
  | 0 => return ()
  | fuel + 1 => do
    match ← advance with
    | none => return ()
    | some x => if x == .plain '\n' then return () else skipLine fuel

/-- The flags in force: those of the enclosing group, or of the whole pattern outside of groups. -/
def inForce (flags : Option (List PatternFlag)) : Read (List PatternFlag) := do
  return flags.getD (← get).flags

/-- Expects the parenthesis that closes the group opened at `start`. -/
def closing (start : Nat) : Read Unit := do
  if !(← accept ')') then
    refuse "missing ), unterminated subpattern" ((← get).position - start)

/-- Reads the sign after a repetition that says in which order it tries its counts. -/
def readHunger : Read Hunger := do
  let lazy ← accept '?'
  if lazy then return .lazy
  let possessive ← accept '+'
  if possessive then return .possessive
  return .greedy

/-- Repeats the last member of a sequence; the repetition was read at `here` as `size` characters. -/
def repeatLast (members : List Member) (here size least : Nat) (most : Option Nat) :
    Read (List Member) := do
  let back := (← get).position - here + size
  match members.getLast? with
  | none => refuse "nothing to repeat" back
  | some m =>
    if m.role == .anchor then refuse "nothing to repeat" back
    if m.role == .repetition then refuse "multiple repeat" back
    let hunger ← readHunger
    return members.dropLast ++ [⟨.repeated hunger least most m.pattern, .repetition⟩]

mutual

/-- Reads branches between bars. -/
def alternation (flags : Option (List PatternFlag)) (branches : List Pattern) :
    (fuel : Nat) → Read Pattern
  | 0 => refuse "pattern too deep" 0
  | fuel + 1 => do
    let members ← sequence flags (flags.isNone && branches.isEmpty) [] fuel
    let branches := branches ++ [inRow members]
    if ← accept '|' then alternation flags branches fuel else return anyOf branches

/-- Reads the members of a sequence after those read; `first` if whole-pattern flags may still
come. -/
def sequence (flags : Option (List PatternFlag)) (first : Bool) (members : List Member) :
    (fuel : Nat) → Read (List Member)
  | 0 => refuse "pattern too deep" 0
  | fuel + 1 => do
    let here := (← get).position
    match ← peek with
    | none => return members
    | some (.plain '|') => return members
    | some (.plain ')') => return members
    | some x =>
      let _ ← advance
      let now ← inForce flags
      let more (m : Member) : Read (List Member) := sequence flags first (members ++ [m]) fuel
      match x with
      | .dangling => refuse "bad escape (end of pattern)" 1
      | .escaped c => more (← escapeOutside c now)
      | .plain c =>
        if now.contains .verbose && (c == ' ' || (9 ≤ c.toNat && c.toNat ≤ 13)) then
          sequence flags first members fuel
        else if now.contains .verbose && c == '#' then
          skipLine (fuel + 1)
          sequence flags first members fuel
        else if c == '[' then
          let negated ← accept '^'
          let parts ← classParts here [] (fuel + 1)
          more ⟨.one ⟨negated, parts, now.contains .fold⟩, .plain⟩
        else if c == '.' then
          let parts := if now.contains .dotAll then [] else [.code 10]
          more ⟨.one ⟨true, parts, false⟩, .plain⟩
        else if c == '^' then
          more ⟨.anchor (if now.contains .lines then .lineStart else .start), .anchor⟩
        else if c == '$' then
          more ⟨.anchor (if now.contains .lines then .lineStop else .lastLine), .anchor⟩
        else if c == '?' then
          sequence flags first (← repeatLast members (here + 1) 1 0 (some 1)) fuel
        else if c == '*' then
          sequence flags first (← repeatLast members (here + 1) 1 0 none) fuel
        else if c == '+' then
          sequence flags first (← repeatLast members (here + 1) 1 1 none) fuel
        else if c == '\x7b' then
          let before ← get
          if (← peek) == some (.plain '\x7d') then more ⟨codeClass c.toNat now, .plain⟩
          else
            match ← braceBounds (here + 1) with
            | none =>
              set before
              more ⟨codeClass c.toNat now, .plain⟩
            | some (least, most) =>
              sequence flags first (← repeatLast members (here + 1) 1 least most) fuel
        else if c == '(' then
          match ← group here now (first && members.isEmpty) fuel with
          | some m => more m
          | none => sequence flags first members fuel
        else more ⟨codeClass c.toNat now, .plain⟩

/-- Reads a group that was opened at `start`; `none` if it adds nothing. -/
def group (start : Nat) (now : List PatternFlag) (flagsMayCome : Bool) :
    (fuel : Nat) → Read (Option Member)
  | 0 => refuse "pattern too deep" 0
  | fuel + 1 => do
    let captured (name : Option (List Char)) : Read (Option Member) := do
      let index ← openGroup name
      let p ← alternation (some now) [] fuel
      closing start
      modify fun s =>
        { s with closed := s.closed ++ [(index, p.fixedWidth? (closedWidth s))] }
      return some ⟨.group index p, .plain⟩
    let uncaptured (inside : List PatternFlag) : Read Pattern := do
      let p ← alternation (some inside) [] fuel
      closing start
      return p
    if !(← accept '?') then captured none
    else
      match ← advance with
      | none => refuse "unexpected end of pattern" 0
      | some x =>
        match x with
        | .plain 'P' =>
          if ← accept '<' then captured (some (← groupName '>'))
          else if ← accept '=' then
            let name ← groupName ')'
            let key := String.ofList name
            match (← get).names.find? (·.1 == key) with
            | none => refuse ("unknown group name " ++ Text.quoted key) (name.length + 1)
            | some (_, index) =>
              return some ⟨← recallGroup index (name.length + 1) now, .plain⟩
          else
            match ← advance with
            | none => refuse "unexpected end of pattern" 0
            | some y =>
              refuse ("unknown extension ?P" ++ String.ofList y.chars) (y.chars.length + 2)
        | .plain ':' => return some ⟨← uncaptured now, .plain⟩
        | .plain '#' =>
          comment start (fuel + 1)
          return none
        | .plain '=' => return some ⟨.look true none (← uncaptured now), .plain⟩
        | .plain '!' => return some ⟨.look false none (← uncaptured now), .plain⟩
        | .plain '<' =>
          match ← advance with
          | none => refuse "unexpected end of pattern" 0
          | some y =>
            if y != .plain '=' && y != .plain '!' then
              refuse ("unknown extension ?<" ++ String.ofList y.chars) (y.chars.length + 2)
            let s ← get
            if s.behind.isNone then set { s with behind := some s.groups }
            let p ← alternation (some now) [] fuel
            modify fun t => { t with behind := s.behind }
            closing start
            let width := p.fixedWidth? (closedWidth (← get))
            return some ⟨.look (y == .plain '=') (some (width.getD 0)) p, .plain⟩
        | .plain '(' =>
          let index ← conditionGroup
          checkBehind index
          let p := inRow (← sequence (some now) false [] fuel)
          let q ←
            if ← accept '|' then
              let q := inRow (← sequence (some now) false [] fuel)
              if (← peek) == some (.plain '|') then
                refuse "conditional backref with more than two branches" 0
              pure q
            else pure .empty
          closing start
          return some ⟨.whether index p q, .plain⟩
        | .plain '>' => return some ⟨.atomic (← uncaptured now), .plain⟩
        | .plain c =>
          if (PatternFlag.ofLetter? c).isNone && c != '-' then
            refuse ("unknown extension ?" ++ String.ofList x.chars) (x.chars.length + 1)
          match ← groupFlags c with
          | none =>
            if !flagsMayCome then
              refuse "global flags not at the start of the expression"
                ((← get).position - start)
            return none
          | some (on, off) => return some ⟨← uncaptured (combineFlags now on off), .plain⟩
        | _ => refuse ("unknown extension ?" ++ String.ofList x.chars) (x.chars.length + 1)

end

/-- The name of a kind of repetition, for the wording of a refusal. -/
def hungerName : Hunger → String
  | .greedy => "MAX_REPEAT"
  | .lazy => "MIN_REPEAT"
  | .possessive => "POSSESSIVE_REPEAT"

/-- The text of an obstacle. -/
def obstacleText : Pattern.Obstacle → String
  | .repetition hunger => "internal: unsupported template operator " ++ hungerName hunger
  | .unevenLook => "look-behind requires fixed-width pattern"

/-- Reads a whole pattern. -/
def whole : Read Regex := do
  settle
  let fuel := 3 * (← get).rest.length + 4
  let tree ← alternation none [] fuel
  let s ← get
  let has := s.flags.contains
  if s.forText && has .ascii && has .unicode then
    throw (.clashingFlags "ASCII and UNICODE flags are incompatible")
  if !s.forText && has .ascii && has .locale then
    throw (.clashingFlags "ASCII and LOCALE flags are incompatible")
  if s.rest.length != 0 then refuse "unbalanced parenthesis" 0
  if let some (index, position) := s.conditions.find? fun c => s.groups ≤ c.1 then
    throw (.flawed ("invalid group reference " ++ digits index) (some position))
  if let some why := tree.obstacle? (has .template) (closedWidth s) then
    throw (.flawed (obstacleText why) none)
  return ⟨tree, s.groups - 1⟩

end PatternReader

namespace Regex

/-- Reads a pattern, for text or for octets. -/
def read (forText : Bool) (pattern : List Char) : Except PatternFault Regex :=
  match PatternReader.whole
      ⟨forText, 0, PatternReader.lexemes pattern, [], 1, [], [], none, []⟩ with
  | .ok r _ => .ok r
  | .error e _ => .error e

end Regex

/-- The text of a flaw: its position, and the line and column in a pattern of several lines. -/
def PatternFault.message (pattern : List Char) : PatternFault → String
  | .flawed text none => text
  | .flawed text (some n) =>
    let before := pattern.take n
    let line := before.count '\n' + 1
    let column := (before.reverse.takeWhile (· != '\n')).length + 1
    let d := PatternReader.digits
    text ++ " at position " ++ d n ++
      (if pattern.contains '\n' then " (line " ++ d line ++ ", column " ++ d column ++ ")" else "")
  | .repetitionTooLarge => "the repetition number is too large"
  | .clashingFlags text => text

end NetconfWire
