/-!
# Text without the codes of a terminal

Text that does not go to a terminal is freed of what only a terminal makes use of: control
characters that are no blanks, and escape sequences. A sequence starts with the escape character;
what follows says how far it goes. The short ones end with their last letter, or with a blank that
is a control character, which stays. The long ones hold a text of their own and go on to the next
escape character.
-/

namespace SampleData.Text

/-- How far an escape sequence is read. -/
inductive EscapeState where
  /-- Outside of all sequences. -/
  | outside
  /-- Behind the escape character. -/
  | begun
  /-- Behind the characters that stand before a last letter. -/
  | awaitingLetter
  /-- Behind the numbers of a control sequence. -/
  | numbers
  /-- In a text for the terminal's own system, which a bell ends too. -/
  | command
  /-- In a text for a device. -/
  | device
deriving DecidableEq, Repr

/-- A control character that counts as a blank. -/
def isControlBlank (c : Char) : Bool := c = '\t' || c = '\n' || c = '\x0c' || c = '\r'

/-- A control character of ASCII. -/
def isControl (c : Char) : Bool := c.toNat < 0x20 || c.toNat = 0x7F

/-- The state behind a character that is neither a control character nor kept. -/
def EscapeState.next (c : Char) : EscapeState → EscapeState
  | .outside => .outside
  | .begun =>
    if c.toNat < 0x30 then .awaitingLetter
    else if c = '[' then .numbers
    else if c = ']' then .command
    else if c = 'P' ∨ c = 'X' ∨ c = '^' ∨ c = '_' then .device
    else .outside
  | .awaitingLetter => if c.toNat < 0x30 then .awaitingLetter else .outside
  | .numbers => if c.toNat < 0x40 then .numbers else .outside
  | .command => .command
  | .device => .device

/-- A text in a state holds nothing for others to see. -/
def EscapeState.isLong (s : EscapeState) : Bool := s = .command || s = .device

/-- What is left of a text without control characters and escape sequences. -/
def unstyledFrom (s : EscapeState) : List Char → List Char
  | [] => []
  | c :: cs =>
    if c = '\x1b' then unstyledFrom .begun cs
    else if c = '\x18' ∨ c = '\x1a' then unstyledFrom .outside cs
    else if isControl c then
      if s.isLong then unstyledFrom (if s = .command ∧ c = '\x07' then .outside else s) cs
      else if isControlBlank c then c :: unstyledFrom .outside cs
      else unstyledFrom s cs
    else if s = .outside then c :: unstyledFrom .outside cs
    else unstyledFrom (s.next c) cs

/-- A text without control characters and escape sequences. -/
def unstyled (s : String) : String := String.ofList (unstyledFrom .outside s.toList)

end SampleData.Text
