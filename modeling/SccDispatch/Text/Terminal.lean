import SccDispatch.Text.Quoted

namespace SccDispatch.Text

def isBetween (lo hi : Nat) (c : Char) : Bool := lo ≤ c.toNat && c.toNat ≤ hi

/-- Controls that set text apart are shown as they are. -/
def isLayout (c : Char) : Bool := c == '\t' || c == '\n' || c == '\x0C' || c == '\r'

def isShown (c : Char) : Bool := isLayout c || (0x20 ≤ c.toNat && c != '\x7F')

inductive Control
  | text
  | escape
  /-- Behind an escape character and marks. -/
  | marks
  /-- In a sequence of numbers and marks, which a letter ends. -/
  | numbers
  /-- Before the numbers, marks and letter that a message to a device begins with. -/
  | device
  | deviceNumbers
  | deviceMarks
  /-- In a message, which ends with the byte 0x9C. -/
  | message
  /-- In a title, which ends with a bell. -/
  | title
  deriving DecidableEq, Repr

namespace Control

def afterEscape (c : Char) : Control :=
  if c == '[' then .numbers
  else if c == ']' then .title
  else if c == 'P' then .device
  else if c == 'X' || c == '^' || c == '_' then .message
  else if isBetween 0x20 0x2F c then .marks
  else if isBetween 0x30 0x7E c then .text
  else .escape

def afterDevice (c : Char) : Control :=
  if isBetween 0x20 0x2F c then .deviceMarks
  else if isBetween 0x30 0x3F c then .deviceNumbers
  else if isBetween 0x40 0x7E c then .message
  else .device

def afterDeviceNumbers (c : Char) : Control :=
  if isBetween 0x20 0x2F c then .deviceMarks
  else if isBetween 0x3C 0x7E c then .message
  else .deviceNumbers

def next (s : Control) (c : Char) : Control :=
  if c == '\x18' || c == '\x1A' then .text
  else if c == '\x1B' then .escape
  else
    match s with
    | .text => .text
    | .escape => afterEscape c
    | .marks => if isBetween 0x30 0x7E c then .text else .marks
    | .numbers => if isBetween 0x40 0x7E c then .text else .numbers
    | .device => afterDevice c
    | .deviceNumbers => afterDeviceNumbers c
    | .deviceMarks => if isBetween 0x30 0x7E c then .message else .deviceMarks
    | .message => if (String.utf8EncodeChar c).contains 0x9C then .text else .message
    | .title => if c == '\x07' then .text else .title

def shows (s : Control) (c : Char) : Bool :=
  match s with
  | .text => isShown c
  | .escape | .marks | .numbers => isLayout c
  | _ => false

/-- The characters shown. Layout interrupts a sequence: what follows it is shown up to the next
control, and only characters beyond ASCII make the sequence forgotten meanwhile. -/
def visibleChars (interrupted : Bool) (s : Control) : List Char → List Char
  | [] => []
  | c :: rest =>
    if interrupted && isShown c then
      c :: visibleChars true (if c.toNat < 0x80 then s else .text) rest
    else if s.shows c then c :: visibleChars true (s.next c) rest
    else visibleChars false (s.next c) rest

end Control

def visible (s : String) : String := String.ofList (Control.visibleChars false .text s.toList)

/-- A character as it is written to a terminal, by number if it could command it. -/
def harmlessChar (c : Char) : List Char :=
  if ['\x07', '\x08', '\x0C', '\x1B', '\x7F'].contains c then
    ['\\', 'x', Nat.digitChar (c.toNat / 16), Nat.digitChar (c.toNat % 16)]
  else if isBetween 0x80 0x9F c then escapeByNumber c
  else [c]

def harmless (s : String) : String := String.ofList (s.toList.flatMap harmlessChar)

end SccDispatch.Text
