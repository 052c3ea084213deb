import SccDispatch.Yaml.Scalar.Kind

namespace SccDispatch.Yaml

inductive Form
  | plain
  | single
  | double
  | literal
  deriving DecidableEq, Repr

def endsLine (c : Char) : Bool :=
  c == '\n' || c == '\r' || c == '\x85' || c == '\u2028' || c == '\u2029'

def isGap (c : Char) : Bool := c == ' ' || c == '\t' || c == '\x00' || endsLine c

def isPrintable (c : Char) : Bool :=
  let n := c.toNat
  n == 0x0A || (0x20 ≤ n && n ≤ 0x7E) || (0xA0 ≤ n && n != 0xFEFF && n != 0xFFFE && n != 0xFFFF)

def startsWith (p : Char → Bool) (cs : List Char) : Bool :=
  match cs with
  | c :: _ => p c
  | [] => false

def endsWith (p : Char → Bool) (cs : List Char) : Bool :=
  match cs.getLast? with
  | some c => p c
  | none => false

def hasNeighbours (p q : Char → Bool) : List Char → Bool
  | [] => false
  | c :: rest => (p c && startsWith q rest) || hasNeighbours p q rest

def gapNext (cs : List Char) : Bool := cs.isEmpty || startsWith isGap cs

/-- Somewhere a colon stands before a gap, or a number sign behind one. -/
def hasInnerMark : List Char → Bool
  | [] => false
  | c :: rest =>
    (c == ':' && gapNext rest) || (isGap c && startsWith (· == '#') rest) || hasInnerMark rest

/-- The text begins like something else than a scalar. -/
def hasOuterMark : List Char → Bool
  | [] => false
  | c :: rest =>
    "#,[]\x7b\x7d&*!|>'\"%@`".toList.contains c ||
      ((c == '?' || c == ':' || c == '-') && gapNext rest) ||
      (c :: rest).take 3 == ['-', '-', '-'] || (c :: rest).take 3 == ['.', '.', '.']

/-- A character needs an escape, or a space before a line end would be lost. -/
def needsEscape (cs : List Char) : Bool :=
  cs.any (!isPrintable ·) || hasNeighbours (· == ' ') endsLine cs

/-- Written without quotes, the text could be told from everything else. -/
def suitsPlain (cs : List Char) : Bool :=
  !(startsWith (· == ' ') cs || endsWith (· == ' ') cs || cs.any endsLine || needsEscape cs ||
    hasOuterMark cs || hasInnerMark cs)

def suitsSingle (cs : List Char) : Bool :=
  !(needsEscape cs || hasNeighbours endsLine (· == ' ') cs)

def suitsLiteral (cs : List Char) : Bool := !(needsEscape cs || endsWith (· == ' ') cs)

/-- Texts of several lines are written as literal blocks if they can be; others plainly, unless
they would then mean more than themselves or could not be told from the rest. -/
def Form.of (s : String) : Form :=
  let cs := s.toList
  if cs.contains '\n' then if suitsLiteral cs then .literal else .double
  else if !meansMore s && suitsPlain cs then .plain
  else if suitsSingle cs then .single
  else .double

end SccDispatch.Yaml
