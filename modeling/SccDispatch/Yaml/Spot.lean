namespace SccDispatch.Yaml

structure Spot where
  char : Char
  line : Nat
  column : Nat
  offset : Nat
  deriving DecidableEq, Repr

def isBlank (c : Char) : Bool := c == ' ' || c == '\t'

def isBreak (c : Char) : Bool := c == '\n' || c == '\u2028' || c == '\u2029'

def isNameChar (c : Char) : Bool := c.isAlphanum || c == '_' || c == '-'

def isFlowMark (c : Char) : Bool :=
  c == ',' || c == '[' || c == ']' || c == '\x7b' || c == '\x7d'

/-- The mark that may begin a line; it takes a column like any other character. -/
def byteOrderMark : Char := '\uFEFF'

def isAllowed (c : Char) : Bool :=
  let n := c.toNat
  n == 0x09 || n == 0x0A || n == 0x0D || (0x20 ≤ n && n ≤ 0x7E) || n == 0x85 ||
    (0xA0 ≤ n && n != 0xFFFE && n != 0xFFFF)

def evenBreaks : List Char → List Char
  | [] => []
  | '\r' :: '\n' :: rest => '\n' :: evenBreaks rest
  | c :: rest => (if c == '\r' || c == '\x85' then '\n' else c) :: evenBreaks rest

def locate (line column offset : Nat) : List Char → List Spot
  | [] => []
  | c :: rest =>
    ⟨c, line, column, offset⟩ ::
      if isBreak c then locate (line + 1) 0 (offset + c.utf8Size) rest
      else locate line (column + 1) (offset + c.utf8Size) rest

/-- The spots of a text, unless it holds a character that a stream may not hold. -/
def spots? (text : String) : Option (List Spot) :=
  if text.toList.all isAllowed then some (locate 0 0 0 (evenBreaks text.toList))
  else none

def breakAhead : List Spot → Bool
  | [] => true
  | s :: _ => isBreak s.char

def gapAhead : List Spot → Bool
  | [] => true
  | s :: _ => isBlank s.char || isBreak s.char

def charAhead (p : Char → Bool) : List Spot → Bool
  | [] => false
  | s :: _ => p s.char

/-- Three times the same character at the start of a line, with a gap behind. -/
def markAhead (c : Char) : List Spot → Bool
  | x :: y :: z :: rest =>
    x.column == 0 && x.char == c && y.char == c && z.char == c && gapAhead rest
  | _ => false

def documentMarkAhead (s : List Spot) : Bool := markAhead '-' s || markAhead '.' s

def skipBlanks (s : List Spot) : List Spot := s.dropWhile fun x => isBlank x.char

def lineEnd? (s : List Spot) : Option (List Spot) :=
  let s := skipBlanks s
  let s := if charAhead (· == '#') s then s.dropWhile fun x => !isBreak x.char else s
  if breakAhead s then some (s.drop 1) else none

end SccDispatch.Yaml
