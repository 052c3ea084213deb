import SccDispatch.Yaml.Scalar.Form
import SccDispatch.Yaml.Spot

namespace SccDispatch.Yaml

def spaces (n : Nat) : List Char := List.replicate n ' '

/-- The text between single quotes; `fresh` says that a line has just begun. -/
def singleBody (indent : Nat) (fresh : Bool) : List Char → List Char
  | [] => if fresh then spaces indent else []
  | c :: rest =>
    if isBreak c then c :: singleBody indent true rest
    else
      (if fresh then spaces indent else []) ++ (if c == '\'' then [c, c] else [c]) ++
        singleBody indent false rest

def writtenSingle (indent : Nat) (cs : List Char) : List Char :=
  '\'' :: singleBody indent false cs ++ ['\'']

def hexDigits : Nat → Nat → List Char
  | 0, _ => []
  | count + 1, n => hexDigits count (n / 16) ++ [(Nat.digitChar (n % 16)).toUpper]

def escapeLetter? (c : Char) : Option Char :=
  match c with
  | '\x00' => some '0'
  | '\x07' => some 'a'
  | '\x08' => some 'b'
  | '\t' => some 't'
  | '\n' => some 'n'
  | '\x0b' => some 'v'
  | '\x0c' => some 'f'
  | '\r' => some 'r'
  | '\x1b' => some 'e'
  | '"' => some '"'
  | '\\' => some '\\'
  | '\x85' => some 'N'
  | '\u2028' => some 'L'
  | '\u2029' => some 'P'
  | _ => none

def escaped (c : Char) : List Char :=
  match escapeLetter? c with
  | some l => ['\\', l]
  | none =>
    let n := c.toNat
    if n ≤ 0xFF then '\\' :: 'x' :: hexDigits 2 n
    else if n ≤ 0xFFFF then '\\' :: 'u' :: hexDigits 4 n
    else '\\' :: 'U' :: hexDigits 8 n

def doubleChar (c : Char) : List Char :=
  if !isPrintable c || endsLine c || c == '"' || c == '\\' then escaped c else [c]

def writtenDouble (cs : List Char) : List Char := '"' :: cs.flatMap doubleChar ++ ['"']

/-- The lines of a literal block; `fresh` says that a line has just begun. -/
def literalBody (indent : Nat) (fresh : Bool) : List Char → List Char
  | [] => if fresh then [] else ['\n']
  | c :: rest =>
    if isBreak c then c :: literalBody indent true rest
    else (if fresh then spaces indent else []) ++ c :: literalBody indent false rest

def depthHint (cs : List Char) : List Char :=
  if startsWith (fun c => c == ' ' || isBreak c) cs then ['2'] else []

def chompHint (cs : List Char) : List Char :=
  match cs.reverse with
  | [] => ['-']
  | c :: before =>
    if !isBreak c then ['-'] else if before.isEmpty || startsWith isBreak before then ['+'] else []

/-- A literal block with its lines at the column `indent`, up to its last line end. -/
def writtenLiteral (indent : Nat) (cs : List Char) : List Char :=
  '|' :: depthHint cs ++ chompHint cs ++ '\n' :: literalBody indent true cs

def written (indent : Nat) (s : String) : List Char :=
  match Form.of s with
  | .plain => s.toList ++ ['\n']
  | .single => writtenSingle indent s.toList ++ ['\n']
  | .double => writtenDouble s.toList ++ ['\n']
  | .literal => writtenLiteral indent s.toList

end SccDispatch.Yaml
