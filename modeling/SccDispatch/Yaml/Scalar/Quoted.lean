import SccDispatch.Yaml.Scalar.Gap
import SccDispatch.Text.Leading

namespace SccDispatch.Yaml

def brokenOff (s : List Spot) : Bool := documentMarkAhead s

/-- Reads to the closing single quote; `done` holds the text so far, last character first. -/
def single? (done : List Char) (g : Gap) : List Spot → Option (String × List Spot)
  | [] => none
  | s :: rest =>
    if isBlank s.char || isBreak s.char then single? done (g.push s.char) rest
    else if brokenOff (s :: rest) then none
    else if s.char == '\'' then
      match rest with
      | t :: rest' =>
        if t.char == '\'' then single? ('\'' :: (g.text.reverse ++ done)) .empty rest'
        else some (String.ofList (g.text.reverse ++ done).reverse, t :: rest')
      | [] => some (String.ofList (g.text.reverse ++ done).reverse, [])
    else single? (s.char :: (g.text.reverse ++ done)) .empty rest

inductive Escape
  | char (c : Char)
  /-- That many hexadecimal digits follow, the number of a character. -/
  | digits (count : Nat)
  deriving DecidableEq, Repr

def escape? (c : Char) : Option Escape :=
  match c with
  | '0' => some (.char '\x00')
  | 'a' => some (.char '\x07')
  | 'b' => some (.char '\x08')
  | 't' => some (.char '\t')
  | '\t' => some (.char '\t')
  | 'n' => some (.char '\n')
  | 'v' => some (.char '\x0b')
  | 'f' => some (.char '\x0c')
  | 'r' => some (.char '\r')
  | 'e' => some (.char '\x1b')
  | ' ' => some (.char ' ')
  | '"' => some (.char '"')
  | '/' => some (.char '/')
  | '\\' => some (.char '\\')
  | 'N' => some (.char '\x85')
  | '_' => some (.char '\xa0')
  | 'L' => some (.char '\u2028')
  | 'P' => some (.char '\u2029')
  | 'x' => some (.digits 2)
  | 'u' => some (.digits 4)
  | 'U' => some (.digits 8)
  | _ => none

def charOf? (n : Nat) : Option Char := if n.isValidChar then some (Char.ofNat n) else none

inductive Inside
  | text
  | escape
  /-- After some digits of an escape, whose value is known, so many more are owed. -/
  | digits (owed value : Nat)

/-- Reads to the closing double quote; `done` holds the text so far, last character first. -/
def double? (inside : Inside) (done : List Char) (g : Gap) : List Spot → Option (String × List Spot)
  | [] => none
  | s :: rest =>
    match inside with
    | .text =>
      if isBlank s.char || isBreak s.char then double? .text done (g.push s.char) rest
      else if brokenOff (s :: rest) then none
      else if s.char == '"' then some (String.ofList (g.text.reverse ++ done).reverse, rest)
      else if s.char == '\\' then double? .escape (g.text.reverse ++ done) .empty rest
      else double? .text (s.char :: (g.text.reverse ++ done)) .empty rest
    | .escape =>
      if isBreak s.char then double? .text done { escaped := true } rest
      else
        match escape? s.char with
        | some (.char c) => double? .text (c :: done) .empty rest
        | some (.digits n) => double? (.digits n 0) done .empty rest
        | none => none
    | .digits owed value =>
      match Text.digit? 16 s.char with
      | none => none
      | some d =>
        let value := value * 16 + d
        if owed ≤ 1 then
          match charOf? value with
          | some c => double? .text (c :: done) .empty rest
          | none => none
        else double? (.digits (owed - 1) value) done .empty rest

end SccDispatch.Yaml
