import SccDispatch.Yaml.Token
import SccDispatch.Yaml.Spot
import SccDispatch.Text.Leading

namespace SccDispatch.Yaml

def name (s : List Spot) : String × List Spot :=
  (String.ofList ((s.takeWhile fun x => isNameChar x.char).map Spot.char),
    s.dropWhile fun x => isNameChar x.char)

def anchorName? (s : List Spot) : Option (String × List Spot) :=
  let (n, rest) := name s
  let ends := gapAhead rest || charAhead (fun c => "?:,]\x7d%@`".toList.contains c) rest
  if n == "" || !ends then none else some (n, rest)

/-- A character that stands for itself in a tag; some may stand only between pointed brackets. -/
def isTagChar (enclosed : Bool) (c : Char) : Bool :=
  isNameChar c || ";/?:@&=+$.!~*'()".toList.contains c ||
    (enclosed && (c == ',' || c == '[' || c == ']'))

def byteWidth? (b : Nat) : Option Nat :=
  if b < 0x80 then some 1
  else if 0xC0 ≤ b && b < 0xE0 then some 2
  else if 0xE0 ≤ b && b < 0xF0 then some 3
  else if 0xF0 ≤ b && b < 0xF8 then some 4
  else none

/-- Bytes of the character being written that are still owed after the given one. -/
def owedAfter? (owed b : Nat) : Option Nat :=
  if owed == 0 then (byteWidth? b).map (· - 1)
  else if 0x80 ≤ b && b < 0xC0 then some (owed - 1) else none

/-- Reads the bytes of a tag; `owed` bytes of a character written by number are still to come. -/
def tagBytes? (enclosed : Bool) (owed : Nat) (done : List UInt8) :
    List Spot → Option (List UInt8 × List Spot)
  | [] => if owed == 0 then some (done.reverse, []) else none
  | s :: rest =>
    if s.char == '%' then
      match rest with
      | x :: y :: rest' => do
        let b := (← Text.digit? 16 x.char) * 16 + (← Text.digit? 16 y.char)
        tagBytes? enclosed (← owedAfter? owed b) (UInt8.ofNat b :: done) rest'
      | _ => none
    else if owed != 0 then none
    else if isTagChar enclosed s.char then
      tagBytes? enclosed 0 (UInt8.ofNat s.char.toNat :: done) rest
    else some (done.reverse, s :: rest)

def upToZero (bs : List UInt8) : List UInt8 := bs.takeWhile (· != 0)

def handle (s : List Spot) : String × List Spot :=
  let (n, rest) := name s
  match rest with
  | x :: rest' => if x.char == '!' then ("!" ++ n ++ "!", rest') else ("!" ++ n, rest)
  | [] => ("!" ++ n, [])

def asciiBytes (s : String) : List UInt8 := s.toList.map fun c => UInt8.ofNat c.toNat

def isNamed (h : String) : Bool := h != "!" && h.endsWith "!"

def tagParts? (s : List Spot) : Option (String × List UInt8 × List Spot) :=
  match s with
  | x :: rest =>
    if x.char == '<' then do
      let (bs, rest) ← tagBytes? true 0 [] rest
      if bs.isEmpty || !charAhead (· == '>') rest then none
      else some ("", upToZero bs, rest.drop 1)
    else
      let (h, rest) := handle s
      if isNamed h then do
        let (bs, rest) ← tagBytes? false 0 [] rest
        if bs.isEmpty then none else some (h, upToZero bs, rest)
      else do
        let (bs, rest) ← tagBytes? false 0 (asciiBytes (h.drop 1).copy).reverse rest
        let bs := upToZero bs
        if bs.isEmpty then some ("", asciiBytes "!", rest) else some ("!", bs, rest)
  | [] => some ("", asciiBytes "!", [])

def tag? (inFlow : Bool) (s : List Spot) : Option (Token × List Spot) := do
  let (h, bs, rest) ← tagParts? s
  if gapAhead rest || (inFlow && charAhead (· == ',') rest) then some (.tag h bs, rest) else none

def shortNumber? (s : List Spot) : Option (Nat × List Spot) :=
  let ds := (s.takeWhile fun x => x.char.isDigit).map Spot.char
  if ds.isEmpty || 9 < ds.length then none
  else some (Text.digits 10 0 ds, s.dropWhile fun x => x.char.isDigit)

def version? (s : List Spot) : Option (Token × List Spot) := do
  let (major, rest) ← shortNumber? s
  if !charAhead (· == '.') rest then none
  let (minor, rest) ← shortNumber? (rest.drop 1)
  some (.version major minor, rest)

def tagHandle? (s : List Spot) : Option (Token × List Spot) := do
  if !charAhead (· == '!') s then none
  let (h, rest) := handle (s.drop 1)
  if !(h == "!" || isNamed h) || !charAhead isBlank rest then none
  let (bs, rest) ← tagBytes? true 0 [] (skipBlanks rest)
  if bs.isEmpty || !gapAhead rest then none else some (.tagHandle h (upToZero bs), rest)

def directive? (s : List Spot) : Option (Token × List Spot) := do
  let (n, rest) := name s
  if !gapAhead rest then none
  let (token, rest) ← match n with
    | "YAML" => version? (skipBlanks rest)
    | "TAG" => tagHandle? (skipBlanks rest)
    | _ => none
  return (token, ← lineEnd? rest)

end SccDispatch.Yaml
