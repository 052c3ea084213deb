import SccDispatch.Text.Leading

namespace SccDispatch.Yaml

def isNull (s : String) : Bool := ["", "~", "null", "Null", "NULL"].contains s

def isFlag (s : String) : Bool :=
  ["true", "True", "TRUE", "false", "False", "FALSE"].contains s

def after? : List Char → List Char → Option (List Char)
  | [], cs => some cs
  | p :: ps, c :: cs => if p == c then after? ps cs else none
  | _ :: _, [] => none

def withoutPlus : List Char → List Char
  | '+' :: cs => cs
  | cs => cs

def withoutSign : List Char → List Char
  | '+' :: cs => cs
  | '-' :: cs => cs
  | cs => cs

def natural? (base : Nat) (cs : List Char) : Option Nat :=
  if cs.isEmpty || !cs.all (fun c => (Text.digit? base c).isSome) then none
  else some (Text.digits base 0 cs)

/-- Digits after a leading zero write no number. -/
def isPadded (cs : List Char) : Bool :=
  match withoutSign cs with
  | '0' :: d :: ds => (d :: ds).all Char.isDigit
  | _ => false

def magnitude? (cs : List Char) : Option Nat :=
  match after? ['0', 'x'] cs, after? ['0', 'o'] cs, after? ['0', 'b'] cs with
  | some ds, _, _ => natural? 16 ds
  | _, some ds, _ => natural? 8 ds
  | _, _, some ds => natural? 2 ds
  | _, _, _ => natural? 10 cs

/-- Whole numbers go up to 128 bits, those below zero to 127. -/
def isWhole (s : String) : Bool :=
  let cs := s.toList
  let least (bound : Nat) : Option Nat → Bool
    | some n => n < bound
    | none => false
  !isPadded cs &&
    match cs with
    | '-' :: ds => least (Nat.pow 2 127 + 1) (magnitude? ds)
    | _ => least (Nat.pow 2 128) (magnitude? (withoutPlus cs))

def isNamedNumber (s : String) : Bool :=
  let names := [".inf", ".Inf", ".INF"]
  (names ++ names.map ("+" ++ ·) ++ names.map ("-" ++ ·) ++ [".nan", ".NaN", ".NAN"]).contains s

structure Decimal where
  digits : List Char
  exponent : Int

namespace Decimal

def exponent? (cs : List Char) : Option Int :=
  match cs with
  | [] => some 0
  | e :: rest =>
    if e == 'e' || e == 'E' then
      match rest with
      | '-' :: ds => (natural? 10 ds).map fun n => -(n : Int)
      | _ => (natural? 10 (withoutPlus rest)).map fun n => (n : Int)
    else none

def ofChars? (cs : List Char) : Option Decimal :=
  let whole := cs.takeWhile Char.isDigit
  let rest := cs.dropWhile Char.isDigit
  let fraction := match rest with
    | '.' :: ds => ds.takeWhile Char.isDigit
    | _ => []
  let rest := match rest with
    | '.' :: ds => ds.dropWhile Char.isDigit
    | _ => rest
  let digits := whole ++ fraction
  if digits.isEmpty then none
  else (exponent? rest).map fun e => ⟨digits, e - fraction.length⟩

def significant (d : Decimal) : List Char := d.digits.dropWhile (· == '0')

/-- The number rounds to a finite one of double precision. Its power of ten settles that unless it
is near the largest. -/
def isFinite (d : Decimal) : Bool :=
  let bound : Nat := Nat.pow 2 1024 - Nat.pow 2 970
  let ds := d.significant
  let power : Int := ds.length + d.exponent
  if ds.isEmpty || power < 300 then true
  else if 320 < power then false
  else if 0 ≤ d.exponent then Text.digits 10 0 ds * Nat.pow 10 d.exponent.toNat < bound
  else Text.digits 10 0 ds < bound * Nat.pow 10 (-d.exponent).toNat

end Decimal

/-- The text writes a finite number, with one sign at most. -/
def isFractional (s : String) : Bool :=
  match Decimal.ofChars? (withoutSign s.toList) with
  | some d => d.isFinite
  | none => false

/-- Written plainly, the text would be a null, a flag or a number, or looks too much like one. -/
def meansMore (s : String) : Bool :=
  isNull s || isFlag s || isWhole s || isNamedNumber s || isFractional s || isPadded s.toList

end SccDispatch.Yaml
