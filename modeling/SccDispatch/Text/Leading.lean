namespace SccDispatch.Text

def isBlank (c : Char) : Bool := c == ' ' || (9 ≤ c.toNat && c.toNat ≤ 13)

def digit? (base : Nat) (c : Char) : Option Nat :=
  let n := c.toNat
  let v := if 48 ≤ n && n ≤ 57 then n - 48
    else if 97 ≤ n && n ≤ 102 then n - 87
    else if 65 ≤ n && n ≤ 70 then n - 55
    else base
  if v < base then some v else none

def digits (base : Nat) : Nat → List Char → Nat
  | acc, [] => acc
  | acc, c :: rest =>
    match digit? base c with
    | some v => digits base (acc * base + v) rest
    | none => acc

def signed : List Char → Bool × List Char
  | '-' :: rest => (true, rest)
  | '+' :: rest => (false, rest)
  | cs => (false, cs)

def basePart (cs : List Char) : Nat × List Char :=
  match cs with
  | '0' :: x :: d :: rest =>
    if (x == 'x' || x == 'X') && (digit? 16 d).isSome then (16, d :: rest) else (8, cs)
  | '0' :: _ => (8, cs)
  | _ => (10, cs)

/-- Numbers beyond 64 bits stop at the nearest one inside. -/
def clamp (n : Int) : Int := max (-Int.pow 2 63) (min n (Int.pow 2 63 - 1))

/-- The leading number, in base ten or in the base that the text tells, kept to 32 bits. -/
def leading (anyBase : Bool) (s : String) : Int32 :=
  let (neg, cs) := signed (s.toList.dropWhile isBlank)
  let (base, ds) := if anyBase then basePart cs else (10, cs)
  let n : Int := digits base 0 ds
  Int32.ofInt (clamp (if neg then -n else n))

end SccDispatch.Text
