namespace SccDispatch.Text

/-- `num / den` to the nearest whole number, a half to the even neighbour. -/
def roundDiv (num den : Nat) : Nat :=
  let q := num / den
  let r := num % den
  if 2 * r < den then q
  else if den < 2 * r then q + 1
  else q + q % 2

def placed (places n : Nat) : String :=
  let whole := toString (n / Nat.pow 10 places)
  if places = 0 then whole
  else
    let digits := Nat.toDigits 10 (n % Nat.pow 10 places)
    whole ++ "." ++ String.ofList (List.replicate (places - digits.length) '0' ++ digits)

def parts (bits : UInt64) : Nat × Int :=
  let exponent := (bits >>> 52 &&& 0x7FF).toNat
  let fraction := (bits &&& 0xFFFFFFFFFFFFF).toNat
  if exponent = 0 then (fraction, -1074) else (fraction + Nat.pow 2 52, exponent - 1075)

def scaled (places : Nat) (bits : UInt64) : Nat :=
  let (m, e) := parts bits
  match e with
  | .ofNat k => m * Nat.pow 2 k * Nat.pow 10 places
  | .negSucc k => roundDiv (m * Nat.pow 10 places) (Nat.pow 2 (k + 1))

/-- The text of a value with exactly `places` digits after the point. -/
def fixed (places : Nat) (x : Float) : String :=
  let bits := x.toBits
  let sign := if bits >>> 63 = 1 then "-" else ""
  if bits >>> 52 &&& 0x7FF = 0x7FF then
    if bits &&& 0xFFFFFFFFFFFFF = 0 then sign ++ "inf" else "NaN"
  else sign ++ placed places (scaled places bits)

end SccDispatch.Text
