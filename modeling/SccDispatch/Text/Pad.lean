namespace SccDispatch.Text

inductive Align
  | left
  | right
  | center
  deriving DecidableEq, Repr

structure Field where
  width : Nat
  precision : Option Nat := none
  align : Align := .left
  fill : Char := ' '
  deriving Repr

namespace Field

def cut (f : Field) (cs : List Char) : List Char :=
  match f.precision with
  | some n => cs.take n
  | none => cs

/-- How many fill characters stand before the text; centred text leaves the odd one to the right. -/
def before (f : Field) (room : Nat) : Nat :=
  match f.align with
  | .left => 0
  | .right => room
  | .center => room / 2

def setChars (f : Field) (cs : List Char) : List Char :=
  let shown := f.cut cs
  let room := f.width - shown.length
  List.replicate (f.before room) f.fill ++ shown ++ List.replicate (room - f.before room) f.fill

def set (f : Field) (s : String) : String := String.ofList (f.setChars s.toList)

end Field

end SccDispatch.Text
