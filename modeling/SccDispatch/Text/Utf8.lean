namespace SccDispatch.Text

def bytes (s : String) : List UInt8 := s.toList.flatMap String.utf8EncodeChar

/-- A character whose last bytes are still to come: how many, between which bounds the next one
lies, and the bits read so far. -/
structure Partial where
  owed : Nat
  lo : UInt8
  hi : UInt8
  value : Nat
  deriving Repr

inductive Lead
  | char (c : Char)
  | more (p : Partial)
  | stray

def Lead.ofByte (b : UInt8) : Lead :=
  let n := b.toNat
  if n < 0x80 then .char (Char.ofNat n)
  else if n < 0xC2 then .stray
  else if n < 0xE0 then .more ⟨1, 0x80, 0xBF, n - 0xC0⟩
  else if n = 0xE0 then .more ⟨2, 0xA0, 0xBF, 0⟩
  else if n = 0xED then .more ⟨2, 0x80, 0x9F, 0xD⟩
  else if n < 0xF0 then .more ⟨2, 0x80, 0xBF, n - 0xE0⟩
  else if n = 0xF0 then .more ⟨3, 0x90, 0xBF, 0⟩
  else if n < 0xF4 then .more ⟨3, 0x80, 0xBF, n - 0xF0⟩
  else if n = 0xF4 then .more ⟨3, 0x80, 0x8F, 4⟩
  else .stray

namespace Partial

def fits (p : Partial) (b : UInt8) : Bool := p.lo ≤ b && b ≤ p.hi

def read (p : Partial) (b : UInt8) : Partial :=
  ⟨p.owed - 1, 0x80, 0xBF, p.value * 64 + (b.toNat - 0x80)⟩

end Partial

/-- Characters of a byte string in order, `none` for each maximal part that is no character. -/
def pieces : Option Partial → List UInt8 → List (Option Char)
  | none, [] => []
  | some _, [] => [none]
  | none, b :: rest =>
    match Lead.ofByte b with
    | .char c => some c :: pieces none rest
    | .more p => pieces (some p) rest
    | .stray => none :: pieces none rest
  | some p, b :: rest =>
    if p.fits b then
      if p.owed ≤ 1 then some (Char.ofNat (p.read b).value) :: pieces none rest
      else pieces (some (p.read b)) rest
    else
      match Lead.ofByte b with
      | .char c => none :: some c :: pieces none rest
      | .more q => none :: pieces (some q) rest
      | .stray => none :: none :: pieces none rest

def replacement : Char := '\uFFFD'

def lossy (bs : List UInt8) : String :=
  String.ofList ((pieces none bs).map fun c => c.getD replacement)

def decode? (bs : List UInt8) : Option String :=
  ((pieces none bs).mapM id).map String.ofList

end SccDispatch.Text
