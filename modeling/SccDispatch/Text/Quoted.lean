import SccDispatch.Text.Hidden

namespace SccDispatch.Text

def hex (n : Nat) : List Char := Nat.toDigits 16 n

def escapeByNumber (c : Char) : List Char := ['\\', 'u', '{'] ++ hex c.toNat ++ ['}']

def escapeChar (c : Char) : List Char :=
  match c with
  | '\x00' => ['\\', '0']
  | '\t' => ['\\', 't']
  | '\n' => ['\\', 'n']
  | '\r' => ['\\', 'r']
  | '"' => ['\\', '"']
  | '\\' => ['\\', '\\']
  | c => if c.toNat < 0x20 ∨ c.toNat = 0x7F ∨ isHidden c then escapeByNumber c else [c]

def quoted (s : String) : String :=
  String.ofList ('"' :: s.toList.flatMap escapeChar ++ ['"'])

end SccDispatch.Text
