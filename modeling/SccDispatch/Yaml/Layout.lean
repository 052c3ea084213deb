import SccDispatch.Yaml.Scalar.Written
import SccDispatch.Text.Utf8

namespace SccDispatch.Yaml

/-- A key that needs no mark of its own: short, and on one line. -/
def isSimpleKey (s : String) : Bool :=
  !s.toList.any endsLine && (Text.bytes s).length ≤ 128

def step : Nat := 2

def writtenKey (indent : Nat) (key : String) : List Char := (written indent key).dropLast

/-- An entry whose mapping stands at the column `indent`; `value` goes on after the colon. -/
def entry (indent : Nat) (key : String) (value : List Char) : List Char :=
  if isSimpleKey key then spaces indent ++ writtenKey (indent + step) key ++ ':' :: value
  else
    spaces indent ++ ['?', ' '] ++ written (indent + step) key ++ spaces indent ++ ':' :: value

def textEntry (indent : Nat) (key value : String) : List Char :=
  entry indent key (' ' :: written (indent + step) value)

def flagEntry (indent : Nat) (key : String) (value : Bool) : List Char :=
  entry indent key (' ' :: (if value then "true" else "false").toList ++ ['\n'])

def mappingEntry (indent : Nat) (key : String) (entries : List (List Char)) : List Char :=
  entry indent key (if entries.isEmpty then " \x7b\x7d\n".toList else '\n' :: entries.flatten)

end SccDispatch.Yaml
