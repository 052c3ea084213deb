namespace SccDispatch.Yaml

/-- How a scalar was written, as far as its meaning depends on it. -/
inductive Style
  | plain
  | quoted
  | literal
  | folded
  deriving DecidableEq, Repr

inductive Token
  | version (major minor : Nat)
  /-- From here on the handle stands for the given beginning of a tag. -/
  | tagHandle (handle : String) (start : List UInt8)
  | documentStart
  | documentEnd
  | blockSequenceStart
  | blockMappingStart
  | blockEnd
  | flowSequenceStart
  | flowSequenceEnd
  | flowMappingStart
  | flowMappingEnd
  | blockEntry
  | flowEntry
  | key
  | value
  | alias (name : String)
  | anchor (name : String)
  /-- A tag whose beginning is named by a handle; the empty handle names nothing. -/
  | tag (handle : String) (rest : List UInt8)
  | scalar (style : Style) (text : String)
  deriving DecidableEq, Repr

end SccDispatch.Yaml
