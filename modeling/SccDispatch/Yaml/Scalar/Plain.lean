import SccDispatch.Yaml.Scalar.Gap

namespace SccDispatch.Yaml

structure PlainPlace where
  inFlow : Bool
  indent : Nat

namespace PlainPlace

/-- A scalar that has come to a gap does not go on after it. -/
def endsAfter (p : PlainPlace) (g : Gap) (s : Spot) (rest : List Spot) : Bool :=
  !g.isEmpty && (documentMarkAhead (s :: rest) || s.char == '#' ||
    (!p.inFlow && s.column < p.indent))

def endsAt (p : PlainPlace) (s : Spot) (rest : List Spot) : Bool :=
  (s.char == ':' && gapAhead rest) || (p.inFlow && isFlowMark s.char)

/-- Inside brackets a colon must not touch a mark that could end the scalar. -/
def forbids (p : PlainPlace) (s : Spot) (rest : List Spot) : Bool :=
  p.inFlow && s.char == ':' && charAhead (fun c => c == '?' || isFlowMark c) rest

/-- A tab must not stand in for the spaces of an indentation. -/
def forbidsBlank (p : PlainPlace) (g : Gap) (s : Spot) : Bool :=
  s.char == '\t' && g.hasBreak && s.column < p.indent

end PlainPlace

structure PlainRead where
  text : String
  lineEnded : Bool
  rest : List Spot

/-- Reads a plain scalar; `done` holds its text so far, last character first. -/
def plain? (p : PlainPlace) (done : List Char) (g : Gap) : List Spot → Option PlainRead
  | [] => some ⟨String.ofList done.reverse, g.hasBreak, []⟩
  | s :: rest =>
    if isBlank s.char then if p.forbidsBlank g s then none else plain? p done (g.push s.char) rest
    else if isBreak s.char then plain? p done (g.push s.char) rest
    else if p.endsAfter g s rest || p.endsAt s rest then
      some ⟨String.ofList done.reverse, g.hasBreak, s :: rest⟩
    else if p.forbids s rest then none
    else plain? p (s.char :: (g.text.reverse ++ done)) .empty rest

end SccDispatch.Yaml
