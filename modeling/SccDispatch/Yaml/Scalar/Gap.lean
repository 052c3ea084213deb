import SccDispatch.Yaml.Spot

namespace SccDispatch.Yaml

/-- Blanks and breaks in order; after an escaped break the line goes on as if it had not ended. -/
structure Gap where
  chars : List Char := []
  escaped : Bool := false
  deriving DecidableEq, Repr

namespace Gap

def empty : Gap := {}

def isEmpty (g : Gap) : Bool := g.chars.isEmpty && !g.escaped

def push (g : Gap) (c : Char) : Gap := { g with chars := g.chars ++ [c] }

def breaks (g : Gap) : List Char := g.chars.filter isBreak

def hasBreak (g : Gap) : Bool := !g.breaks.isEmpty

def text (g : Gap) : List Char :=
  if g.escaped then g.breaks
  else
    match g.breaks with
    | [] => g.chars
    | ['\n'] => [' ']
    | '\n' :: more => more
    | bs => bs

end Gap

end SccDispatch.Yaml
