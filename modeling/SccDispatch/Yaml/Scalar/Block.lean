import SccDispatch.Yaml.Scalar.Gap

namespace SccDispatch.Yaml

inductive Chomp
  | strip
  | clip
  | keep
  deriving DecidableEq, Repr

structure BlockHeader where
  chomp : Chomp := .clip
  /-- How much deeper than the block around it the scalar stands, if that is said. -/
  depth : Option Nat := none
  deriving DecidableEq, Repr

def chomp? (c : Char) : Option Chomp :=
  if c == '+' then some .keep else if c == '-' then some .strip else none

def depth? (c : Char) : Option Nat :=
  if c.isDigit && c != '0' then some (c.toNat - 48) else none

/-- Reads the header after its first mark, with the line it stands on. -/
def blockHeader? (s : List Spot) : Option (BlockHeader × List Spot) :=
  let chomped (s : List Spot) : Option Chomp × List Spot :=
    match s with
    | x :: rest => ((chomp? x.char), if (chomp? x.char).isSome then rest else s)
    | [] => (none, [])
  let deepened (s : List Spot) : Option Nat × List Spot :=
    match s with
    | x :: rest => ((depth? x.char), if (depth? x.char).isSome then rest else s)
    | [] => (none, [])
  let (before, s) := chomped s
  let (depth, s) := deepened s
  let (after, s) := if before.isNone && depth.isSome then chomped s else (none, s)
  (lineEnd? s).map fun rest => (⟨(before.or after).getD .clip, depth⟩, rest)

/-- The deepest column that the spaces of the first lines reach, up to the first line that holds
more; `none` if a tab stands among them. -/
def margin? (deepest : Nat) : List Spot → Option Nat
  | [] => some deepest
  | s :: rest =>
    if s.char == ' ' then margin? (max deepest (s.column + 1)) rest
    else if s.char == '\t' then none
    else if isBreak s.char then margin? deepest rest
    else some deepest

structure BlockRead where
  done : List Char := []
  ended : List Char := []
  empties : List Char := []
  /-- The last line with text began with a blank. -/
  indented : Bool := false
  inLine : Bool := false

namespace BlockRead

/-- Begins a line with the given character, joining it to the lines before. -/
def beginLine (b : BlockRead) (folds : Bool) (c : Char) : BlockRead :=
  let joint :=
    if folds && b.ended == ['\n'] && !b.indented && !isBlank c then
      if b.empties.isEmpty then [' '] else []
    else b.ended
  { done := c :: (b.empties ++ joint ++ b.done), indented := isBlank c, inLine := true }

def text (b : BlockRead) (chomp : Chomp) : String :=
  String.ofList <| List.reverse <|
    match chomp with
    | .strip => b.done
    | .clip => b.ended ++ b.done
    | .keep => b.empties ++ b.ended ++ b.done

end BlockRead

def blockLines? (folds : Bool) (column : Nat) (b : BlockRead) :
    List Spot → Option (BlockRead × List Spot)
  | [] => some (b, [])
  | s :: rest =>
    if b.inLine then
      if isBreak s.char then
        blockLines? folds column { b with ended := [s.char], inLine := false } rest
      else blockLines? folds column { b with done := s.char :: b.done } rest
    else if s.column < column && s.char == ' ' then blockLines? folds column b rest
    else if s.column < column && s.char == '\t' then none
    else if isBreak s.char then
      blockLines? folds column { b with empties := s.char :: b.empties } rest
    else if s.column < column then some (b, s :: rest)
    else blockLines? folds column (b.beginLine folds s.char) rest

/-- The column of the lines when the header does not say it, from the deepest column of the first
lines and the column of the block around. -/
def lineColumn (around : Option Nat) (deepest : Nat) : Nat :=
  match around with
  | some c => max deepest (c + 1)
  | none => max deepest 1

def block? (folds : Bool) (around : Option Nat) (s : List Spot) : Option (String × List Spot) := do
  let (header, rest) ← blockHeader? s
  let column ← match header.depth with
    | some n => some (around.getD 0 + n)
    | none => (margin? 0 rest).map (lineColumn around)
  let (b, rest) ← blockLines? folds column {} rest
  return (b.text header.chomp, rest)

end SccDispatch.Yaml
