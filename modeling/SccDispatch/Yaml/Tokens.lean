import SccDispatch.Yaml.Tag
import SccDispatch.Yaml.Scalar.Plain
import SccDispatch.Yaml.Scalar.Quoted
import SccDispatch.Yaml.Scalar.Block

namespace SccDispatch.Yaml

structure KeyStart where
  before : Nat
  /-- Nothing but a key can stand there. -/
  required : Bool
  line : Nat
  column : Nat
  offset : Nat
  deriving DecidableEq, Repr

structure Scan where
  rest : List Spot
  tokens : List Token := []
  /-- Columns of the open block collections, the innermost first. -/
  indents : List Nat := []
  /-- Where the key began that a colon would end now. -/
  key : Option KeyStart := none
  /-- The same outside each open bracket, the innermost first. -/
  outerKeys : List (Option KeyStart) := []
  keyAllowed : Bool := true

namespace Scan

def inFlow (s : Scan) : Bool := !s.outerKeys.isEmpty

def push (s : Scan) (t : Token) : Scan := { s with tokens := t :: s.tokens }

def insert (s : Scan) (n : Nat) (ts : List Token) : Scan :=
  let newer := s.tokens.length - n
  { s with tokens := s.tokens.take newer ++ (ts.reverse ++ s.tokens.drop newer) }

def skip (inFlow keyAllowed inComment : Bool) : List Spot → Bool × List Spot
  | [] => (keyAllowed, [])
  | x :: rest =>
    if isBreak x.char then skip inFlow (keyAllowed || !inFlow) false rest
    else if inComment || (x.column == 0 && x.char == byteOrderMark) || x.char == ' ' ||
      ((inFlow || !keyAllowed) && x.char == '\t') then skip inFlow keyAllowed inComment rest
    else if x.char == '#' then skip inFlow keyAllowed true rest
    else (keyAllowed, x :: rest)

def toToken (s : Scan) : Scan :=
  let (keyAllowed, rest) := skip s.inFlow s.keyAllowed false s.rest
  { s with keyAllowed, rest }

def isDeeper (s : Scan) (column : Nat) : Bool :=
  match s.indents with
  | [] => true
  | c :: _ => c < column

/-- Opens a block collection at the column if none there is open; its first token goes behind the
first `n`. -/
def openBlock (s : Scan) (column n : Nat) (first : Token) : Scan :=
  if !s.inFlow && s.isDeeper column then
    { s.insert n [first] with indents := column :: s.indents }
  else s

def closeBlocks (s : Scan) (p : Nat → Bool) : Scan :=
  if s.inFlow then s
  else
    { s with
      tokens := (s.indents.takeWhile p).map (fun _ => .blockEnd) ++ s.tokens
      indents := s.indents.dropWhile p }

/-- A key that has begun ends on its line, within 1024 bytes. -/
def KeyStart.lasts (k : KeyStart) (x : Spot) : Bool :=
  !(k.line < x.line || k.offset + 1024 < x.offset)

/-- Forgets a key that can not be one any more. -/
def outlived? (x : Spot) : Option KeyStart → Option (Option KeyStart)
  | none => some none
  | some k => if KeyStart.lasts k x then some (some k) else if k.required then none else some none

def dropOutlived? (s : Scan) (x : Spot) : Option Scan := do
  let key ← outlived? x s.key
  let outerKeys ← s.outerKeys.mapM (outlived? x)
  return { s with key, outerKeys }

def noKey? (s : Scan) : Option Scan :=
  match s.key with
  | some k => if k.required then none else some { s with key := none }
  | none => some s

def beginKey? (s : Scan) (x : Spot) : Option Scan :=
  if s.keyAllowed then
    s.noKey?.map fun s =>
      { s with
        key := some
          { before := s.tokens.length
            required := !s.inFlow && s.indents.head? == some x.column
            line := x.line
            column := x.column
            offset := x.offset } }
  else some s

/-- A scalar, alias, anchor or tag, which may be or begin a key. -/
def word? (s : Scan) (x : Spot) (read : Option (Token × List Spot)) : Option Scan := do
  let s ← s.beginKey? x
  let (t, rest) ← read
  return { s.push t with rest, keyAllowed := false }

def plainWord? (s : Scan) (x : Spot) : Option Scan := do
  let place : PlainPlace :=
    { inFlow := s.inFlow
      indent := match s.indents with
        | [] => 0
        | c :: _ => c + 1 }
  let s ← s.beginKey? x
  let r ← plain? place [] .empty s.rest
  return { s.push (.scalar .plain r.text) with rest := r.rest, keyAllowed := r.lineEnded }

def blockWord? (s : Scan) (style : Style) (rest : List Spot) : Option Scan := do
  let s ← s.noKey?
  let (text, rest) ← block? (style == .folded) s.indents.head? rest
  return { s.push (.scalar style text) with rest, keyAllowed := true }

/-- A token that stands at the start of a line, outside all collections. -/
def outermost? (s : Scan) (t : Token) (rest : List Spot) : Option Scan := do
  let s ← (s.closeBlocks fun _ => true).noKey?
  return { s.push t with rest, keyAllowed := false }

def openFlow? (s : Scan) (x : Spot) (t : Token) (rest : List Spot) : Option Scan := do
  let s ← s.beginKey? x
  return { s.push t with rest, key := none, outerKeys := s.key :: s.outerKeys, keyAllowed := true }

def closeFlow? (s : Scan) (t : Token) (rest : List Spot) : Option Scan := do
  let s ← s.noKey?
  let (key, outerKeys) := match s.outerKeys with
    | [] => (none, [])
    | k :: ks => (k, ks)
  return { s.push t with rest, key, outerKeys, keyAllowed := false }

def flowEntry? (s : Scan) (rest : List Spot) : Option Scan := do
  let s ← s.noKey?
  return { s.push .flowEntry with rest, keyAllowed := true }

/-- The mark of an entry or of a key, which in a block opens the collection it belongs to. -/
def blockMark? (s : Scan) (x : Spot) (first t : Token) (rest : List Spot) (keyAllowed : Bool) :
    Option Scan := do
  if !s.inFlow && !s.keyAllowed then none
  let s ← (s.openBlock x.column s.tokens.length first).noKey?
  return { s.push t with rest, keyAllowed }

/-- A colon: what began before it was a key, or the key is empty. -/
def value? (s : Scan) (x : Spot) (rest : List Spot) : Option Scan :=
  match s.key with
  | some k =>
    let s := (s.insert k.before [.key]).openBlock k.column k.before .blockMappingStart
    some { s.push .value with rest, key := none, keyAllowed := false }
  | none =>
    if !s.inFlow && !s.keyAllowed then none
    else
      let s' := s.openBlock x.column s.tokens.length .blockMappingStart
      some { s'.push .value with rest, keyAllowed := !s.inFlow }

def isMark (c : Char) : Bool := "-?:,[]\x7b\x7d#&*!|>'\"%@`".toList.contains c

def plainAhead (s : Scan) (x : Spot) (rest : List Spot) : Bool :=
  !(isBlank x.char || isMark x.char) || (x.char == '-' && !gapAhead rest) ||
    (!s.inFlow && (x.char == '?' || x.char == ':') && !gapAhead rest)

def token? (s : Scan) (x : Spot) (rest : List Spot) : Option Scan :=
  let text (style : Style) (r : Option (String × List Spot)) : Option (Token × List Spot) :=
    r.map fun (t, rest) => (.scalar style t, rest)
  if x.column == 0 && x.char == '%' then do
    let (t, rest) ← directive? rest
    s.outermost? t rest
  else if markAhead '-' (x :: rest) then s.outermost? .documentStart (rest.drop 2)
  else if markAhead '.' (x :: rest) then s.outermost? .documentEnd (rest.drop 2)
  else if x.char == '[' then s.openFlow? x .flowSequenceStart rest
  else if x.char == '\x7b' then s.openFlow? x .flowMappingStart rest
  else if x.char == ']' then s.closeFlow? .flowSequenceEnd rest
  else if x.char == '\x7d' then s.closeFlow? .flowMappingEnd rest
  else if x.char == ',' then s.flowEntry? rest
  else if x.char == '-' && gapAhead rest then
    s.blockMark? x .blockSequenceStart .blockEntry rest true
  else if x.char == '?' && (s.inFlow || gapAhead rest) then
    s.blockMark? x .blockMappingStart .key rest (!s.inFlow)
  else if x.char == ':' && (s.inFlow || gapAhead rest) then s.value? x rest
  else if x.char == '*' then s.word? x ((anchorName? rest).map fun (n, r) => (.alias n, r))
  else if x.char == '&' then s.word? x ((anchorName? rest).map fun (n, r) => (.anchor n, r))
  else if x.char == '!' then s.word? x (tag? s.inFlow rest)
  else if x.char == '|' && !s.inFlow then s.blockWord? .literal rest
  else if x.char == '>' && !s.inFlow then s.blockWord? .folded rest
  else if x.char == '\'' then s.word? x (text .quoted (single? [] .empty rest))
  else if x.char == '"' then s.word? x (text .quoted (double? .text [] .empty rest))
  else if s.plainAhead x rest then s.plainWord? x
  else none

def finish? (s : Scan) : Option (List Token) :=
  (s.closeBlocks fun _ => true).noKey?.map fun s => s.tokens.reverse

/-- Goes on to the end; each step reads a character or more. -/
def run? : Nat → Scan → Option (List Token)
  | 0, _ => none
  | fuel + 1, s =>
    let s := s.toToken
    match s.rest with
    | [] => s.finish?
    | x :: rest => do
      let s ← s.dropOutlived? x
      let s ← (s.closeBlocks fun c => x.column < c).token? x rest
      run? fuel s

end Scan

def tokens? (text : String) : Option (List Token) := do
  let rest ← spots? text
  Scan.run? (rest.length + 1) { rest }

end SccDispatch.Yaml
