namespace SccDispatch.CommandLine

inductive Effect
  /-- It takes a value, which has this name in descriptions. -/
  | takes (valueName : String)
  | switchesOn
  | showsHelp
  | showsVersion
  deriving DecidableEq, Repr

structure Flag where
  long : String
  short : Char
  effect : Effect
  about : String := ""
  /-- The value it has when it is not given. -/
  default : Option String := none
  deriving DecidableEq, Repr

def Flag.text (f : Flag) : String :=
  match f.effect with
  | .takes valueName => "--" ++ f.long ++ " <" ++ valueName ++ ">"
  | _ => "--" ++ f.long

inductive Operands
  | none
  | one (name : String)
  | many (name : String)
  deriving DecidableEq, Repr

structure Grammar where
  name : String
  about : String
  flags : List Flag
  operands : Operands := .none
  deriving DecidableEq, Repr

structure Words where
  given : List (Flag × Option String) := []
  operands : List String := []
  deriving DecidableEq, Repr

namespace Words

def value? (w : Words) (long : String) : Option String :=
  (w.given.find? fun g => g.1.long == long) >>= Prod.snd

def has (w : Words) (long : String) : Bool := w.given.any fun g => g.1.long == long

end Words

inductive UsageError
  | unexpected (word : String)
  | unexpectedValue (value : String) (flag : Flag)
  | unknownCommand (word : String)
  | noCommand
  | noOperand
  | noValue (flag : Flag)
  | repeated (flag : Flag)
  deriving DecidableEq, Repr

inductive Halt
  | usage (e : UsageError)
  | help
  | version
  deriving DecidableEq, Repr

structure Reading where
  words : Words := {}
  /-- An option that was met last, with its value if that was met too. -/
  pending : Option (Flag × Option String) := none
  /-- The next word is the value of the pending option, unless it is an option itself. -/
  awaits : Bool := false
  verbatim : Bool := false

namespace Reading

def fail {α : Type} (e : UsageError) : Except Halt α := .error (.usage e)

def note (r : Reading) (f : Flag) (value : Option String) : Except Halt Reading :=
  if r.words.has f.long then fail (.repeated f)
  else .ok { r with words := { r.words with given := r.words.given ++ [(f, value)] } }

/-- Notes the pending option, which must have its value by now. -/
def settle (r : Reading) : Except Halt Reading :=
  match r.pending with
  | none => .ok r
  | some (f, none) => fail (.noValue f)
  | some (f, some v) => { r with pending := none, awaits := false }.note f (some v)

def meet (r : Reading) (f : Flag) (attached : Option String) : Except Halt Reading :=
  match f.effect, attached with
  | .takes _, some v => do (← r.settle).note f (some v)
  | .takes _, none => do return { ← r.settle with pending := some (f, none), awaits := true }
  | _, some v => fail (.unexpectedValue v f)
  | .switchesOn, none => do return { ← (← r.settle).note f none with awaits := false }
  | .showsHelp, none => do
    let _ ← r.settle
    throw .help
  | .showsVersion, none => do
    let _ ← r.settle
    throw .version

/-- Meets options that are written by one letter each; the rest of the word is the value of one that
takes a value. -/
def meetLetters (g : Grammar) (r : Reading) : List Char → Except Halt Reading
  | [] => .ok r
  | c :: rest =>
    match g.flags.find? (·.short == c) with
    | none => fail (.unexpected (String.ofList ['-', c]))
    | some f =>
      match f.effect, rest with
      | .takes _, [] => r.meet f none
      | .takes _, '=' :: v => r.meet f (some (String.ofList v))
      | .takes _, v => r.meet f (some (String.ofList v))
      | _, _ => do meetLetters g (← r.meet f none) rest

def splitValue (cs : List Char) : String × Option String :=
  (String.ofList (cs.takeWhile (· != '=')),
    match cs.dropWhile (· != '=') with
    | _ :: v => some (String.ofList v)
    | [] => none)

def meetName (g : Grammar) (r : Reading) (cs : List Char) : Except Halt Reading :=
  let (name, attached) := splitValue cs
  match g.flags.find? (·.long == name) with
  | some f => r.meet f attached
  | none => fail (.unexpected ("--" ++ name))

def meetOperand (g : Grammar) (r : Reading) (word : String) : Except Halt Reading :=
  let accept : Except Halt Reading := do
    let r ← r.settle
    return { r with words := { r.words with operands := r.words.operands ++ [word] } }
  match g.operands with
  | .many _ => accept
  | .one _ => if r.words.operands.isEmpty then accept else fail (.unexpected word)
  | .none => fail (.unexpected word)

def meetWord (g : Grammar) (r : Reading) (word : String) : Except Halt Reading :=
  if r.verbatim then r.meetOperand g word
  else
    match word.toList with
    | ['-', '-'] => .ok { r with verbatim := true }
    | '-' :: '-' :: cs => r.meetName g cs
    | '-' :: c :: cs => r.meetLetters g (c :: cs)
    | _ =>
      match r.pending, r.awaits with
      | some (f, _), true => .ok { r with pending := some (f, some word), awaits := false }
      | _, _ => r.meetOperand g word

end Reading

def Grammar.read (g : Grammar) (words : List String) : Except Halt Words := do
  let r ← words.foldlM (Reading.meetWord g) {}
  let r ← r.settle
  if g.operands != .none && r.words.operands.isEmpty then Reading.fail .noOperand
  return r.words

end SccDispatch.CommandLine
