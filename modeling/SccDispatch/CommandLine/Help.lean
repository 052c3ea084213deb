import SccDispatch.CommandLine.Arguments
import SccDispatch.Text.Terminal

namespace SccDispatch.CommandLine

def quotedWord (word : String) : String := "'" ++ Text.visible word ++ "'"

def UsageError.text : UsageError → String
  | unexpected word => "unexpected argument " ++ quotedWord word ++ " found"
  | unexpectedValue value flag =>
    "unexpected value " ++ quotedWord value ++ " for '" ++ flag.text ++
      "' found; no more were expected"
  | unknownCommand word => "unrecognized subcommand " ++ quotedWord word
  | noCommand => "'" ++ programName ++ "' requires a subcommand but one was not provided"
  | noOperand => "the following required arguments were not provided:"
  | noValue flag => "a value is required for '" ++ flag.text ++ "' but none was supplied"
  | repeated flag => "the argument '" ++ flag.text ++ "' cannot be used multiple times"

structure Item where
  term : String
  about : String

def setItems (items : List Item) : String :=
  let width := (items.map fun i => i.term.length).foldl max 0
  String.join <| items.map fun i =>
    "  " ++ i.term ++ String.ofList (List.replicate (width - i.term.length) ' ') ++ "  " ++
      i.about ++ "\n"

def listed (title : String) (items : List Item) : String :=
  if items.isEmpty then "" else "\n" ++ title ++ ":\n" ++ setItems items

def defaultText (value : String) : String :=
  let shown := if value.isEmpty || value.toList.contains ' ' then "\"" ++ value ++ "\"" else value
  "[default: " ++ shown ++ "]"

def Flag.item (f : Flag) : Item where
  term := String.ofList ['-', f.short] ++ ", " ++ f.text
  about :=
    match f.default with
    | none => f.about
    | some v => if f.about == "" then defaultText v else f.about ++ " " ++ defaultText v

def Operands.text : Operands → String
  | .none => ""
  | .one name => "<" ++ name ++ ">"
  | .many name => "<" ++ name ++ ">..."

def Operands.items : Operands → List Item
  | .none => []
  | o => [⟨o.text, ""⟩]

def Flag.matters (f : Flag) : Bool :=
  match f.effect with
  | .takes _ | .switchesOn => true
  | _ => false

def Grammar.usage (g : Grammar) : String :=
  (if g.flags.any Flag.matters then " [OPTIONS]" else "") ++
    if g.operands = .none then "" else " " ++ g.operands.text

def commandItems : List Item :=
  (Command.all.map fun c => ⟨c.grammar.name, c.grammar.about⟩) ++
    [⟨helpWord, "Print this message or the help of the given subcommand(s)"⟩]

def describeProgram : String :=
  program.about ++ "\n\nUsage: " ++ programName ++ program.usage ++ " <COMMAND>\n" ++
    listed "Commands" commandItems ++ listed "Options" (program.flags.map Flag.item)

def describeCommand (c : Command) : String :=
  let g := c.grammar
  g.about ++ "\n\nUsage: " ++ programName ++ " " ++ g.name ++ g.usage ++ "\n" ++
    listed "Arguments" g.operands.items ++ listed "Options" (g.flags.map Flag.item)

def describeHelp : String :=
  "Print this message or the help of the given subcommand(s)\n\nUsage: " ++ programName ++
    " help [COMMAND]...\n" ++
    listed "Arguments" [⟨"[COMMAND]...", "Print help for the subcommand(s)"⟩]

def versionLine : String := programName ++ " " ++ programVersion ++ "\n"

end SccDispatch.CommandLine
