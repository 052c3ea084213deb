import SccDispatch.NameMap
import SccDispatch.Yaml.Document

namespace SccDispatch.Yaml

def flagTag : List UInt8 := asciiBytes "tag:yaml.org,2002:bool"

def flagOfText? (s : String) : Option Bool :=
  if ["true", "True", "TRUE"].contains s then some true
  else if ["false", "False", "FALSE"].contains s then some false
  else none

abbrev Field := String × Node

namespace Document

/-- Any scalar is a text, however it was written. -/
def text? (d : Document) (n : Node) : Option String :=
  match d.follow? n with
  | some (.scalar _ _ text) => some text
  | _ => none

/-- A flag is written plainly, or as a literal block that is tagged as one. -/
def flag? (d : Document) (n : Node) : Option Bool :=
  match d.follow? n with
  | some (.scalar p style text) =>
    if style == .plain || (style == .literal && p.tag == some flagTag) then flagOfText? text
    else none
  | _ => none

def fields? (d : Document) (n : Node) : Option (List Field) :=
  match d.follow? n with
  | some (.mapping _ entries) => entries.mapM fun e => (d.text? e.1).map fun key => (key, e.2)
  | some (.scalar _ .plain text) => if text == "" then some [] else none
  | _ => none

/-- The names and texts of a mapping; a name that comes again keeps its place and takes the later
text. -/
def nameMap? (d : Document) (n : Node) : Option NameMap := do
  let fs ← d.fields? n
  let es ← fs.mapM fun f => (d.text? f.2).map fun text => (f.1, text)
  return .ofList es

end Document

/-- The value of a key, which may stand once, or a default. -/
def fieldOr? {α : Type} (fs : List Field) (key : String) (default : α) (read : Node → Option α) :
    Option α :=
  match fs.filter (·.1 == key) with
  | [] => some default
  | [f] => read f.2
  | _ => none

end SccDispatch.Yaml
