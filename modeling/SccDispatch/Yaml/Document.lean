import SccDispatch.Yaml.Node
import SccDispatch.Yaml.Tokens

namespace SccDispatch.Yaml

/-- Beginnings of tags, by handle. -/
abbrev Handles := List (String × List UInt8)

def standardHandles : Handles :=
  [("!", asciiBytes "!"), ("!!", asciiBytes "tag:yaml.org,2002:")]

structure Unread where
  tokens : List Token
  anchors : List (String × Nat) := []

namespace Unread

def skip (u : Unread) : Unread := { u with tokens := u.tokens.drop 1 }

def ahead (u : Unread) (ts : List Token) : Bool :=
  match u.tokens with
  | t :: _ => ts.contains t
  | [] => false

def expect? (u : Unread) (t : Token) : Option Unread :=
  if u.ahead [t] then some u.skip else none

/-- Names the node that begins here. Its number is the count of names known before, its own among
them. -/
def anchor (u : Unread) (name : String) : Nat × Unread :=
  (u.anchors.length,
    { u with
      anchors :=
        if u.anchors.any (·.1 == name) then
          u.anchors.map fun e => if e.1 == name then (name, u.anchors.length) else e
        else u.anchors ++ [(name, u.anchors.length)] })

def lookup? (u : Unread) (name : String) : Option Nat :=
  (u.anchors.find? (·.1 == name)).map Prod.snd

end Unread

def resolveTag? (hs : Handles) (handle : String) (rest : List UInt8) : Option (List UInt8) :=
  if handle == "" then some rest
  else (hs.find? (·.1 == handle)).map fun e => e.2 ++ rest

def propertyTokens : List Token → Option String × Option (String × List UInt8) × List Token
  | .anchor a :: .tag h r :: ts => (some a, some (h, r), ts)
  | .anchor a :: ts => (some a, none, ts)
  | .tag h r :: .anchor a :: ts => (some a, some (h, r), ts)
  | .tag h r :: ts => (none, some (h, r), ts)
  | ts => (none, none, ts)

def properties? (hs : Handles) (u : Unread) : Option (Properties × Unread) := do
  let (name, parts, tokens) := propertyTokens u.tokens
  let tag ← match parts with
    | some (h, r) => (resolveTag? hs h r).map some
    | none => some none
  let u := { u with tokens }
  return match name with
    | some n =>
      let (a, u) := u.anchor n
      ({ anchor := some a, tag }, u)
    | none => ({ tag }, u)

/-- Which collections may begin here without brackets: none, those that are indented, or also a
sequence whose marks stand at the column of the key before it. -/
inductive Setting
  | flow
  | block
  | afterKey
  deriving DecidableEq

mutual

/-- Reads a node; `fuel` bounds how deep the reading goes. -/
def node? (hs : Handles) : Nat → Setting → Unread → Option (Node × Unread)
  | 0, _, _ => none
  | fuel + 1, setting, u =>
    match u.tokens with
    | .alias name :: _ => (u.lookup? name).map fun a => (.alias a, u.skip)
    | _ => do
      let (props, u) ← properties? hs u
      match u.tokens with
      | .scalar style text :: _ => return (.scalar props style text, u.skip)
      | .blockEntry :: _ =>
        if setting = .afterKey then do
          let (items, u) ← marked? hs fuel true u
          return (.sequence props items, u)
        else bare props u
      | .flowSequenceStart :: _ => do
        let (items, u) ← flowItems? hs fuel true u.skip
        return (.sequence props items, u)
      | .flowMappingStart :: _ => do
        let (entries, u) ← flowEntries? hs fuel true u.skip
        return (.mapping props entries, u)
      | .blockSequenceStart :: _ =>
        if setting = .flow then bare props u
        else do
          let (items, u) ← marked? hs fuel false u.skip
          return (.sequence props items, u)
      | .blockMappingStart :: _ =>
        if setting = .flow then bare props u
        else do
          let (entries, u) ← blockEntries? hs fuel u.skip
          return (.mapping props entries, u)
      | _ => bare props u
where
  /-- A node of which only the properties are written. -/
  bare (props : Properties) (u : Unread) : Option (Node × Unread) :=
    if props.anchor.isSome || props.tag.isSome then some (.empty props, u) else none

def marked? (hs : Handles) : Nat → Bool → Unread → Option (List Node × Unread)
  | 0, _, _ => none
  | fuel + 1, atKey, u =>
    if u.ahead [.blockEntry] then do
      let u := u.skip
      let ends := [.blockEntry, .blockEnd] ++ if atKey then [.key, .value] else []
      let (item, u) ← part? hs fuel .block ends u
      let (items, u) ← marked? hs fuel atKey u
      return (item :: items, u)
    else if atKey then some ([], u)
    else (u.expect? .blockEnd).map fun u => ([], u)

def part? (hs : Handles) : Nat → Setting → List Token → Unread → Option (Node × Unread)
  | 0, _, _, _ => none
  | fuel + 1, setting, ends, u =>
    if u.ahead ends then some (.empty {}, u) else node? hs fuel setting u

def blockEntries? (hs : Handles) : Nat → Unread → Option (List (Node × Node) × Unread)
  | 0, _ => none
  | fuel + 1, u =>
    if u.ahead [.key] then do
      let ends := [.key, .value, .blockEnd]
      let (k, u) ← part? hs fuel .afterKey ends u.skip
      let (v, u) ←
        if u.ahead [.value] then part? hs fuel .afterKey ends u.skip else some (.empty {}, u)
      let (entries, u) ← blockEntries? hs fuel u
      return ((k, v) :: entries, u)
    else (u.expect? .blockEnd).map fun u => ([], u)

def flowItems? (hs : Handles) : Nat → Bool → Unread → Option (List Node × Unread)
  | 0, _, _ => none
  | fuel + 1, first, u =>
    if u.ahead [.flowSequenceEnd] then some ([], u.skip)
    else do
      let u ← if first then some u else u.expect? .flowEntry
      if u.ahead [.flowSequenceEnd] then return ([], u.skip)
      let (item, u) ← if u.ahead [.key] then pair? hs fuel u.skip else node? hs fuel .flow u
      let (items, u) ← flowItems? hs fuel false u
      return (item :: items, u)

def pair? (hs : Handles) : Nat → Unread → Option (Node × Unread)
  | 0, _ => none
  | fuel + 1, u => do
    let ends := [.flowEntry, .flowSequenceEnd]
    let (k, u) ←
      if u.ahead (.value :: ends) then some (.empty {}, u.skip) else node? hs fuel .flow u
    let (v, u) ← if u.ahead [.value] then part? hs fuel .flow ends u.skip else some (.empty {}, u)
    return (.mapping {} [(k, v)], u)

def flowEntries? (hs : Handles) : Nat → Bool → Unread → Option (List (Node × Node) × Unread)
  | 0, _, _ => none
  | fuel + 1, first, u =>
    if u.ahead [.flowMappingEnd] then some ([], u.skip)
    else do
      let u ← if first then some u else u.expect? .flowEntry
      if u.ahead [.flowMappingEnd] then return ([], u.skip)
      let ends := [.flowEntry, .flowMappingEnd]
      let (k, v, u) ←
        if u.ahead [.key] then do
          let (k, u) ← part? hs fuel .flow (.value :: ends) u.skip
          let (v, u) ←
            if u.ahead [.value] then part? hs fuel .flow ends u.skip else some (.empty {}, u)
          some (k, v, u)
        else (node? hs fuel .flow u).map fun (k, u) => (k, .empty {}, u)
      let (entries, u) ← flowEntries? hs fuel false u
      return ((k, v) :: entries, u)

end

/-- Reads the directives before a document: at most one version that is known, and at most one
beginning for a handle. -/
def directives? (version : Bool) (hs : Handles) : List Token → Option (Handles × List Token)
  | .version major minor :: ts =>
    if version || major != 1 || !(minor == 1 || minor == 2) then none else directives? true hs ts
  | .tagHandle h bs :: ts =>
    if hs.any (·.1 == h) then none else directives? version (hs ++ [(h, bs)]) ts
  | ts => some (hs ++ standardHandles, ts)

def isDirective : Token → Bool
  | .version .. | .tagHandle .. => true
  | _ => false

def isHollow : List Token → Bool
  | [] => true
  | t :: _ => isDirective t || t == .documentStart || t == .documentEnd

def rootNode? (hs : Handles) (tokens : List Token) : Option (Node × Unread) :=
  node? hs (3 * tokens.length + 3) .block { tokens }

def close? (root : Node) (u : Unread) : Option Document :=
  if (u.tokens.dropWhile (· == .documentEnd)).isEmpty then some ⟨root⟩ else none

def document? (tokens : List Token) : Option Document :=
  match tokens with
  | [] => some ⟨.empty {}⟩
  | t :: _ =>
    if isDirective t || t == .documentStart then do
      let (hs, ts) ← directives? false [] tokens
      let u ← ({ tokens := ts } : Unread).expect? .documentStart
      if isHollow u.tokens then close? (.empty {}) u
      else
        let (root, u) ← rootNode? hs u.tokens
        close? root u
    else do
      let (root, u) ← rootNode? standardHandles tokens
      close? root u

def Document.read? (text : String) : Option Document := tokens? text >>= document?

end SccDispatch.Yaml
