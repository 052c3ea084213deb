import SccDispatch.Yaml.Token

namespace SccDispatch.Yaml

structure Properties where
  anchor : Option Nat := none
  tag : Option (List UInt8) := none
  deriving DecidableEq, Repr

inductive Node
  | alias (anchor : Nat)
  | scalar (props : Properties) (style : Style) (text : String)
  | sequence (props : Properties) (items : List Node)
  | mapping (props : Properties) (entries : List (Node × Node))
  deriving Inhabited

namespace Node

def empty (props : Properties) : Node := .scalar props .plain ""

def own (p : Properties) (n : Node) : List (Nat × Node) :=
  match p.anchor with
  | some a => [(a, n)]
  | none => []

mutual

/-- The nodes that have anchors, in the order in which they begin. -/
def anchored : Node → List (Nat × Node)
  | .alias _ => []
  | .scalar p style text => own p (.scalar p style text)
  | .sequence p items => own p (.sequence p items) ++ anchoredItems items
  | .mapping p entries => own p (.mapping p entries) ++ anchoredEntries entries

def anchoredItems : List Node → List (Nat × Node)
  | [] => []
  | n :: rest => n.anchored ++ anchoredItems rest

def anchoredEntries : List (Node × Node) → List (Nat × Node)
  | [] => []
  | e :: rest => anchoredEntry e ++ anchoredEntries rest

def anchoredEntry : Node × Node → List (Nat × Node)
  | (k, v) => k.anchored ++ v.anchored

end

end Node

structure Document where
  root : Node

namespace Document

def node? (d : Document) (anchor : Nat) : Option Node :=
  (d.root.anchored.reverse.find? fun e => e.1 == anchor).map Prod.snd

def follow? (d : Document) : Node → Option Node
  | .alias anchor => d.node? anchor
  | n => some n

end Document

end SccDispatch.Yaml
