namespace SccDispatch

/-- A set of capabilities, one bit each. -/
structure Capabilities where
  bits : BitVec 32
  deriving DecidableEq, Repr, Inhabited

namespace Capabilities

def names : List String :=
  ["REMOVE", "RENAME", "DIFF", "HISTORY", "PROPERTIES", "RUNSCC", "GETCOMMANDOPTIONS", "QUERYINFO",
   "GETEVENTS", "GETPROJPATH", "ADDMOVEFROMSCC", "COMMENTCHECKOUT", "COMMENTCHECKIN", "COMMENTADD",
   "COMMENTREMOVE", "TEXTOUT", "CREATESUBPROJECT", "GETPARENTPROJECT", "BATCH", "DIRECTORYSTATUS",
   "DIRECTORYDIFF", "ADD_STORELATEST", "HISTORY_MULTFILE", "IGNORECASE", "IGNORESPACE",
   "POPULATELIST", "COMMENTPROJECT", "MULTICHECKOUT", "DIFFALWAYS", "GET_NOUI", "REENTRANT",
   "SCCFILE"]

def ofMask (mask : Int32) : Capabilities := ⟨mask.toBitVec⟩

def empty : Capabilities := ⟨0⟩

def all : Capabilities := ⟨BitVec.allOnes 32⟩

def isEmpty (c : Capabilities) : Bool := c.bits == 0

def isAll (c : Capabilities) : Bool := c.bits == BitVec.allOnes 32

def union (c d : Capabilities) : Capabilities := ⟨c.bits ||| d.bits⟩

def inter (c d : Capabilities) : Capabilities := ⟨c.bits &&& d.bits⟩

def diff (c d : Capabilities) : Capabilities := ⟨c.bits &&& ~~~d.bits⟩

def symmDiff (c d : Capabilities) : Capabilities := ⟨c.bits ^^^ d.bits⟩

def compl (c : Capabilities) : Capabilities := ⟨~~~c.bits⟩

def contains (c d : Capabilities) : Bool := c.bits &&& d.bits == d.bits

def intersects (c d : Capabilities) : Bool := c.bits &&& d.bits != 0

def named? (name : String) : Option Capabilities :=
  match names.findIdx? (· == name) with
  | some i => some ⟨1#32 <<< i⟩
  | none => none

def toList (c : Capabilities) : List String :=
  (names.zipIdx.filter fun p => c.bits.getLsbD p.2).map Prod.fst

def members (c : Capabilities) : String :=
  if c.isEmpty then "0x0" else " | ".intercalate c.toList

def text (c : Capabilities) : String := "SccCaps(" ++ c.members ++ ")"

end Capabilities

end SccDispatch
