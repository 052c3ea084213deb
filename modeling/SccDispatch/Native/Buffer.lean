import SccDispatch.Text.Utf8

namespace SccDispatch.Native

structure CString where
  bytes : List UInt8
  no_zero : 0 ∉ bytes
  deriving DecidableEq

namespace CString

def empty : CString := ⟨[], List.not_mem_nil⟩

def ofText? (s : String) : Option CString :=
  if h : 0 ∈ Text.bytes s then none else some ⟨Text.bytes s, h⟩

def ofTexts? (files : List String) : Option (List CString) := files.mapM ofText?

end CString

structure Buffer (capacity : Nat) where
  bytes : List UInt8
  length_eq : bytes.length = capacity + 1
  deriving DecidableEq

def fit (n : Nat) (bs : List UInt8) : List UInt8 :=
  bs.take n ++ List.replicate (n - (bs.take n).length) 0

theorem length_fit (n : Nat) (bs : List UInt8) : (fit n bs).length = n := by
  simp only [fit, List.length_append, List.length_replicate, List.length_take]
  omega

namespace Buffer

variable {capacity : Nat}

/-- The text as far as the buffer holds it; the last byte stays zero. -/
def ofText (capacity : Nat) (s : String) : Buffer capacity :=
  ⟨fit (capacity + 1) ((Text.bytes s).take capacity), length_fit _ _⟩

/-- The bytes before the first zero. The last byte of the buffer is never part of the text. -/
def content (b : Buffer capacity) : List UInt8 := (b.bytes.take capacity).takeWhile (· != 0)

def text (b : Buffer capacity) : String := Text.lossy b.content

def write (b : Buffer capacity) (bs : List UInt8) : Buffer capacity :=
  ⟨fit (capacity + 1) (bs ++ b.bytes.drop bs.length), length_fit _ _⟩

end Buffer

end SccDispatch.Native
