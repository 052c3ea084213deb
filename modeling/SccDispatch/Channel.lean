namespace SccDispatch

/-- All values sent so far, oldest first; only the last `capacity` of them can still be received. -/
structure Channel (α : Type) where
  capacity : Nat
  sent : Array α := #[]
  closed : Bool := false
  deriving Repr

structure Receiver where
  next : Nat
  deriving DecidableEq, Repr

inductive Received (α : Type)
  | value (a : α)
  | empty
  | closed
  /-- That many values were sent and lost since the last one received. -/
  | lagged (missed : Nat)
  deriving Repr

namespace Channel

variable {α : Type}

def send (c : Channel α) (a : α) : Channel α := { c with sent := c.sent.push a }

def close (c : Channel α) : Channel α := { c with closed := true }

def subscribe (c : Channel α) : Receiver := ⟨c.sent.size⟩

def oldest (c : Channel α) : Nat := c.sent.size - c.capacity

/-- A receiver that fell behind is told so once and goes on with the oldest value kept. -/
def receive (c : Channel α) (r : Receiver) : Received α × Receiver :=
  if r.next < c.oldest then (.lagged (c.oldest - r.next), ⟨c.oldest⟩)
  else
    match c.sent[r.next]? with
    | some a => (.value a, ⟨r.next + 1⟩)
    | none => (if c.closed then .closed else .empty, r)

/-- Receives until the channel has nothing more to give; the last answer says why. -/
def receiveAll (c : Channel α) (r : Receiver) : List (Received α) × Receiver :=
  if r.next < c.oldest then
    let kept := (c.sent.toList.drop c.oldest).map .value
    (.lagged (c.oldest - r.next) :: kept ++ [if c.closed then .closed else .empty],
      ⟨c.sent.size⟩)
  else
    let kept := (c.sent.toList.drop r.next).map .value
    (kept ++ [if c.closed then .closed else .empty], ⟨max r.next c.sent.size⟩)

end Channel

end SccDispatch
