namespace SccDispatch

/-- Pending items, oldest first; a closed queue takes no more. -/
structure Queue (α : Type) where
  pending : List α := []
  closed : Bool := false
  deriving Repr

namespace Queue

variable {α : Type}

def empty : Queue α := {}

def size (q : Queue α) : Nat := q.pending.length

def isEmpty (q : Queue α) : Bool := q.pending.isEmpty

/-- A closed queue gives the item back. -/
def push (q : Queue α) (item : α) : Except α (Queue α) :=
  if q.closed then .error item else .ok { q with pending := q.pending ++ [item] }

inductive Popped (α : Type)
  | item (a : α) (rest : Queue α)
  | finished
  | waits

/-- A closed queue still hands out what is left. -/
def pop (q : Queue α) : Popped α :=
  match q.pending with
  | a :: rest => .item a { q with pending := rest }
  | [] => if q.closed then .finished else .waits

theorem pop_of_cons {q : Queue α} {a : α} {rest : List α} (h : q.pending = a :: rest) :
    q.pop = .item a { q with pending := rest } := by simp [pop, h]

theorem pop_of_closed {q : Queue α} (h : q.pending = []) (hc : q.closed = true) :
    q.pop = .finished := by simp [pop, h, hc]

theorem pop_of_open {q : Queue α} (h : q.pending = []) (hc : q.closed = false) :
    q.pop = .waits := by simp [pop, h, hc]

def close (q : Queue α) : Queue α := { q with closed := true }

theorem push_of_open {q : Queue α} (h : q.closed = false) (item : α) :
    q.push item = .ok { q with pending := q.pending ++ [item] } := by simp [push, h]

theorem push_of_closed {q : Queue α} (h : q.closed = true) (item : α) :
    q.push item = .error item := by simp [push, h]

def drain (q : Queue α) : List α × Queue α := (q.pending, { q with pending := [] })

end Queue

end SccDispatch
