import SccDispatch.Fault

namespace SccDispatch.Guard

/-- What a guarded call does: other guarded calls one after another, then it ends. -/
inductive Body (α : Type)
  | ends (ending : Except Cause α)
  | calls (operation : String) (inner : Body α) (next : Body α)

/-- The part of a thread that guarded calls use. Regions are numbered by how deep they lie. -/
structure Thread where
  /-- The region to which a hardware fault returns. -/
  active : Option Nat := none
  depth : Nat := 0
  reported : List Fault := []
  deriving DecidableEq, Repr

inductive Exit (α : Type)
  | value (a : α)
  | gaveUp (cause : Cause)
  /-- A hardware fault on its way to a region. -/
  | jump (region : Nat) (trap : Trap)
  /-- A hardware fault with no region to go to. -/
  | killed (trap : Trap)

namespace Thread

def enter (t : Thread) : Thread := { t with active := some t.depth, depth := t.depth + 1 }

def leave (t outer : Thread) : Thread := { outer with reported := t.reported }

def report (t : Thread) (f : Fault) : Thread := { t with reported := t.reported ++ [f] }

/-- A hardware fault takes the active region; the thread has none while it jumps. -/
def raise {α : Type} (t : Thread) (trap : Trap) : Exit α × Thread :=
  match t.active with
  | some region => (.jump region trap, { t with active := none })
  | none => (.killed trap, t)

end Thread

inductive Ended (α : Type)
  | result (r : Except Fault α)
  | passes (exit : Exit α)

/-- The boundary of a region: what its code's exit means outside, in the surroundings `outer`. -/
def settle {α : Type} (operation : String) (outer : Thread) (exit : Exit α) (t : Thread) :
    Ended α × Thread :=
  match exit with
  | .value a => (.result (.ok a), t.leave outer)
  | .gaveUp cause =>
    let f := Fault.of operation cause
    (.result (.error f), (t.leave outer).report f)
  | .jump region trap =>
    if region = outer.depth then
      let f := Fault.of operation (.hardware trap)
      (.result (.error f), (t.leave outer).report f)
    else (.passes (.jump region trap), t)
  | .killed trap => (.passes (.killed trap), t)

/-- Runs a body; the list holds the results of all guarded calls inside it as they completed. -/
def Body.run {α : Type} : Body α → Thread → Exit α × List (Except Fault α) × Thread
  | .ends (.ok a), t => (.value a, [], t)
  | .ends (.error (.hardware trap)), t =>
    let (exit, t') := t.raise trap
    (exit, [], t')
  | .ends (.error cause), t => (.gaveUp cause, [], t)
  | .calls operation inner next, t =>
    let (exit, done, t') := inner.run t.enter
    match settle operation t exit t' with
    | (.result r, t'') =>
      let (exit', done', t''') := next.run t''
      (exit', done ++ r :: done', t''')
    | (.passes e, t'') => (e, done, t'')

def guarded {α : Type} (operation : String) (body : Body α) (t : Thread) :
    Ended α × List (Except Fault α) × Thread :=
  let (exit, done, t') := body.run t.enter
  let (ended, t'') := settle operation t exit t'
  (ended, done, t'')

end SccDispatch.Guard
