import SccDispatch.Proofs.IdleWorker

namespace SccDispatch

/-- A call as it was received, and whether the provider did what it was asked. -/
structure Seen where
  on : Thread
  call : Call
  fine : Bool
  deriving DecidableEq, Repr

namespace Call

def codeOf : (call : Call) → call.Answer → ResultCode
  | .start .., info => info.code
  | .threadsafeQuery, _ => .ok
  | .chooseProject .., choice => choice.code
  | .queryStatus .., reply => reply.code
  | .stop, code | .openProject .., code | .closeProject, code | .checkOut .., code
  | .undoCheckOut .., code | .checkIn .., code | .add .., code | .remove .., code
  | .diff .., code | .history .., code | .properties .., code => code

def fine (call : Call) : Except Cause call.Answer → Bool
  | .ok a => (call.codeOf a).isOk
  | .error _ => false

end Call

structure Traced (π : Type) where
  provider : π
  seen : List Seen := []

variable {π : Type}

namespace Traced

variable [Provider π]

def respond (t : Traced π) (on : Thread) (call : Call) : Except Cause call.Answer × Traced π :=
  let (r, provider) := Provider.respond t.provider on call
  (r, { provider, seen := t.seen ++ [⟨on, call, call.fine r⟩] })

instance : Provider (Traced π) := ⟨respond, fun t => spent t.provider⟩

end Traced

def Loader.traced (l : Loader π) : Loader (Traced π) where
  path := l.path
  load last := (l.load (last.map Traced.provider)).map (Except.map fun provider => { provider })

/-- The one call that a command makes; a provider that is started may get a second. -/
def Command.call : Command → Call
  | start window caller => .start window caller
  | stop => .stop
  | selectProject window project mayChange => .chooseProject window project mayChange
  | openProject window project comment flags => .openProject window project comment flags
  | closeProject => .closeProject
  | queryStatus files => .queryStatus files
  | checkOut window files comment => .checkOut window files comment
  | checkIn window files comment flags => .checkIn window files comment flags
  | undoCheckOut window files => .undoCheckOut window files
  | add window files comment => .add window files comment
  | remove window files comment => .remove window files comment
  | diff window file => .diff window file
  | history window files => .history window files
  | properties window file => .properties window file

section Execute

variable [Provider π]

/-- The output of one call tells whether the provider did what it was asked. -/
theorem succeeded_ask (p : π) (on : Thread) (name : String) {call : Call}
    {read : call.Answer → Output}
    (hr : ∀ a, (read a).isFault = false ∧ (read a).resultCode.isOk = (call.codeOf a).isOk) :
    (Output.ofOutcome name (ask p on call read).1).succeeded = call.fine (respond p on call).1 := by
  unfold ask
  cases (respond p on call).1 with
  | error cause => rfl
  | ok a =>
    obtain ⟨hn, hc⟩ := hr a
    simp [Output.ofOutcome, Except.map, Call.fine, Output.succeeded, hn, hc]

/-- A command makes its call, which is fine if the command succeeds. -/
theorem execute_call (p : π) (on : Thread) (shares : Bool) (command : Command)
    (h : ∀ window caller, command ≠ .start window caller) :
    (execute p on shares command).2 = (respond p on command.call).2 ∧
      (execute p on shares command).1.succeeded =
        command.call.fine (respond p on command.call).1 := by
  cases command with
  | start window caller => exact absurd rfl (h window caller)
  | _ => exact ⟨rfl, succeeded_ask p on _ fun a => ⟨rfl, rfl⟩⟩

variable (t : Traced π) (on : Thread)

/-- A call goes on record with whether it was fine. -/
theorem ask_traced (name : String) {call : Call} {read : call.Answer → Output}
    (hr : ∀ a, (read a).isFault = false ∧ (read a).resultCode.isOk = (call.codeOf a).isOk) :
    (ask t on call read).2.seen =
      t.seen ++ [⟨on, call, (Output.ofOutcome name (ask t on call read).1).succeeded⟩] := by
  rw [succeeded_ask t on name hr]
  rfl

/-- Every command but a start puts its one call on record. -/
theorem execute_traced (shares : Bool) (command : Command)
    (h : ∀ window caller, command ≠ .start window caller) :
    (execute t on shares command).2.seen =
      t.seen ++ [⟨on, command.call, (execute t on shares command).1.succeeded⟩] := by
  obtain ⟨hs, ho⟩ := execute_call t on shares command h
  rw [hs, ho]
  rfl

/-- A provider that is started gets that call, and a query once it is. -/
theorem execute_start_traced (shares : Bool) (window : Window) (caller : String) :
    ∃ fine, (execute t on shares (.start window caller)).2.seen =
      t.seen ++ ⟨on, .start window caller, fine⟩ ::
        if fine then
          [⟨on, .threadsafeQuery, (execute t on shares (.start window caller)).1.succeeded⟩]
        else [] := by
  have hs : (respond t on (.start window caller)).2.seen = t.seen ++
      [⟨on, .start window caller,
        (Call.start window caller).fine (respond t on (.start window caller)).1⟩] := rfl
  simp only [execute, perform, start]
  generalize respond t on (.start window caller) = r at hs ⊢
  obtain ⟨r, t'⟩ := r
  cases r with
  | error cause => exact ⟨false, hs⟩
  | ok info =>
    have hs : t'.seen = t.seen ++ [⟨on, .start window caller, info.code.isOk⟩] := hs
    simp only
    by_cases hc : info.code.isOk = true
    · let read (threadsafe : Call.threadsafeQuery.Answer) : Output :=
        .initialized { info with threadsafeQuery := threadsafe } (shares && threadsafe)
      have hok : info.code.isOk = ResultCode.ok.isOk := hc.trans (by decide)
      have hr : ∀ a, (read a).isFault = false ∧
          (read a).resultCode.isOk = (Call.threadsafeQuery.codeOf a).isOk := fun _ => ⟨rfl, hok⟩
      have hq := ask_traced t' on (Command.start window caller).name hr
      rw [if_pos hc]
      refine ⟨true, hq.trans ?_⟩
      rw [hs, hc, List.append_assoc]
      rfl
    · rw [if_neg hc, hs, Bool.eq_false_iff.mpr hc]
      exact ⟨false, rfl⟩

end Execute

def Seen.leaves (s : Seen) (before : Bool) : Bool :=
  match s.call with
  | .openProject .. => before || s.fine
  | .closeProject => false
  | _ => before

def leftOpen (seen : List Seen) : Bool := seen.foldl (fun o s => s.leaves o) false

@[simp]
theorem leftOpen_concat (seen : List Seen) (s : Seen) :
    leftOpen (seen ++ [s]) = s.leaves (leftOpen seen) := by simp [leftOpen]

end SccDispatch
