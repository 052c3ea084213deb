import SccDispatch.Proofs.ThreadSystem

namespace SccDispatch

section RansWellFormed

variable {π : Type} {alone : Bool}

/-- Only status queries are made on the calling thread. -/
def Routine.QueriesStatus : {alone : Bool} → Routine π alone → Prop
  | _, .done _ => True
  | _, .notice _ next => next.QueriesStatus
  | _, .ask _ next => ∀ r, (next r).QueriesStatus
  | _, .query command next =>
    (∃ files, command = .queryStatus files) ∧ ∀ out, (next out).QueriesStatus
  | _, .select _ next => next.QueriesStatus
  | _, .lock next => ∀ p, (next p).QueriesStatus
  | _, .unlock _ next => next.QueriesStatus
  | _, .take next => ∀ p, (next p).QueriesStatus
  | _, .employ _ next => next.QueriesStatus
  | _, .seat _ _ _ next => next.QueriesStatus
  | _, .dismiss next => next.QueriesStatus
  | _, .retire _ next => next.QueriesStatus

theorem queriesStatus_run {command : Command} {next : Option Output → Routine π alone}
    (h : ∀ out, (next out).QueriesStatus) : (Routine.run command next).QueriesStatus := by
  rintro (e | out)
  · exact h none
  · exact h (some out)

theorem queriesStatus_stop : (Routine.stop : Routine π true).QueriesStatus :=
  queriesStatus_run fun _ => trivial

theorem queriesStatus_release : (Routine.release : Routine π true).QueriesStatus := by
  intro p
  cases p with
  | none => exact queriesStatus_stop
  | some p => exact queriesStatus_run fun _ => queriesStatus_stop

theorem queriesStatus_start (name caller : String) (window : Window) :
    (Routine.start name caller window : Routine π true).QueriesStatus := by
  rintro (e | out)
  · trivial
  · cases out with
    | initialized info concurrent =>
      show (if info.code.isOk then Routine.attach name info window concurrent
        else Routine.abandon name info.code.text).QueriesStatus
      split <;> trivial
    | _ => trivial

theorem queriesStatus_install (d : Dispatcher π) (name : String) (loader : Loader π)
    (window : Window) : (Routine.install d name loader window).QueriesStatus := by
  have hs := queriesStatus_start (π := π) name d.options.caller window
  unfold Routine.install Routine.writePath
  cases loader.path <;> rcases loader.load d.lastRetired with cause | e | p <;>
    first | exact hs | trivial

theorem queriesStatus_opening (command : Command) (p : Project) :
    (Routine.opening command p : Routine π false).QueriesStatus := by
  refine queriesStatus_run fun out => ?_
  split <;> trivial

theorem queriesStatus_settle (r : Request) (out : Option Output) :
    (Routine.settle r out : Routine π false).QueriesStatus := by
  unfold Routine.settle
  split <;> trivial

theorem queriesStatus_request (b : Binding π) (r : Request) :
    (Routine.request b r).QueriesStatus := by
  unfold Routine.request
  split
  next hq =>
    refine ⟨?_, fun out => queriesStatus_settle r _⟩
    have hq : r.isQuery = true := (Bool.and_eq_true_iff.mp hq).1
    cases r with
    | fileStatus file => exact ⟨_, rfl⟩
    | fileStatuses files => exact ⟨_, rfl⟩
    | _ => cases hq
  next => exact queriesStatus_run fun out => queriesStatus_settle r out

/-- No section makes anything but status queries on its thread. -/
theorem queriesStatus_routine (d : Dispatcher π) (s : Section π) :
    (s.routine d).QueriesStatus := by
  cases s with
  | release =>
    simp only [Section.routine]
    split
    next => trivial
    next => exact queriesStatus_release
  | install name loader window => exact queriesStatus_install d name loader window
  | selectProject initial =>
    simp only [Section.routine]
    split
    next => trivial
    next =>
      refine queriesStatus_run fun out => ?_
      split <;> trivial
  | openProject p =>
    simp only [Section.routine]
    split
    next => trivial
    next b hb =>
      have ho := queriesStatus_opening (π := π) (d.openCommand p b.window) p
      intro project
      dsimp only
      split
      next => exact queriesStatus_run fun _ => ho
      next => exact ho
  | closeProject =>
    simp only [Section.routine]
    split
    next => trivial
    next =>
      intro project
      dsimp only
      split
      next => exact queriesStatus_run fun _ => trivial
      next => trivial
  | request r =>
    simp only [Section.routine]
    split
    next => trivial
    next => trivial
    next b _ _ => exact queriesStatus_request b r

end RansWellFormed

def Rest.QueriesStatus {π : Type} {alone : Bool} : Rest π alone → Prop
  | go r => r.QueriesStatus
  | await _ next => ∀ r, (next r).QueriesStatus
  | query command next =>
    (∃ files, command = .queryStatus files) ∧ ∀ out, (next out).QueriesStatus

/-- Only status queries run on a calling thread, and a fault has the name of its command. -/
structure Ran.WellFormed (r : Ran) : Prop where
  status : r.on = .caller → ∃ files, r.command = .queryStatus files
  named : ∀ f, r.out.fault? = some f → f.operation = r.command.name

section Named

variable {π : Type} [Provider π]

/-- A fault of a call is told under the name of the command. -/
theorem fault_of_ask {name : String} {p : π} {on : Thread} {call : Call}
    {read : call.Answer → Output} (hr : ∀ a, (read a).fault? = none) {f : Fault}
    (h : (Output.ofOutcome name (ask p on call read).1).fault? = some f) : f.operation = name := by
  unfold ask at h
  cases hc : (respond p on call).1 with
  | error cause =>
    rw [hc] at h
    cases h
    rfl
  | ok a =>
    rw [hc] at h
    cases (hr a).symm.trans h

/-- A fault of a command is a fault under the name of the command. -/
theorem fault_of_execute {p q : π} {on : Thread} {shares : Bool} {command : Command}
    {out : Output} (hr : execute p on shares command = (out, q)) {f : Fault}
    (h : out.fault? = some f) : f.operation = command.name := by
  have ho : (execute p on shares command).1 = out := congrArg Prod.fst hr
  rw [← ho] at h
  cases command with
  | start window caller =>
    simp only [execute, perform, start] at h
    split at h
    next =>
      cases h
      rfl
    next =>
      split at h
      next => exact fault_of_ask (fun _ => rfl) h
      next => cases h
  | _ => exact fault_of_ask (fun _ => rfl) h

end Named

/-- A worker tells faults under the command it runs. -/
theorem Post.Works.wellFormed {π : Type} [Provider π] {p q : Post π} {es : List Journal.Entry}
    {ran : Option (Command × Output)} (h : p.Works q es ran) (alone : Bool) :
    ∀ r ∈ (ran.map fun r => (⟨alone, .worker, r.1, r.2⟩ : Ran)).toList, r.WellFormed := by
  cases h with
  | run taken ran =>
    intro r hr
    rw [List.mem_singleton.mp hr]
    exact ⟨by rintro ⟨⟩, fun f hf => fault_of_execute ran hf⟩
  | _ => rintro r ⟨⟩

namespace ThreadSystem

variable {π : Type}

structure RansWellFormed (x : ThreadSystem π) : Prop where
  inside : x.inside.Every fun _ _ l => l.rest.QueriesStatus
  past : ∀ r ∈ x.past, r.WellFormed

theorem RansWellFormed.moved {x y : ThreadSystem π} (h : x.RansWellFormed) {i : Nat} {alone : Bool}
    {l m : Local π alone} {put : Local π alone → Inside π} (here : Inside.At i l x.inside put)
    (hin : y.inside = put m) (hm : m.rest.QueriesStatus) (hp : y.past = x.past) :
    y.RansWellFormed :=
  ⟨hin ▸ here.every_put h.inside hm, hp ▸ h.past⟩

theorem RansWellFormed.move [Provider π] {x y : ThreadSystem π} {i : Nat} {alone : Bool}
    {l : Local π alone} {put : Local π alone → Inside π} (h : x.RansWellFormed)
    (here : Inside.At i l x.inside put) (m : x.Move i l put y) : y.RansWellFormed := by
  have hl := here.every h.inside
  cases m with
  | write => exact h.moved here rfl hl (List.append_nil _)
  | submit => exact h.moved here rfl (hl :) (by cases alone <;> rfl)
  | collect => exact h.moved here rfl ((hl :) _) (by cases alone <;> rfl)
  | visit bound ran =>
    obtain ⟨hs, hn⟩ := hl
    refine ⟨here.every_put h.inside (hn _), fun r hr => ?_⟩
    rcases List.mem_append.mp hr with hr | hr
    · exact h.past r hr
    · rw [List.mem_singleton.mp hr]
      exact ⟨fun _ => hs, fun f hf => fault_of_execute ran hf⟩
  | refused | lock | take => exact h.moved here rfl ((hl :) _) rfl
  | notice | ask | select | unlock | employ | seat | dismiss | retire =>
    exact h.moved here rfl (hl :) rfl

/-- A step runs at most one command, and that one is well formed. -/
theorem RansWellFormed.step [Provider π] {x y : ThreadSystem π} {A : Operation π → Prop}
    (h : x.RansWellFormed) (s : x.Step A y) : y.RansWellFormed := by
  cases s with
  | call => exact ⟨h.inside, h.past⟩
  | enter due admitted => exact ⟨admitted.every h.inside (queriesStatus_routine _ _), h.past⟩
  | leave empty left => exact ⟨left.every h.inside, h.past⟩
  | @work alone p q es ran post works =>
    refine ⟨by cases alone <;> exact h.inside, fun r hr => ?_⟩
    have hr : r ∈ x.past ++ (ran.map fun r => (⟨alone, .worker, r.1, r.2⟩ : Ran)).toList := by
      cases alone <;> exact hr
    rcases List.mem_append.mp hr with hr | hr
    · exact h.past r hr
    · exact works.wellFormed alone r hr
  | move here moves => exact h.move here moves

theorem RansWellFormed.start (options : Options) :
    ({ dispatcher := { options } } : ThreadSystem π).RansWellFormed where
  inside := by rintro v ⟨⟩
  past := List.forall_mem_nil _

theorem RansWellFormed.reaches [Provider π] {x y : ThreadSystem π} {A : Operation π → Prop}
    (h : x.RansWellFormed) (r : x.Reaches A y) : y.RansWellFormed := by
  induction r with
  | refl => exact h
  | tail _ s ih => exact ih.step s

end ThreadSystem

end SccDispatch
