import Mathlib.Logic.Relation
import SccDispatch.Proofs.Routine

namespace SccDispatch

/-- What a worker's thread is at. -/
inductive Duty
  | idle
  | taken (job : Job)
  /-- It has run the job and writes down what it owes before it answers. -/
  | books (job : Job) (out : Output) (todo : List Journal.Entry)
  | gone

structure Post (π : Type) where
  worker : Worker π
  duty : Duty := .idle

/-- A step of a worker, with the entries that it wrote and the command that it ran. -/
inductive Post.Works {π : Type} [Provider π] (p : Post π) :
    Post π → List Journal.Entry → Option (Command × Output) → Prop
  | take {job : Job} {pending : List Job} (idle : p.duty = .idle)
      (first : p.worker.queue.pending = job :: pending) :
      p.Works
        { worker := { p.worker with queue := { p.worker.queue with pending } }
          duty := .taken job } [] none
  | run {job : Job} {out : Output} {provider : π} (taken : p.duty = .taken job)
      (ran : execute p.worker.provider .worker p.worker.shares job.command = (out, provider)) :
      p.Works
        { worker := { p.worker with provider, handles := p.worker.handles.after out }
          duty := .books job out
            (out.entries job.command.name (elapsed p.worker.provider provider)) } []
        (some (job.command, out))
  | write {job : Job} {out : Output} {e : Journal.Entry} {todo : List Journal.Entry}
      (owes : p.duty = .books job out (e :: todo)) :
      p.Works { p with duty := .books job out todo } [e] none
  | answer {job : Job} {out : Output} (done : p.duty = .books job out []) :
      p.Works
        { worker := { p.worker with answers := p.worker.answers ++ [(job.ticket, out)] }
          duty := .idle } [] none
  | leave (idle : p.duty = .idle) (drained : p.worker.queue.pending = [])
      (closed : p.worker.queue.closed = true) :
      p.Works { worker := p.worker.ended, duty := .gone }
        [.line .info "Source control worker stopped" .worker] none

/-- What is left for a thread in its section. -/
inductive Rest (π : Type) (alone : Bool)
  | go (r : Routine π alone)
  | await (job : Job) (next : Except DispatchError Output → Routine π alone)
  | query (command : Command) (next : Output → Routine π alone)

/-- A thread in a section writes down what it owes before it goes on. -/
structure Local (π : Type) (alone : Bool) where
  todo : List Journal.Entry := []
  rest : Rest π alone

/-- The threads that have the lock of the binding. -/
inductive Inside (π : Type)
  | shared (visitors : List (Nat × Local π false))
  | alone (i : Nat) (l : Local π true)

namespace Inside

variable {π : Type}

def isAlone : Inside π → Bool
  | shared _ => false
  | alone .. => true

def Outside (i : Nat) : Inside π → Prop
  | shared visitors => i ∉ visitors.map Prod.fst
  | alone j _ => i ≠ j

/-- Thread `i` stands at `l`, and `put m` is the same but for this thread, which stands at `m`. -/
inductive At (i : Nat) :
    {alone : Bool} → Local π alone → Inside π → (Local π alone → Inside π) → Prop
  | shared {before after : List (Nat × Local π false)} {l : Local π false} :
      At i l (.shared (before ++ (i, l) :: after)) fun m => .shared (before ++ (i, m) :: after)
  | alone {l : Local π true} : At i l (.alone i l) (.alone i)

/-- Thread `i` gets the lock, alone if its routine needs it so. -/
inductive Admits (i : Nat) : {alone : Bool} → Routine π alone → Inside π → Inside π → Prop
  | shared {visitors : List (Nat × Local π false)} {r : Routine π false}
      (outside : i ∉ visitors.map Prod.fst) :
      Admits i r (.shared visitors) (.shared (visitors ++ [(i, { rest := .go r })]))
  | alone {r : Routine π true} : Admits i r (.shared []) (.alone i { rest := .go r })

/-- Thread `i` is done and gives the lock back. -/
inductive Leaves (i : Nat) (answer : Answer) : Inside π → Inside π → Prop
  | shared {before after : List (Nat × Local π false)} :
      Leaves i answer (.shared (before ++ (i, { rest := .go (.done answer) }) :: after))
        (.shared (before ++ after))
  | alone : Leaves i answer (.alone i { rest := .go (.done answer) }) (.shared [])

theorem At.put {alone : Bool} {i : Nat} {l : Local π alone} {x : Inside π}
    {put : Local π alone → Inside π} (h : At i l x put) (m : Local π alone) :
    At i m (put m) put := by
  cases h with
  | shared => exact .shared
  | alone => exact .alone

/-- A thread that nobody keeps out gets the lock, and gives it back when it is done. -/
theorem exists_at (i : Nat) {alone : Bool} (r : Routine π alone) :
    ∃ put : Local π alone → Inside π,
      Admits i r (.shared []) (put { rest := .go r }) ∧
      At i { rest := .go r } (put { rest := .go r }) put ∧
      ∀ answer, Leaves i answer (put { rest := .go (.done answer) }) (.shared []) := by
  cases alone with
  | false =>
    exact ⟨fun m => .shared ([] ++ (i, m) :: []), .shared List.not_mem_nil, .shared,
      fun _ => .shared⟩
  | true => exact ⟨.alone i, .alone, .alone, fun _ => .alone⟩

theorem At.put_self {alone : Bool} {i : Nat} {l : Local π alone} {x : Inside π}
    {put : Local π alone → Inside π} (h : At i l x put) : put l = x := by
  cases h <;> rfl

def ids : Inside π → List Nat
  | shared visitors => visitors.map Prod.fst
  | alone i _ => [i]

def Every (P : Nat → {alone : Bool} → Local π alone → Prop) : Inside π → Prop
  | shared visitors => ∀ v ∈ visitors, P v.1 v.2
  | alone i l => P i l

section Every

variable {P : Nat → {alone : Bool} → Local π alone → Prop} {alone : Bool} {i : Nat}
  {l m : Local π alone} {x y : Inside π} {put : Local π alone → Inside π}

theorem Every.imp {Q : Nat → {alone : Bool} → Local π alone → Prop} (hx : x.Every P)
    (h : ∀ {i alone} (l : Local π alone), P i l → Q i l) : x.Every Q := by
  cases x with
  | shared visitors => exact fun v hv => h v.2 (hx v hv)
  | alone i l => exact h l hx

theorem Every.and {Q : Nat → {alone : Bool} → Local π alone → Prop} (hx : x.Every P)
    (h : x.Every Q) : x.Every fun i _ l => P i l ∧ Q i l := by
  cases x with
  | shared visitors => exact fun v hv => ⟨hx v hv, h v hv⟩
  | alone i l => exact ⟨hx, h⟩

theorem At.every (h : At i l x put) (hx : x.Every P) : P i l := by
  cases h with
  | shared => exact hx _ (List.mem_append_right _ List.mem_cons_self)
  | alone => exact hx

theorem At.every_put (h : At i l x put) (hx : x.Every P) (hm : P i m) : (put m).Every P := by
  cases h with
  | shared =>
    intro v hv
    simp only [List.mem_append, List.mem_cons] at hv
    rcases hv with hv | rfl | hv
    · exact hx v (List.mem_append_left _ hv)
    · exact hm
    · exact hx v (List.mem_append_right _ (List.mem_cons_of_mem _ hv))
  | alone => exact hm

/-- No thread stands at two places, so only one of them changes. -/
theorem At.every_others {Q : Nat → {alone : Bool} → Local π alone → Prop} (h : At i l x put)
    (distinct : x.ids.Nodup) (hx : x.Every P)
    (hq : ∀ {j b} (k : Local π b), j ≠ i → P j k → Q j k) (hm : Q i m) : (put m).Every Q := by
  cases h with
  | @shared before after l =>
    have hd : ((before.map Prod.fst) ++ i :: after.map Prod.fst).Nodup := by
      simpa [ids] using distinct
    have hn := (List.nodup_cons.mp (List.nodup_middle.mp hd)).1
    rw [List.mem_append, not_or] at hn
    obtain ⟨hb, ha⟩ := hn
    have hne : ∀ {vs : List (Nat × Local π false)} {v : Nat × Local π false},
        i ∉ vs.map Prod.fst → v ∈ vs → v.1 ≠ i := by
      rintro vs v hn hv rfl
      exact hn (List.mem_map_of_mem hv)
    intro v hv
    simp only [List.mem_append, List.mem_cons] at hv
    rcases hv with hv | rfl | hv
    · exact hq _ (hne hb hv) (hx v (List.mem_append_left _ hv))
    · exact hm
    · exact hq _ (hne ha hv) (hx v (List.mem_append_right _ (List.mem_cons_of_mem _ hv)))
  | alone => exact hm

theorem At.every_alone {Q : Nat → {alone : Bool} → Local π alone → Prop} {l m : Local π true}
    {put : Local π true → Inside π} (h : At i l x put) (hm : Q i m) : (put m).Every Q := by
  cases h
  exact hm

theorem At.mem_ids (h : At i l x put) : i ∈ x.ids := by
  cases h <;> simp [ids]

theorem At.ids_put (h : At i l x put) (m : Local π alone) : (put m).ids = x.ids := by
  cases h <;> simp [ids]

theorem Admits.ids {r : Routine π alone} (h : Admits i r x y) :
    i ∉ x.ids ∧ y.ids = x.ids ++ [i] := by
  cases h with
  | shared outside => exact ⟨outside, by simp [Inside.ids]⟩
  | alone => exact ⟨List.not_mem_nil, rfl⟩

theorem Leaves.exists_at {answer : Answer} (h : Leaves i answer x y) :
    ∃ alone, ∃ put, At i ({ rest := .go (.done answer) } : Local π alone) x put := by
  cases h with
  | shared => exact ⟨false, _, .shared⟩
  | alone => exact ⟨true, _, .alone⟩

theorem Leaves.ids {answer : Answer} (h : Leaves i answer x y) :
    y.ids.Sublist x.ids ∧ ∀ j ∈ x.ids, j ≠ i → j ∈ y.ids := by
  cases h with
  | shared =>
    simp only [Inside.ids, List.map_append, List.map_cons]
    refine ⟨(List.Sublist.refl _).append (List.sublist_cons_self _ _), fun j hj hne => ?_⟩
    simpa [hne] using hj
  | alone => exact ⟨List.nil_sublist _, fun j hj hne => absurd (List.mem_singleton.mp hj) hne⟩

/-- Who gets the lock brings in a thread at the start of its routine. -/
theorem Admits.every {r : Routine π alone} (h : Admits i r x y) (hx : x.Every P)
    (hr : P i { rest := .go r : Local π alone }) : y.Every P := by
  cases h with
  | shared =>
    intro v hv
    rcases List.mem_append.mp hv with hv | hv
    · exact hx v hv
    · rw [List.mem_singleton.mp hv]
      exact hr
  | alone => exact hr

/-- Who gives it back leaves the others as they are. -/
theorem Leaves.every {answer : Answer} (h : Leaves i answer x y) (hx : x.Every P) :
    y.Every P := by
  cases h with
  | shared =>
    intro v hv
    rcases List.mem_append.mp hv with hv | hv
    · exact hx v (List.mem_append_left _ hv)
    · exact hx v (List.mem_append_right _ (List.mem_cons_of_mem _ hv))
  | alone =>
    intro v hv
    cases hv

end Every

end Inside

structure Ran where
  /-- It came from a thread that had the lock of the binding alone. -/
  alone : Bool
  on : Thread
  command : Command
  out : Output

structure ThreadSystem (π : Type) where
  dispatcher : Dispatcher π
  /-- What the worker of the binding is at. -/
  duty : Duty := .idle
  /-- The worker of the thread that has the lock of the binding alone. -/
  hand : Option (Post π) := none
  /-- The thread that has the lock of the open project. -/
  locked : Option Nat := none
  inside : Inside π := .shared []
  /-- What is left of the call that a thread is making. -/
  due : Nat → List (Section π) := fun _ => []
  past : List Ran := []
  written : List Journal.Entry := []

def Operation.unknown? {π : Type} : Operation π → Option BindError
  | bindIndex registry _ index _ =>
    if (registry.get? index).isNone then some (.unknownProvider index) else none
  | bindName registry _ name _ =>
    if (registry.find? name).isNone then some (.notInstalled name) else none
  | _ => none

def Dispatcher.accept {π : Type} (d : Dispatcher π) (op : Operation π) : Dispatcher π :=
  match op.unknown? with
  | some e => d.write .warn e.text
  | none => d

namespace ThreadSystem

variable {π : Type}

def post (x : ThreadSystem π) : (alone : Bool) → Option (Post π)
  | true => x.hand
  | false => x.dispatcher.binding.map fun b => { worker := b.worker, duty := x.duty }

def withPost (x : ThreadSystem π) : (alone : Bool) → Post π → ThreadSystem π
  | true, p => { x with hand := some p }
  | false, p =>
    { x with
      dispatcher :=
        { x.dispatcher with
          binding := x.dispatcher.binding.map fun b => { b with worker := p.worker } }
      duty := p.duty }

def record (x : ThreadSystem π) (es : List Journal.Entry) (ran : List Ran) : ThreadSystem π :=
  { x with
    dispatcher := { x.dispatcher with journal := x.dispatcher.journal.enterAll es }
    past := x.past ++ ran
    written := x.written ++ es }

def withInside (x : ThreadSystem π) (inside : Inside π) : ThreadSystem π := { x with inside }

theorem post_withPost {x : ThreadSystem π} {alone : Bool} {q : Post π} (h : x.post alone = some q)
    (p : Post π) : (x.withPost alone p).post alone = some p := by
  cases alone with
  | true => rfl
  | false =>
    obtain ⟨b, hb, -⟩ := Option.map_eq_some_iff.mp h
    simp [post, withPost, hb]

variable [Provider π]

/-- What a thread does that stands at a place in its section. -/
inductive Move (x : ThreadSystem π) (i : Nat) :
    {alone : Bool} → Local π alone → (Local π alone → Inside π) → ThreadSystem π → Prop
  | write {alone : Bool} {rest : Rest π alone} {put : Local π alone → Inside π}
      {e : Journal.Entry} {todo : List Journal.Entry} :
      x.Move i { todo := e :: todo, rest } put
        ((x.withInside (put { todo, rest })).record [e] [])
  | notice {alone : Bool} {put : Local π alone → Inside π} {n : Journal.Notice}
      {next : Routine π alone} :
      x.Move i { rest := .go (.notice n next) } put
        { x with dispatcher := x.dispatcher.post n, inside := put { rest := .go next } }
  | submit {alone : Bool} {put : Local π alone → Inside π} {command : Command}
      {next : Except DispatchError Output → Routine π alone} {p : Post π} {ticket : Nat}
      {worker : Worker π} (post : x.post alone = some p)
      (accepted : p.worker.submit command = .ok (ticket, worker)) :
      x.Move i { rest := .go (.ask command next) } put
        ((x.withPost alone { p with worker }).withInside
          (put { todo := [.dispatched], rest := .await ⟨ticket, command⟩ next }))
  | refused {alone : Bool} {put : Local π alone → Inside π} {command : Command}
      {next : Except DispatchError Output → Routine π alone} {p : Post π}
      {error : DispatchError} (post : x.post alone = some p)
      (refused : p.worker.submit command = .error error) :
      x.Move i { rest := .go (.ask command next) } put
        (x.withInside (put { todo := [.rejected], rest := .go (next (.error error)) }))
  /-- A thread takes the result of its command, once there is one or the worker is gone. -/
  | collect {alone : Bool} {put : Local π alone → Inside π} {job : Job}
      {next : Except DispatchError Output → Routine π alone} {p : Post π}
      (post : x.post alone = some p)
      (settled : job.ticket ∈ p.worker.answers.map Prod.fst ∨ p.duty = .gone) :
      x.Move i { rest := .await job next } put
        ((x.withPost alone
            { p with worker := (p.worker.result job.ticket job.command.name).2 }).withInside
          (put { rest := .go (next (p.worker.result job.ticket job.command.name).1) }))
  | ask {put : Local π false → Inside π} {command : Command} {next : Output → Routine π false} :
      x.Move i { rest := .go (.query command next) } put
        (x.withInside (put { todo := [.directQuery], rest := .query command next }))
  | visit {put : Local π false → Inside π} {command : Command} {next : Output → Routine π false}
      {b : Binding π} {out : Output} {provider : π} (bound : x.dispatcher.binding = some b)
      (ran : execute b.worker.provider .caller false command = (out, provider)) :
      x.Move i { rest := .query command next } put
        (((x.withPost false { worker := { b.worker with provider }, duty := x.duty }).withInside
          (put { todo := out.asides, rest := .go (next out) })).record []
            [⟨false, .caller, command, out⟩])
  | select {put : Local π false → Inside π} {p : Project} {next : Routine π false} :
      x.Move i { rest := .go (.select p next) } put
        { x with
          dispatcher := { x.dispatcher with selected := some p }
          inside := put { rest := .go next } }
  | lock {put : Local π false → Inside π} {next : Option Project → Routine π false}
      (free : x.locked = none) :
      x.Move i { rest := .go (.lock next) } put
        { x with
          dispatcher := { x.dispatcher with project := none }
          locked := some i
          inside := put { rest := .go (next x.dispatcher.project) } }
  | unlock {put : Local π false → Inside π} {project : Option Project} {next : Routine π false}
      (mine : x.locked = some i) :
      x.Move i { rest := .go (.unlock project next) } put
        { x with
          dispatcher := { x.dispatcher with project }
          locked := none
          inside := put { rest := .go next } }
  | take {put : Local π true → Inside π} {next : Option Project → Routine π true}
      {b : Binding π} (bound : x.dispatcher.binding = some b) (empty : x.hand = none) :
      x.Move i { rest := .go (.take next) } put
        { x with
          dispatcher := { x.dispatcher with binding := none, project := none, selected := none }
          duty := .idle
          hand := some { worker := b.withdrawn, duty := x.duty }
          inside := put { rest := .go (next x.dispatcher.project) } }
  | employ {put : Local π true → Inside π} {provider : π} {next : Routine π true}
      (empty : x.hand = none) :
      x.Move i { rest := .go (.employ provider next) } put
        { x with
          hand := some { worker := x.dispatcher.newWorker provider }
          inside := put { rest := .go next } }
  | seat {put : Local π true → Inside π} {info : ProviderInfo} {window : Window}
      {concurrent : Bool} {next : Routine π true} {p : Post π} (has : x.hand = some p) :
      x.Move i { rest := .go (.seat info window concurrent next) } put
        { x with
          dispatcher := x.dispatcher.seat { worker := p.worker.kept, info, window, concurrent }
          duty := p.duty
          hand := none
          inside := put { rest := .go next } }
  | dismiss {put : Local π true → Inside π} {next : Routine π true} {p : Post π}
      (has : x.hand = some p) :
      x.Move i { rest := .go (.dismiss next) } put
        { x with
          hand := some { p with worker := p.worker.close }
          inside := put { rest := .go next } }
  | retire {put : Local π true → Inside π} {own : Holder} {next : Routine π true} {p : Post π}
      (has : x.hand = some p) (gone : p.duty = .gone) :
      x.Move i { rest := .go (.retire own next) } put
        { x with
          dispatcher :=
            { x.dispatcher with retired := x.dispatcher.retired ++ [.of p.worker own] }
          hand := none
          inside := put { rest := .go next } }

namespace Move

variable {x y : ThreadSystem π} {i : Nat} {alone : Bool} {l : Local π alone}
  {put : Local π alone → Inside π}

/-- A move leaves every other thread where it is. -/
theorem inside (h : x.Move i l put y) : ∃ m, y.inside = put m := by
  cases h <;> exact ⟨_, rfl⟩

/-- A move leaves what is left of the calls. -/
theorem due (h : x.Move i l put y) : y.due = x.due := by
  cases h with
  | @submit alone | @collect alone => cases alone <;> rfl
  | _ => rfl

end Move

/-- A step of one thread or of one worker; the calls that are made are those in `A`. -/
inductive Step (A : Operation π → Prop) (x : ThreadSystem π) : ThreadSystem π → Prop
  | call {i : Nat} {op : Operation π} (may : A op) (finished : x.due i = [])
      (outside : x.inside.Outside i) :
      x.Step A
        { x with
          dispatcher := x.dispatcher.accept op
          due := Function.update x.due i op.sections }
  | enter {i : Nat} {s : Section π} {sections : List (Section π)} {inside : Inside π}
      (due : x.due i = s :: sections)
      (admitted : Inside.Admits i (s.routine x.dispatcher) x.inside inside) :
      x.Step A { x with due := Function.update x.due i sections, inside }
  | leave {i : Nat} {answer : Answer} {inside : Inside π} (empty : x.hand = none)
      (left : Inside.Leaves i answer x.inside inside) : x.Step A (x.withInside inside)
  | work {alone : Bool} {p q : Post π} {es : List Journal.Entry}
      {ran : Option (Command × Output)} (post : x.post alone = some p) (works : p.Works q es ran) :
      x.Step A
        ((x.withPost alone q).record es (ran.map fun r => ⟨alone, .worker, r.1, r.2⟩).toList)
  | move {i : Nat} {alone : Bool} {l : Local π alone} {put : Local π alone → Inside π}
      {y : ThreadSystem π} (here : Inside.At i l x.inside put) (moves : x.Move i l put y) :
      x.Step A y

/-- Where the threads can come to from a beginning. -/
abbrev Reaches (A : Operation π → Prop) : ThreadSystem π → ThreadSystem π → Prop :=
  Relation.ReflTransGen (Step A)

end ThreadSystem

end SccDispatch
