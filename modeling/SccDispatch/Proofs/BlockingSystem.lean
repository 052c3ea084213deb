import SccDispatch.Proofs.RoutineResources
import SccDispatch.Proofs.WorkerSpawn

namespace SccDispatch

namespace Inside

variable {π : Type}

def spot (x : Inside π) (i : Nat) : Option ((alone : Bool) × Local π alone) :=
  match x with
  | shared visitors => (visitors.find? (·.1 == i)).map fun v => ⟨false, v.2⟩
  | alone j l => if j = i then some ⟨true, l⟩ else none

variable {alone : Bool} {i j : Nat} {l m : Local π alone} {x y : Inside π}
  {put : Local π alone → Inside π}

theorem At.spot (h : At i l x put) (distinct : x.ids.Nodup) : x.spot i = some ⟨alone, l⟩ := by
  cases h with
  | @shared before after l =>
    have hd : (before.map Prod.fst ++ i :: after.map Prod.fst).Nodup := by
      simpa [ids] using distinct
    have hn : i ∉ before.map Prod.fst := by
      have hm := (List.nodup_cons.mp (List.nodup_middle.mp hd)).1
      exact fun hi => hm (List.mem_append_left _ hi)
    have hb : before.find? (·.1 == i) = none := by
      apply List.find?_eq_none.mpr
      intro v hv he
      exact hn (List.mem_map.mpr ⟨v, hv, by simpa using he⟩)
    simp [Inside.spot, List.find?_append, hb]
  | alone => simp [Inside.spot]

theorem at_of_spot (h : x.spot i = some ⟨alone, l⟩) :
    ∃ put : Local π alone → Inside π, At i l x put := by
  cases x with
  | shared visitors =>
    simp only [spot, Option.map_eq_some_iff] at h
    obtain ⟨⟨k, m⟩, hf, hv⟩ := h
    cases hv
    have hk : k = i := by simpa using List.find?_some hf
    subst hk
    obtain ⟨before, after, rfl⟩ := List.append_of_mem (List.mem_of_find?_eq_some hf)
    exact ⟨_, .shared⟩
  | alone k m =>
    simp only [spot] at h
    split at h
    next hk =>
      cases h
      subst hk
      exact ⟨_, .alone⟩
    next => cases h

theorem At.spot_put (h : At i l x put) (hj : j ≠ i) : (put m).spot j = x.spot j := by
  cases h with
  | shared => simp [Inside.spot, List.find?_append, hj.symm]
  | alone => simp [Inside.spot, hj.symm]

/-- Who gets the lock changes nothing for the others. -/
theorem Admits.spot {r : Routine π alone} (h : Admits i r x y) (hj : j ≠ i) :
    y.spot j = x.spot j := by
  cases h with
  | shared => simp [Inside.spot, List.find?_append, hj.symm]
  | alone => simp [Inside.spot, hj.symm]

theorem Leaves.spot {answer : Answer} (h : Leaves i answer x y) (hj : j ≠ i) :
    y.spot j = x.spot j := by
  cases h with
  | shared => simp [Inside.spot, List.find?_append, hj.symm]
  | alone => simp [Inside.spot, hj.symm]

theorem spot_eq_none_iff : x.spot i = none ↔ x.Outside i := by
  cases x with
  | shared visitors =>
    simp only [spot, Outside, Option.map_eq_none_iff, List.find?_eq_none, List.mem_map]
    constructor
    · rintro h ⟨v, hv, rfl⟩
      exact h v hv (by simp)
    · exact fun h v hv hi => h ⟨v, hv, by simpa using hi⟩
  | alone k m => simp [spot, Outside, eq_comm]

/-- Nobody else stands anywhere while a thread has the lock alone. -/
theorem At.spot_of_ne {l : Local π true} {put : Local π true → Inside π} (h : At i l x put)
    (hj : j ≠ i) : x.spot j = none := by
  cases h
  simp [Inside.spot, hj.symm]

end Inside

inductive Lock
  | selected
  | project
  | session
  | queue (side : Bool)
  deriving DecidableEq

inductive Agent
  | caller (i : Nat)
  | worker (side : Bool)
  deriving DecidableEq

/-- What a calling thread is at, besides its section. -/
inductive Activity (π : Type)
  | steady
  | visits (first : Lock) (rest : List Lock)
  /-- It is about to wake the worker that is parked on that side. -/
  | wakes (side : Bool)
  | spawns (report : Except BindError π) (spawn : WorkerSpawn π)
  | waits
  /-- It waits for that lock to take a look only. -/
  | looks
  | looking

def Activity.next {π : Type} : List Lock → Activity π
  | [] => .steady
  | first :: rest => .visits first rest

namespace Journal

def Notice.lock? : Notice → Option Lock
  | line .. | summary => none
  | _ => some .session

def Entry.lock? : Entry → Option Lock
  | told _ => some .session
  | _ => none

def Notice.after {π : Type} (report : Option (Except BindError π)) (n : Notice) : Activity π :=
  match n, report with
  | phase .loading, some r => .spawns r {}
  | phase .unloading, _ => .visits .selected [.project]
  | _, _ => .steady

end Journal

namespace Routine

variable {π : Type}

def lock? (side : Bool) : {alone : Bool} → Routine π alone → Option Lock
  | _, .notice n _ => n.lock?
  | alone, .ask _ _ => some (.queue (alone != side))
  | _, .select _ _ => some .selected
  | _, .lock _ => some .project
  | _, .dismiss _ => some (.queue (true != side))
  | _, _ => none

/-- What a thread is at when it has done that. -/
def after (side : Bool) (report : Option (Except BindError π)) :
    {alone : Bool} → Routine π alone → Activity π
  | alone, .notice n _ => if alone then n.after report else .steady
  | alone, .ask _ _ => .wakes (alone != side)
  | _, .dismiss _ => .wakes (true != side)
  | _, _ => .steady

def turns : {alone : Bool} → Routine π alone → Bool
  | _, .take _ | _, .seat .. => true
  | _, _ => false

def seats : {alone : Bool} → Routine π alone → Bool
  | _, .seat .. => true
  | _, _ => false

end Routine

namespace Local

variable {π : Type} {alone : Bool}

def lock? (side : Bool) (l : Local π alone) : Option Lock :=
  match l.todo, l.rest with
  | e :: _, _ => e.lock?
  | [], .go r => r.lock? side
  | [], _ => none

def after (side : Bool) (report : Option (Except BindError π)) (l : Local π alone) : Activity π :=
  match l.todo, l.rest with
  | [], .go r => r.after side report
  | _, _ => .steady

def turns (l : Local π alone) : Bool :=
  match l.todo, l.rest with
  | [], .go r => r.turns
  | _, _ => false

def seats (l : Local π alone) : Bool :=
  match l.todo, l.rest with
  | [], .go r => r.seats
  | _, _ => false

end Local

def Post.lock? {π : Type} (side : Bool) (p : Post π) : Option Lock :=
  match p.duty with
  | .idle => some (.queue side)
  | .books _ _ (e :: _) => e.lock?
  | _ => none

def Section.report? {π : Type} (d : Dispatcher π) : Section π → Option (Except BindError π)
  | .install _ loader _ => some (loader.report d.lastRetired)
  | _ => none

structure BlockingSystem (π : Type) where
  threads : ThreadSystem π
  activity : Nat → Activity π := fun _ => .steady
  /-- Who has a lock for a moment. -/
  held : Lock → Option Agent := fun _ => none
  /-- The side that the worker of the binding goes by; a worker in a thread's hand has the other. -/
  side : Bool := false
  /-- The worker on that side waits until it is woken. -/
  parked : Bool → Bool := fun _ => false
  /-- What the loader comes to of the thread that has the lock of the binding alone. -/
  report : Option (Except BindError π) := none
  /-- The queue is closed of a worker that is bound and to be replaced; whether that worker has
  gone. -/
  ousted : Option Bool := none

namespace BlockingSystem

variable {π : Type}

def station (t : BlockingSystem π) (b : Bool) : Option (Post π) := t.threads.post (b != t.side)

def lock? (t : BlockingSystem π) {alone : Bool} (l : Local π alone) : Option Lock :=
  if l.seats ∧ t.threads.dispatcher.isBound ∧ t.ousted = none then some (.queue t.side)
  else l.lock? t.side

def want (t : BlockingSystem π) : Agent → Option Lock
  | .caller i =>
    match t.activity i with
    | .visits first _ => some first
    | .steady => (t.threads.inside.spot i).bind fun s => t.lock? s.2
    | _ => none
  | .worker b =>
    if t.parked b ∨ b = t.side ∧ t.ousted = some true then none
    else (t.station b).bind (Post.lock? b)

/-- Who has which lock when one is given back. -/
def freed (t : BlockingSystem π) (ℓ : Option Lock) (k : Lock) : Option Agent :=
  if ℓ = some k then none else t.held k

def withActivity (t : BlockingSystem π) (i : Nat) (s : Activity π) : BlockingSystem π :=
  { t with activity := Function.update t.activity i s }

/-- A thread that needs to be alone waits for the lock of the binding. -/
def WriterWaits (t : BlockingSystem π) : Prop :=
  ∃ i s sections, t.activity i = .waits ∧ t.threads.due i = s :: sections ∧ s.alone = true

/-- A thread may share the lock of the binding: unless they pass by, it lets writers go first. -/
def MayPass (t : BlockingSystem π) (passing : Bool) : Prop := passing = true ∨ ¬ t.WriterWaits

variable [Provider π]

/-- A thread that is in a call, or a worker, goes on. -/
inductive Go (passing : Bool) (t : BlockingSystem π) : BlockingSystem π → Prop
  | arrive {i : Nat} {s : Section π} {sections : List (Section π)}
      (steady : t.activity i = .steady) (due : t.threads.due i = s :: sections)
      (outside : t.threads.inside.Outside i) : t.Go passing (t.withActivity i .waits)
  | enter {i : Nat} {s : Section π} {sections : List (Section π)} {inside : Inside π}
      (waits : t.activity i = .waits) (due : t.threads.due i = s :: sections)
      (admitted : Inside.Admits i (s.routine t.threads.dispatcher) t.threads.inside inside)
      (free : s.alone = true → ∀ j, t.activity j ≠ .looking)
      (yields : s.alone = false → t.MayPass passing) :
      t.Go passing
        { t.withActivity i .steady with
          threads := { t.threads with due := Function.update t.threads.due i sections, inside }
          report := s.report? t.threads.dispatcher }
  | see {i : Nat} (looks : t.activity i = .looks) (shared : t.threads.inside.isAlone = false)
      (yields : t.MayPass passing) : t.Go passing (t.withActivity i .looking)
  | away {i : Nat} (looking : t.activity i = .looking) : t.Go passing (t.withActivity i .steady)
  | grab {a : Agent} {ℓ : Lock} (wants : t.want a = some ℓ) (free : t.held ℓ = none)
      (unlocked : ℓ = .project → t.threads.locked = none) :
      t.Go passing { t with held := Function.update t.held ℓ (some a) }
  | visit {i : Nat} {first : Lock} {rest : List Lock} (visits : t.activity i = .visits first rest)
      (has : t.held first = some (.caller i)) :
      t.Go passing { t.withActivity i (.next rest) with held := t.freed (some first) }
  | act {i : Nat} {alone : Bool} {l : Local π alone} {put : Local π alone → Inside π}
      {y : ThreadSystem π} (steady : t.activity i = .steady)
      (here : Inside.At i l t.threads.inside put)
      (has : ∀ ℓ, l.lock? t.side = some ℓ → t.held ℓ = some (.caller i))
      (replaced : l.seats = true → t.threads.dispatcher.isBound = true → t.ousted = some true)
      (move : t.threads.Move i l put y) :
      t.Go passing
        { t.withActivity i (l.after t.side t.report) with
          threads := y
          held := t.freed (l.lock? t.side)
          side := t.side != l.turns
          ousted := if l.seats then none else t.ousted }
  | oust {i : Nat} {l : Local π true} {put : Local π true → Inside π}
      (steady : t.activity i = .steady) (here : Inside.At i l t.threads.inside put)
      (seats : l.seats = true) (bound : t.threads.dispatcher.isBound = true)
      (fresh : t.ousted = none) (has : t.held (.queue t.side) = some (.caller i)) :
      t.Go passing
        { t.withActivity i (.wakes t.side) with
          held := t.freed (some (.queue t.side))
          ousted := some false }
  | wake {i : Nat} {b : Bool} (wakes : t.activity i = .wakes b) :
      t.Go passing
        { t.withActivity i .steady with parked := Function.update t.parked b false }
  | spawn {i : Nat} {report : Except BindError π} {h k : WorkerSpawn π}
      (spawns : t.activity i = .spawns report h) (step : h.Step report k) :
      t.Go passing (t.withActivity i (.spawns report k))
  | spawned {i : Nat} {report : Except BindError π} {h : WorkerSpawn π} {r : Except BindError Unit}
      (spawns : t.activity i = .spawns report h) (outcome : h.outcome = some r) :
      t.Go passing (t.withActivity i .steady)
  | leave {i : Nat} {answer : Answer} {inside : Inside π} (steady : t.activity i = .steady)
      (empty : t.threads.hand = none) (left : Inside.Leaves i answer t.threads.inside inside) :
      t.Go passing { t with threads := t.threads.withInside inside }
  | work {b : Bool} {p q : Post π} {es : List Journal.Entry} {ran : Option (Command × Output)}
      (awake : t.parked b = false) (stays : b = t.side → t.ousted ≠ some true)
      (post : t.station b = some p)
      (has : ∀ ℓ, p.lock? b = some ℓ → t.held ℓ = some (.worker b)) (works : p.Works q es ran) :
      t.Go passing
        { t with
          threads := (t.threads.withPost (b != t.side) q).record es
            (ran.map fun r => ⟨b != t.side, .worker, r.1, r.2⟩).toList
          held := t.freed (p.lock? b) }
  /-- A worker finds nothing to do and waits until it is woken. -/
  | park {b : Bool} {p : Post π} (awake : t.parked b = false) (post : t.station b = some p)
      (idle : p.duty = .idle) (drained : p.worker.queue.pending = [])
      (opened : p.worker.queue.closed = false) (stays : b = t.side → t.ousted = none)
      (has : t.held (.queue b) = some (.worker b)) :
      t.Go passing
        { t with
          parked := Function.update t.parked b true
          held := t.freed (some (.queue b)) }
  /-- The worker that is replaced finds its queue closed. -/
  | quit {p : Post π} (awake : t.parked t.side = false) (post : t.station t.side = some p)
      (idle : p.duty = .idle) (drained : p.worker.queue.pending = [])
      (closed : t.ousted = some false) (has : t.held (.queue t.side) = some (.worker t.side)) :
      t.Go passing { t with ousted := some true, held := t.freed (some (.queue t.side)) }

/-- A thread begins something, or a worker wakes up for no reason. -/
inductive Begin (A : Operation π → Prop) (t : BlockingSystem π) : BlockingSystem π → Prop
  | call {i : Nat} {op : Operation π} (may : A op) (steady : t.activity i = .steady)
      (finished : t.threads.due i = []) (outside : t.threads.inside.Outside i) :
      t.Begin A
        { t with
          threads :=
            { t.threads with
              dispatcher := t.threads.dispatcher.accept op
              due := Function.update t.threads.due i op.sections } }
  | peek {i : Nat} {ℓ : Lock} (mutex : ℓ = .selected ∨ ℓ = .project)
      (steady : t.activity i = .steady) (finished : t.threads.due i = [])
      (outside : t.threads.inside.Outside i) : t.Begin A (t.withActivity i (.visits ℓ []))
  | look {i : Nat} (steady : t.activity i = .steady) (finished : t.threads.due i = [])
      (outside : t.threads.inside.Outside i) : t.Begin A (t.withActivity i .looks)
  | stray {b : Bool} : t.Begin A { t with parked := Function.update t.parked b false }

inductive Step (A : Operation π → Prop) (passing : Bool) (t : BlockingSystem π) :
    BlockingSystem π → Prop
  | go {u : BlockingSystem π} (goes : t.Go passing u) : t.Step A passing u
  | begin {u : BlockingSystem π} (begins : t.Begin A u) : t.Step A passing u

abbrev Reaches (A : Operation π → Prop) (passing : Bool) :
    BlockingSystem π → BlockingSystem π → Prop :=
  Relation.ReflTransGen (Step A passing)

/-- A thread is in a call. -/
def Busy (t : BlockingSystem π) (i : Nat) : Prop :=
  t.threads.due i ≠ [] ∨ ¬ t.threads.inside.Outside i ∨ t.activity i ≠ .steady

/-- Each step is one of the threads, or of what surrounds it. -/
theorem Step.threads {t u : BlockingSystem π} {A : Operation π → Prop} {passing : Bool}
    (h : t.Step A passing u) : u.threads = t.threads ∨ t.threads.Step A u.threads := by
  cases h with
  | begin begins =>
    cases begins with
    | call may steady finished outside => exact .inr (.call may finished outside)
    | peek | look | stray => exact .inl rfl
  | go goes =>
    cases goes with
    | enter waits due admitted => exact .inr (.enter due admitted)
    | act steady here has replaced move => exact .inr (.move here move)
    | leave steady empty left => exact .inr (.leave empty left)
    | work awake stays post has works => exact .inr (.work post works)
    | _ => exact .inl rfl

/-- Without the locks, these are runs of the threads. -/
theorem Reaches.threads {t u : BlockingSystem π} {A : Operation π → Prop} {passing : Bool}
    (h : t.Reaches A passing u) : t.threads.Reaches A u.threads := by
  induction h with
  | refl => exact .refl
  | tail _ s ih =>
    rcases s.threads with hc | hc
    · rw [hc]
      exact ih
    · exact ih.tail hc

end BlockingSystem

end SccDispatch
