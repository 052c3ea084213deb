import Mathlib.Data.List.Induction
import Mathlib.Logic.Relation
import SccDispatch.Proofs.WorkerDelivery

namespace SccDispatch

namespace SharedQueue

variable {α : Type}

inductive Call (α : Type)
  | push (item : α)
  | pop
  | close

inductive Reply (α : Type)
  | accepted
  /-- The queue was closed, and the item is given back. -/
  | refused (item : α)
  | item (a : α)
  | finished
  | closed

inductive Wakeup
  | one
  | all

def Reply.wakeup? : Reply α → Option Wakeup
  | accepted => some .one
  | closed => some .all
  | refused _ | item _ | finished => none

def Call.answer? (q : Queue α) : Call α → Option (Reply α × Queue α)
  | push a =>
    match q.push a with
    | .ok next => some (.accepted, next)
    | .error b => some (.refused b, q)
  | pop =>
    match q.pop with
    | .item a next => some (.item a, next)
    | .finished => some (.finished, q)
    | .waits => none
  | close => some (.closed, q.close)

inductive Answered (q : Queue α) : Call α → Reply α → Queue α → Prop
  | accepted {a : α} (opened : q.closed = false) :
      Answered q (.push a) .accepted { q with pending := q.pending ++ [a] }
  | refused {a : α} (closed : q.closed = true) : Answered q (.push a) (.refused a) q
  | item {a : α} {rest : List α} (first : q.pending = a :: rest) :
      Answered q .pop (.item a) { q with pending := rest }
  | finished (drained : q.pending = []) (closed : q.closed = true) : Answered q .pop .finished q
  | closed : Answered q .close .closed { q with closed := true }

theorem answered_of_eq {q next : Queue α} {c : Call α} {r : Reply α}
    (h : c.answer? q = some (r, next)) : Answered q c r next := by
  cases c with
  | push a =>
    cases hc : q.closed with
    | false =>
      simp only [Call.answer?, Queue.push_of_open hc] at h
      cases h
      exact .accepted hc
    | true =>
      simp only [Call.answer?, Queue.push_of_closed hc] at h
      cases h
      exact .refused hc
  | pop =>
    cases hp : q.pending with
    | cons a rest =>
      simp only [Call.answer?, Queue.pop_of_cons hp] at h
      cases h
      exact .item hp
    | nil =>
      cases hc : q.closed with
      | false => simp [Call.answer?, Queue.pop_of_open hp hc] at h
      | true =>
        simp only [Call.answer?, Queue.pop_of_closed hp hc] at h
        cases h
        exact .finished hp hc
  | close =>
    cases h
    exact .closed

/-- Only who asks for the next item of an open and empty queue has to wait. -/
theorem answer?_eq_none_iff {q : Queue α} {c : Call α} :
    c.answer? q = none ↔ c = .pop ∧ q = .empty := by
  constructor
  · intro h
    cases c with
    | push a => cases hc : q.closed <;> simp [Call.answer?, Queue.push, hc] at h
    | pop =>
      obtain ⟨pending, closed⟩ := q
      cases pending <;> cases closed <;> simp [Call.answer?, Queue.pop] at h
      exact ⟨rfl, rfl⟩
    | close => simp [Call.answer?] at h
  · rintro ⟨rfl, rfl⟩
    rfl

/-- Where a thread stands. -/
inductive Place (α : Type)
  | away
  | calls (c : Call α)
  | looks (c : Call α)
  /-- It has the lock, and is about to give it back and be parked. -/
  | stays
  | parked
  | leaves (r : Reply α)
  | wakes (b : Wakeup)

def Reply.after (r : Reply α) : Place α :=
  match r.wakeup? with
  | some b => .wakes b
  | none => .away

def Place.woken : Place α → Place α
  | parked => .calls .pop
  | p => p

/-- A call, and what it came to. -/
structure Deed (α : Type) where
  thread : Nat
  call : Call α
  reply : Reply α

end SharedQueue

structure SharedQueue (α : Type) where
  queue : Queue α := .empty
  holder : Option Nat := none
  place : Nat → SharedQueue.Place α := fun _ => .away
  past : List (SharedQueue.Deed α) := []

namespace SharedQueue

variable {α : Type}

def move (x : SharedQueue α) (i : Nat) (p : Place α) : SharedQueue α :=
  { x with place := Function.update x.place i p }

/-- A step of one thread; `may` says which thread makes which calls. -/
inductive Step (may : Nat → Call α → Prop) (x : SharedQueue α) : SharedQueue α → Prop
  | call {i : Nat} {c : Call α} (allowed : may i c) (away : x.place i = .away) :
      x.Step may (x.move i (.calls c))
  | enter {i : Nat} {c : Call α} (calls : x.place i = .calls c) (free : x.holder = none) :
      x.Step may { x.move i (.looks c) with holder := some i }
  | answer {i : Nat} {c : Call α} {r : Reply α} {next : Queue α} (looks : x.place i = .looks c)
      (answered : c.answer? x.queue = some (r, next)) :
      x.Step may { x.move i (.leaves r) with queue := next, past := x.past ++ [⟨i, c, r⟩] }
  | stay {i : Nat} {c : Call α} (looks : x.place i = .looks c)
      (waits : c.answer? x.queue = none) : x.Step may (x.move i .stays)
  | park {i : Nat} (stays : x.place i = .stays) :
      x.Step may { x.move i .parked with holder := none }
  | leave {i : Nat} {r : Reply α} (leaves : x.place i = .leaves r) :
      x.Step may { x.move i r.after with holder := none }
  | wake {i j : Nat} (wakes : x.place i = .wakes .one) (parked : x.place j = .parked) :
      x.Step may ((x.move i .away).move j (.calls .pop))
  | idle {i : Nat} (wakes : x.place i = .wakes .one) (nobody : ∀ j, x.place j ≠ .parked) :
      x.Step may (x.move i .away)
  | wakeAll {i : Nat} (wakes : x.place i = .wakes .all) :
      x.Step may { x with place := Function.update (fun j => (x.place j).woken) i .away }
  /-- A parked thread wakes up for no reason. -/
  | stray {i : Nat} (parked : x.place i = .parked) : x.Step may (x.move i (.calls .pop))

abbrev Reaches (may : Nat → Call α → Prop) : SharedQueue α → SharedQueue α → Prop :=
  Relation.ReflTransGen (Step may)

def made (x : SharedQueue α) (d : Deed α) (next : Queue α) : SharedQueue α :=
  { x.move d.thread d.reply.after with queue := next, holder := none, past := x.past ++ [d] }

/-- A thread that nobody disturbs does what the queue's own functions do. -/
theorem reaches_made {may : Nat → Call α → Prop} {x : SharedQueue α} {i : Nat} {c : Call α}
    {r : Reply α} {next : Queue α} (allowed : may i c) (away : x.place i = .away)
    (free : x.holder = none) (answered : c.answer? x.queue = some (r, next)) :
    x.Reaches may (x.made ⟨i, c, r⟩ next) := by
  let called := x.move i (.calls c)
  let entered : SharedQueue α := { called.move i (.looks c) with holder := some i }
  let done : SharedQueue α :=
    { entered.move i (.leaves r) with queue := next, past := x.past ++ [⟨i, c, r⟩] }
  have calls : called.place i = .calls c := Function.update_self ..
  have looks : entered.place i = .looks c := Function.update_self ..
  have leaves : done.place i = .leaves r := Function.update_self ..
  have last : ({ done.move i r.after with holder := none } : SharedQueue α) =
      x.made ⟨i, c, r⟩ next := by
    simp [done, entered, called, made, move]
  rw [← last]
  exact (((Relation.ReflTransGen.single (.call allowed away)).tail (.enter calls free)).tail
    (.answer looks answered)).tail (.leave leaves)

def Deed.accepted? (d : Deed α) : Option α :=
  match d.call, d.reply with
  | .push a, .accepted => some a
  | _, _ => none

def Deed.taken? (d : Deed α) : Option α :=
  match d.reply with
  | .item a => some a
  | _ => none

/-- The items that were pushed, but for those that were given back. -/
def accepted (past : List (Deed α)) : List α := past.filterMap Deed.accepted?

def taken (past : List (Deed α)) : List α := past.filterMap Deed.taken?

def Closed (past : List (Deed α)) : Prop := ∃ d ∈ past, d.call = .close

@[simp]
theorem accepted_concat (past : List (Deed α)) (d : Deed α) :
    accepted (past ++ [d]) = accepted past ++ d.accepted?.toList :=
    SharedWorker.filterMap_concat _ _ _

@[simp]
theorem taken_concat (past : List (Deed α)) (d : Deed α) :
    taken (past ++ [d]) = taken past ++ d.taken?.toList := SharedWorker.filterMap_concat _ _ _

@[simp]
theorem closed_concat (past : List (Deed α)) (d : Deed α) :
    Closed (past ++ [d]) ↔ Closed past ∨ d.call = .close := by
  simp [Closed, or_and_right, exists_or]

/-- All that was pushed was taken, and nothing more can be pushed. -/
def Drained (past : List (Deed α)) : Prop := accepted past = taken past ∧ Closed past

/-- The reply that is due to a call after what was done before it. -/
inductive Due (before : List (Deed α)) : Call α → Reply α → Prop
  | accepted {a : α} (opened : ¬ Closed before) : Due before (.push a) .accepted
  | refused {a : α} (closed : Closed before) : Due before (.push a) (.refused a)
  | item {a : α} {rest : List α} (first : accepted before = taken before ++ a :: rest) :
      Due before .pop (.item a)
  | finished (drained : Drained before) : Due before .pop .finished
  | closed : Due before .close .closed

/-- Once it is drained a queue stays so. -/
theorem Drained.concat {past : List (Deed α)} {d : Deed α} (h : Drained past)
    (due : Due past d.call d.reply) : Drained (past ++ [d]) := by
  obtain ⟨all, closed⟩ := h
  obtain ⟨thread, call, reply⟩ := d
  refine ⟨?_, (closed_concat _ _).mpr (.inl closed)⟩
  cases due with
  | accepted opened => exact absurd closed opened
  | item first =>
    rw [all] at first
    exact absurd (List.self_eq_append_right.mp first) (List.cons_ne_nil _ _)
  | refused | finished | closed => simpa [Deed.accepted?, Deed.taken?] using all

/-- When all was taken a consumer is told that it is over. -/
theorem Drained.reply {past : List (Deed α)} {r : Reply α} (h : Drained past)
    (due : Due past .pop r) : r = .finished := by
  cases due with
  | item first =>
    rw [h.1] at first
    exact absurd (List.self_eq_append_right.mp first) (List.cons_ne_nil _ _)
  | finished => rfl

/-- Whoever was told that the queue is finished was told so for good. -/
theorem finished_for_good {past : List (Deed α)}
    (due : ∀ before d after, past = before ++ d :: after → Due before d.call d.reply)
    {before after : List (Deed α)} {d : Deed α} (h : past = before ++ d :: after)
    (finished : d.reply = .finished) :
    ∀ later ∈ after, later.call = .pop → later.reply = .finished := by
  have drained : Drained before := by
    have hd := due before d after h
    rw [finished] at hd
    generalize d.call = c at hd
    cases hd with
    | finished drained => exact drained
  -- Nothing is added or taken between the two calls.
  have stays : ∀ more rest, after = more ++ rest → Drained (before ++ d :: more) := by
    intro more
    induction more using List.reverseRecOn with
    | nil =>
      intro rest _
      exact drained.concat (due before d after h)
    | append_singleton more e ih =>
      rintro rest rfl
      have hm := ih (e :: rest) (by simp)
      have he := due (before ++ d :: more) e rest (by simp [h])
      simpa using hm.concat he
  intro later hl hc
  obtain ⟨more, rest, rfl⟩ := List.append_of_mem hl
  have hd := due (before ++ d :: more) later rest (by simp [h])
  rw [hc] at hd
  exact (stays more (later :: rest) rfl).reply hd

def Place.HasLock : Place α → Prop
  | looks _ | stays | leaves _ => True
  | away | calls _ | parked | wakes _ => False

theorem Reply.not_hasLock_after (r : Reply α) : ¬ r.after.HasLock := by
  cases r <;> exact id

section Woken

variable {p : Place α}

theorem Place.hasLock_woken : p.woken.HasLock ↔ p.HasLock := by cases p <;> exact Iff.rfl

theorem Place.woken_eq_leaves {r : Reply α} : p.woken = .leaves r ↔ p = .leaves r := by
  cases p <;> simp [woken]

theorem Place.woken_eq_stays : p.woken = .stays ↔ p = .stays := by cases p <;> simp [woken]

end Woken

/-- Nobody has the lock but who is said to have it. So what a thread with the lock has found stays
true until it gives the lock back. -/
structure Exclusive (x : SharedQueue α) : Prop where
  held : ∀ i, (x.place i).HasLock → x.holder = some i
  told : ∀ i r, x.place i = .leaves r → ∃ before c, x.past = before ++ [⟨i, c, r⟩]
  empty : ∀ i, x.place i = .stays → x.queue = .empty

theorem exclusive_start : Exclusive ({} : SharedQueue α) where
  held _ h := h.elim
  told _ _ h := by cases h
  empty _ h := by cases h

section Exclusive

variable {x : SharedQueue α} {i : Nat}

theorem Exclusive.moved (h : Exclusive x) {p : Place α} {holder : Option Nat}
    (here : p.HasLock → holder = some i)
    (others : ∀ j, j ≠ i → (x.place j).HasLock → holder = some j)
    (told : ∀ r, p = .leaves r → ∃ before c, x.past = before ++ [⟨i, c, r⟩])
    (empty : p = .stays → x.queue = .empty) : Exclusive { x.move i p with holder } where
  held := (Function.forall_update_iff x.place fun j p => p.HasLock → holder = some j).mpr
    ⟨here, others⟩
  told := (Function.forall_update_iff x.place fun j p =>
      ∀ r, p = .leaves r → ∃ before c, x.past = before ++ [Deed.mk j c r]).mpr
    ⟨told, fun j _ => h.told j⟩
  empty := (Function.forall_update_iff x.place fun _ p => p = .stays → x.queue = .empty).mpr
    ⟨empty, fun j _ => h.empty j⟩

/-- A thread goes to where it needs no lock. -/
theorem Exclusive.outside (h : Exclusive x) {p : Place α} (hp : ¬ p.HasLock) :
    Exclusive (x.move i p) := by
  have here : p.HasLock → x.holder = some i := fun hl => absurd hl hp
  exact h.moved here (fun j _ => h.held j) (fun _ hr => absurd (hr ▸ trivial) hp)
    fun hs => absurd (hs ▸ trivial) hp

/-- A thread gives the lock back. -/
theorem Exclusive.release (h : Exclusive x) (hl : (x.place i).HasLock) {p : Place α}
    (hp : ¬ p.HasLock) : Exclusive { x.move i p with holder := none } := by
  refine h.moved (fun hl => absurd hl hp) (fun j hj hl' => ?_)
    (fun _ hr => absurd (hr ▸ trivial) hp) fun hs => absurd (hs ▸ trivial) hp
  have hi := h.held i hl
  rw [h.held j hl'] at hi
  exact absurd (Option.some.inj hi) hj

theorem Exclusive.woken (h : Exclusive x) :
    Exclusive { x with place := fun j => (x.place j).woken } where
  held j hj := h.held j (Place.hasLock_woken.mp hj)
  told j r hj := h.told j r (Place.woken_eq_leaves.mp hj)
  empty j hj := h.empty j (Place.woken_eq_stays.mp hj)

theorem Exclusive.step {may : Nat → Call α → Prop} {y : SharedQueue α} (h : Exclusive x)
    (s : x.Step may y) : Exclusive y := by
  cases s with
  | call allowed away => exact h.outside id
  | @enter i c calls free =>
    refine h.moved (fun _ => rfl) (fun j _ hl => ?_) (by rintro r ⟨⟩) (by rintro ⟨⟩)
    have hj := h.held j hl
    rw [free] at hj
    cases hj
  | @answer i c r next looks answered =>
    have hi : x.holder = some i := h.held i (by rw [looks]; trivial)
    have alone : ∀ j, j ≠ i → ¬ (x.place j).HasLock := by
      intro j hj hl
      rw [h.held j hl] at hi
      exact hj (Option.some.inj hi)
    -- Nobody else has the lock, so the queue is changed behind nobody's back.
    have others : ∀ j, j ≠ i → ∀ p : Place α, p.HasLock → x.place j ≠ p := by
      rintro j hj _ hl rfl
      exact alone j hj hl
    exact {
      held := (Function.forall_update_iff x.place fun j p => p.HasLock → x.holder = some j).mpr
        ⟨fun _ => hi, fun j hj hl => absurd hl (alone j hj)⟩
      told := (Function.forall_update_iff x.place fun j p => ∀ r', p = .leaves r' →
          ∃ before c', x.past ++ [Deed.mk i c r] = before ++ [Deed.mk j c' r']).mpr
        ⟨fun r' hr => ⟨x.past, c, by rw [Place.leaves.inj hr]⟩,
          fun j hj r' hr => absurd hr (others j hj _ trivial)⟩
      empty := (Function.forall_update_iff x.place fun _ p => p = .stays → next = .empty).mpr
        ⟨by rintro ⟨⟩, fun j hj hs => absurd hs (others j hj _ trivial)⟩ }
  | @stay i c looks waits =>
    have here : Place.HasLock (α := α) .stays → x.holder = some i := fun _ =>
      h.held i (by rw [looks]; trivial)
    exact h.moved here (fun j _ => h.held j) (by rintro r ⟨⟩) fun _ =>
      (answer?_eq_none_iff.mp waits).2
  | park stays => exact h.release (by rw [stays]; trivial) id
  | @leave i r leaves => exact h.release (by rw [leaves]; trivial) r.not_hasLock_after
  | wake wakes parked => exact (h.outside id).outside id
  | idle wakes nobody => exact h.outside id
  | wakeAll wakes => exact h.woken.outside id
  | stray parked => exact h.outside id

end Exclusive

/-- The queue is what its deeds make of it, and each of them got the reply that was due. -/
structure Accounted (x : SharedQueue α) : Prop where
  items : taken x.past ++ x.queue.pending = accepted x.past
  closed : x.queue.closed = true ↔ Closed x.past
  due : ∀ before d after, x.past = before ++ d :: after → Due before d.call d.reply

theorem Accounted.of_same {x y : SharedQueue α} (h : Accounted x) (hq : y.queue = x.queue)
    (hp : y.past = x.past) : Accounted y :=
  ⟨by rw [hq, hp]; exact h.items, by rw [hq, hp]; exact h.closed, by rw [hp]; exact h.due⟩

/-- A call changes the queue as its reply says. -/
theorem Accounted.answer {x y : SharedQueue α} {d : Deed α} (h : Accounted x)
    (answered : Answered x.queue d.call d.reply y.queue) (hp : y.past = x.past ++ [d]) :
    Accounted y := by
  obtain ⟨items, closed, due⟩ := h
  obtain ⟨thread, call, reply⟩ := d
  obtain ⟨queue, holder, place, past⟩ := y
  subst hp
  cases answered with
  | accepted opened =>
    have now : ¬ Closed x.past := by simp [← closed, opened]
    refine ⟨?_, by simp [closed], SharedWorker.forall_split_concat due (.accepted now)⟩
    simp [Deed.accepted?, Deed.taken?, ← items]
  | refused hc =>
    refine ⟨?_, by simp [closed], SharedWorker.forall_split_concat due (.refused (closed.mp hc))⟩
    simpa [Deed.accepted?, Deed.taken?] using items
  | item first =>
    have all := items
    rw [first] at all
    refine ⟨?_, by simp [closed], SharedWorker.forall_split_concat due (.item all.symm)⟩
    simpa [Deed.accepted?, Deed.taken?] using all
  | finished drained hc =>
    rw [drained, List.append_nil] at items
    have now : Drained x.past := ⟨items.symm, closed.mp hc⟩
    refine ⟨?_, by simp [closed], SharedWorker.forall_split_concat due (.finished now)⟩
    simpa [Deed.accepted?, Deed.taken?, drained] using items
  | closed =>
    refine ⟨?_, by simp, SharedWorker.forall_split_concat due .closed⟩
    simpa [Deed.accepted?, Deed.taken?] using items

theorem accounted_start : Accounted ({} : SharedQueue α) where
  items := rfl
  closed := by simp [Closed, Queue.empty]
  due before d after h := by simp at h

variable {may : Nat → Call α → Prop} {x y : SharedQueue α}

/-- So the queue stays what the calls have made of it. -/
theorem Accounted.step (h : Accounted x) (s : x.Step may y) : Accounted y := by
  cases s with
  | answer looks answered => exact h.answer (answered_of_eq answered) rfl
  | call | enter | stay | park | leave | wake | idle | wakeAll | stray => exact h.of_same rfl rfl

theorem reaches_kept (h : Reaches may {} x) : Exclusive x ∧ Accounted x := by
  induction h with
  | refl => exact ⟨exclusive_start, accounted_start⟩
  | tail _ s ih => exact ⟨ih.1.step s, ih.2.step s⟩

/-- Whoever does what and when: the items taken and those still in the queue are the items accepted,
in their order. Items are accepted until the queue is closed and given back from then on; whoever
asks gets the oldest item that is left, or is told that the queue is finished if it is closed and
nothing is left, and then nobody gets anything else. -/
theorem answered_in_order (h : Reaches may {} x) :
    taken x.past ++ x.queue.pending = accepted x.past ∧
    (x.queue.closed = true ↔ Closed x.past) ∧
    (∀ before d after, x.past = before ++ d :: after →
      Due before d.call d.reply ∧
        (d.reply = .finished → ∀ later ∈ after, later.call = .pop → later.reply = .finished)) ∧
    (∀ i r, x.place i = .leaves r → ∃ before c, x.past = before ++ [⟨i, c, r⟩]) ∧
    ∀ i, x.place i = .stays → x.queue = .empty := by
  obtain ⟨exclusive, items, closed, due⟩ := reaches_kept h
  exact ⟨items, closed, fun before d after he => ⟨due before d after he, finished_for_good due he⟩,
    exclusive.told, exclusive.empty⟩

/-- One item is pushed before the queue is closed and one after that, and two threads ask. -/
theorem answered_in_order_closed :
    ∃ x : SharedQueue Nat, Reaches (fun _ _ => True) {} x ∧
      x.past.map Deed.reply = [.accepted, .closed, .refused 8, .item 7, .finished] ∧
      taken x.past ++ x.queue.pending = accepted x.past := by
  have pushed : Reaches (fun _ _ => True) ({} : SharedQueue Nat) _ :=
    reaches_made (i := 1) (c := .push 7) trivial rfl rfl rfl
  have closed := pushed.trans (reaches_made (i := 2) (c := .close) trivial rfl rfl rfl)
  have refused := closed.trans (reaches_made (i := 3) (c := .push 8) trivial rfl rfl rfl)
  have popped := refused.trans (reaches_made (i := 4) (c := .pop) trivial rfl rfl rfl)
  have finished := popped.trans (reaches_made (i := 5) (c := .pop) trivial rfl rfl rfl)
  exact ⟨_, finished, rfl, (answered_in_order finished).1⟩

end SharedQueue

end SccDispatch
