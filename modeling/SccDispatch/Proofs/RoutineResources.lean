import SccDispatch.Proofs.JobsInFlight

namespace SccDispatch

structure Resources where
  bound : Bool
  /-- Whether the queue is open of the worker in its hand, if it has one. -/
  hand : Option Bool := none
  /-- It has the lock of the open project. -/
  locked : Bool := false

def Resources.Staffed (g : Resources) : (alone : Bool) → Prop
  | true => g.hand = some true
  | false => g.bound = true

/-- The routine reaches only for what is there, as long as its commands are answered. -/
def Routine.Fits {π : Type} : {alone : Bool} → Routine π alone → Resources → Prop
  | _, .done _, g => g.hand = none ∧ g.locked = false
  | _, .notice _ next, g => next.Fits g
  | alone, .ask _ next, g => g.Staffed alone ∧ ∀ out, (next (.ok out)).Fits g
  | _, .query _ next, g => g.bound = true ∧ ∀ out, (next out).Fits g
  | _, .select _ next, g => next.Fits g
  | _, .lock next, g => g.locked = false ∧ ∀ o, (next o).Fits { g with locked := true }
  | _, .unlock _ next, g => g.locked = true ∧ next.Fits { g with locked := false }
  | _, .take next, g =>
    (g.bound = true ∧ g.hand = none) ∧
      ∀ o, (next o).Fits { g with bound := false, hand := some true }
  | _, .employ _ next, g => g.hand = none ∧ next.Fits { g with hand := some true }
  | _, .seat _ _ _ next, g =>
    g.hand = some true ∧ next.Fits { g with bound := true, hand := none }
  | _, .dismiss next, g => g.hand = some true ∧ next.Fits { g with hand := some false }
  | _, .retire _ next, g => g.hand = some false ∧ next.Fits { g with hand := none }

section Routines

variable {π : Type} {alone bound : Bool} {g : Resources}

/-- A command may be run where a worker is. -/
theorem fits_run {command : Command} {next : Option Output → Routine π alone}
    (hs : g.Staffed alone) (hn : ∀ out, (next (some out)).Fits g) :
    (Routine.run command next).Fits g := ⟨hs, hn⟩

theorem fits_stop : (Routine.stop : Routine π true).Fits { bound, hand := some true } :=
  fits_run rfl fun _ => ⟨rfl, rfl, rfl, rfl⟩

/-- A release needs a provider that is bound. -/
theorem fits_release : (Routine.release : Routine π true).Fits { bound := true } := by
  refine ⟨⟨rfl, rfl⟩, fun o => ?_⟩
  show Routine.Fits (if o.isSome then _ else _) _
  split
  next => exact fits_run rfl fun _ => fits_stop
  next => exact fits_stop

theorem fits_abandon (name reason : String) :
    (Routine.abandon name reason : Routine π true).Fits { bound, hand := some true } :=
  ⟨rfl, rfl, rfl, rfl⟩

theorem fits_attach (name : String) (info : ProviderInfo) (window : Window) (concurrent : Bool) :
    (Routine.attach name info window concurrent : Routine π true).Fits
      { bound, hand := some true } := ⟨rfl, rfl, rfl⟩

theorem fits_start (name caller : String) (window : Window) :
    (Routine.start name caller window : Routine π true).Fits { bound, hand := some true } := by
  refine ⟨rfl, fun out => ?_⟩
  cases out with
  | initialized info concurrent =>
    show Routine.Fits (if info.code.isOk then _ else _) _
    split
    next => exact fits_attach ..
    next => exact fits_abandon ..
  | _ => exact fits_abandon ..

theorem fits_install (d : Dispatcher π) (name : String) (loader : Loader π) (window : Window) :
    (Routine.install d name loader window).Fits { bound } := by
  have hs : (Routine.start name d.options.caller window : Routine π true).Fits
      { bound, hand := some true } := fits_start ..
  unfold Routine.install Routine.writePath
  cases loader.path <;> rcases loader.load d.lastRetired with cause | e | provider <;>
    first | exact ⟨rfl, hs⟩ | exact ⟨rfl, rfl⟩

theorem fits_selectProject (window : Window) (initial : Project) :
    (Routine.selectProject window initial : Routine π false).Fits { bound := true } := by
  refine fits_run rfl fun out => ?_
  split
  next => exact ⟨rfl, rfl⟩
  next => exact ⟨rfl, rfl⟩

theorem fits_opening (command : Command) (p : Project) :
    (Routine.opening command p : Routine π false).Fits { bound := true, locked := true } := by
  refine fits_run rfl fun out => ?_
  split
  next => exact ⟨rfl, rfl, rfl⟩
  next => exact ⟨rfl, rfl, rfl⟩

theorem fits_openProject (command : Command) (p : Project) :
    (Routine.openProject command p : Routine π false).Fits { bound := true } := by
  refine ⟨rfl, fun o => ?_⟩
  show Routine.Fits (if o.isSome then _ else _) _
  split
  next => exact fits_run rfl fun _ => fits_opening command p
  next => exact fits_opening command p

theorem fits_closeProject : (Routine.closeProject : Routine π false).Fits { bound := true } := by
  refine ⟨rfl, fun o => ?_⟩
  show Routine.Fits (if o.isSome then _ else _) _
  split
  next => exact fits_run rfl fun _ => ⟨rfl, rfl, rfl⟩
  next => exact ⟨rfl, rfl, rfl⟩

theorem fits_settle (r : Request) (out : Option Output) :
    (Routine.settle r out : Routine π false).Fits { bound := true } := by
  unfold Routine.settle
  split
  next => exact ⟨rfl, rfl⟩
  next => exact ⟨rfl, rfl⟩

/-- A request needs the provider that it was made for. -/
theorem fits_request (b : Binding π) (r : Request) :
    (Routine.request b r).Fits { bound := true } := by
  unfold Routine.request
  split
  next => exact ⟨rfl, fun out => fits_settle r _⟩
  next => exact fits_run rfl fun out => fits_settle r _

/-- A section begins with what the dispatcher has. -/
theorem fits_routine (d : Dispatcher π) (s : Section π) :
    (s.routine d).Fits { bound := d.isBound } := by
  cases hb : d.binding with
  | none =>
    have hn : d.isBound = false := by rw [Dispatcher.isBound, hb]; rfl
    rw [hn]
    cases s with
    | install name loader window => exact fits_install d name loader window
    | request r =>
      simp only [Section.routine, hb]
      split
      next => exact ⟨rfl, rfl⟩
      next => exact ⟨rfl, rfl⟩
      next h => cases h
    | release | selectProject initial | openProject p | closeProject =>
      simp only [Section.routine, hb]
      exact ⟨rfl, rfl⟩
  | some b =>
    have hs : d.isBound = true := by rw [Dispatcher.isBound, hb]; rfl
    rw [hs]
    cases s with
    | install name loader window => exact fits_install d name loader window
    | release =>
      simp only [Section.routine, hb]
      exact fits_release
    | selectProject initial =>
      simp only [Section.routine, hb]
      exact fits_selectProject b.window initial
    | openProject p =>
      simp only [Section.routine, hb]
      exact fits_openProject _ p
    | closeProject =>
      simp only [Section.routine, hb]
      exact fits_closeProject
    | request r =>
      simp only [Section.routine, hb]
      split
      next => exact ⟨rfl, rfl⟩
      next h => cases h
      next h =>
        cases h
        exact fits_request b r

end Routines

def Rest.Fits {π : Type} {alone : Bool} : Rest π alone → Resources → Prop
  | go r, g => r.Fits g
  | await _ next, g => g.Staffed alone ∧ ∀ out, (next (.ok out)).Fits g
  | query _ next, g => alone = false ∧ g.bound = true ∧ ∀ out, (next out).Fits g

namespace ThreadSystem

variable {π : Type}

def resources (x : ThreadSystem π) (i : Nat) : Resources where
  bound := x.dispatcher.isBound
  hand := x.hand.map fun p => !p.worker.queue.closed
  locked := x.locked == some i

/-- The threads that have the lock of the binding, each in one place, have what they reach for, and
the queue of a provider that is bound is open. -/
structure ResourcesFit (x : ThreadSystem π) : Prop where
  distinct : x.inside.ids.Nodup
  holder : ∀ i, x.locked = some i → x.inside.isAlone = false ∧ i ∈ x.inside.ids
  opened : ∀ b, x.dispatcher.binding = some b → b.worker.queue.closed = false
  fits : x.inside.Every fun i _ l => l.rest.Fits (x.resources i)

namespace ResourcesFit

variable {x y : ThreadSystem π} {i : Nat} {alone : Bool} {p q : Post π} {l m : Local π alone}
  {put : Local π alone → Inside π}

theorem start (options : Options) :
    ({ dispatcher := { options } } : ThreadSystem π).ResourcesFit where
  distinct := List.nodup_nil
  holder i hi := by cases hi
  opened b hb := by cases hb
  fits v hv := by cases hv

/-- A thread that has the lock alone finds nobody with the lock of the open project. -/
theorem unlocked (h : x.ResourcesFit) (ha : x.inside.isAlone = true) : x.locked = none := by
  cases hl : x.locked with
  | none => rfl
  | some j => cases ha.symm.trans (h.holder j hl).1

/-- There is an open worker for those who have one. -/
theorem post (h : x.ResourcesFit) (hs : (x.resources i).Staffed alone) :
    ∃ p, x.post alone = some p ∧ p.worker.queue.closed = false := by
  cases alone with
  | true =>
    obtain ⟨p, hp, hc⟩ := Option.map_eq_some_iff.mp hs
    exact ⟨p, hp, by simpa using hc⟩
  | false =>
    obtain ⟨b, hb⟩ := Option.isSome_iff_exists.mp hs
    exact ⟨_, by rw [ThreadSystem.post, hb]; rfl, h.opened b hb⟩

/-- Only the thread itself goes on, with what it has. -/
theorem moved (h : x.ResourcesFit) (here : Inside.At i l x.inside put) (hy : y.inside = put m)
    (hg : ∀ j, y.resources j = x.resources j) (hl : y.locked = x.locked)
    (ho : ∀ b, y.dispatcher.binding = some b → b.worker.queue.closed = false)
    (hm : m.rest.Fits (x.resources i)) : y.ResourcesFit := by
  refine ⟨?_, fun j hj => ?_, ho, ?_⟩
  · rw [hy, here.ids_put]
    exact h.distinct
  · have hj := h.holder j (hl ▸ hj)
    rwa [hy, here.isAlone_put, here.ids_put, ← here.isAlone]
  · rw [hy]
    refine here.every_put ?_ ?_
    · exact h.fits.imp fun l hl => (hg _).symm ▸ hl
    · rw [hg]
      exact hm

/-- The thread takes the lock of the open project or gives it back. -/
theorem relocked (h : x.ResourcesFit) {l m : Local π false} {put : Local π false → Inside π}
    (here : Inside.At i l x.inside put) (hy : y.inside = put m)
    (hb : y.dispatcher.binding = x.dispatcher.binding) (hh : y.hand = x.hand)
    (hl : ∀ j, j ≠ i → (y.locked == some j) = (x.locked == some j)) {g : Resources}
    (hg : y.resources i = g) (hm : m.rest.Fits g) : y.ResourcesFit := by
  subst hg
  refine ⟨?_, fun j hj => ?_, fun b hb' => h.opened b (hb ▸ hb'), ?_⟩
  · rw [hy, here.ids_put]
    exact h.distinct
  · rw [hy, here.isAlone_put, here.ids_put]
    refine ⟨rfl, ?_⟩
    by_cases hji : j = i
    · exact hji ▸ here.mem_ids
    · have hx := hl j hji
      rw [hj, beq_self_eq_true] at hx
      exact (h.holder j (by simpa using hx.symm)).2
  · rw [hy]
    refine here.every_others h.distinct h.fits (fun {j _} k hj hk => ?_) hm
    have hg : y.resources j = x.resources j := by
      simp only [resources, Dispatcher.isBound, hb, hh, hl j hj]
    rw [hg]
    exact hk

/-- The thread that has the lock alone goes on, and may change all that there is. -/
theorem of_alone (h : x.ResourcesFit) {l m : Local π true} {put : Local π true → Inside π}
    (here : Inside.At i l x.inside put) (hy : y.inside = put m) (hl : y.locked = x.locked)
    (ho : ∀ b, y.dispatcher.binding = some b → b.worker.queue.closed = false) {g : Resources}
    (hg : y.resources i = g) (hm : m.rest.Fits g) : y.ResourcesFit := by
  subst hg
  refine ⟨?_, fun j hj => ?_, ho, ?_⟩
  · rw [hy, here.ids_put]
    exact h.distinct
  · rw [hl, h.unlocked here.isAlone] at hj
    cases hj
  · rw [hy]
    exact here.every_alone hm

/-- A worker goes on, or one more command is in its queue, or one answer less in its hand. -/
theorem resources_withPost (hp : x.post alone = some p)
    (hc : q.worker.queue.closed = p.worker.queue.closed) (j : Nat) :
    (x.withPost alone q).resources j = x.resources j := by
  cases alone with
  | true =>
    have hh : x.hand = some p := hp
    simp only [resources, withPost, hh, Option.map_some, hc]
  | false => simp only [resources, withPost, Dispatcher.isBound, Option.isSome_map]

theorem opened_withPost (h : x.ResourcesFit) (hp : x.post alone = some p)
    (hc : q.worker.queue.closed = p.worker.queue.closed) (b : Binding π)
    (hb : (x.withPost alone q).dispatcher.binding = some b) : b.worker.queue.closed = false := by
  cases alone with
  | true => exact h.opened b hb
  | false =>
    obtain ⟨b', hb', rfl⟩ := Option.map_eq_some_iff.mp hb
    obtain ⟨b'', hb'', rfl⟩ := Option.map_eq_some_iff.mp hp
    cases hb'.symm.trans hb''
    exact hc.trans (h.opened b' hb')

theorem locked_withPost (x : ThreadSystem π) (alone : Bool) (q : Post π) :
    (x.withPost alone q).locked = x.locked := by cases alone <;> rfl

theorem inside_withPost (x : ThreadSystem π) (alone : Bool) (q : Post π) :
    (x.withPost alone q).inside = x.inside := by cases alone <;> rfl

/-- A thread goes on together with the worker to which it dispatches. -/
theorem turn (h : x.ResourcesFit) {m : Local π alone} (here : Inside.At i l x.inside put)
    (hp : x.post alone = some p) (hc : q.worker.queue.closed = p.worker.queue.closed)
    (hm : m.rest.Fits (x.resources i)) : ((x.withPost alone q).withInside (put m)).ResourcesFit :=
  h.moved here rfl (resources_withPost hp hc) (locked_withPost ..) (h.opened_withPost hp hc) hm

/-- A thread that gets the lock finds what its section needs. -/
theorem enter (h : x.ResourcesFit) (ht : x.JobsTracked) {s : Section π}
    {sections : List (Section π)} {inside : Inside π}
    (admitted : Inside.Admits i (s.routine x.dispatcher) x.inside inside) :
    ({ x with due := Function.update x.due i sections, inside } : ThreadSystem π).ResourcesFit := by
  obtain ⟨hout, hids⟩ := admitted.ids
  have hfree : x.locked ≠ some i := fun hl => hout (h.holder i hl).2
  have hhand : x.hand = none := ht.hand admitted.isAlone.1
  refine ⟨?_, fun j hj => ?_, h.opened, ?_⟩
  · show inside.ids.Nodup
    rw [hids]
    refine List.nodup_append.mpr ⟨h.distinct, List.nodup_singleton _, fun a ha b hb hab => ?_⟩
    rw [hab, List.mem_singleton.mp hb] at ha
    exact hout ha
  · obtain ⟨-, ha | hx⟩ := admitted.isAlone
    · exact ⟨ha, hids ▸ List.mem_append_left _ (h.holder j hj).2⟩
    · have hm := (h.holder j hj).2
      rw [hx] at hm
      cases hm
  · refine admitted.every h.fits ?_
    have hg : x.resources i = { bound := x.dispatcher.isBound } := by
      simp [resources, hhand, hfree]
    show (s.routine x.dispatcher).Fits (x.resources i)
    rw [hg]
    exact fits_routine x.dispatcher s

/-- Giving the lock back takes nothing from the others. -/
theorem leave (h : x.ResourcesFit) {answer : Answer} {inside : Inside π}
    (left : Inside.Leaves i answer x.inside inside) :
    (x.withInside inside).ResourcesFit := by
  obtain ⟨b, put, here⟩ := left.exists_at (π := π)
  obtain ⟨-, hl⟩ : (x.resources i).hand = none ∧ (x.resources i).locked = false := here.every h.fits
  refine ⟨left.ids.1.nodup h.distinct, fun j hj => ?_, h.opened, left.every h.fits⟩
  refine ⟨left.isAlone.1, left.ids.2 j (h.holder j hj).2 ?_⟩
  rintro rfl
  simp only [resources, show x.locked = some j from hj, beq_self_eq_true] at hl
  cases hl

variable [Provider π]

/-- A worker that goes on takes nothing from them either. -/
theorem work (h : x.ResourcesFit) {es : List Journal.Entry} {ran : Option (Command × Output)}
    {rs : List Ran} (hp : x.post alone = some p) (works : p.Works q es ran) :
    ((x.withPost alone q).record es rs).ResourcesFit := by
  have hc : q.worker.queue.closed = p.worker.queue.closed := by
    cases works <;> rfl
  have hi := inside_withPost x alone q
  refine ⟨?_, fun j hj => ?_, h.opened_withPost hp hc, ?_⟩
  · show (x.withPost alone q).inside.ids.Nodup
    rw [hi]
    exact h.distinct
  · show (x.withPost alone q).inside.isAlone = false ∧ _ ∈ (x.withPost alone q).inside.ids
    rw [hi]
    exact h.holder j ((locked_withPost ..).symm.trans hj)
  · show (x.withPost alone q).inside.Every fun i _ l =>
      l.rest.Fits ((x.withPost alone q).resources i)
    rw [hi]
    exact h.fits.imp fun l hl => (resources_withPost hp hc _).symm ▸ hl

end ResourcesFit

inductive Returns (x : ThreadSystem π) : Except DispatchError Output → Prop
  | refused {i : Nat} {alone : Bool} {put : Local π alone → Inside π} {command : Command}
      {next : Except DispatchError Output → Routine π alone} {p : Post π}
      {error : DispatchError}
      (here : Inside.At i { rest := .go (.ask command next) } x.inside put)
      (post : x.post alone = some p) (refused : p.worker.submit command = .error error) :
      x.Returns (.error error)
  | collected {i : Nat} {alone : Bool} {put : Local π alone → Inside π} {job : Job}
      {next : Except DispatchError Output → Routine π alone} {p : Post π}
      (here : Inside.At i { rest := .await job next } x.inside put) (post : x.post alone = some p)
      (settled : job.ticket ∈ p.worker.answers.map Prod.fst ∨ p.duty = .gone) :
      x.Returns (p.worker.result job.ticket job.command.name).1

/-- Every command is accepted, and the thread that waits for it gets its output. -/
theorem ResourcesFit.returns {x : ThreadSystem π} (h : x.ResourcesFit) (ht : x.JobsTracked)
    {r : Except DispatchError Output} (hr : x.Returns r) : ∃ out, r = .ok out := by
  cases hr with
  | refused here post refused =>
    obtain ⟨hs, -⟩ := here.every h.fits
    obtain ⟨p, hp, hc⟩ := h.post hs
    cases post.symm.trans hp
    rw [Worker.submit_of_open hc] at refused
    cases refused
  | collected here post settled =>
    obtain ⟨⟨_, out⟩, hm, rfl⟩ := List.mem_map.mp (ht.settled here post settled)
    obtain ⟨found, -, hf⟩ := Worker.result_of_mem hm _
    exact ⟨found, by rw [hf]⟩

variable [Provider π] {x y : ThreadSystem π} {A : Operation π → Prop}

/-- A move keeps what the thread reaches for next, and that of the others. -/
theorem ResourcesFit.move {i : Nat} {alone : Bool} {l : Local π alone}
    {put : Local π alone → Inside π} (h : x.ResourcesFit) (ht : x.JobsTracked)
    (here : Inside.At i l x.inside put) (m : x.Move i l put y) : y.ResourcesFit := by
  have hl := here.every h.fits
  cases m with
  | write | notice | select => exact h.moved here rfl (fun _ => rfl) rfl h.opened hl
  | ask => exact h.moved here rfl (fun _ => rfl) rfl h.opened ⟨rfl, hl⟩
  | submit post accepted => exact h.turn here post (Post.submit_kept accepted).2 hl
  | refused post refused =>
    obtain ⟨out, ho⟩ := h.returns ht (.refused here post refused)
    cases ho
  | @collect _ _ job next p post settled =>
    obtain ⟨out, ho⟩ := h.returns ht (.collected here post settled)
    have hk : (Rest.await job next).Fits (x.resources i) := hl
    refine h.turn here post (by rw [Post.result_snd]) ?_
    rw [ho]
    exact hk.2 out
  | @visit _ command next b out provider bound ran =>
    have hp : x.post false = some { worker := b.worker, duty := x.duty } := by
      rw [ThreadSystem.post, bound]
      rfl
    have hk : (Rest.query command next).Fits (x.resources i) := hl
    have ht := h.turn (q := ⟨{ b.worker with provider }, x.duty⟩)
      (m := { todo := out.asides, rest := .go (next out) }) here hp rfl (hk.2.2 out)
    exact ⟨ht.distinct, ht.holder, ht.opened, ht.fits⟩
  | @lock _ next free =>
    have hk : (Routine.lock next).Fits (x.resources i) := hl
    refine h.relocked here rfl rfl rfl (fun j hj => ?_) ?_ (hk.2 _)
    · simp [free, hj.symm]
    · simp [resources, Dispatcher.isBound]
  | @unlock _ project next mine =>
    have hk : (Routine.unlock project next).Fits (x.resources i) := hl
    refine h.relocked here rfl rfl rfl (fun j hj => ?_) ?_ hk.2
    · simp [mine, hj.symm]
    · simp [resources, Dispatcher.isBound]
  | @take _ next b bound empty =>
    have hk : (Routine.take next).Fits (x.resources i) := hl
    refine h.of_alone here rfl rfl (by rintro _ ⟨⟩) ?_ (hk.2 _)
    simp [resources, Dispatcher.isBound, h.opened b bound]
  | @employ _ provider next empty =>
    have hk : (Routine.employ provider next).Fits (x.resources i) := hl
    refine h.of_alone here rfl rfl h.opened ?_ hk.2
    simp [resources, Dispatcher.isBound, Dispatcher.newWorker, Queue.empty]
  | @seat _ info window concurrent next p has =>
    have hk : (Routine.seat info window concurrent next).Fits (x.resources i) := hl
    refine h.of_alone here rfl rfl ?_ ?_ hk.2
    · rintro b ⟨⟩
      simpa [resources, has] using hk.1
    · simp [resources, Dispatcher.isBound, Dispatcher.seat]
  | @dismiss _ next p has =>
    have hk : (Routine.dismiss next).Fits (x.resources i) := hl
    refine h.of_alone here rfl rfl h.opened ?_ hk.2
    simp [resources, Dispatcher.isBound, Worker.close, Queue.close]
  | @retire _ own next p has gone =>
    have hk : (Routine.retire own next).Fits (x.resources i) := hl
    refine h.of_alone here rfl rfl h.opened ?_ hk.2
    simp [resources, Dispatcher.isBound]

theorem ResourcesFit.step (h : x.ResourcesFit) (ht : x.JobsTracked) (s : x.Step A y) :
    y.ResourcesFit := by
  cases s with
  | @call i op may finished outside =>
    have hb := binding_accept x.dispatcher op
    refine ⟨h.distinct, h.holder, fun b hb' => h.opened b (hb ▸ hb'), ?_⟩
    refine h.fits.imp fun {j _} l hl => ?_
    have hg : ({ x with
        dispatcher := x.dispatcher.accept op
        due := Function.update x.due i op.sections } : ThreadSystem π).resources j =
      x.resources j := by
      simp only [resources, Dispatcher.isBound, hb]
    rw [hg]
    exact hl
  | enter due admitted => exact h.enter ht admitted
  | leave empty left => exact h.leave left
  | work post works => exact h.work post works
  | move here moves => exact h.move ht here moves

theorem ResourcesFit.reaches (h : x.ResourcesFit) (ht : x.JobsTracked) (r : x.Reaches A y) :
    y.ResourcesFit := by
  induction r with
  | refl => exact h
  | tail r s ih => exact ih.step (ht.reaches r) s

end ThreadSystem

end SccDispatch
