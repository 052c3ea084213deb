import SccDispatch.Proofs.ThreadSystem

namespace SccDispatch

namespace ThreadSystem

variable {π : Type} [Provider π] {x : ThreadSystem π} {A : Operation π → Prop}
  {i : Nat} {alone : Bool} {put : Local π alone → Inside π} {p q : Post π}

/-- The state when a worker has come to `p`, that was written and run, and the threads stand so. -/
def turned (x : ThreadSystem π) (alone : Bool) (p : Post π) (es : List Journal.Entry)
    (ran : List Ran) (inside : Inside π) : ThreadSystem π :=
  ((x.withPost alone p).record es ran).withInside inside

omit [Provider π] in
theorem withPost_withPost (x : ThreadSystem π) (alone : Bool) (p q : Post π) :
    (x.withPost alone p).withPost alone q = x.withPost alone q := by
  cases alone <;> simp [withPost, Function.comp_def]

omit [Provider π] in
theorem post_turned (h : x.post alone = some q) (p : Post π) (es : List Journal.Entry)
    (ran : List Ran) (inside : Inside π) :
    (x.turned alone p es ran inside).post alone = some p := by
  have hp := post_withPost h p
  cases alone <;> exact hp

omit [Provider π] in
theorem withPost_turned (x : ThreadSystem π) (alone : Bool) (p q : Post π) (es : List Journal.Entry)
    (ran : List Ran) (inside : Inside π) :
    (x.turned alone p es ran inside).withPost alone q = x.turned alone q es ran inside := by
  have hw := x.withPost_withPost alone p q
  cases alone <;> exact congrArg (fun y => (y.record es ran).withInside inside) hw

/-- A worker that goes on is a step of the threads. -/
theorem step_work (h : x.post alone = some q) (es : List Journal.Entry) (ran : List Ran)
    (inside : Inside π) {fs : List Journal.Entry} {more : Option (Command × Output)} {r : Post π}
    (works : p.Works r fs more) :
    (x.turned alone p es ran inside).Step A
      (x.turned alone r (es ++ fs)
        (ran ++ (more.map fun m => ⟨alone, .worker, m.1, m.2⟩).toList) inside) := by
  have hs := Step.work (A := A) (post_turned h p es ran inside) works
  rw [withPost_turned] at hs
  simpa [turned, record, withInside, Journal.enterAll] using hs

theorem step_quiet (h : x.post alone = some q) (es : List Journal.Entry) (ran : List Ran)
    (inside : Inside π) {fs : List Journal.Entry} {r : Post π} (works : p.Works r fs none) :
    (x.turned alone p es ran inside).Step A (x.turned alone r (es ++ fs) ran inside) := by
  simpa using step_work (A := A) h es ran inside works

/-- A worker writes down all that it owes. -/
theorem reaches_written (h : x.post alone = some q) (w : Worker π) (job : Job) (out : Output)
    (todo es : List Journal.Entry) (ran : List Ran) (inside : Inside π) :
    (x.turned alone { worker := w, duty := .books job out todo } es ran inside).Reaches A
      (x.turned alone { worker := w, duty := .books job out [] } (es ++ todo) ran inside) := by
  induction todo generalizing es with
  | nil => rw [List.append_nil]
  | cons e todo ih =>
    have hr := ih (es ++ [e])
    rw [List.append_assoc] at hr
    exact .head (step_quiet h es ran inside (.write rfl)) hr

/-- A worker that is idle takes a command, runs it and answers. -/
theorem reaches_answered {w : Worker π} (h : x.post alone = some q) (hi : w.Idle)
    (command : Command) (es : List Journal.Entry) (ran : List Ran) (inside : Inside π) :
    (x.turned alone { worker := w.given command } es ran inside).Reaches A
      (x.turned alone { worker := w.served command }
        (es ++ w.owed command) (ran ++ [⟨alone, .worker, command, w.outputOf command⟩])
        inside) := by
  obtain ⟨provider, handles, shares, queue, issued, answers⟩ := w
  obtain ⟨rfl, rfl⟩ := hi
  generalize hw :
    ({ provider, handles, shares, queue := .empty, issued, answers := [] } : Worker π) = w
  have taken : (⟨w.given command, .idle⟩ : Post π).Works
      ⟨{ w with issued := w.issued + 1 }, .taken ⟨w.issued, command⟩⟩ [] none := by
    subst hw
    exact .take rfl rfl
  have run : (⟨{ w with issued := w.issued + 1 }, .taken ⟨w.issued, command⟩⟩ : Post π).Works
      ⟨w.ran command, .books ⟨w.issued, command⟩ (w.outputOf command) (w.owed command)⟩ []
        (some (command, w.outputOf command)) := .run rfl rfl
  have answered : (⟨w.ran command, .books ⟨w.issued, command⟩ (w.outputOf command) []⟩ :
      Post π).Works ⟨w.served command, .idle⟩ [] none := by
    subst hw
    exact Post.Works.answer (p := ⟨Worker.ran _ command, .books _ _ []⟩) rfl
  have h1 := step_quiet (A := A) h es ran inside taken
  have h2 := step_work (A := A) h es ran inside run
  have h3 := reaches_written (A := A) h (w.ran command) ⟨w.issued, command⟩ (w.outputOf command)
    (w.owed command) es (ran ++ [⟨alone, .worker, command, w.outputOf command⟩]) inside
  have h4 := step_quiet (A := A) h (es ++ w.owed command)
    (ran ++ [⟨alone, .worker, command, w.outputOf command⟩]) inside answered
  rw [List.append_nil] at h1 h2 h4
  exact .head h1 (.head h2 (h3.tail h4))

/-- A thread dispatches a command to an idle worker and gets its output. -/
theorem reaches_ask {w : Worker π} (h : x.post alone = some { worker := w }) (hi : w.Idle)
    {command : Command} {next : Except DispatchError Output → Routine π alone}
    (here : Inside.At i { rest := .go (.ask command next) } x.inside put) :
    x.Reaches A
      (x.turned alone { worker := w.ran command } (.dispatched :: w.owed command)
        [⟨alone, .worker, command, w.outputOf command⟩]
        (put { rest := .go (next (.ok (w.outputOf command))) })) := by
  have submitted := Step.move (A := A) here (.submit h (Worker.submit_of_idle hi command))
  have waiting := here.put { rest := .await ⟨w.issued, command⟩ next }
  have noted := Step.move (A := A)
    (x := (x.withPost alone { worker := w.given command }).withInside
      (put { todo := [.dispatched], rest := .await ⟨w.issued, command⟩ next }))
    (here.put _) .write
  have answered := reaches_answered (A := A) h hi command [.dispatched] []
    (put { rest := .await ⟨w.issued, command⟩ next })
  have collected := Step.move (A := A) (x := x.turned alone
    { worker := w.served command } (.dispatched :: w.owed command)
    [⟨alone, .worker, command, w.outputOf command⟩]
    (put { rest := .await ⟨w.issued, command⟩ next })) waiting
    (.collect (post_turned h _ _ _ _) (.inl (List.mem_singleton_self _)))
  rw [withPost_turned, Worker.result_served hi] at collected
  refine .head submitted (.head ?_ (answered.tail collected))
  simpa [turned, record, withInside] using noted

/-- A thread writes down all that it owes. -/
theorem reaches_paid {rest : Rest π alone} (todo : List Journal.Entry)
    (here : Inside.At i { todo, rest } x.inside put) :
    x.Reaches A ((x.withInside (put { rest })).record todo []) := by
  induction todo generalizing x with
  | nil =>
    simpa [record, withInside, here.put_self, Journal.enterAll] using Relation.ReflTransGen.refl
  | cons e todo ih =>
    have hw := Step.move (A := A) here .write
    have hr := ih (x := (x.withInside (put { todo, rest })).record [e] []) (here.put _)
    refine .head hw ?_
    simpa [record, withInside, Journal.enterAll] using hr

/-- The threads when thread `i` is in a section and nobody else does anything. -/
structure Shows (x : ThreadSystem π) (i : Nat) (state : SectionState π) : Prop where
  dispatcher : x.dispatcher = state.dispatcher
  locked : x.locked = if state.locked then some i else none
  hand : x.hand = state.hand.map fun w => { worker := w }
  duty : x.duty = .idle

structure WorkersIdle (state : SectionState π) : Prop where
  idle : state.dispatcher.Idle
  pending : ∀ w, state.hand = some w → w.queue.pending = []
  answers : ∀ w, state.hand = some w → w.answers = []

omit [Provider π] in
theorem Shows.post {state : SectionState π} (h : x.Shows i state) {w : Worker π}
    (hw : state.worker alone = some w) : x.post alone = some { worker := w } := by
  cases alone with
  | true =>
    have hw : state.hand = some w := hw
    simp [ThreadSystem.post, h.hand, hw]
  | false =>
    obtain ⟨b, hb, rfl⟩ := Option.map_eq_some_iff.mp hw
    simp [ThreadSystem.post, h.dispatcher, h.duty, hb]

omit [Provider π] in
theorem idle_of_open {w : Worker π} (hp : w.queue.pending = []) (hc : w.queue.closed = false)
    (ha : w.answers = []) : w.Idle := by
  obtain ⟨provider, handles, shares, ⟨pending, closed⟩, issued, answers⟩ := w
  cases hp
  cases hc
  exact ⟨rfl, ha⟩

omit [Provider π] in
/-- The worker to which the thread dispatches waits, or is not to run anything any more. -/
theorem WorkersIdle.worker {state : SectionState π} (h : WorkersIdle state) {w : Worker π}
    (hw : state.worker alone = some w) :
    w.Idle ∨ alone = true ∧ w.queue.closed = true := by
  cases alone with
  | false =>
    obtain ⟨b, hb, rfl⟩ := Option.map_eq_some_iff.mp hw
    exact .inl (h.idle b hb)
  | true =>
    have hw : state.hand = some w := hw
    cases hc : w.queue.closed with
    | false => exact .inl (idle_of_open (h.pending w hw) hc (h.answers w hw))
    | true => exact .inr ⟨rfl, rfl⟩

/-- A worker that has run a command is idle again. -/
theorem WorkersIdle.ran {state : SectionState π} (h : WorkersIdle state) {w : Worker π}
    (hi : w.Idle) (command : Command) (j : Journal) :
    WorkersIdle (state.withWorker alone (w.ran command) j) := by
  have hr := hi.ran command
  cases alone with
  | false =>
    refine ⟨fun b hb => ?_, h.pending, h.answers⟩
    obtain ⟨c, -, rfl⟩ := Option.map_eq_some_iff.mp hb
    exact hr
  | true =>
    refine ⟨h.idle, ?_, ?_⟩
    · rintro v ⟨⟩
      rw [hr.queue]
      rfl
    · rintro v ⟨⟩
      exact hr.answers

omit [Provider π] in
/-- What a worker does shows in its thread only. -/
theorem Shows.turned {state : SectionState π} (h : x.Shows i state) (w : Worker π)
    (es : List Journal.Entry) (ran : List Ran) (inside : Inside π) :
    (x.turned alone { worker := w } es ran inside).Shows i
      (state.withWorker alone w (state.dispatcher.journal.enterAll es)) := by
  obtain ⟨d, locked, hand⟩ := state
  obtain ⟨hd, hl, hh, hduty⟩ := h
  subst hd
  cases alone with
  | false => exact ⟨rfl, hl, hh, rfl⟩
  | true => exact ⟨rfl, hl, rfl, hduty⟩

/-- A thread dispatches a command, whatever comes of it. -/
theorem reaches_dispatch {state : SectionState π} (hs : x.Shows i state) (hc : WorkersIdle state)
    {w : Worker π} (hw : state.worker alone = some w) {command : Command}
    {next : Except DispatchError Output → Routine π alone}
    (here : Inside.At i { rest := .go (.ask command next) } x.inside put) :
    let r := w.dispatch state.dispatcher.journal command
    ∃ y, x.Reaches A y ∧ y.Shows i (state.withWorker alone r.2.1 r.2.2) ∧
      y.inside = put { rest := .go (next r.1) } ∧ y.due = x.due ∧
      WorkersIdle (state.withWorker alone r.2.1 r.2.2) := by
  have hp := hs.post hw
  rcases hc.worker hw with hi | ⟨rfl, hclosed⟩
  · have hj : w.noted state.dispatcher.journal command =
        state.dispatcher.journal.enterAll (.dispatched :: w.owed command) := by
      rw [Worker.noted, Journal.account_eq]
      rfl
    simp only [Worker.dispatch_of_idle hi]
    refine ⟨_, reaches_ask hp hi here, hj ▸ hs.turned .., rfl, ?_, hc.ran hi command _⟩
    cases alone <;> rfl
  · have hsub := Worker.submit_of_closed hclosed command
    have hd : w.dispatch state.dispatcher.journal command =
        (.error .notRunning, w, state.dispatcher.journal.enterAll [.rejected]) := by
      simp only [Worker.dispatch, Worker.enqueue, hsub]
      rfl
    have hr := reaches_paid (A := A) (x := x.withInside (put
      { todo := [.rejected], rest := .go (next (.error .notRunning)) })) [.rejected] (here.put _)
    have hh : state.hand = some w := hw
    simp only [hd]
    refine ⟨_, .head (.move here (.refused hp hsub)) hr, ?_, rfl, rfl, ?_⟩
    · refine ⟨congrArg (fun d => { d with journal := d.journal.enterAll [.rejected] })
        hs.dispatcher, hs.locked, ?_, hs.duty⟩
      exact hp
    · exact ⟨hc.idle, by rintro v ⟨⟩; exact hc.pending w hh, by rintro v ⟨⟩; exact hc.answers w hh⟩

/-- A thread queries the provider itself. -/
theorem reaches_query {state : SectionState π} {put : Local π false → Inside π}
    (hs : x.Shows i state) {b : Binding π} (hb : state.dispatcher.binding = some b)
    {command : Command} {next : Output → Routine π false}
    (here : Inside.At i { rest := .go (.query command next) } x.inside put) :
    let r := state.dispatcher.queryDirectly b command
    ∃ y, x.Reaches A y ∧ y.Shows i { state with dispatcher := r.2 } ∧
      y.inside = put { rest := .go (next r.1) } ∧ y.due = x.due := by
  obtain ⟨d, locked, hand⟩ := state
  obtain ⟨hd, hl, hh, hduty⟩ := hs
  subst hd
  replace hb : x.dispatcher.binding = some b := hb
  obtain ⟨out, provider, hr⟩ : ∃ out provider,
      execute b.worker.provider .caller false command = (out, provider) := ⟨_, _, rfl⟩
  let asked := x.withInside (put { todo := [.directQuery], rest := .query command next })
  let counted := (asked.withInside (put { rest := .query command next })).record [.directQuery] []
  let visited := ((counted.withPost false
      { worker := { b.worker with provider }, duty := x.duty }).withInside
        (put { todo := out.asides, rest := .go (next out) })).record []
          [⟨false, .caller, command, out⟩]
  have h1 : x.Step A asked := .move here .ask
  have h2 : asked.Step A counted :=
    Step.move (x := asked) (here.put { todo := [.directQuery], rest := .query command next }) .write
  have h3 : counted.Step A visited := .move (here.put _) (.visit hb hr)
  have h4 := reaches_paid (A := A) (x := visited) out.asides (here.put _)
  refine ⟨_, .head h1 (.head h2 (.head h3 h4)), ⟨?_, hl, hh, hduty⟩, ?_, rfl⟩
  · rw [Dispatcher.queryDirectly_eq, hr]
    simp [visited, counted, asked, record, withInside, withPost, hb, Journal.queried_eq,
      Journal.enterAll]
  · rw [Dispatcher.queryDirectly_eq, hr]
    rfl

/-- A worker with nothing to do ends, and the thread lets its provider go. -/
theorem reaches_retired {state : SectionState π} {put : Local π true → Inside π}
    (hs : x.Shows i state) {w : Worker π} (hh : state.hand = some w) (hp : w.queue.pending = [])
    (hc : w.queue.closed = true) {own : Holder} {next : Routine π true}
    (here : Inside.At i { rest := .go (.retire own next) } x.inside put) :
    let r := w.serve state.dispatcher.journal
    ∃ y, x.Reaches A y ∧
      y.Shows i
        { state with
          dispatcher :=
            { state.dispatcher with
              journal := r.2.write .info "Source control worker stopped" .worker
              retired := state.dispatcher.retired ++ [.of r.1.ended own] }
          hand := none } ∧
      y.inside = put { rest := .go next } ∧ y.due = x.due := by
  have has : x.post true = some { worker := w } := by simp [post, hs.hand, hh]
  obtain ⟨d, locked, hand⟩ := state
  obtain ⟨hd, hl, hhand, hduty⟩ := hs
  subst hd
  have left := Step.work (A := A) has (.leave rfl hp hc)
  have retired := Step.move (A := A)
    (x := (x.withPost true { worker := w.ended, duty := .gone }).record
      [.line .info "Source control worker stopped" .worker] []) here (.retire rfl rfl)
  have hserve : w.serve x.dispatcher.journal = (w, x.dispatcher.journal) :=
    Worker.turns_of_nil hp _ _
  simp only [hserve]
  exact ⟨_, .head left (.single retired), ⟨rfl, hl, rfl, hduty⟩, rfl, rfl⟩

/-- The thread can come to the end of its section, with that answer. -/
def Finishes (A : Operation π → Prop) (x : ThreadSystem π) (i : Nat)
    (put : Local π alone → Inside π) (answer : Answer) (d : Dispatcher π) : Prop :=
  ∃ y, x.Reaches A y ∧ y.Shows i { dispatcher := d } ∧
    y.inside = put { rest := .go (.done answer) } ∧ y.due = x.due ∧ d.Idle

/-- The thread can come to what is left of its routine, and alone it comes to that answer
with it. -/
inductive Advances (A : Operation π → Prop) (x : ThreadSystem π) (i : Nat)
    (put : Local π alone → Inside π) (answer : Answer) (d : Dispatcher π) (r : Routine π alone) :
    Prop
  | intro {y : ThreadSystem π} {state : SectionState π} (reaches : x.Reaches A y)
      (shown : y.Shows i state) (inside : y.inside = put { rest := .go r }) (due : y.due = x.due)
      (quiet : WorkersIdle state) (walk : r.walk state = some (answer, d))

section Advances

variable {state : SectionState π} {answer : Answer} {d : Dispatcher π}

/-- A thread that has advanced finishes if it does so from there. -/
theorem Advances.finishes {r : Routine π alone} (h : x.Advances A i put answer d r)
    (rest : ∀ {state : SectionState π} {y : ThreadSystem π}, r.walk state = some (answer, d) →
      WorkersIdle state → y.Shows i state → Inside.At i { rest := .go r } y.inside put →
      y.Finishes A i put answer d)
    {l : Local π alone} (here : Inside.At i l x.inside put) : x.Finishes A i put answer d := by
  obtain ⟨reaches, shown, inside, due, quiet, walk⟩ := h
  obtain ⟨z, hz, hs, hi, hdue, hidle⟩ := rest walk quiet shown (inside ▸ here.put _)
  exact ⟨z, reaches.trans hz, hs, hi, hdue.trans due, hidle⟩

/-- One move is enough. -/
theorem Advances.of_move {l : Local π alone} {r : Routine π alone} {y : ThreadSystem π}
    (here : Inside.At i l x.inside put) (m : x.Move i l put y)
    (inside : y.inside = put { rest := .go r }) (walk : r.walk state = some (answer, d))
    (shown : y.Shows i state) (quiet : WorkersIdle state) : x.Advances A i put answer d r :=
  ⟨.single (.move here m), shown, inside, m.due, quiet, walk⟩

theorem finishes_done {a : Answer}
    (hw : (Routine.done a : Routine π alone).walk state = some (answer, d)) (hc : WorkersIdle state)
    (hs : x.Shows i state) (here : Inside.At i { rest := .go (.done a) } x.inside put) :
    x.Finishes A i put answer d := by
  simp only [Routine.walk] at hw
  split at hw
  next hl hh =>
    cases hw
    refine ⟨x, .refl, ⟨hs.dispatcher, ?_, ?_, hs.duty⟩, here.put_self.symm, rfl, hc.idle⟩
    · simpa [hl] using hs.locked
    · simpa [hh] using hs.hand
  next => cases hw

theorem advances_notice {n : Journal.Notice} {next : Routine π alone}
    (hw : (Routine.notice n next).walk state = some (answer, d)) (hc : WorkersIdle state)
    (hs : x.Shows i state) (here : Inside.At i { rest := .go (.notice n next) } x.inside put) :
    x.Advances A i put answer d next := by
  have hw : next.walk { state with dispatcher := state.dispatcher.post n } = some (answer, d) := hw
  exact .of_move here .notice rfl hw
    ⟨congrArg (·.post n) hs.dispatcher, hs.locked, hs.hand, hs.duty⟩
    ⟨hc.idle, hc.pending, hc.answers⟩

/-- A dispatched command is run and its output taken. -/
theorem advances_ask {command : Command}
    {next : Except DispatchError Output → Routine π alone}
    (hw : (Routine.ask command next).walk state = some (answer, d)) (hc : WorkersIdle state)
    (hs : x.Shows i state) (here : Inside.At i { rest := .go (.ask command next) } x.inside put) :
    ∃ r, x.Advances A i put answer d (next r) := by
  simp only [Routine.walk] at hw
  split at hw
  next w hwork =>
    obtain ⟨y, hy, shown, hin, hdue, quiet⟩ := reaches_dispatch (A := A) hs hc hwork here
    exact ⟨_, hy, shown, hin, hdue, quiet, hw⟩
  next => cases hw

section Shared

variable {put : Local π false → Inside π}

theorem advances_query {command : Command} {next : Output → Routine π false}
    (hw : (Routine.query command next).walk state = some (answer, d)) (hc : WorkersIdle state)
    (hs : x.Shows i state)
    (here : Inside.At i { rest := .go (.query command next) } x.inside put) :
    ∃ out, x.Advances A i put answer d (next out) := by
  simp only [Routine.walk] at hw
  split at hw
  next b hb =>
    obtain ⟨y, hy, shown, hin, hdue⟩ := reaches_query (A := A) hs hb here
    have idle := Dispatcher.idle_queryDirectly hc.idle hb command
    exact ⟨_, hy, shown, hin, hdue, ⟨idle, hc.pending, hc.answers⟩, hw⟩
  next => cases hw

theorem advances_select {p : Project} {next : Routine π false}
    (hw : (Routine.select p next).walk state = some (answer, d)) (hc : WorkersIdle state)
    (hs : x.Shows i state) (here : Inside.At i { rest := .go (.select p next) } x.inside put) :
    x.Advances A i put answer d next := by
  have hw : next.walk
      { state with dispatcher := { state.dispatcher with selected := some p } } =
        some (answer, d) := hw
  exact .of_move here .select rfl hw
    ⟨congrArg (fun d => { d with selected := some p }) hs.dispatcher, hs.locked, hs.hand, hs.duty⟩
    ⟨hc.idle, hc.pending, hc.answers⟩

/-- The lock of the open project is free for a thread that is alone. -/
theorem advances_lock {next : Option Project → Routine π false}
    (hw : (Routine.lock next).walk state = some (answer, d)) (hc : WorkersIdle state)
    (hs : x.Shows i state) (here : Inside.At i { rest := .go (.lock next) } x.inside put) :
    ∃ project, x.Advances A i put answer d (next project) := by
  simp only [Routine.walk] at hw
  split at hw
  next hl =>
    have free : x.locked = none := by simpa [hl] using hs.locked
    rw [← hs.dispatcher] at hw
    exact ⟨_, .of_move here (.lock free) rfl hw ⟨rfl, rfl, hs.hand, hs.duty⟩
      ⟨hs.dispatcher ▸ hc.idle, hc.pending, hc.answers⟩⟩
  next => cases hw

theorem advances_unlock {project : Option Project} {next : Routine π false}
    (hw : (Routine.unlock project next).walk state = some (answer, d)) (hc : WorkersIdle state)
    (hs : x.Shows i state)
    (here : Inside.At i { rest := .go (.unlock project next) } x.inside put) :
    x.Advances A i put answer d next := by
  simp only [Routine.walk] at hw
  split at hw
  next hl =>
    have mine : x.locked = some i := by simpa [hl] using hs.locked
    exact .of_move here (.unlock mine) rfl hw
      ⟨congrArg (fun d => { d with project }) hs.dispatcher, rfl, hs.hand, hs.duty⟩
      ⟨hc.idle, hc.pending, hc.answers⟩
  next => cases hw

end Shared

section Alone

variable {put : Local π true → Inside π}

theorem advances_take {next : Option Project → Routine π true}
    (hw : (Routine.take next).walk state = some (answer, d)) (hc : WorkersIdle state)
    (hs : x.Shows i state) (here : Inside.At i { rest := .go (.take next) } x.inside put) :
    ∃ project, x.Advances A i put answer d (next project) := by
  simp only [Routine.walk] at hw
  split at hw
  next b hb hh =>
    have hb : x.dispatcher.binding = some b := hs.dispatcher ▸ hb
    have empty : x.hand = none := by simpa [hh] using hs.hand
    have hi := hc.idle b (hs.dispatcher ▸ hb)
    rw [← hs.dispatcher] at hw
    refine ⟨_, .of_move here (.take hb empty) rfl hw ⟨rfl, hs.locked, by simp [hs.duty], rfl⟩
      ⟨Dispatcher.idle_of_unbound rfl, ?_, ?_⟩⟩
    · rintro w ⟨⟩
      rw [hi.withdrawn.queue]
      rfl
    · rintro w ⟨⟩
      exact hi.answers
  next => cases hw

theorem advances_employ {provider : π} {next : Routine π true}
    (hw : (Routine.employ provider next).walk state = some (answer, d)) (hc : WorkersIdle state)
    (hs : x.Shows i state)
    (here : Inside.At i { rest := .go (.employ provider next) } x.inside put) :
    x.Advances A i put answer d next := by
  simp only [Routine.walk] at hw
  split at hw
  next hh =>
    have empty : x.hand = none := by simpa [hh] using hs.hand
    refine .of_move here (.employ empty) rfl hw
      ⟨hs.dispatcher, hs.locked, by simp [hs.dispatcher], hs.duty⟩ ⟨hc.idle, ?_, ?_⟩
    · rintro w ⟨⟩
      rfl
    · rintro w ⟨⟩
      rfl
  next => cases hw

theorem advances_seat {info : ProviderInfo} {window : Window} {concurrent : Bool}
    {next : Routine π true}
    (hw : (Routine.seat info window concurrent next).walk state = some (answer, d))
    (hc : WorkersIdle state) (hs : x.Shows i state)
    (here : Inside.At i { rest := .go (.seat info window concurrent next) } x.inside put) :
    x.Advances A i put answer d next := by
  simp only [Routine.walk] at hw
  split at hw
  next w hh =>
    have has : x.hand = some { worker := w } := by simpa [hh] using hs.hand
    split at hw
    next => cases hw
    next hclosed =>
      have hi := idle_of_open (hc.pending w hh) (Bool.eq_false_iff.mpr hclosed) (hc.answers w hh)
      exact .of_move here (.seat has) rfl hw
        ⟨congrArg (·.seat { worker := w.kept, info, window, concurrent }) hs.dispatcher, hs.locked,
          rfl, rfl⟩
        ⟨Dispatcher.idle_of_bound rfl hi.kept, by simp, by simp⟩
  next => cases hw

theorem advances_dismiss {next : Routine π true}
    (hw : (Routine.dismiss next).walk state = some (answer, d)) (hc : WorkersIdle state)
    (hs : x.Shows i state) (here : Inside.At i { rest := .go (.dismiss next) } x.inside put) :
    x.Advances A i put answer d next := by
  simp only [Routine.walk] at hw
  split at hw
  next w hh =>
    have has : x.hand = some { worker := w } := by simpa [hh] using hs.hand
    refine .of_move here (.dismiss has) rfl hw ⟨hs.dispatcher, hs.locked, rfl, hs.duty⟩
      ⟨hc.idle, ?_, ?_⟩
    · rintro v ⟨⟩
      exact hc.pending w hh
    · rintro v ⟨⟩
      exact hc.answers w hh
  next => cases hw

theorem advances_retire {own : Holder} {next : Routine π true}
    (hw : (Routine.retire own next).walk state = some (answer, d)) (hc : WorkersIdle state)
    (hs : x.Shows i state) (here : Inside.At i { rest := .go (.retire own next) } x.inside put) :
    x.Advances A i put answer d next := by
  simp only [Routine.walk] at hw
  split at hw
  next w hh =>
    split at hw
    next hclosed =>
      obtain ⟨y, hy, shown, hin, hdue⟩ :=
        reaches_retired (A := A) hs hh (hc.pending w hh) hclosed here
      exact ⟨hy, shown, hin, hdue, ⟨hc.idle, by simp, by simp⟩, hw⟩
    next => cases hw
  next => cases hw

end Alone

/-- What a thread does alone is what going through its routine alone comes to. -/
theorem finishes_walk (r : Routine π alone) (hw : r.walk state = some (answer, d))
    (hc : WorkersIdle state) (hs : x.Shows i state)
    (here : Inside.At i { rest := .go r } x.inside put) : x.Finishes A i put answer d := by
  induction r generalizing state x with
  | done a => exact finishes_done hw hc hs here
  | notice n next ih => exact (advances_notice hw hc hs here).finishes ih here
  | ask command next ih =>
    obtain ⟨r, h⟩ := advances_ask hw hc hs here
    exact h.finishes (ih r) here
  | query command next ih =>
    obtain ⟨out, h⟩ := advances_query hw hc hs here
    exact h.finishes (ih out) here
  | select p next ih => exact (advances_select hw hc hs here).finishes ih here
  | lock next ih =>
    obtain ⟨project, h⟩ := advances_lock hw hc hs here
    exact h.finishes (ih project) here
  | unlock project next ih => exact (advances_unlock hw hc hs here).finishes ih here
  | take next ih =>
    obtain ⟨project, h⟩ := advances_take hw hc hs here
    exact h.finishes (ih project) here
  | employ provider next ih => exact (advances_employ hw hc hs here).finishes ih here
  | seat info window concurrent next ih => exact (advances_seat hw hc hs here).finishes ih here
  | dismiss next ih => exact (advances_dismiss hw hc hs here).finishes ih here
  | retire own next ih => exact (advances_retire hw hc hs here).finishes ih here

end Advances

structure Resting (x : ThreadSystem π) : Prop where
  inside : x.inside = .shared []
  hand : x.hand = none
  locked : x.locked = none
  duty : x.duty = .idle
  idle : x.dispatcher.Idle

/-- A thread that comes into a section and is not disturbed does what the dispatcher's functions
do. -/
theorem reaches_pass (h : x.Resting) {s : Section π} {sections : List (Section π)}
    (hdue : x.due i = s :: sections) :
    ∃ y, x.Reaches A y ∧ y.Resting ∧ y.dispatcher = (x.dispatcher.pass s).2 ∧
      y.due = Function.update x.due i sections := by
  obtain ⟨put, admitted, here, left⟩ := Inside.exists_at i (s.routine x.dispatcher)
  have enter := Step.enter (A := A) hdue (h.inside ▸ admitted)
  obtain ⟨y, hy, hs, hin, hd, hidle⟩ : Finishes A _ i put (x.dispatcher.pass s).1 _ :=
    finishes_walk (A := A)
      (x := { x with
        due := Function.update x.due i sections
        inside := put { rest := .go (s.routine x.dispatcher) } })
      _ (walk_routine h.idle s) ⟨h.idle, by simp, by simp⟩
      ⟨rfl, h.locked, h.hand, h.duty⟩ here
  have leave := Step.leave (A := A) (x := y) (i := i) hs.hand (hin ▸ left _)
  exact ⟨_, .head enter (hy.tail leave),
    ⟨rfl, hs.hand, hs.locked, hs.duty, hs.dispatcher ▸ hidle⟩, hs.dispatcher, hd⟩

/-- A thread that is left alone comes through all sections of its call. -/
theorem reaches_passes {sections : List (Section π)} (h : x.Resting) (hdue : x.due i = sections) :
    ∃ y, x.Reaches A y ∧ y.Resting ∧
      y.dispatcher = sections.foldl (fun d s => (d.pass s).2) x.dispatcher ∧
      y.due = Function.update x.due i [] := by
  induction sections generalizing x with
  | nil => exact ⟨x, .refl, h, rfl, by rw [← hdue, Function.update_eq_self]⟩
  | cons s sections ih =>
    obtain ⟨y, hy, rested, hd, hdue'⟩ := reaches_pass (A := A) h hdue
    obtain ⟨z, hz, rested, hzd, hzdue⟩ := ih rested (by rw [hdue', Function.update_self])
    refine ⟨z, hy.trans hz, rested, by rw [hzd, hd, List.foldl_cons], ?_⟩
    rw [hzdue, hdue', Function.update_idem]

omit [Provider π] in
theorem idle_accept {d : Dispatcher π} (h : d.Idle) (op : Operation π) : (d.accept op).Idle := by
  unfold Dispatcher.accept
  split
  next => exact h.of_binding rfl
  next => exact h

/-- A call is its sections one after another. -/
theorem perform_eq_passes (d : Dispatcher π) (op : Operation π) :
    (d.perform op).2 = op.sections.foldl (fun d s => (d.pass s).2) (d.accept op) := by
  cases op with
  | bindIndex registry load index window =>
    simp only [Dispatcher.perform, Dispatcher.rebindIndex, Operation.sections, Dispatcher.accept,
      Operation.unknown?]
    cases registry.get? index <;> rfl
  | bindName registry load name window =>
    simp only [Dispatcher.perform, Dispatcher.rebindName, Operation.sections, Dispatcher.accept,
      Operation.unknown?]
    cases registry.find? name <;> rfl
  | _ => rfl

/-- A call that nobody disturbs comes to what the dispatcher makes of it. -/
theorem reaches_perform (h : x.Resting) (hdue : x.due i = []) {op : Operation π}
    (may : A op) :
    ∃ y, x.Reaches A y ∧ y.Resting ∧ y.dispatcher = (x.dispatcher.perform op).2 ∧
      y.due = x.due := by
  have called := Step.call (A := A) may hdue
    (show x.inside.Outside i from h.inside ▸ List.not_mem_nil)
  obtain ⟨y, hy, rested, hd, hy'⟩ := reaches_passes (A := A) (i := i)
    (x := { x with
      dispatcher := x.dispatcher.accept op
      due := Function.update x.due i op.sections })
    ⟨h.inside, h.hand, h.locked, h.duty, idle_accept h.idle op⟩ (Function.update_self ..)
  refine ⟨y, .head called hy, rested, hd.trans (perform_eq_passes _ op).symm, ?_⟩
  rw [hy', Function.update_idem, ← hdue, Function.update_eq_self]

end ThreadSystem

end SccDispatch
