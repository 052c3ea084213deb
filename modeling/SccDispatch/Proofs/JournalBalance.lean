import SccDispatch.Proofs.JobsInFlight
import SccDispatch.Proofs.RanCommands

namespace SccDispatch

/-- The entry counts a command or tells of it. -/
def Journal.Entry.Tally : Journal.Entry → Prop
  | rejected | spent _ | line .. => False
  | _ => True

/-- The entries that a command comes to. -/
def Ran.entries (r : Ran) : List Journal.Entry :=
  match r.on with
  | .worker => .dispatched :: .completed :: r.out.remarks r.command.name
  | .caller => .directQuery :: r.out.asides

@[simp]
theorem entries_worker (alone : Bool) (command : Command) (out : Output) :
    (⟨alone, .worker, command, out⟩ : Ran).entries =
      .dispatched :: .completed :: out.remarks command.name := rfl

@[simp]
theorem entries_caller (alone : Bool) (command : Command) (out : Output) :
    (⟨alone, .caller, command, out⟩ : Ran).entries = .directQuery :: out.asides := rfl

/-- What a thread writes of a query before it makes it. -/
def Rest.ahead {π : Type} {alone : Bool} : Rest π alone → List Journal.Entry
  | query .. => [.directQuery]
  | _ => []

section Ahead

variable {π : Type} {alone : Bool}

@[simp]
theorem ahead_go (r : Routine π alone) : (Rest.go r).ahead = [] := rfl

@[simp]
theorem ahead_await (job : Job) (next : Except DispatchError Output → Routine π alone) :
    (Rest.await job next).ahead = [] := rfl

@[simp]
theorem ahead_query (command : Command) (next : Output → Routine π alone) :
    (Rest.query command next).ahead = [.directQuery] := rfl

end Ahead

/-- What a thread owes of an entry, less what it has written in advance. -/
def Local.debt {π : Type} {alone : Bool} (e : Journal.Entry) (l : Local π alone) : Int :=
  l.todo.count e - l.rest.ahead.count e

/-- What a worker owes of an entry, less what was written in advance for it. -/
def Post.debt {π : Type} (e : Journal.Entry) (p : Post π) : Int :=
  p.duty.todo.count e - (p.undone.map fun _ => Journal.Entry.dispatched).count e

namespace Post

variable {π : Type} {p q : Post π} {e : Journal.Entry}

/-- A worker that has nothing to do owes nothing. -/
theorem debt_of_flight (h : p.flight = []) : p.debt e = 0 := by
  obtain ⟨hu, ho⟩ := List.append_eq_nil_iff.mp h
  have hu : p.undone = [] := List.map_eq_nil_iff.mp hu
  have ho : p.outs = [] := List.map_eq_nil_iff.mp ho
  have hb : p.duty.booked? = none := by simpa using (List.append_eq_nil_iff.mp ho).2
  have ht : p.duty.todo = [] := by
    cases hd : p.duty <;> rw [hd] at hb <;> first | rfl | cases hb
  simp [debt, hu, ht]

/-- What a worker writes, runs and comes to owe makes up. -/
theorem Works.debt [Provider π] {es : List Journal.Entry} {ran : Option (Command × Output)}
    (h : p.Works q es ran) (alone : Bool) (he : e.Tally) :
    (es.count e : Int) + q.debt e =
      p.debt e +
        (((ran.map fun r => (⟨alone, .worker, r.1, r.2⟩ : Ran)).toList.flatMap Ran.entries).count
          e : Int) := by
  cases h with
  | take idle first =>
    simp [Post.debt, undone, Duty.taken?, Duty.todo, idle, first]
  | run taken ran =>
    have hn : ∀ t, Journal.Entry.spent t ≠ e := by
      rintro t rfl
      exact he
    simp only [Post.debt, undone, Duty.taken?, Duty.todo, taken]
    simp only [entries_worker, Output.entries, List.count_cons_of_ne (hn _), Option.map_some,
      Option.toList_some, Option.toList_none, List.flatMap_cons, List.flatMap_nil, List.append_nil,
      List.nil_append, List.cons_append, List.map_cons, List.count_cons, List.count_nil]
    omega
  | @write job out e' todo owes =>
    simp only [Post.debt, undone, Duty.taken?, Duty.todo, owes]
    simp only [Option.map_none, Option.toList_none, List.flatMap_nil, List.nil_append,
      List.count_cons, List.count_nil]
    omega
  | answer done =>
    simp [Post.debt, undone, Duty.taken?, Duty.todo, done]
  | leave idle drained closed =>
    have hn : e ≠ .line .info "Source control worker stopped" .worker := by
      rintro rfl
      exact he
    simp [Post.debt, undone, Duty.taken?, Duty.todo, idle, hn.symm]

end Post

namespace ThreadSystem

variable {π : Type}

def staff (x : ThreadSystem π) (f : Post π → Int) : Int :=
  (x.post false).elim 0 f + (x.post true).elim 0 f

theorem staff_withPost {x : ThreadSystem π} {alone : Bool} {p : Post π} (h : x.post alone = some p)
    (q : Post π) (f : Post π → Int) : (x.withPost alone q).staff f + f p = x.staff f + f q := by
  have ha := post_withPost h q
  have hb := JobsTracked.post_withPost_not x alone q
  unfold staff
  cases alone with
  | false =>
    rw [ha, show (x.withPost false q).post true = x.post true from hb, h]
    simp only [Option.elim_some]
    omega
  | true =>
    rw [ha, show (x.withPost true q).post false = x.post false from hb, h]
    simp only [Option.elim_some]
    omega

theorem staff_of_same {x y : ThreadSystem π} (h : ∀ alone, y.post alone = x.post alone)
    (f : Post π → Int) : y.staff f = x.staff f := by
  rw [staff, staff, h, h]

theorem staff_of_quiet {x : ThreadSystem π} (h : ∀ b p, x.post b = some p → p.flight = [])
    (e : Journal.Entry) : x.staff (Post.debt e) = 0 := by
  have hz : ∀ b, (x.post b).elim 0 (Post.debt e) = 0 := by
    intro b
    cases hp : x.post b with
    | none => rfl
    | some p => exact Post.debt_of_flight (h b p hp)
  rw [staff, hz, hz, add_zero]

/-- What is owed of an entry, less what was written in advance. -/
def debt (x : ThreadSystem π) (e : Journal.Entry) : Int :=
  x.inside.total (Local.debt e) + x.staff (Post.debt e)

theorem debt_of_same {x y : ThreadSystem π} (hin : y.inside = x.inside)
    (h : ∀ alone, y.post alone = x.post alone) (e : Journal.Entry) : y.debt e = x.debt e := by
  rw [debt, debt, staff_of_same h, hin]

/-- What was written and what is owed is what the commands come to. -/
structure BalancedDebts (x : ThreadSystem π) : Prop where
  tallies : x.dispatcher.journal.Tallies x.written
  balance : ∀ e : Journal.Entry, e.Tally →
    (x.written.count e : Int) + x.debt e = ((x.past.flatMap Ran.entries).count e : Int)

namespace BalancedDebts

variable {x y : ThreadSystem π} {i : Nat} {alone : Bool} {l m : Local π alone}
  {put : Local π alone → Inside π}

theorem start (options : Options) :
    ({ dispatcher := { options } } : ThreadSystem π).BalancedDebts :=
  ⟨Journal.tallies_start, fun _ _ => rfl⟩

/-- What is written, run and come to be owed makes up. -/
theorem of_change (h : x.BalancedDebts) (es : List Journal.Entry) (ran : List Ran)
    (hj : y.dispatcher.journal.Tallies y.written) (hw : y.written = x.written ++ es)
    (hp : y.past = x.past ++ ran)
    (hd : ∀ e : Journal.Entry, e.Tally →
      (es.count e : Int) + y.debt e = x.debt e + ((ran.flatMap Ran.entries).count e : Int)) :
    y.BalancedDebts := by
  refine ⟨hj, fun e he => ?_⟩
  have hb := h.balance e he
  have hd := hd e he
  rw [hw, hp, List.flatMap_append, List.count_append, List.count_append]
  omega

/-- Nothing is written and nothing is run. -/
theorem of_still (h : x.BalancedDebts) (hj : y.dispatcher.journal.Tallies x.written)
    (hw : y.written = x.written) (hp : y.past = x.past)
    (hd : ∀ e : Journal.Entry, e.Tally → y.debt e = x.debt e) : y.BalancedDebts := by
  refine h.of_change [] [] (hw ▸ hj) (by simp [hw]) (by simp [hp]) fun e he => ?_
  simpa using hd e he

/-- A thread changes its own standing only. -/
theorem moved (h : x.BalancedDebts) (es : List Journal.Entry) (ran : List Ran)
    (here : Inside.At i l x.inside put) (hy : y.inside = put m)
    (hpost : ∀ alone, y.post alone = x.post alone)
    (hj : y.dispatcher.journal.Tallies y.written)
    (hw : y.written = x.written ++ es) (hp : y.past = x.past ++ ran)
    (hd : ∀ e : Journal.Entry, e.Tally →
      (es.count e : Int) + m.debt e = l.debt e + ((ran.flatMap Ran.entries).count e : Int)) :
    y.BalancedDebts := by
  refine h.of_change es ran hj hw hp fun e he => ?_
  have ht := here.total (f := Local.debt e) m
  have hd := hd e he
  rw [debt, debt, staff_of_same hpost, hy]
  omega

/-- A thread changes its own standing and the worker to which it dispatches. -/
theorem turn (h : x.BalancedDebts) {p : Post π} (q : Post π) (ran : List Ran)
    (here : Inside.At i l x.inside put)
    (hpost : x.post alone = some p) (hy : y.inside = put m)
    (hs : ∀ f, y.staff f = (x.withPost alone q).staff f)
    (hj : y.dispatcher.journal.Tallies x.written) (hw : y.written = x.written)
    (hp : y.past = x.past ++ ran)
    (hd : ∀ e : Journal.Entry, e.Tally →
      q.debt e + m.debt e = p.debt e + l.debt e + ((ran.flatMap Ran.entries).count e : Int)) :
    y.BalancedDebts := by
  refine h.of_change [] ran (hw ▸ hj) (by simp [hw]) hp fun e he => ?_
  have ht := here.total (f := Local.debt e) m
  have hq := staff_withPost hpost q (Post.debt e)
  have hd := hd e he
  rw [debt, debt, hs, hy, List.count_nil]
  omega

theorem still (h : x.BalancedDebts) (here : Inside.At i l x.inside put) (hy : y.inside = put m)
    (hpost : ∀ alone, y.post alone = x.post alone)
    (hj : y.dispatcher.journal.Tallies x.written) (hw : y.written = x.written)
    (hp : y.past = x.past) (hd : ∀ e, m.debt e = l.debt e) : y.BalancedDebts := by
  refine h.moved [] [] here hy hpost (hw ▸ hj) (by simp [hw]) (by simp [hp]) fun e _ => ?_
  simpa using hd e

/-- The thread that has the lock alone goes on, and no worker owes anything. -/
theorem settled (h : x.BalancedDebts) (hx : x.JobsTracked) (hy : y.JobsTracked)
    {r r' : Routine π true} {put : Local π true → Inside π}
    (here : Inside.At i { rest := .go r } x.inside put) (hin : y.inside = put { rest := .go r' })
    (hj : y.dispatcher.journal.Tallies x.written) (hw : y.written = x.written)
    (hp : y.past = x.past) : y.BalancedDebts := by
  refine h.of_still hj hw hp fun e _ => ?_
  have ht := here.total (f := Local.debt e) { rest := .go r' }
  have there := here.put { rest := .go r' }
  rw [← hin] at there
  have hsx := staff_of_quiet (fun b p hpost => (hx.quiet here (fun _ => rfl) hpost).2) e
  have hsy := staff_of_quiet (fun b p hpost => (hy.quiet there (fun _ => rfl) hpost).2) e
  rw [debt, debt, hsx, hsy, hin]
  simpa [Local.debt] using ht

end BalancedDebts

theorem journal_accept {d : Dispatcher π} {es : List Journal.Entry} (h : d.journal.Tallies es)
    (op : Operation π) : (d.accept op).journal.Tallies es := by
  unfold Dispatcher.accept
  split
  next => exact h.of_same rfl rfl rfl
  next => exact h

theorem journal_displaced {d : Dispatcher π} {j : Journal} {es : List Journal.Entry}
    (h : j.Tallies es) : (d.displaced j).Tallies es := by
  unfold Dispatcher.displaced
  split
  next => exact h.of_same rfl rfl rfl
  next => exact h

/-- A move writes entries that were owed, or comes to owe what it has not written. -/
theorem BalancedDebts.move [Provider π] {x y : ThreadSystem π} {i : Nat} {alone : Bool}
    {l : Local π alone} {put : Local π alone → Inside π} (h : x.BalancedDebts) (ht : x.JobsTracked)
    (here : Inside.At i l x.inside put) (m : x.Move i l put y) : y.BalancedDebts := by
  have ht' := ht.move here m
  have hj := h.tallies
  cases m with
  | @write _ rest _ e todo =>
    refine h.moved [e] [] here rfl (post_of_same rfl rfl rfl) (hj.enter _) rfl rfl fun e' _ => ?_
    simp only [Local.debt, List.flatMap_nil, List.count_cons, List.count_nil]
    omega
  | notice => exact h.still here rfl (post_of_same rfl rfl rfl) (hj.post _) rfl rfl fun _ => rfl
  | @submit _ _ _ _ p ticket worker post accepted =>
    obtain ⟨-, -, hu, -, -⟩ := Post.flight_submit accepted
    refine h.turn { p with worker } [] here post rfl ?_ ?_ ?_ ?_ fun e _ => ?_
    · cases alone <;> exact fun _ => rfl
    · cases alone <;> exact hj
    · cases alone <;> rfl
    · cases alone <;> exact (List.append_nil _).symm
    · simp only [Post.debt, Local.debt, hu, ahead_go, ahead_await, List.flatMap_nil,
        List.map_append, List.map_cons, List.map_nil, List.count_append, List.count_nil]
      omega
  | refused post refused =>
    refine h.moved [] [] here rfl (post_of_same rfl rfl rfl) hj
      (List.append_nil _).symm (List.append_nil _).symm fun e he => ?_
    have hn : Journal.Entry.rejected ≠ e := by
      rintro rfl
      exact he
    simp [Local.debt, hn]
  | @collect _ _ job _ p post settled =>
    refine h.turn { p with worker := (p.worker.result job.ticket job.command.name).2 } [] here
      post rfl ?_ ?_ ?_ ?_ fun e _ => ?_
    · cases alone <;> exact fun _ => rfl
    · cases alone <;> exact hj
    · cases alone <;> rfl
    · cases alone <;> exact (List.append_nil _).symm
    · rw [Post.result_snd]
      simp [Local.debt, Post.debt, Post.undone]
  | ask =>
    refine h.still here rfl (post_of_same rfl rfl rfl) hj rfl rfl fun e => ?_
    simp [Local.debt]
  | @visit _ command _ b out provider bound ran =>
    have hp : x.post false = some { worker := b.worker, duty := x.duty } := by
      rw [post, bound]
      rfl
    refine h.turn ⟨{ b.worker with provider }, x.duty⟩ [⟨false, .caller, command, out⟩] here hp
      rfl (fun _ => rfl) hj (List.append_nil _) rfl fun e _ => ?_
    simp only [Post.debt, Post.undone, Local.debt, ahead_go, ahead_query, List.flatMap_cons,
      List.flatMap_nil, entries_caller, List.append_nil, List.count_cons, List.count_nil]
    omega
  | select | lock | unlock =>
    exact h.still here rfl (post_of_same rfl rfl rfl) hj rfl rfl fun _ => rfl
  | seat has => exact h.settled ht ht' here rfl (journal_displaced hj) rfl rfl
  | take | employ | dismiss | retire => exact h.settled ht ht' here rfl hj rfl rfl

/-- A worker that runs a command owes its entries from then on. -/
theorem BalancedDebts.step [Provider π] {x y : ThreadSystem π} {A : Operation π → Prop}
    (h : x.BalancedDebts) (ht : x.JobsTracked) (s : x.Step A y) : y.BalancedDebts := by
  have hj := h.tallies
  cases s with
  | call may finished outside =>
    refine h.of_still (journal_accept hj _) rfl rfl fun e _ => debt_of_same ?_ ?_ e
    · rfl
    · exact post_of_same (binding_accept ..) rfl rfl
  | enter due admitted =>
    refine h.of_still hj rfl rfl fun e _ => ?_
    have hd := admitted.total (f := Local.debt e)
    exact congrArg (· + x.staff (Post.debt e)) (by simpa [Local.debt] using hd.symm)
  | leave empty left =>
    refine h.of_still hj rfl rfl fun e _ => ?_
    exact congrArg (· + x.staff (Post.debt e)) (left.total (f := Local.debt e) fun _ => rfl)
  | @work alone p q es ran post works =>
    have hd := staff_withPost post q
    refine h.of_change es (ran.map fun r => (⟨alone, .worker, r.1, r.2⟩ : Ran)).toList
      ?_ ?_ ?_ fun e he => ?_
    · cases alone <;> exact hj.enterAll es
    · cases alone <;> rfl
    · cases alone <;> rfl
    · have hb := works.debt alone he
      have hd := hd (Post.debt e)
      have hs : ∀ rs : List Ran, ((x.withPost alone q).record es rs).debt e =
          x.inside.total (Local.debt e) + (x.withPost alone q).staff (Post.debt e) := by
        cases alone <;> exact fun _ => rfl
      rw [hs, debt]
      omega
  | move here moves => exact h.move ht here moves

/-- At every moment what was written and what is owed is what the commands come to. -/
theorem BalancedDebts.reaches [Provider π] {x y : ThreadSystem π} {A : Operation π → Prop}
    (h : x.BalancedDebts) (ht : x.JobsTracked) (r : x.Reaches A y) : y.BalancedDebts := by
  induction r with
  | refl => exact h
  | tail r s ih => exact ih.step (ht.reaches r) s

end ThreadSystem

section Counting

variable (past : List Ran)

/-- Counting an entry is counting the commands that come to it. -/
theorem count_entries {e : Journal.Entry} {P : Ran → Bool}
    (h : ∀ r : Ran, r.entries.count e = if P r then 1 else 0) :
    (past.flatMap Ran.entries).count e = past.countP P := by
  induction past with
  | nil => rfl
  | cons r past ih =>
    rw [List.flatMap_cons, List.count_append, ih, h, List.countP_cons, Nat.add_comm]

/-- A command is counted where it ran, and each of its faults is felt. -/
theorem count_run (r : Ran) :
    r.entries.count .dispatched = (if r.on == .worker then 1 else 0) ∧
      r.entries.count .completed = (if r.on == .worker then 1 else 0) ∧
      r.entries.count .directQuery = (if r.on == .caller then 1 else 0) ∧
      r.entries.count .felt = (if r.out.isFault then 1 else 0) := by
  obtain ⟨alone, on, command, out⟩ := r
  cases on with
  | caller => cases out <;> exact ⟨rfl, rfl, rfl, rfl⟩
  | worker =>
    cases out with
    | faulted f => exact ⟨rfl, rfl, rfl, rfl⟩
    | _ =>
      simp only [entries_worker, Output.remarks]
      split <;> exact ⟨rfl, rfl, rfl, rfl⟩

theorem told_run (r : Ran) : r.entries.filterMap Journal.Entry.told? = r.out.fault?.toList := by
  obtain ⟨alone, on, command, out⟩ := r
  cases on with
  | caller => cases out <;> rfl
  | worker =>
    cases out with
    | faulted f => rfl
    | _ =>
      simp only [entries_worker, Output.remarks]
      split <;> rfl

theorem told_entries :
    (past.flatMap Ran.entries).filterMap Journal.Entry.told? = past.filterMap (·.out.fault?) := by
  induction past with
  | nil => rfl
  | cons r past ih =>
    rw [List.flatMap_cons, List.filterMap_append, ih, told_run]
    cases hf : r.out.fault? <;> simp [hf]

theorem count_told (es : List Journal.Entry) (f : Fault) :
    (es.filterMap Journal.Entry.told?).count f = es.count (.told f) := by
  induction es with
  | nil => rfl
  | cons e es ih =>
    cases e with
    | told g =>
      have hc : (Journal.Entry.told g :: es).filterMap Journal.Entry.told? =
          g :: es.filterMap Journal.Entry.told? := rfl
      rw [hc, List.count_cons, List.count_cons, ih]
      simp
    | _ =>
      rw [List.filterMap_cons_none rfl, ih]
      simp

end Counting

def Ran.fault? (r : Ran) : Option Fault := r.out.fault?.map fun f => ⟨r.command.name, f.message⟩

/-- The counters, the faults told and the commands that were run agree. -/
structure Journal.Balanced (j : Journal) (past : List Ran) : Prop where
  dispatched : j.metrics.dispatched = j.metrics.completed
  completed : j.metrics.completed.toNat = past.countP (·.on == .worker)
  directQueries : j.metrics.directQueries.toNat = past.countP (·.on == .caller)
  status : ∀ r ∈ past, r.on = .caller → ∃ files, r.command = .queryStatus files
  faulted : j.metrics.faulted = j.faults
  counted : j.metrics.faulted.toNat = (toldFaults j.events).length
  told : (toldFaults j.events).Perm (past.filterMap Ran.fault?)
  bounded : j.metrics.faulted.toNat ≤ j.metrics.completed.toNat + j.metrics.directQueries.toNat

/-- Nobody is in a section, or the thread that releases a provider is about to log the counters. -/
inductive Inside.Quiet {π : Type} : Inside π → Prop
  | free : Quiet (.shared [])
  | summing {i : Nat} {next : Routine π true} :
      Quiet (.alone i { rest := .go (.notice .summary next) })

namespace ThreadSystem

variable {π : Type} {x : ThreadSystem π}

/-- Nothing is owed while all is quiet. -/
theorem written_of_quiet (ht : x.JobsTracked) (hs : x.BalancedDebts) (hq : x.inside.Quiet)
    {e : Journal.Entry} (he : e.Tally) :
    x.written.count e = (x.past.flatMap Ran.entries).count e := by
  have hb := hs.balance e he
  have hw : (∀ t, x.inside.waiting t = 0) ∧ x.inside.total (Local.debt e) = 0 := by
    cases hin : x.inside with
    | shared visitors => rw [hin] at hq; cases hq; exact ⟨fun _ => rfl, rfl⟩
    | alone i l => rw [hin] at hq; cases hq; exact ⟨fun _ => rfl, rfl⟩
  have hstaff := staff_of_quiet (fun b p hp => ht.flight_nil hp fun _ => hw.1) e
  rw [debt, hw.2, hstaff] at hb
  omega

/-- A fault that is named after its command is told under that name. -/
theorem fault_of_wellFormed (h : ∀ r ∈ x.past, r.WellFormed) :
    x.past.filterMap (·.out.fault?) = x.past.filterMap Ran.fault? := by
  refine List.filterMap_congr fun r hr => ?_
  unfold Ran.fault?
  cases hf : r.out.fault? with
  | none => rfl
  | some f =>
    rw [Option.map_some, ← (h r hr).named f hf]

variable [Provider π]

theorem toNat_ofNat_countP {past : List Ran} (few : past.length < 2 ^ 64) (P : Ran → Bool) :
    (UInt64.ofNat (past.countP P)).toNat = past.countP P :=
  UInt64.toNat_ofNat_of_lt' (Nat.lt_of_le_of_lt List.countP_le_length few)

/-- However the calls of any number of threads are interleaved, the accounts balance whenever all is
quiet. -/
theorem accounts_balance {options : Options} {A : Operation π → Prop}
    (h : ({ dispatcher := { options } } : ThreadSystem π).Reaches A x)
    (few : x.past.length < 2 ^ 64) (quiet : x.inside.Quiet) :
    x.dispatcher.journal.Balanced x.past := by
  have ht := (JobsTracked.start options).reaches h
  have hs := (BalancedDebts.start options).reaches (JobsTracked.start options) h
  have hg := (RansWellFormed.start options).reaches h
  have hw : ∀ e : Journal.Entry, e.Tally →
      x.written.count e = (x.past.flatMap Ran.entries).count e :=
    fun e => written_of_quiet ht hs quiet
  obtain ⟨hd, hc, hf, hq, hn, ht⟩ := hs.tallies
  rw [hw .dispatched trivial, count_entries _ fun r => (count_run r).1] at hd
  rw [hw .completed trivial, count_entries _ fun r => (count_run r).2.1] at hc
  rw [hw .directQuery trivial, count_entries _ fun r => (count_run r).2.2.1] at hq
  rw [hw .felt trivial, count_entries _ fun r => (count_run r).2.2.2] at hf
  have told : (toldFaults x.dispatcher.journal.events).Perm (x.past.filterMap Ran.fault?) := by
    rw [ht, ← fault_of_wellFormed hg.past, ← told_entries, List.perm_iff_count]
    intro f
    rw [count_told, count_told, hw (.told f) trivial]
  have number : (x.written.filterMap Journal.Entry.told?).length =
      x.past.countP (·.out.isFault) := by
    rw [← ht, told.length_eq, ← fault_of_wellFormed hg.past, List.length_filterMap_eq_countP]
    rfl
  have each : x.past.countP (·.on == .worker) + x.past.countP (·.on == .caller) =
      x.past.length := by
    rw [List.length_eq_countP_add_countP (·.on == .worker)]
    refine congrArg _ (List.countP_congr fun r _ => ?_)
    cases r.on <;> decide
  refine ⟨hd.trans hc.symm, ?_, ?_, fun r hr => (hg.past r hr).status, ?_, ?_, told, ?_⟩
  · rw [hc, toNat_ofNat_countP few]
  · rw [hq, toNat_ofNat_countP few]
  · rw [hf, hn, number]
  · rw [hf, toNat_ofNat_countP few, ht, number]
  · rw [hf, hc, hq, toNat_ofNat_countP few, toNat_ofNat_countP few, toNat_ofNat_countP few, each]
    exact List.countP_le_length

section Bound

open Rehearsal

/-- One thread binds a provider: the command that starts it is dispatched, run and completed. -/
theorem accounts_balance_bound :
    ∃ x : ThreadSystem Scripted,
      ({ dispatcher := { options := {} } } : ThreadSystem Scripted).Reaches (fun _ => True) x ∧
        x.past.length = 1 ∧ x.inside.Quiet ∧ x.dispatcher.journal.Balanced x.past := by
  have h := Relation.ReflTransGen.refl (r := Step fun _ : Operation Scripted => True)
    (a := ({ dispatcher := { options := {} } } : ThreadSystem Scripted))
  have h := h.tail
    (@Step.call _ _ _ _ 0 (.bind "only" SectionSystem.willing .none) trivial rfl List.not_mem_nil)
  have h := h.tail (.enter (i := 0) rfl .alone)
  have h := h.tail (.leave (i := 0) rfl .alone)
  have h := h.tail (.enter (i := 0) rfl .alone)
  have h := h.tail (.move .alone .notice)
  have h := h.tail (.move .alone .notice)
  have h := h.tail (.move .alone (.employ rfl))
  have h := h.tail (.move .alone .notice)
  have h := h.tail (.move .alone (.submit rfl rfl))
  -- The worker answers before the thread has counted the command.
  have h := h.tail (@Step.work _ _ _ _ true _ _ _ _ rfl (.take rfl rfl))
  have h := h.tail (@Step.work _ _ _ _ true _ _ _ _ rfl (.run rfl rfl))
  have h := h.tail (@Step.work _ _ _ _ true _ _ _ _ rfl (.write rfl))
  have h := h.tail (@Step.work _ _ _ _ true _ _ _ _ rfl (.write rfl))
  have h := h.tail (@Step.work _ _ _ _ true _ _ _ _ rfl (.answer rfl))
  have h := h.tail (.move .alone .write)
  have h := h.tail (.move .alone (.collect rfl (.inl (List.mem_singleton_self _))))
  have h := h.tail (.move .alone .notice)
  have h := h.tail (.move .alone .notice)
  have h := h.tail (.move .alone (.seat rfl))
  have h := h.tail (.leave rfl .alone)
  exact ⟨_, h, rfl, .free, accounts_balance h (by decide) .free⟩

end Bound

end ThreadSystem

end SccDispatch
