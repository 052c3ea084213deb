import SccDispatch.Proofs.ProjectLockDiscipline
import SccDispatch.Proofs.WorkerDelivery

namespace SccDispatch

/-- Every call suits the project that is open before it. -/
def Alternates (seen : List Seen) : Prop :=
  ∀ before s after, seen = before ++ s :: after → s.Suits (lastOpened before)

/-- A call that suits the open project may follow. -/
theorem Alternates.concat {seen : List Seen} (h : Alternates seen) {s : Seen}
    (hs : s.Suits (lastOpened seen)) : Alternates (seen ++ [s]) :=
  SharedWorker.forall_split_concat h hs

theorem seen_concat (before : List Seen) (past : List Ran) (r : Ran) :
    before ++ past.map Ran.seen ++ [r.seen] = before ++ (past ++ [r]).map Ran.seen := by simp

namespace ThreadSystem

variable {π : Type}

def holdOf (x : ThreadSystem π) (o : Option Project) (i : Nat) : Hold :=
  if x.locked = some i then .held o else .free

theorem holdOf_of_locked {x : ThreadSystem π} {i : Nat} (h : x.locked = some i)
    (o : Option Project) : x.holdOf o i = .held o := if_pos h

theorem holdOf_of_ne {x : ThreadSystem π} {i : Nat} (h : x.locked ≠ some i) (o : Option Project) :
    x.holdOf o i = .free := if_neg h

theorem holdOf_of_none {x : ThreadSystem π} (h : x.locked = none) (o : Option Project) (i : Nat) :
    x.holdOf o i = .free := holdOf_of_ne (by simp [h]) o

/-- A command changes what is open only under the hold of the thread that sent it. -/
theorem holdOf_after {x : ThreadSystem π} {o : Option Project} {j : Nat} {command : Command}
    (hs : (x.holdOf o j).Sends command) (out : Output) {o' : Option Project}
    (ho : (⟨.worker, command.call, out.succeeded⟩ : Seen).leavesProject o = o') :
    x.holdOf o' j = (x.holdOf o j).after command out ∧
      ∀ i, i ≠ j → x.holdOf o' i = x.holdOf o i := by
  subst ho
  by_cases hl : x.locked = some j
  · rw [holdOf_of_locked hl, holdOf_of_locked hl]
    refine ⟨rfl, fun i hi => ?_⟩
    have hn : x.locked ≠ some i := fun he => hi (Option.some.inj (he.symm.trans hl))
    rw [holdOf_of_ne hn, holdOf_of_ne hn]
  · rw [holdOf_of_ne hl] at hs
    rw [(Command.Plain.seen hs .worker out.succeeded o).1, holdOf_of_ne hl]
    exact ⟨rfl, fun i _ => rfl⟩

theorem agrees_holdOf (x : ThreadSystem π) (o : Option Project) (i : Nat) :
    (x.holdOf o i).Agrees o := by
  unfold holdOf
  split
  next => rfl
  next => trivial

/-- The provider is bound. Who has the lock of the open project knows which one the provider has
open; if nobody has it, that one is on record. -/
structure Serving (x : ThreadSystem (Traced π)) (before : List Seen) (p : Post (Traced π)) :
    Prop where
  post : x.post false = some p
  hand : x.hand = none
  opened : p.worker.queue.closed = false
  seen : p.worker.provider.seen = before ++ x.past.map Ran.seen
  alternates : Alternates p.worker.provider.seen
  shared : ∀ r ∈ x.past, r.alone = false
  project : x.locked = none → x.dispatcher.project = lastOpened p.worker.provider.seen
  holder : ∀ i, x.locked = some i → x.inside.isAlone = false ∧ i ∈ x.inside.ids
  stands : x.inside.Every fun i _ l =>
    l.rest.Stands p (x.holdOf (lastOpened p.worker.provider.seen) i)

namespace Serving

variable {x y : ThreadSystem (Traced π)} {before : List Seen} {p q : Post (Traced π)} {i : Nat}
  {alone : Bool} {l m : Local (Traced π) alone}
  {put : Local (Traced π) alone → Inside (Traced π)}

/-- The provider is called by nobody, and the lock stays where it is. -/
theorem keep (h : x.Serving before p) (hpost : y.post false = some q) (hh : y.hand = x.hand)
    (hq : q.worker.queue.closed = p.worker.queue.closed)
    (hs : q.worker.provider = p.worker.provider) (hp : y.past = x.past)
    (hl : y.locked = x.locked) (hproject : y.dispatcher.project = x.dispatcher.project)
    (ha : y.inside.isAlone = x.inside.isAlone) (hi : y.inside.ids = x.inside.ids)
    (stands : y.inside.Every fun i _ l =>
      l.rest.Stands q (x.holdOf (lastOpened p.worker.provider.seen) i)) :
    y.Serving before q where
  post := hpost
  hand := hh.trans h.hand
  opened := hq.trans h.opened
  seen := by rw [hs, hp, h.seen]
  alternates := hs ▸ h.alternates
  shared := hp ▸ h.shared
  project hn := by rw [hs, hproject, h.project (hl ▸ hn)]
  holder j hj := by rw [ha, hi]; exact h.holder j (hl ▸ hj)
  stands := by
    simp only [holdOf, hl, hs]
    exact stands

/-- A thread goes on in its routine, and changes nothing else that matters. -/
theorem moved (h : x.Serving before p) (here : Inside.At i l x.inside put)
    (hin : y.inside = put m) (hpost : y.post false = x.post false) (hh : y.hand = x.hand)
    (hp : y.past = x.past) (hl : y.locked = x.locked)
    (hproject : y.dispatcher.project = x.dispatcher.project)
    (hm : m.rest.Stands p (x.holdOf (lastOpened p.worker.provider.seen) i)) :
    y.Serving before p := by
  refine h.keep (hpost.trans h.post) hh rfl rfl hp hl hproject ?_ ?_ ?_
  · rw [hin, here.isAlone_put, here.isAlone]
  · rw [hin, here.ids_put]
  · rw [hin]
    exact here.every_put h.stands hm

theorem isFalse (h : x.Serving before p) (hp : x.post alone = some q) : alone = false ∧ q = p := by
  cases alone with
  | true => cases h.hand.symm.trans hp
  | false => exact ⟨rfl, Option.some.inj (hp.symm.trans h.post)⟩

/-- A thread by itself does not have the lock of the open project. -/
theorem unlocked (h : x.Serving before p) (ha : x.inside.isAlone = true) : x.locked = none := by
  cases hl : x.locked with
  | none => rfl
  | some i =>
    rw [(h.holder i hl).1] at ha
    cases ha

/-- A command has run whose call suits, and one thread now keeps to what comes after it. -/
theorem extend (h : x.Serving before p) {r : Ran} (hr : r.alone = false)
    (hpost : y.post false = some q) (hh : y.hand = x.hand)
    (hq : q.worker.queue.closed = p.worker.queue.closed)
    (hs : q.worker.provider.seen = p.worker.provider.seen ++ [r.seen])
    (hsuits : r.seen.Suits (lastOpened p.worker.provider.seen)) (hp : y.past = x.past ++ [r])
    (hl : y.locked = x.locked) (hproject : y.dispatcher.project = x.dispatcher.project)
    (ha : y.inside.isAlone = x.inside.isAlone) (hi : y.inside.ids = x.inside.ids)
    (hsame : x.locked = none →
      r.seen.leavesProject (lastOpened p.worker.provider.seen) =
        lastOpened p.worker.provider.seen)
    (stands : y.inside.Every fun i _ l => l.rest.Stands q
      (x.holdOf (r.seen.leavesProject (lastOpened p.worker.provider.seen)) i)) :
    y.Serving before q where
  post := hpost
  hand := hh.trans h.hand
  opened := hq.trans h.opened
  seen := by rw [hs, hp, h.seen, seen_concat]
  alternates := hs ▸ h.alternates.concat hsuits
  shared s hm := by
    rw [hp] at hm
    rcases List.mem_append.mp hm with hm | hm
    · exact h.shared s hm
    · rw [List.mem_singleton.mp hm]
      exact hr
  project hn := by
    rw [hs, lastOpened_concat, hproject, h.project (hl ▸ hn), hsame (hl ▸ hn)]
  holder j hj := by rw [ha, hi]; exact h.holder j (hl ▸ hj)
  stands := by
    simp only [holdOf, hl, hs, lastOpened_concat]
    exact stands

theorem submit (h : x.Serving before p) (hd : x.inside.ids.Nodup) {command : Command}
    {next : Except DispatchError Output → Routine (Traced π) alone} {r : Post (Traced π)}
    {ticket : Nat} {worker : Worker (Traced π)}
    (here : Inside.At i { rest := .go (.ask command next) } x.inside put)
    (hp : x.post alone = some r) (accepted : r.worker.submit command = .ok (ticket, worker)) :
    ((x.withPost alone { r with worker }).withInside
      (put { todo := [.dispatched], rest := .await ⟨ticket, command⟩ next })).Serving before
        { r with worker } := by
  obtain ⟨rfl, rfl⟩ := h.isFalse hp
  obtain ⟨-, -, hu, ho, -⟩ := Post.flight_submit accepted
  obtain ⟨hs, hc⟩ := Post.submit_kept accepted
  obtain ⟨hsends, hn⟩ := here.every h.stands
  refine h.keep (post_withPost hp _) rfl hc hs rfl rfl rfl ?_ ?_ ?_
  · exact (here.isAlone_put _).trans here.isAlone.symm
  · exact here.ids_put _
  · refine here.every_others hd h.stands (fun l _ hl => hl.mono (fun _ hm => ?_) fun _ hm => ?_) ?_
    · exact hu ▸ List.mem_append_left _ hm
    · exact ho ▸ hm
    · exact .inl ⟨hu ▸ List.mem_append_right _ (List.mem_singleton_self _), hsends, hn⟩

theorem collect (h : x.Serving before p) (ht : x.JobsTracked) (hd : x.inside.ids.Nodup) {job : Job}
    {next : Except DispatchError Output → Routine (Traced π) alone} {r : Post (Traced π)}
    {name : String} (here : Inside.At i { rest := .await job next } x.inside put)
    (hp : x.post alone = some r)
    (ready : job.ticket ∈ r.worker.answers.map Prod.fst ∨ r.duty = .gone) :
    ((x.withPost alone { r with worker := (r.worker.result job.ticket name).2 }).withInside
      (put { rest := .go (next (r.worker.result job.ticket name).1) })).Serving before
        (r.paid job.ticket) := by
  obtain ⟨rfl, rfl⟩ := h.isFalse hp
  have ha := ht.settled here hp ready
  have hk := (ht.sound hp).collected ha (here.every h.stands) name
  obtain ⟨-, hw⟩ := ht.waiting_one hp (ht.mem_flight here (if_pos rfl) hp)
  have hothers := here.others_wait_not hd (t := job.ticket) (by rw [hw]; simp)
  rw [Post.result_snd]
  refine h.keep (post_withPost hp _) rfl rfl rfl rfl rfl rfl ?_ ?_ ?_
  · exact (here.isAlone_put _).trans here.isAlone.symm
  · exact here.ids_put _
  · refine here.every_others hd (h.stands.and hothers) ?_ hk
    rintro j b l hj ⟨hl, hz⟩
    exact hl.other (hz hj) (fun _ hm _ => hm) fun _ hm hne => Post.mem_outs_paid hm hne

theorem lock (h : x.Serving before p) (hd : x.inside.ids.Nodup)
    {put : Local (Traced π) false → Inside (Traced π)}
    {next : Option Project → Routine (Traced π) false}
    (here : Inside.At i { rest := .go (.lock next) } x.inside put) (free : x.locked = none) :
    ({ x with
      dispatcher := { x.dispatcher with project := none }
      locked := some i
      inside := put { rest := .go (next x.dispatcher.project) } } :
        ThreadSystem (Traced π)).Serving before p := by
  have hfree : ∀ j, x.holdOf (lastOpened p.worker.provider.seen) j = .free := fun j =>
    holdOf_of_none free _ j
  have hk : (Routine.lock next).Keeps (x.holdOf (lastOpened p.worker.provider.seen) i) :=
    here.every h.stands
  rw [hfree] at hk
  refine ⟨h.post, h.hand, h.opened, h.seen, h.alternates, h.shared, ?_, ?_, ?_⟩
  · rintro ⟨⟩
  · rintro j ⟨⟩
    exact ⟨here.isAlone_put _, (here.ids_put _).symm ▸ here.mem_ids⟩
  · refine here.every_others hd h.stands (fun {j _} l hj hl => ?_) ?_
    · rw [hfree] at hl
      rwa [holdOf_of_ne fun he => hj (Option.some.inj he).symm]
    · show (next x.dispatcher.project).Keeps _
      rw [holdOf_of_locked rfl, h.project free]
      exact hk _

theorem unlock (h : x.Serving before p) (hd : x.inside.ids.Nodup)
    {put : Local (Traced π) false → Inside (Traced π)} {project : Option Project}
    {next : Routine (Traced π) false}
    (here : Inside.At i { rest := .go (.unlock project next) } x.inside put)
    (mine : x.locked = some i) :
    ({ x with
      dispatcher := { x.dispatcher with project }
      locked := none
      inside := put { rest := .go next } } : ThreadSystem (Traced π)).Serving before p := by
  have hk : (Routine.unlock project next).Keeps
      (x.holdOf (lastOpened p.worker.provider.seen) i) := here.every h.stands
  rw [holdOf_of_locked mine] at hk
  obtain ⟨rfl, hk⟩ := hk
  refine ⟨h.post, h.hand, h.opened, h.seen, h.alternates, h.shared, fun _ => rfl, ?_, ?_⟩
  · rintro j ⟨⟩
  · refine here.every_others hd h.stands (fun {j _} l hj hl => ?_) hk
    rw [holdOf_of_ne fun he => hj (Option.some.inj (he.symm.trans mine))] at hl
    rwa [holdOf_of_none rfl]

theorem enter (h : x.Serving before p) {r : Routine (Traced π) alone} {inside : Inside (Traced π)}
    {due : Nat → List (Section (Traced π))} (hr : r.Keeps .free)
    (admitted : Inside.Admits i r x.inside inside) :
    ({ x with due, inside } : ThreadSystem (Traced π)).Serving before p := by
  obtain ⟨hout, hids⟩ := admitted.ids
  have hfree : x.holdOf (lastOpened p.worker.provider.seen) i = .free :=
    holdOf_of_ne (fun hl => hout (h.holder i hl).2) _
  refine ⟨h.post, h.hand, h.opened, h.seen, h.alternates, h.shared, h.project, fun j hl => ?_, ?_⟩
  · obtain ⟨-, ha | hx⟩ := admitted.isAlone
    · exact ⟨ha, hids ▸ List.mem_append_left _ (h.holder j hl).2⟩
    · have hj := (h.holder j hl).2
      rw [hx] at hj
      cases hj
  · exact admitted.every h.stands (show r.Keeps _ from hfree ▸ hr)

theorem leave (h : x.Serving before p) {answer : Answer} {inside : Inside (Traced π)}
    (left : Inside.Leaves i answer x.inside inside) :
    (x.withInside inside).Serving before p := by
  obtain ⟨b, put, here⟩ := left.exists_at
  have hk : (Routine.done answer : Routine (Traced π) b).Keeps
      (x.holdOf (lastOpened p.worker.provider.seen) i) := here.every h.stands
  refine ⟨h.post, h.hand, h.opened, h.seen, h.alternates, h.shared, h.project, fun j hl => ?_,
    left.every h.stands⟩
  refine ⟨left.isAlone.1, left.ids.2 j (h.holder j hl).2 ?_⟩
  rintro rfl
  rw [holdOf_of_locked (show x.locked = some j from hl)] at hk
  exact hk

variable [Provider π]

/-- The call of a command that is not to start the provider. -/
theorem seen_execute {t u : Traced π} {on : Thread} {shares : Bool} {command : Command}
    {out : Output} (hx : execute t on shares command = (out, u))
    (hn : ∀ window caller, command ≠ .start window caller) (alone : Bool) :
    u.seen = t.seen ++ [(⟨alone, on, command, out⟩ : Ran).seen] := by
  have hs := execute_traced t on shares command hn
  rw [hx] at hs
  exact hs

/-- The worker goes on. What a thread has to keep to changes with the command that it sent. -/
theorem work (h : x.Serving before p) (ht : x.JobsTracked) (hd : x.inside.ids.Nodup)
    {r : Post (Traced π)} (hp : x.post alone = some r) {es : List Journal.Entry}
    {ran : Option (Command × Output)} (works : r.Works q es ran) :
    ((x.withPost alone q).record es
      (ran.map fun r => (⟨alone, .worker, r.1, r.2⟩ : Ran)).toList).Serving before q := by
  obtain ⟨rfl, rfl⟩ := h.isFalse hp
  have hpost := post_withPost hp q
  rcases works.cases with ⟨rfl, hu, ho, hs, hc⟩ | ⟨job, out, rfl, hu, ho, hc, hx⟩
  · refine h.keep hpost rfl hc hs (List.append_nil _) rfl rfl rfl rfl ?_
    exact h.stands.imp fun l hl => hl.mono (fun _ => hu ▸ id) fun _ => ho ▸ id
  · have hjob : job ∈ r.undone := hu ▸ List.mem_cons_self
    obtain ⟨hw, j, todo, job', next, put, here, heq⟩ := ht.awaiter hp hjob
    obtain ⟨hsends, hstands⟩ := (ht.sound hp).stands_run (q := q) hjob heq
      (here.every h.stands) (ho ▸ List.mem_append_right _ (List.mem_singleton_self _))
    obtain ⟨hj, hi⟩ := holdOf_after hsends out
      (show _ = (⟨false, .worker, job.command, out⟩ : Ran).seen.leavesProject _ from rfl)
    have hothers := here.others_wait_not hd (t := job.ticket) (by rw [hw]; simp [heq])
    refine h.extend (r := ⟨false, .worker, job.command, out⟩) rfl hpost rfl hc
      (seen_execute hx hsends.not_start false) (hsends.suits (agrees_holdOf ..) _ _) rfl rfl rfl
      rfl rfl (fun hl => ?_) ?_
    · rw [holdOf_of_none hl] at hsends
      exact (Command.Plain.seen hsends _ _ _).1
    · show x.inside.Every _
      rw [← here.put_self]
      refine here.every_others hd (h.stands.and hothers) ?_ (hj ▸ hstands)
      rintro k b l hk ⟨hl, ha⟩
      rw [hi k hk]
      refine hl.other (ha hk) (fun job' hm hne => ?_) fun o hm _ => ho ▸ List.mem_append_left _ hm
      rw [hu] at hm
      exact (List.mem_cons.mp hm).resolve_left fun he => hne (congrArg Job.ticket he)

theorem visit (h : x.Serving before p) {put : Local (Traced π) false → Inside (Traced π)}
    {command : Command} {next : Output → Routine (Traced π) false} {b : Binding (Traced π)}
    {out : Output} {provider : Traced π} {todo : List Journal.Entry}
    (here : Inside.At i { rest := .query command next } x.inside put)
    (bound : x.dispatcher.binding = some b)
    (ran : execute b.worker.provider .caller false command = (out, provider)) :
    (((x.withPost false { worker := { b.worker with provider }, duty := x.duty }).withInside
      (put { todo, rest := .go (next out) })).record []
        [⟨false, .caller, command, out⟩]).Serving before
          { worker := { b.worker with provider }, duty := x.duty } := by
  have hp : x.post false = some { worker := b.worker, duty := x.duty } := by
    rw [ThreadSystem.post, bound]
    rfl
  obtain rfl := (h.isFalse hp).2
  obtain ⟨hf, hplain, hn⟩ := here.every h.stands
  obtain ⟨hsame, hsuits⟩ := Command.Plain.seen hplain .caller out.succeeded
    (lastOpened b.worker.provider.seen)
  have hnot : ∀ window caller, command ≠ .start window caller :=
    Hold.Sends.not_start (h := .free) hplain
  refine h.extend (r := ⟨false, .caller, command, out⟩) rfl (post_withPost hp _) rfl rfl
    (seen_execute ran hnot false) hsuits rfl rfl rfl ?_ ?_ (fun _ => hsame) ?_
  · exact (here.isAlone_put _).trans here.isAlone.symm
  · exact here.ids_put _
  · rw [show (⟨false, .caller, command, out⟩ : Ran).seen.leavesProject _ = _ from hsame]
    refine here.every_put (h.stands.imp fun l hl => hl.mono (fun _ => id) fun _ => id) ?_
    rw [hf]
    exact hn out

end Serving

/-- A thread that is alone has sent the last commands, but for those that its hold has due. -/
structure Parted (past : List Ran) (before : List Seen) (used leaving : List Ran) (h : Hold) :
    Prop where
  past : past = used ++ leaving
  shared : ∀ r ∈ used, r.alone = false
  alone : ∀ r ∈ leaving, r.alone = true
  sent : leaving.map Ran.command ++ h.due =
    lastCommands (lastOpened (before ++ used.map Ran.seen)).isSome

/-- A thread has the provider for itself, and is about to let it go. -/
structure Leaving (x : ThreadSystem (Traced π)) (before : List Seen) (used leaving : List Ran)
    (p : Post (Traced π)) (h : Hold) : Prop where
  unbound : x.dispatcher.binding = none
  hand : x.hand = some p
  opened : h ≠ .stopped → p.worker.queue.closed = false
  phase : h = .stopped ∨ ∃ isOpen, h = .parting isOpen
  agrees : h.Agrees (lastOpened p.worker.provider.seen)
  seen : p.worker.provider.seen = before ++ x.past.map Ran.seen
  alternates : Alternates p.worker.provider.seen
  alone : x.inside.isAlone = true
  stands : x.inside.Every fun _ _ l => l.rest.Stands p h
  parted : Parted x.past before used leaving h

structure Left (x : ThreadSystem (Traced π)) (before : List Seen) (used leaving : List Ran)
    (provider : Traced π) : Prop where
  unbound : x.dispatcher.binding = none
  hand : x.hand = none
  last : x.dispatcher.lastRetired = some provider
  seen : provider.seen = before ++ x.past.map Ran.seen
  alternates : Alternates provider.seen
  stands : x.inside.Every fun _ _ l => ∃ (p : Post (Traced π)) (h : Hold), l.rest.Stands p h
  parted : Parted x.past before used leaving .stopped

namespace Leaving

variable {x y : ThreadSystem (Traced π)} {before : List Seen} {used leaving : List Ran}
  {p q : Post (Traced π)} {h : Hold} {i : Nat} {l m : Local (Traced π) true}
  {put : Local (Traced π) true → Inside (Traced π)}

/-- The provider is called by nobody. -/
theorem keep (hx : x.Leaving before used leaving p h) (hb : y.dispatcher.binding = none)
    (hh : y.hand = some q)
    (hq : h ≠ .stopped → q.worker.queue.closed = p.worker.queue.closed)
    (hs : q.worker.provider = p.worker.provider) (hp : y.past = x.past)
    (ha : y.inside.isAlone = true) (stands : y.inside.Every fun _ _ l => l.rest.Stands q h) :
    y.Leaving before used leaving q h where
  unbound := hb
  hand := hh
  opened hn := (hq hn).trans (hx.opened hn)
  phase := hx.phase
  agrees := hs ▸ hx.agrees
  seen := by rw [hs, hp, hx.seen]
  alternates := hs ▸ hx.alternates
  alone := ha
  stands := stands
  parted := hp ▸ hx.parted

theorem moved (hx : x.Leaving before used leaving p h) (here : Inside.At i l x.inside put)
    (hin : y.inside = put m) (hb : y.dispatcher.binding = x.dispatcher.binding)
    (hh : y.hand = x.hand) (hp : y.past = x.past) (hm : m.rest.Stands p h) :
    y.Leaving before used leaving p h := by
  refine hx.keep (hb.trans hx.unbound) (hh.trans hx.hand) (fun _ => rfl) rfl hp ?_ ?_
  · rw [hin, here.isAlone_put]
  · rw [hin]
    exact here.every_alone hm

theorem isTrue (hx : x.Leaving before used leaving p h) {alone : Bool}
    (hp : x.post alone = some q) : alone = true ∧ q = p := by
  cases alone with
  | true => exact ⟨rfl, Option.some.inj (hp.symm.trans hx.hand)⟩
  | false =>
    rw [ThreadSystem.post, hx.unbound] at hp
    cases hp

theorem submit (hx : x.Leaving before used leaving p h) {alone : Bool}
    {put : Local (Traced π) alone → Inside (Traced π)} {command : Command}
    {next : Except DispatchError Output → Routine (Traced π) alone} {r : Post (Traced π)}
    {ticket : Nat} {worker : Worker (Traced π)}
    (here : Inside.At i { rest := .go (.ask command next) } x.inside put)
    (hp : x.post alone = some r) (accepted : r.worker.submit command = .ok (ticket, worker)) :
    ((x.withPost alone { r with worker }).withInside
      (put { todo := [.dispatched], rest := .await ⟨ticket, command⟩ next })).Leaving before used
        leaving { r with worker } h := by
  obtain ⟨rfl, rfl⟩ := hx.isTrue hp
  obtain ⟨-, -, hu, -, -⟩ := Post.flight_submit accepted
  obtain ⟨hs, hc⟩ := Post.submit_kept accepted
  obtain ⟨hsends, hn⟩ := here.every hx.stands
  refine hx.keep hx.unbound rfl (fun _ => hc) hs rfl (here.isAlone_put _) (here.every_alone ?_)
  exact .inl ⟨hu ▸ List.mem_append_right _ (List.mem_singleton_self _), hsends, hn⟩

theorem collect (hx : x.Leaving before used leaving p h) (ht : x.JobsTracked) {alone : Bool}
    {put : Local (Traced π) alone → Inside (Traced π)} {job : Job}
    {next : Except DispatchError Output → Routine (Traced π) alone} {r : Post (Traced π)}
    {name : String} (here : Inside.At i { rest := .await job next } x.inside put)
    (hp : x.post alone = some r)
    (ready : job.ticket ∈ r.worker.answers.map Prod.fst ∨ r.duty = .gone) :
    ((x.withPost alone { r with worker := (r.worker.result job.ticket name).2 }).withInside
      (put { rest := .go (next (r.worker.result job.ticket name).1) })).Leaving before used
        leaving (r.paid job.ticket) h := by
  obtain ⟨rfl, rfl⟩ := hx.isTrue hp
  have hk := (ht.sound hp).collected (ht.settled here hp ready) (here.every hx.stands) name
  rw [Post.result_snd]
  exact hx.keep hx.unbound rfl (fun _ => rfl) rfl rfl (here.isAlone_put _) (here.every_alone hk)

/-- A queue that is closed has nothing left to send to it. -/
theorem accepts (hx : x.Leaving before used leaving p h) {alone : Bool}
    {put : Local (Traced π) alone → Inside (Traced π)} {command : Command}
    {next : Except DispatchError Output → Routine (Traced π) alone} {r : Post (Traced π)}
    {error : DispatchError} (here : Inside.At i { rest := .go (.ask command next) } x.inside put)
    (hp : x.post alone = some r) : r.worker.submit command ≠ .error error := by
  obtain ⟨rfl, rfl⟩ := hx.isTrue hp
  have hsends : h.Sends command := (here.every hx.stands).1
  have hn : h ≠ .stopped := by
    rintro rfl
    exact hsends
  rw [Worker.submit_of_open (hx.opened hn)]
  exact nofun

theorem dismiss (hx : x.Leaving before used leaving p h) {next : Routine (Traced π) true}
    {r : Post (Traced π)} (here : Inside.At i { rest := .go (.dismiss next) } x.inside put)
    (has : x.hand = some r) :
    ({ x with
      hand := some { r with worker := r.worker.close }
      inside := put { rest := .go next } } : ThreadSystem (Traced π)).Leaving before used leaving
        { r with worker := r.worker.close } h := by
  obtain rfl := (hx.isTrue (show x.post true = some r from has)).2
  have hk : (Routine.dismiss next).Keeps h := here.every hx.stands
  obtain rfl | ⟨isOpen, rfl⟩ := hx.phase
  · exact hx.keep hx.unbound rfl (fun hn => absurd rfl hn) rfl rfl (here.isAlone_put _)
      (here.every_alone hk)
  · cases hk

theorem retire (hx : x.Leaving before used leaving p h) {next : Routine (Traced π) true}
    {own : Holder} {r : Post (Traced π)}
    (here : Inside.At i { rest := .go (.retire own next) } x.inside put)
    (has : x.hand = some r) :
    ({ x with
      dispatcher :=
        { x.dispatcher with
          retired := x.dispatcher.retired ++ [.of r.worker own] }
      hand := none
      inside := put { rest := .go next } } : ThreadSystem (Traced π)).Left before used leaving
        r.worker.provider := by
  obtain rfl := (hx.isTrue (show x.post true = some r from has)).2
  have hk : (Routine.retire own next).Keeps h := here.every hx.stands
  obtain rfl | ⟨isOpen, rfl⟩ := hx.phase
  · refine ⟨hx.unbound, rfl, ?_, hx.seen, hx.alternates, ?_, hx.parted⟩
    · simp [Dispatcher.lastRetired]
    · exact here.every_alone ⟨r, .stopped, hk⟩
  · cases hk

variable [Provider π]

/-- The worker goes on; a command that it runs is the next that was due. -/
theorem work (hx : x.Leaving before used leaving p h) (ht : x.JobsTracked) {alone : Bool}
    {r : Post (Traced π)} (hp : x.post alone = some r) {es : List Journal.Entry}
    {ran : Option (Command × Output)} (works : r.Works q es ran) :
    ∃ leaving' h', ((x.withPost alone q).record es
      (ran.map fun r => (⟨alone, .worker, r.1, r.2⟩ : Ran)).toList).Leaving before used leaving'
        q h' := by
  obtain ⟨rfl, rfl⟩ := hx.isTrue hp
  rcases works.cases with ⟨rfl, hu, ho, hs, hc⟩ | ⟨job, out, rfl, hu, ho, hc, hr⟩
  · refine ⟨leaving, h, hx.keep hx.unbound rfl (fun _ => hc) hs (List.append_nil _) hx.alone ?_⟩
    exact hx.stands.imp fun l hl => hl.mono (fun _ => hu ▸ id) fun _ => ho ▸ id
  · have hjob : job ∈ r.undone := hu ▸ List.mem_cons_self
    obtain ⟨-, j, todo, job', next, put, here, heq⟩ := ht.awaiter hp hjob
    obtain ⟨hsends, hstands⟩ := (ht.sound hp).stands_run (q := q) hjob heq
      (here.every hx.stands) (ho ▸ List.mem_append_right _ (List.mem_singleton_self _))
    have hseen := Serving.seen_execute hr hsends.not_start true
    obtain rfl | ⟨isOpen, hphase⟩ := hx.phase
    · cases hsends
    have hn : h ≠ .stopped := by
      rw [hphase]
      exact nofun
    refine ⟨leaving ++ [⟨true, .worker, job.command, out⟩], h.after job.command out,
      hx.unbound, rfl, fun _ => hc.trans (hx.opened hn), ?_, ?_, ?_, ?_, hx.alone, ?_, ?_⟩
    · subst hphase
      cases isOpen with
      | true => exact .inr ⟨false, rfl⟩
      | false => exact .inl rfl
    · rw [hseen, lastOpened_concat]
      exact hx.agrees.after hsends out
    · rw [hseen, hx.seen]
      exact seen_concat ..
    · rw [hseen]
      exact hx.alternates.concat (hsends.suits hx.agrees _ _)
    · show x.inside.Every _
      rw [← here.put_self]
      exact here.every_alone hstands
    · obtain ⟨hpast, hshared, halone, hsent⟩ := hx.parted
      refine ⟨?_, hshared, ?_, ?_⟩
      · rw [← List.append_assoc, ← hpast]
        rfl
      · intro s hm
        rcases List.mem_append.mp hm with hm | hm
        · exact halone s hm
        · rw [List.mem_singleton.mp hm]
      · rw [List.map_append, List.append_assoc, ← hsent]
        exact congrArg _ (Hold.due_after hphase hsends out)

end Leaving

/-- A thread that is alone takes the provider from the binding. -/
theorem Serving.take {x : ThreadSystem (Traced π)} {before : List Seen} {p : Post (Traced π)}
    {i : Nat} (h : x.Serving before p) {put : Local (Traced π) true → Inside (Traced π)}
    {next : Option Project → Routine (Traced π) true} {b : Binding (Traced π)}
    (here : Inside.At i { rest := .go (.take next) } x.inside put)
    (bound : x.dispatcher.binding = some b) :
    ({ x with
      dispatcher := { x.dispatcher with binding := none, project := none, selected := none }
      duty := .idle
      hand := some { worker := b.withdrawn, duty := x.duty }
      inside := put { rest := .go (next x.dispatcher.project) } } :
        ThreadSystem (Traced π)).Leaving before x.past [] { worker := b.withdrawn, duty := x.duty }
          (.parting (lastOpened b.worker.provider.seen).isSome) := by
  have hp : x.post false = some { worker := b.worker, duty := x.duty } := by
    rw [ThreadSystem.post, bound]
    rfl
  obtain rfl := (h.isFalse hp).2
  have hl := h.unlocked here.isAlone
  have hk : (Routine.take next).Keeps (x.holdOf (lastOpened b.worker.provider.seen) i) :=
    here.every h.stands
  rw [holdOf_of_none hl] at hk
  refine ⟨rfl, rfl, fun _ => h.opened, .inr ⟨_, rfl⟩, rfl, h.seen, h.alternates,
    here.isAlone_put _, here.every_alone ?_, ⟨(List.append_nil _).symm, h.shared, ?_, ?_⟩⟩
  · rw [h.project hl]
    exact hk _
  · exact List.forall_mem_nil _
  · rw [h.seen]
    rfl

namespace Left

variable {x y : ThreadSystem (Traced π)} {before : List Seen} {used leaving : List Ran}
  {provider : Traced π} {alone : Bool} {i : Nat} {l m : Local (Traced π) alone}
  {put : Local (Traced π) alone → Inside (Traced π)}

theorem keep (h : x.Left before used leaving provider)
    (hb : y.dispatcher.binding = x.dispatcher.binding)
    (hr : y.dispatcher.retired = x.dispatcher.retired) (hh : y.hand = x.hand)
    (hp : y.past = x.past)
    (stands : y.inside.Every fun _ _ l => ∃ (p : Post (Traced π)) (h : Hold), l.rest.Stands p h) :
    y.Left before used leaving provider where
  unbound := hb.trans h.unbound
  hand := hh.trans h.hand
  last := by
    rw [Dispatcher.lastRetired, hr]
    exact h.last
  seen := hp ▸ h.seen
  alternates := h.alternates
  stands := stands
  parted := hp ▸ h.parted

/-- A thread goes on as it keeps to what it held before, or as it may for another hold. -/
theorem moved (h : x.Left before used leaving provider) (here : Inside.At i l x.inside put)
    (hin : y.inside = put m) (hb : y.dispatcher.binding = x.dispatcher.binding)
    (hr : y.dispatcher.retired = x.dispatcher.retired) (hh : y.hand = x.hand)
    (hp : y.past = x.past)
    (hm : ∀ {p : Post (Traced π)} {h : Hold}, l.rest.Stands p h → ∃ h', m.rest.Stands p h') :
    y.Left before used leaving provider := by
  obtain ⟨p, g, hl⟩ := here.every h.stands
  obtain ⟨g', hm⟩ := hm hl
  exact h.keep hb hr hh hp (hin ▸ here.every_put h.stands ⟨p, g', hm⟩)

/-- There is no worker any more. -/
theorem post (h : x.Left before used leaving provider) (alone : Bool) : x.post alone = none := by
  cases alone with
  | true => exact h.hand
  | false =>
    rw [ThreadSystem.post, h.unbound]
    rfl

end Left

/-- Where the life of one binding stands. -/
inductive BindingStage (x : ThreadSystem (Traced π)) (before : List Seen) : Prop
  | serving {p : Post (Traced π)} (h : x.Serving before p)
  | leaving {used leaving : List Ran} {p : Post (Traced π)} {g : Hold}
      (h : x.Leaving before used leaving p g)
  | left {used leaving : List Ran} {provider : Traced π}
      (h : x.Left before used leaving provider)

end ThreadSystem

/-- The call binds no provider. -/
def Operation.Bindless {π : Type} (op : Operation π) : Prop := ∀ s ∈ op.sections, s.Bindless

namespace ThreadSystem

variable {π : Type} [Provider π] {x y : ThreadSystem (Traced π)} {before : List Seen}

omit [Provider π] in
theorem post_accept (x : ThreadSystem π) (op : Operation π) (due : Nat → List (Section π)) :
    ({ x with dispatcher := x.dispatcher.accept op, due } : ThreadSystem π).post false =
      x.post false := by
  simp only [ThreadSystem.post, binding_accept]

omit [Provider π] in
theorem project_accept (d : Dispatcher π) (op : Operation π) :
    (d.accept op).project = d.project := by
  unfold Dispatcher.accept
  split <;> rfl

omit [Provider π] in
theorem retired_accept (d : Dispatcher π) (op : Operation π) :
    (d.accept op).retired = d.retired := by
  unfold Dispatcher.accept
  split <;> rfl

/-- Nobody is about to bind a provider, and each thread is in one place. -/
structure Settled (x : ThreadSystem (Traced π)) : Prop where
  tracked : x.JobsTracked
  distinct : x.inside.ids.Nodup
  bindless : ∀ i, ∀ s ∈ x.due i, s.Bindless

theorem Settled.step (h : x.Settled) (s : x.Step Operation.Bindless y) : y.Settled := by
  refine ⟨h.tracked.step s, ?_, ?_⟩
  · cases s with
    | enter due admitted =>
      obtain ⟨hout, hids⟩ := admitted.ids
      show (Inside.ids _).Nodup
      rw [hids]
      exact List.nodup_append.mpr ⟨h.distinct, List.nodup_singleton _, by
        rintro a ha b hb rfl
        exact hout (List.mem_singleton.mp hb ▸ ha)⟩
    | leave empty left => exact left.ids.1.nodup h.distinct
    | @work alone _ q _ _ post works =>
      cases alone <;> exact h.distinct
    | call => exact h.distinct
    | move here moves =>
      obtain ⟨m, hm⟩ := moves.inside
      exact hm ▸ (here.ids_put m).symm ▸ h.distinct
  · cases s with
    | @call i op may finished outside =>
      intro j s hs
      by_cases hj : j = i
      · subst hj
        simp only [Function.update_self] at hs
        exact may s hs
      · simp only [Function.update_of_ne hj] at hs
        exact h.bindless j s hs
    | @enter i s sections inside due admitted =>
      intro j t ht
      by_cases hj : j = i
      · subst hj
        simp only [Function.update_self] at ht
        exact h.bindless j t (due ▸ List.mem_cons_of_mem _ ht)
      · simp only [Function.update_of_ne hj] at ht
        exact h.bindless j t ht
    | leave => exact h.bindless
    | @work alone => cases alone <;> exact h.bindless
    | move here moves => exact moves.due ▸ h.bindless

section Move

variable {i : Nat} {alone : Bool} {l : Local (Traced π) alone}
  {put : Local (Traced π) alone → Inside (Traced π)}

/-- A move of a thread, while the provider is bound: it is bound still, or a thread has come to
have it alone. -/
theorem Serving.move {p : Post (Traced π)} (h : x.Serving before p) (hx : x.Settled)
    (here : Inside.At i l x.inside put) (m : x.Move i l put y) : y.BindingStage before := by
  have hd := hx.distinct
  cases m with
  | write =>
    refine .serving (h.keep h.post rfl rfl rfl (List.append_nil _) rfl rfl ?_ ?_ ?_)
    · exact (here.isAlone_put _).trans here.isAlone.symm
    · exact here.ids_put _
    · exact here.every_put h.stands (here.every h.stands)
  | notice => exact .serving (h.moved here rfl rfl rfl rfl rfl rfl (here.every h.stands))
  | submit post accepted => exact .serving (h.submit hd here post accepted)
  | refused post refused =>
    obtain ⟨rfl, rfl⟩ := h.isFalse post
    rw [Worker.submit_of_open h.opened] at refused
    cases refused
  | collect post settled => exact .serving (h.collect hx.tracked hd here post settled)
  | ask =>
    exact .serving (h.moved here rfl rfl rfl rfl rfl rfl (Rest.stands_query (here.every h.stands)))
  | visit bound ran => exact .serving (h.visit here bound ran)
  | select =>
    have hk := Routine.keeps_select (here.every h.stands)
    exact .serving (h.moved here rfl rfl rfl rfl rfl rfl hk)
  | lock free => exact .serving (h.lock hd here free)
  | unlock mine => exact .serving (h.unlock hd here mine)
  | take bound empty => exact .leaving (h.take here bound)
  | employ empty => exact absurd (here.every h.stands) Routine.not_keeps_employ
  | seat has | dismiss has | retire has => cases h.hand.symm.trans has

/-- A thread that has the provider alone sends the next of the last commands, or lets it go. -/
theorem Leaving.move {used leaving : List Ran} {p : Post (Traced π)} {g : Hold}
    (h : x.Leaving before used leaving p g) (hx : x.Settled) (here : Inside.At i l x.inside put)
    (m : x.Move i l put y) : y.BindingStage before := by
  obtain rfl := here.isAlone.symm.trans h.alone
  cases m with
  | write =>
    exact .leaving (h.keep h.unbound h.hand (fun _ => rfl) rfl (List.append_nil _)
      (here.isAlone_put _) (here.every_alone (here.every h.stands)))
  | notice => exact .leaving (h.moved here rfl rfl rfl rfl (here.every h.stands))
  | submit post accepted => exact .leaving (h.submit here post accepted)
  | refused post refused => exact absurd refused (h.accepts here post)
  | collect post settled => exact .leaving (h.collect hx.tracked here post settled)
  | take bound => cases h.unbound.symm.trans bound
  | employ empty => cases h.hand.symm.trans empty
  | seat has => exact absurd (here.every h.stands) Routine.not_keeps_seat
  | dismiss has => exact .leaving (h.dismiss here has)
  | retire has gone => exact .left (h.retire here has)

/-- Nobody calls a provider that has been let go of. -/
theorem Left.move {used leaving : List Ran} {provider : Traced π}
    (h : x.Left before used leaving provider) (here : Inside.At i l x.inside put)
    (m : x.Move i l put y) : y.Left before used leaving provider := by
  cases m with
  | submit post | refused post | collect post => cases (h.post _).symm.trans post
  | write =>
    exact h.keep rfl rfl rfl (List.append_nil _) (here.every_put h.stands (here.every h.stands))
  | notice => exact h.moved here rfl rfl rfl rfl rfl fun hk => ⟨_, hk⟩
  | ask => exact h.moved here rfl rfl rfl rfl rfl fun hk => ⟨_, Rest.stands_query hk⟩
  | visit bound | take bound => cases h.unbound.symm.trans bound
  | select => exact h.moved here rfl rfl rfl rfl rfl fun hk => ⟨_, Routine.keeps_select hk⟩
  | lock free => exact h.moved here rfl rfl rfl rfl rfl fun hk => ⟨_, Routine.keeps_lock hk _⟩
  | unlock mine => exact h.moved here rfl rfl rfl rfl rfl fun hk => ⟨_, Routine.keeps_unlock hk⟩
  | employ empty =>
    obtain ⟨_, _, hk⟩ := here.every h.stands
    exact absurd hk Routine.not_keeps_employ
  | seat has | dismiss has | retire has => cases h.hand.symm.trans has

end Move

theorem Serving.step {p : Post (Traced π)} (h : x.Serving before p) (hx : x.Settled)
    (s : x.Step Operation.Bindless y) : y.BindingStage before := by
  cases s with
  | call may finished outside =>
    exact .serving (h.keep ((post_accept ..).trans h.post) rfl rfl rfl rfl rfl (project_accept ..)
      rfl rfl h.stands)
  | @enter i s _ _ due admitted =>
    have hs := hx.bindless i s (due ▸ List.mem_cons_self)
    exact .serving (h.enter (keeps_routine x.dispatcher hs) admitted)
  | leave empty left => exact .serving (h.leave left)
  | work post works => exact .serving (h.work hx.tracked hx.distinct post works)
  | move here moves => exact h.move hx here moves

theorem Leaving.step {used leaving : List Ran} {p : Post (Traced π)} {g : Hold}
    (h : x.Leaving before used leaving p g) (hx : x.Settled)
    (s : x.Step Operation.Bindless y) : y.BindingStage before := by
  cases s with
  | call may finished outside =>
    exact .leaving (h.keep ((binding_accept ..).trans h.unbound) h.hand (fun _ => rfl) rfl rfl
      h.alone h.stands)
  | enter due admitted => cases h.alone.symm.trans admitted.isAlone.1
  | leave empty left => cases h.hand.symm.trans empty
  | work post works =>
    obtain ⟨_, _, h⟩ := h.work hx.tracked post works
    exact .leaving h
  | move here moves => exact h.move hx here moves

theorem Left.step {used leaving : List Ran} {provider : Traced π}
    (h : x.Left before used leaving provider) (hx : x.Settled)
    (s : x.Step Operation.Bindless y) : y.Left before used leaving provider := by
  cases s with
  | call may finished outside =>
    exact h.keep (binding_accept ..) (retired_accept ..) rfl rfl h.stands
  | @enter i s _ _ due admitted =>
    have hk := keeps_routine x.dispatcher (hx.bindless i s (due ▸ List.mem_cons_self))
    exact h.keep rfl rfl rfl rfl
      (admitted.every h.stands ⟨{ worker := x.dispatcher.newWorker provider }, .free, hk⟩)
  | leave empty left => exact h.keep rfl rfl rfl rfl (left.every h.stands)
  | work post => cases (h.post _).symm.trans post
  | move here moves => exact h.move here moves

/-- The life of a binding goes on from stage to stage. -/
theorem BindingStage.step (h : x.BindingStage before) (hx : x.Settled)
    (s : x.Step Operation.Bindless y) : y.BindingStage before := by
  cases h with
  | serving h => exact h.step hx s
  | leaving h => exact h.step hx s
  | left h => exact .left (h.step hx s)

end ThreadSystem

end SccDispatch
