import SccDispatch.Proofs.TextBytes
import SccDispatch.Proofs.CommandWords
import SccDispatch.Proofs.Sessions
import SccDispatch.Proofs.StatusQueries

namespace SccDispatch

variable {π : Type} [Provider π]

/-- The provider that is brought in starts, and it answers the query that follows. -/
def Loader.Willing (l : Loader π) (last : Option π) (window : Window) (caller : String) : Prop :=
  ∃ p info q threadsafe, l.load last = .ok (.ok p) ∧
    respond p .worker (.start window caller) = (.ok info, q) ∧ info.code.isOk = true ∧
      (respond q .worker .threadsafeQuery).1 = .ok threadsafe

variable {loader : Loader π} {window : Window}

theorem Startup.not_willing {p : π} {last : Option π} {shares : Bool} {caller : String}
    {out : Output} {notes : List Note} (h : Startup p shares window caller out notes)
    (hf : out.started? = none) (hl : loader.load last = .ok (.ok p)) :
    ¬loader.Willing last window caller := by
  rintro ⟨p', info, q, threadsafe, hl', hs, hc, hq⟩
  obtain rfl : p = p' := by simpa [hl] using hl'
  cases h with
  | faulted start => simp [start] at hs
  | refused start code =>
    obtain ⟨rfl, rfl⟩ : _ = info ∧ _ = q := by simpa [start] using hs
    simp [code] at hc
  | lost start code query =>
    obtain ⟨rfl, rfl⟩ : _ = info ∧ _ = q := by simpa [start] using hs
    simp [query] at hq
  | ready start code query => simp [Output.started?, code] at hf

/-- A bind succeeds just when the loader is willing. -/
theorem Attempt.willing_iff {d e : Dispatcher (Recorded π)} {success : Bool}
    (h : Attempt loader window d success e) :
    success = true ↔
      loader.Willing (d.lastRetired.map Recorded.provider) window d.options.caller := by
  cases h with
  | unloaded load =>
    refine ⟨nofun, ?_⟩
    rintro ⟨p, _, _, _, hl, -⟩
    exact absurd hl (load p)
  | failed load startup failure =>
    exact ⟨nofun, fun h => absurd h (startup.not_willing failure load)⟩
  | done load startup started =>
    obtain ⟨info, threadsafe, q, start, code, query, -⟩ := startup.of_started started
    exact ⟨fun _ => ⟨_, info, q, threadsafe, load, start, code, query⟩, fun _ => rfl⟩

namespace Dispatcher

/-- A provider that is bound has the window that it was bound with. -/
theorem window_of_bind (d : Dispatcher π) (name : String) (loader : Loader π) (window : Window)
    (h : (d.bind name loader window).1 = true) {b : Binding π}
    (hb : (d.bind name loader window).2.binding = some b) : b.window = window := by
  rw [bind_eq] at h hb
  split at h
  next p hl =>
    simp only [hl, start_eq] at h hb
    split at h
    next info concurrent hs =>
      simp only [hs, attach, Option.some.injEq] at hb
      rw [← hb]
    next hs => cases h
  next => cases h
  next => cases h

/-- The provider is still bound, and its record has grown by these notes. -/
structure Heard (d : Dispatcher (Recorded π)) (b : Binding (Recorded π)) (more : List Note)
    (e : Dispatcher (Recorded π)) (c : Binding (Recorded π)) : Prop where
  binding : e.binding = some c
  idle : c.worker.Idle
  window : c.window = b.window
  concurrent : c.concurrent = b.concurrent
  handles : c.worker.handles = b.worker.handles
  retired : e.retired = d.retired
  notes : c.worker.provider.notes = b.worker.provider.notes ++ more

variable {d e f : Dispatcher (Recorded π)} {b c : Binding (Recorded π)} {more : List Note}

omit [Provider π] in
theorem Heard.of_same (h : Heard d b more e c) (hb : f.binding = e.binding)
    (hr : f.retired = e.retired) : Heard d b more f c :=
  { h with binding := hb.trans h.binding, retired := hr.trans h.retired }

omit [Provider π] in
theorem Heard.settle (h : Heard d b more e c) (r : Request) (out : Option Output) :
    Heard d b more (e.settle r out).2 c := by
  unfold Dispatcher.settle
  split
  next => exact h.of_same rfl rfl
  next => exact h

/-- A command of the worker is on record with the answer it got. -/
theorem heard_ran (h : d.Idle) (hb : d.binding = some b) {command : Command}
    (hc : command.Midway) :
    ∃ answer, Heard d b [.heard .worker command.call answer] (d.ran b command)
        { b with worker := b.worker.ran command } ∧
      (b.worker.outputOf command).succeeded = command.call.fine answer := by
  have hns : ∀ window caller, command ≠ .start window caller := by
    rintro window caller rfl
    exact hc
  obtain ⟨answer, hn, hs⟩ := execute_recorded b.worker.provider .worker b.worker.shares command hns
  exact ⟨answer, ⟨rfl, (h b hb).ran command, rfl, rfl, b.worker.handles_ran hns, rfl, hn⟩, hs⟩

/-- A request that is no query is answered by whether the provider did what it was asked. -/
theorem heard_request (h : d.Idle) (hb : d.binding = some b) {r : Request}
    (hq : r.isQuery = false) (hf : r.files ≠ []) :
    ∃ c answer, Heard d b [.heard .worker (r.command b.window).call answer] (d.request r).2 c ∧
      (d.request r).1 = .done ((r.command b.window).call.fine answer) := by
  have hr : r.idle? = none := by simp [Request.idle?, hf]
  obtain ⟨answer, heard, hs⟩ := heard_ran h hb (midway_of_request r b.window)
  rw [request_of_queued h hr hb (by simp [hq])]
  refine ⟨_, answer, heard.settle r _, ?_⟩
  rw [settle_eq, ← hs]
  cases r <;> first | rfl | cases hq

/-- A query is on record on the thread that asked it. -/
theorem heard_query (h : d.Idle) (hb : d.binding = some b) {files : List String}
    (hf : files ≠ []) :
    ∃ c, Heard d b [.heard b.asker (.queryStatus files) (b.replyOn b.asker files)]
      (d.request (.fileStatuses files)).2 c := by
  have hr : (Request.fileStatuses files).idle? = none := by simp [Request.idle?, Request.files, hf]
  cases hd : b.concurrent with
  | true =>
    have ha : b.asker = .caller := by simp [Binding.asker, hd]
    have heard : Heard d b [.heard .caller (.queryStatus files) (b.replyOn .caller files)]
        (d.queryDirectly b (.queryStatus files)).2
        { b with worker :=
          { b.worker with
            provider := (execute b.worker.provider .caller false (.queryStatus files)).2 } } :=
      ⟨rfl, ⟨(h b hb).queue, (h b hb).answers⟩, rfl, rfl, rfl, rfl, rfl⟩
    rw [request_of_direct h hr hb (by simp [hd, Request.isQuery]), ha]
    exact ⟨_, heard.settle _ _⟩
  | false =>
    have ha : b.asker = .worker := by simp [Binding.asker, hd]
    have heard : Heard d b [.heard .worker (.queryStatus files) (b.replyOn .worker files)]
        (d.ran b (.queryStatus files))
        { b with worker := b.worker.ran (.queryStatus files) } :=
      ⟨rfl, (h b hb).ran _, rfl, rfl, b.worker.handles_ran (by rintro _ _ ⟨⟩), rfl, rfl⟩
    rw [request_of_queued h hr hb (by simp [hd]), ha]
    exact ⟨_, heard.settle _ _⟩

theorem project_request (d : Dispatcher π) (r : Request) : (d.request r).2.project = d.project :=
  congrArg View.project (d.view_request r)

end Dispatcher

namespace CommandLine

open Dispatcher

/-- The notes on the project of the settings, and whether it was opened. -/
inductive Opening (settings : Settings) : (opened : Bool) → List Note → Prop
  | none (empty : settings.project.isEmpty = true) : Opening settings false []
  | tried {opened : Bool} {flags : Int32}
      (answer : Except Cause (Call.openProject .none settings.project "" flags).Answer)
      (named : settings.project.isEmpty = false)
      (flagged : flags = if settings.createMissing then SccDispatch.createMissing else 0)
      (fine : (Call.openProject .none settings.project "" flags).fine answer = opened) :
      Opening settings opened
        [.heard .worker (.openProject .none settings.project "" flags) answer]

variable {settings : Settings} {d : Dispatcher (Recorded π)} {b : Binding (Recorded π)}

/-- The project of the settings is opened before anything else is asked. -/
theorem heard_openConfigured (h : d.Idle) (hb : d.binding = some b) (hp : d.project = none)
    (hw : b.window = .none) (ho : d.options = settings.options) :
    ∃ c opened notes, Opening settings opened notes ∧
      Heard d b notes (openConfigured d settings.project) c ∧
      (openConfigured d settings.project).project.isSome = opened := by
  unfold openConfigured
  split
  next he =>
    exact ⟨b, false, [], .none he, ⟨hb, h b hb, rfl, rfl, rfl, rfl, (List.append_nil _).symm⟩,
      by rw [hp]; rfl⟩
  next he =>
    obtain ⟨flags, hflags⟩ : ∃ flags, flags = if settings.createMissing then
      SccDispatch.createMissing else 0 := ⟨_, rfl⟩
    have hcmd : d.openCommand settings.project b.window =
        .openProject .none settings.project "" flags := by rw [openCommand, hw, ho, hflags]; rfl
    have hm : (Command.openProject .none settings.project "" flags).Midway := trivial
    obtain ⟨answer, heard, hs⟩ := heard_ran h hb hm
    -- No project is open yet, so none is closed before.
    have hv : d.vacated = d := by simp [vacated, hp]
    have opening : ∀ opened, (b.worker.outputOf (.openProject .none settings.project ""
        flags)).succeeded = opened → Opening settings opened
          [.heard .worker (.openProject .none settings.project "" flags) answer] :=
      fun opened hf => .tried answer (Bool.eq_false_iff.mpr he) hflags (hs.symm.trans hf)
    rw [openProject_eq_opening d (Option.isSome_iff_exists.mpr ⟨b, hb⟩), hv]
    unfold Dispatcher.opening
    rw [run_of_idle h hb, hcmd]
    simp only [Option.any_some]
    split
    next hok => exact ⟨_, true, _, opening true hok, heard.of_same rfl rfl, rfl⟩
    next hno =>
      refine ⟨_, false, _, opening false (Bool.eq_false_iff.mpr hno), heard.of_same rfl rfl, ?_⟩
      exact congrArg Option.isSome hp

/-- The record of a provider that was asked for one operation, and how it answered. -/
inductive Visit (settings : Settings) {call : Call} (answer : Except Cause call.Answer) :
    List Note → Prop
  | intro {info : ProviderInfo} {threadsafe opened : Bool} {on : Thread}
      {opening last : List Note} (code : info.code.isOk = true)
      (project : Opening settings opened opening)
      (ordinary :
        (Note.heard on call answer).Ordinary (settings.concurrentQueries && threadsafe))
      (closing : Closing opened last) :
      Visit settings answer (prelude .none settings.caller info threadsafe ++ opening ++
        [.heard on call answer] ++ last)

/-- What is printed when a provider has answered: a line for each file that a query was about. -/
inductive Printed : (call : Call) → Except Cause call.Answer → String → Prop
  | statuses (files : List String) (reply : QueryReply) :
      Printed (.queryStatus files) reply
        (String.join (files.zipIdx.map fun f => statusLine f.1 (reply.statusAt f.2)))
  | nothing {call : Call} (answer : Except Cause call.Answer)
      (other : ∀ files, call ≠ .queryStatus files) : Printed call answer ""

theorem zip_statusesOf (files : List String) (reply : QueryReply) :
    files.zip (statusesOf files.length (some reply.output)) =
      files.zipIdx.map fun f => (f.1, reply.statusAt f.2) := by
  refine List.ext_getElem? fun i => ?_
  rw [List.zip_eq_zipWith, List.getElem?_zipWith, List.getElem?_map, List.getElem?_zipIdx]
  by_cases hi : i < files.length
  · rw [List.getElem?_eq_getElem hi, getElem?_statusesOf hi reply]
    simp
  · rw [List.getElem?_eq_none (by omega)]
    rfl

theorem replyLines_statuses (files : List String) (reply : QueryReply) :
    replyLines (.fileStatuses files) (.statuses (statusesOf files.length (some reply.output))) =
      String.join (files.zipIdx.map fun f => statusLine f.1 (reply.statusAt f.2)) := by
  simp only [replyLines, Request.files, zip_statusesOf, List.map_map]
  rfl

/-- The operation of a request is made, and what it came to is told. -/
theorem heard_reported (h : d.Idle) (hb : d.binding = some b) (hw : b.window = .none)
    {r : Request} (hf : r.files ≠ []) (hr : r.isQuery = true → ∃ files, r = .fileStatuses files) :
    ∃ c on answer, Heard d b [.heard on (r.command .none).call answer] (d.request r).2 c ∧
      (Note.heard on (r.command .none).call answer).Ordinary b.concurrent ∧
      (Reply.succeeded (d.request r).1 = false ↔
        r.isQuery = false ∧ (r.command .none).call.fine answer = false) ∧
      Printed (r.command .none).call answer
        (if Reply.succeeded (d.request r).1 then replyLines r (d.request r).1 else "") := by
  cases hq : r.isQuery with
  | true =>
    obtain ⟨files, rfl⟩ := hr hq
    obtain ⟨c, heard⟩ := heard_query h hb hf
    have hreply : (d.request (.fileStatuses files)).1 =
        .statuses (statusesOf files.length (some (b.replyOn b.asker files).output)) :=
      (request_of_query h hb hq hf).1
    refine ⟨c, b.asker, b.replyOn b.asker files, heard, ?_, ?_, ?_⟩
    · unfold Binding.asker
      cases b.concurrent with
      | true => exact ⟨rfl, files, rfl⟩
      | false => exact ⟨nofun, nofun, nofun⟩
    · rw [hreply]
      simp [Reply.succeeded]
    · have hl : (if Reply.succeeded (d.request (.fileStatuses files)).1 then
          replyLines (.fileStatuses files) (d.request (.fileStatuses files)).1 else "") =
          String.join (files.zipIdx.map fun f =>
            statusLine f.1 ((b.replyOn b.asker files).statusAt f.2)) := by
        rw [hreply]
        exact replyLines_statuses files _
      rw [hl]
      exact .statuses files _
  | false =>
    have hd := heard_request h hb hq hf
    rw [hw] at hd
    obtain ⟨c, answer, heard, hreply⟩ := hd
    have ordinary := ordinary_of_midway (midway_of_request r .none) answer b.concurrent
    refine ⟨c, .worker, answer, heard, ordinary, ?_, ?_⟩
    · rw [hreply]
      simp [Reply.succeeded]
    · have hl : (if Reply.succeeded (d.request r).1 then replyLines r (d.request r).1 else "") =
          "" := by
        rw [hreply]
        simp [replyLines]
      rw [hl]
      refine .nothing answer fun files => ?_
      cases r with
      | fileStatus | fileStatuses => cases hq
      | _ => exact nofun

/-- A provider was visited, and let go of by its worker in the end. -/
structure Visited (settings : Settings) {call : Call} (answer : Except Cause call.Answer)
    (ended : Ended (Recorded π)) : Prop where
  retired : ∃ d r, ended.dispatcher = some d ∧ d.retired = [r] ∧ r.thread? = some .worker ∧
    Visit settings answer r.provider.notes
  printed : Printed call answer ended.output

/-- A session with a provider that was bound is one visit. -/
theorem visited_of_bound {loader : Loader π} (hb : Attempt loader .none
    ({ options := settings.options } : Dispatcher (Recorded π)) true d)
    (hw : ∀ b, d.binding = some b → b.window = .none) {r : Request} (hf : r.files ≠ [])
    (hr : r.isQuery = true → ∃ files, r = .fileStatuses files) :
    let asked := (openConfigured d settings.project).request r
    ∃ answer : Except Cause (r.command .none).call.Answer,
      (∃ retired, asked.2.shutdown.retired = [retired] ∧ retired.thread? = some .worker ∧
        Visit settings answer retired.provider.notes) ∧
      (Reply.succeeded asked.1 = false ↔
        r.isQuery = false ∧ (r.command .none).call.fine answer = false) ∧
      Printed (r.command .none).call answer
        (if Reply.succeeded asked.1 then replyLines r asked.1 else "") := by
  cases hb with
  | @done _ p out b load startup started idle handles binding project options retired =>
    obtain ⟨info, threadsafe, q, -, code, -, shared, hn⟩ := startup.of_started started
    obtain ⟨c, opened, opening, hopening, heard, hp⟩ := heard_openConfigured
      (idle_of_bound binding idle) binding project (hw b binding) options
    have hi := idle_of_bound heard.binding heard.idle
    obtain ⟨a, on, answer, heard', ordinary, succeeded, printed⟩ := heard_reported hi heard.binding
      (heard.window.trans (hw b binding)) hf hr
    -- The request leaves the project alone, so its closing tells whether the opening succeeded.
    have hp' := (congrArg Option.isSome (project_request _ r)).trans hp
    obtain ⟨last, closing, hl⟩ := notes_parting _ a
    rw [Handles.after_new, Handles.move_beside, concurrent_of_started started] at handles
    have hh : a.worker.handles = .beside .binding a.concurrent := by
      rw [heard'.handles, heard.handles, handles, heard'.concurrent, heard.concurrent]
    refine ⟨answer, ⟨.of ((((openConfigured d settings.project).request r).2.parting a).1.ran
      .stop).ended .binding, ?_, ?_, ?_⟩, succeeded, printed⟩
    · rw [shutdown_of_bound (idle_of_bound heard'.binding heard'.idle) heard'.binding]
      simp only [heard'.retired, heard.retired, retired]
      rfl
    · rw [Retired.thread?, handles_parting _ hh]
      rfl
    · rw [Retired.provider_of, Worker.provider_ended, hl, heard'.notes, heard.notes, hn]
      have ho : (Note.heard on (r.command .none).call answer).Ordinary
          (settings.concurrentQueries && threadsafe) := by
        rw [heard.concurrent, ← shared] at ordinary
        exact ordinary
      exact .intro code hopening ho (hp' ▸ closing)

/-- A session that comes to no provider fails. -/
theorem session_of_unbound (settings : Settings) (load : Installed → Loader π) (p : Installed)
    (r : Request) {d : Dispatcher π}
    (h : Dispatcher.rebind { options := settings.options } p.name (load p) .none = (false, d)) :
    (session settings load p r).exit = 1 := by
  simp only [session, h]
  rfl

/-- One that does meets the request and lets the provider go. -/
theorem session_of_bound (settings : Settings) (load : Installed → Loader π) (p : Installed)
    (r : Request) {d : Dispatcher π}
    (h : Dispatcher.rebind { options := settings.options } p.name (load p) .none = (true, d)) :
    let asked := (openConfigured d settings.project).request r
    let ended := session settings load p r
    ended.exit = (if Reply.succeeded asked.1 then 0 else 1) ∧
      ended.output = (if Reply.succeeded asked.1 then replyLines r asked.1 else "") ∧
      ended.dispatcher = some asked.2.shutdown := by
  simp only [session, h]
  split <;> exact ⟨rfl, rfl, rfl⟩

/-- A run that binds a provider visits it, and fails only if an operation that is no query was not
done; one that cannot bind it fails. -/
theorem session_visits (settings : Settings) (load : Installed → Loader π) (p : Installed)
    {r : Request} (hf : r.files ≠ [])
    (hr : r.isQuery = true → ∃ files, r = .fileStatuses files) :
    let ended := session settings (fun p => (load p).recorded) p r
    (¬(load p).Willing none .none settings.caller → ended.exit ≠ 0) ∧
      ((load p).Willing none .none settings.caller →
        ∃ answer : Except Cause (r.command .none).call.Answer, Visited settings answer ended ∧
          (ended.exit ≠ 0 ↔ r.isQuery = false ∧ (r.command .none).call.fine answer = false)) := by
  intro ended
  have attempt := attempt_bind { options := settings.options } p.name (load p) .none
  have hwindow := window_of_bind { options := settings.options } p.name (load p).recorded .none
  have willing := attempt.willing_iff
  generalize hx : Dispatcher.bind _ p.name (load p).recorded .none = x at attempt hwindow willing
  obtain ⟨success, d⟩ := x
  cases success with
  | false =>
    refine ⟨fun _ => ?_, fun h => absurd (willing.mpr h) nofun⟩
    rw [session_of_unbound settings (fun p => (load p).recorded) p r hx]
    exact Nat.one_ne_zero
  | true =>
    refine ⟨fun h => absurd (willing.mp rfl) h, fun _ => ?_⟩
    obtain ⟨exit, output, dispatcher⟩ :=
      session_of_bound settings (fun p => (load p).recorded) p r hx
    obtain ⟨answer, ⟨retired, hr, thread, visit⟩, succeeded, printed⟩ :=
      visited_of_bound attempt (fun b hb => hwindow rfl hb) hf hr
    refine ⟨answer, ⟨⟨_, retired, dispatcher, hr, thread, visit⟩, output ▸ printed⟩, ?_⟩
    rw [← succeeded, exit]
    split <;> simp_all

def commentOf (w : Words) : String := (w.value? "comment").getD ""

/-- The call that a command makes with the words it was given. -/
inductive Asks (w : Words) : Command → Call → Prop
  | status : Asks w .status (.queryStatus w.operands)
  | checkOut : Asks w .checkOut (.checkOut .none w.operands (commentOf w))
  | checkIn : Asks w .checkIn
      (.checkIn .none w.operands (commentOf w) (if w.has "keep" then keepCheckedOut else 0))
  | undo : Asks w .undo (.undoCheckOut .none w.operands)
  | add : Asks w .add (.add .none w.operands (commentOf w))
  | remove : Asks w .remove (.remove .none w.operands (commentOf w))
  | diff {file : String} (only : w.operands = [file]) : Asks w .diff (.diff .none file)
  | history : Asks w .history (.history .none w.operands)

theorem operands_grammar {c : Command} (h : c ≠ .providers) : c.grammar.operands ≠ .none := by
  cases c <;> first | exact absurd rfl h | decide

/-- Words that ask for a request ask for the call of its command. -/
theorem asks_of_task {c : Command} {w : Words} {words : List String} {r : Request}
    (hw : c.grammar.read words = .ok w) (ht : c.task w = .request r) :
    Asks w c (r.command .none).call ∧ r.files ≠ [] ∧ (r.isQuery = false ↔ c ≠ .status) ∧
      (r.isQuery = true → ∃ files, r = .fileStatuses files) := by
  have hc : c ≠ .providers := by
    rintro rfl
    cases ht
  have hn := Grammar.operands_ne_nil hw (operands_grammar hc)
  cases c with
  | providers => exact absurd rfl hc
  | status =>
    cases ht
    exact ⟨.status, hn, by simp [Request.isQuery], fun _ => ⟨_, rfl⟩⟩
  | diff =>
    obtain ⟨file, hf⟩ := Grammar.operands_eq_singleton hw rfl
    cases ht
    rw [hf]
    exact ⟨.diff hf, List.cons_ne_nil file [], by simp [Request.isQuery], by simp [Request.isQuery]⟩
  | checkOut | checkIn | undo | add | remove | history =>
    cases ht
    exact ⟨by constructor, hn, by simp [Request.isQuery], by simp [Request.isQuery]⟩

/-- The words ask for a run whose settings can be read; the files are then those of `t`. -/
structure Loads (words : List String) (t₀ : FileTree) (a : Arguments) (settings : Settings)
    (t : FileTree) : Prop where
  asked : read words = .ok (.run a)
  loaded : ∃ directory log t₁,
    (ConfigDirectory.enter a.configDirectory : StateM FileTree _).run t₀ = (.ok directory, t₁) ∧
      (directory.load : StateM FileTree _).run t₁ = ((.ok settings, log), t)

def logStart (settings : Settings) (t : FileTree) : LogStart × FileTree :=
  (startLog false programName settings.logDirectory : StateM FileTree _).run t

/-- Loaders whose providers keep a record. -/
def recording (load : StateM FileTree (Installed → Loader π)) :
    StateM FileTree (Installed → Loader (Recorded π)) :=
  (fun loaderOf p => (loaderOf p).recorded) <$> load

theorem run_bind_of {σ α β : Type} {x : StateM σ α} {s s' : σ} {a : α} (h : x.run s = (a, s'))
    (f : α → StateM σ β) : (x >>= f).run s = (f a).run s' := by
  rw [StateT.run_bind, h]
  rfl

/-- A run that finds its settings, once the log has been begun. -/
theorem run_of_loads {words : List String} {t₀ t : FileTree} {a : Arguments}
    (h : Loads words t₀ a settings t) (load : StateM FileTree (Installed → Loader π))
    (manifest : Option String) :
    ∃ file errors, ((run load manifest words).run t₀).1 =
      match logStart settings t with
      | (.refused e, _) => .failed e.text
      | (.broken, _) => { exit := 101 }
      | (.ready, t') => { ((perform settings file load manifest a).run t').1.1 with errors } := by
  obtain ⟨directory, log, t₁, enter, read⟩ := h.loaded
  refine ⟨directory.file, ?_⟩
  have hr : (run load manifest words).run t₀ = (runArguments load manifest a).run t₀ := by
    simp only [run, h.asked]
  obtain ⟨⟨start, t'⟩, hs⟩ : ∃ x, logStart settings t = x := ⟨_, rfl⟩
  rw [hr, hs, runArguments, run_bind_of enter]
  simp only
  rw [run_bind_of read]
  simp only
  rw [run_bind_of hs]
  cases start with
  | refused e => exact ⟨"", rfl⟩
  | broken => exact ⟨"", rfl⟩
  | ready =>
    obtain ⟨⟨⟨ended, lines⟩, t''⟩, hp⟩ :
        ∃ x, (perform settings directory.file load manifest a).run t' = x := ⟨_, rfl⟩
    simp only
    rw [run_bind_of hp, hp]
    simp only
    split <;> exact ⟨_, rfl⟩

theorem run_unlogged {words : List String} {t₀ t : FileTree} {a : Arguments}
    (h : Loads words t₀ a settings t) (hs : (logStart settings t).1 ≠ .ready)
    (load : StateM FileTree (Installed → Loader π)) (manifest : Option String) :
    ((run load manifest words).run t₀).1.exit ≠ 0 := by
  obtain ⟨file, errors, he⟩ := run_of_loads h load manifest
  rw [he]
  split
  next => exact Nat.one_ne_zero
  next => exact (by decide : 101 ≠ 0)
  next t' hl => exact absurd (congrArg Prod.fst hl) hs

theorem run_discover (manifest : Option String) (t : FileTree) :
    ((discover manifest : StateM FileTree _).run t).2 = t := by
  cases manifest <;> rfl

def providerFor (settings : Settings) (manifest asked : Option String) (t : FileTree) :
    Option Installed :=
  (settings.registry ((discover manifest : StateM FileTree _).run t).1.1).find?
    (wanted settings asked)

/-- A request is met by the provider that its name means. -/
theorem perform_request {a : Arguments} {r : Request} (ht : a.task = .request r)
    (load : StateM FileTree (Installed → Loader π)) (manifest : Option String) (file : String)
    (t : FileTree) :
    ((perform settings file load manifest a).run t).1.1 =
      if wanted settings a.provider = "" then .failed (SessionError.noProvider file).text
      else
        match providerFor settings manifest a.provider t with
        | some p => session settings (load.run t).1 p r
        | none => .failed (SessionError.notFound (wanted settings a.provider)).text := by
  simp only [perform, ht, choose, beq_iff_eq]
  split
  next hw => rfl
  next hw =>
    obtain ⟨⟨⟨installed, log⟩, t'⟩, hd⟩ :
        ∃ x, (discover manifest : StateM FileTree _).run t = x := ⟨_, rfl⟩
    have ht' : t' = t := by rw [← run_discover manifest t, hd]
    have hf : ∃ log, (findInstalled settings manifest : StateM FileTree _).run t =
        ((installed, log), t) := by
      rw [findInstalled, run_bind_of hd, ht']
      exact ⟨_, rfl⟩
    obtain ⟨log, hf⟩ := hf
    rw [run_bind_of hf, providerFor, hd]
    simp only
    cases (settings.registry installed).find? (wanted settings a.provider) <;> rfl

/-- What a run does when it has its log and a provider is needed. -/
theorem run_request {words : List String} {t₀ t t' : FileTree} {a : Arguments}
    (h : Loads words t₀ a settings t) (hs : logStart settings t = (.ready, t')) {r : Request}
    (hr : a.task = .request r) (load : StateM FileTree (Installed → Loader π))
    (manifest : Option String) :
    ∃ file errors, ((run (recording load) manifest words).run t₀).1 =
      { (if wanted settings a.provider = "" then .failed (SessionError.noProvider file).text
        else
          match providerFor settings manifest a.provider t' with
          | some p => session settings (fun p => ((load.run t').1 p).recorded) p r
          | none => .failed (SessionError.notFound (wanted settings a.provider)).text :
        Ended (Recorded π)) with errors } := by
  obtain ⟨file, errors, he⟩ := run_of_loads h (recording load) manifest
  rw [hs] at he
  simp only [perform_request hr] at he
  exact ⟨file, errors, he⟩

/-- A run that has its log is one visit to the provider that the words or the settings name, in
which it hears of the one operation that the words ask for. The run fails just when its log cannot
be begun, when no provider is named, when none has that name, when the one that has it cannot be
bound, or when it does not do an operation that is no status query. -/
theorem one_visit (load : StateM FileTree (Installed → Loader π)) (manifest : Option String)
    {words : List String} {t₀ t : FileTree} {a : Arguments} (hl : Loads words t₀ a settings t)
    (ha : a.task ≠ .listProviders) :
    let start := logStart settings t
    let found := providerFor settings manifest a.provider start.2
    let loaderOf := (load.run start.2).1
    let ended := ((run (recording load) manifest words).run t₀).1
    ∃ own c w call, Names {} words own c w ∧ a.provider = own.value? "provider" ∧
      Asks w c call ∧ ∃ heard : Option (Except Cause call.Answer),
      (ended.exit ≠ 0 ↔ start.1 ≠ .ready ∨ wanted settings a.provider = "" ∨ found = none ∨
        (∃ p ∈ found, ¬(loaderOf p).Willing none .none settings.caller) ∨
        (c ≠ .status ∧ ∃ answer ∈ heard, call.fine answer = false)) ∧
      (start.1 = .ready → wanted settings a.provider ≠ "" → ∀ p ∈ found,
        (loaderOf p).Willing none .none settings.caller →
          ∃ answer, heard = some answer ∧ Visited settings answer ended) := by
  intro start found loaderOf ended
  obtain ⟨own, c, w, names, hargs⟩ := names_of_readFrom hl.asked
  obtain ⟨before, after, _, _, -, -, -, -, -, hread⟩ := names.split
  obtain ⟨r, hr⟩ : ∃ r, a.task = .request r := by
    cases htask : a.task with
    | listProviders => exact absurd htask ha
    | request r => exact ⟨r, rfl⟩
  obtain ⟨asks, hf, hstatus, hquery⟩ := asks_of_task hread
    ((congrArg Arguments.task hargs).symm.trans hr)
  refine ⟨own, c, w, (r.command .none).call, names, congrArg Arguments.provider hargs, asks, ?_⟩
  by_cases hs : start.1 = .ready
  case neg =>
    have hexit : ended.exit ≠ 0 := run_unlogged hl hs (recording load) manifest
    exact ⟨none, by simp [hexit, hs], fun h => absurd h hs⟩
  obtain ⟨file, errors, he⟩ := run_request hl (Prod.ext hs rfl) hr load manifest
  change ended = _ at he
  by_cases hname : wanted settings a.provider = ""
  · have hexit : ended.exit = 1 := by rw [he, if_pos hname]; rfl
    exact ⟨none, by simp [hexit, hname], fun _ h => absurd hname h⟩
  rw [if_neg hname] at he
  cases hfound : providerFor settings manifest a.provider start.2 with
  | none =>
    have hexit : ended.exit = 1 := by rw [he, hfound]; rfl
    exact ⟨none, by simp [hexit, found, hfound], by simp [found, hfound]⟩
  | some p =>
    rw [hfound] at he
    obtain ⟨refused, visited⟩ := session_visits settings loaderOf p hf hquery
    have hexit : ended.exit = (session settings (fun p => (loaderOf p).recorded) p r).exit := by
      rw [he]
    have honly : ∀ q ∈ found, p = q := by simp [found, hfound]
    by_cases hw : (loaderOf p).Willing none .none settings.caller
    · obtain ⟨answer, hv, hfail⟩ := visited hw
      rw [← hexit, hstatus] at hfail
      have hvisited : Visited settings answer ended := by
        rw [he]
        exact ⟨hv.retired, hv.printed⟩
      exact ⟨some answer, by simp [hfail, hs, hname, found, hfound, hw],
        fun _ _ _ _ _ => ⟨answer, rfl, hvisited⟩⟩
    · refine ⟨none, ?_, fun _ _ q hq h => absurd (honly q hq ▸ h) hw⟩
      have hne := refused hw
      rw [← hexit] at hne
      simp [hne, found, hfound, hw]

section Example

open Rehearsal SectionSystem

def named : Settings where
  logDirectory := "logs/here"
  project := { name := "first" }
  extraProviders := .ofList [("Willing", "./providers/full.so")]

def namedText : String :=
  "Source_Control:\n  Log Directory: logs/here\n  Project:\n    Project Name: first\n" ++
    "  Extra Providers:\n    Willing: ./providers/full.so\n"

def exampleFiles (beside : List (String × Entry)) : FileTree where
  root := .directory
    (("Decoda Data", .directory [(settingsFile, .file (Text.bytes namedText))]) :: beside)

theorem enter_exampleFiles (beside : List (String × Entry)) :
    (ConfigDirectory.enter "Decoda Data" : StateM FileTree _).run (exampleFiles beside) =
      (.ok ⟨"Decoda Data"⟩, exampleFiles beside) := by
  have hat : (exampleFiles beside).at? "Decoda Data" =
      some (.directory [(settingsFile, .file (Text.bytes namedText))]) := rfl
  have hrun : (FileStore.settle "Decoda Data" : StateM FileTree _).run (exampleFiles beside) =
      (exampleFiles beside).settle "Decoda Data" := rfl
  have hsettle : (exampleFiles beside).settle "Decoda Data" =
      (.directory, exampleFiles beside) := by
    rw [FileTree.settle, hat]
  rw [ConfigDirectory.enter]
  exact run_bind_of (hrun.trans hsettle) _

theorem loads_exampleFiles {words : List String} {a : Arguments} (ha : read words = .ok (.run a))
    (hd : a.configDirectory = "Decoda Data") (beside : List (String × Entry)) :
    Loads words (exampleFiles beside) a named (exampleFiles beside) := by
  -- The directory is kept abstract: its file's name is computed once, by the kernel.
  obtain ⟨directory, hdir⟩ : ∃ d : ConfigDirectory, d = ⟨"Decoda Data"⟩ := ⟨_, rfl⟩
  have hfile : directory.file = "Decoda Data/Decoda SCC.yaml" := by
    subst hdir
    decide +kernel
  have hread : (exampleFiles beside).read directory.file = .content (Text.bytes namedText) := by
    rw [hfile]
    rfl
  have htext : Settings.ofText? namedText = some named := by decide +kernel
  have hload : (directory.load : StateM FileTree _).run (exampleFiles beside) =
      (ConfigDirectory.settingsOf directory.file ((exampleFiles beside).read directory.file),
        exampleFiles beside) := rfl
  rw [hread, ConfigDirectory.settingsOf_content (Text.decode?_bytes namedText) htext] at hload
  exact ⟨ha, directory, _, exampleFiles beside, by rw [hd, hdir, enter_exampleFiles], hload⟩

def checkinWords : List String := ["-p", "willing", "checkin", "-k", "a.c"]

theorem one_visit_checkIn :
    ∃ a t, Loads checkinWords (exampleFiles []) a named t ∧ a.task ≠ .listProviders ∧
      ∃ own c w call, Names {} checkinWords own c w ∧ Asks w c call ∧
        ∃ answer : Except Cause call.Answer, Visited named answer
          ((run (recording (pure fun _ => willing)) none checkinWords).run
            (exampleFiles [])).1 := by
  have hr : read checkinWords = .ok (.run ⟨"Decoda Data", some "willing", false,
      .request (.checkIn ["a.c"] "" true)⟩) := by decide +kernel
  have hl := loads_exampleFiles hr rfl []
  have ht : Task.request (.checkIn ["a.c"] "" true) ≠ .listProviders := nofun
  obtain ⟨own, c, w, call, names, -, asks, heard, -, visited⟩ :=
    one_visit (pure fun _ => willing) none hl ht
  obtain ⟨answer, -, hv⟩ := visited (by decide +kernel) (by decide)
    ⟨"Willing", "./providers/full.so"⟩ (by decide +kernel) ⟨{}, _, _, _, rfl, rfl, rfl, rfl⟩
  exact ⟨_, _, hl, ht, own, c, w, call, names, asks, answer, hv⟩

/-- A run that cannot begin its log fails, though it asks for the status of a file and names a
provider that is there and can be bound. -/
theorem unlogged_run_fails :
    ∃ a t p, Loads ["-p", "willing", "status", "2"] (exampleFiles [("logs", .file [])]) a named t ∧
      a.task = .request (.fileStatuses ["2"]) ∧ wanted named a.provider ≠ "" ∧
      providerFor named none a.provider t = some p ∧ willing.Willing none .none named.caller ∧
      ((run (recording (pure fun _ => willing)) none ["-p", "willing", "status", "2"]).run
        (exampleFiles [("logs", .file [])])).1.exit ≠ 0 := by
  have hr : read ["-p", "willing", "status", "2"] = .ok (.run ⟨"Decoda Data", some "willing",
      false, .request (.fileStatuses ["2"])⟩) := by decide +kernel
  have hl := loads_exampleFiles hr rfl [("logs", .file [])]
  exact ⟨_, _, ⟨"Willing", "./providers/full.so"⟩, hl, rfl, by decide, by decide +kernel,
    ⟨{}, _, _, _, rfl, rfl, rfl, rfl⟩, run_unlogged hl (by decide +kernel) _ none⟩

end Example

end CommandLine

end SccDispatch
