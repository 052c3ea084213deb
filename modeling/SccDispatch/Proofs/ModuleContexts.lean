import SccDispatch.Proofs.ModuleCalls
import SccDispatch.Proofs.ProviderLineage
import SccDispatch.Proofs.Sessions

namespace SccDispatch.Native

structure Entrance where
  on : Thread
  call : EntryCall
  answer : Except Cause call.Answer

/-- Code of a module that remembers how it was entered and what it answered. -/
structure Remembering (μ : Type) where
  code : μ
  past : List Entrance := []

/-- The context that is passed; a module that is started is given none. -/
def EntryCall.context? : EntryCall → Option Context
  | .start .. => none
  | .stop context | .closeProject context => some context
  | .openProject context .. | .projectPath context .. | .diff context .. | .queryInfo context ..
  | .properties context .. | .extendedCapability context _ => some context
  | .checkOut call .. | .undoCheckOut call _ | .checkIn call .. | .add call .. | .remove call ..
  | .history call _ => some call.context

/-- What is left in place of the context: what the module gave if it was started and returned, and
nothing once it is told to stop. -/
def Entrance.leaves? : Entrance → Option Context
  | ⟨_, .start .., .ok a⟩ => some a.context
  | ⟨_, .stop _, _⟩ => some .none
  | _ => none

/-- The context of the current initialization: the one that was left last, if there is any. -/
def current (past : List Entrance) : Context :=
  (past.filterMap Entrance.leaves?).getLast?.getD .none

/-- Every call but a start was given the context that was current then. -/
def Told (past : List Entrance) : Prop :=
  ∀ before e after, past = before ++ e :: after →
    e.call.context? = if e.call.entry = .start then none else some (current before)

/-- Only an entrance that leaves a context changes the current one. -/
theorem current_concat (past : List Entrance) (e : Entrance) :
    current (past ++ [e]) = e.leaves?.getD (current past) := by
  rw [current, List.filterMap_append]
  cases he : e.leaves? <;> simp [current, he]

theorem unstarted_of_told {c : EntryCall} {context : Context} (told : c.context? = some context) :
    c.entry ≠ .start := by
  cases c with
  | start => cases told
  | _ => rintro ⟨⟩

structure Entrance.GoesOn (e : Entrance) : Prop where
  unstarted : e.call.entry ≠ .start
  unstopped : e.call.entry ≠ .stop

theorem Entrance.GoesOn.leaves? {e : Entrance} (h : e.GoesOn) : e.leaves? = none := by
  obtain ⟨on, call, answer⟩ := e
  cases call with
  | start => exact absurd rfl h.unstarted
  | stop => exact absurd rfl h.unstopped
  | _ => rfl

variable {μ : Type} [ModuleCode μ]

namespace NativeProvider

variable (p : NativeProvider μ) (on : Thread) (window : Window) {caller : String}

theorem start_of_unpassable (h : CString.ofText? caller = none) :
    respond p on (.start window caller) = (.ok { code := .initializeFailed }, p) := by
  simp only [Provider.respond, answerTo, start, h]
  rfl

theorem start_of_passable {passed : CString} (h : CString.ofText? caller = some passed) :
    respond p on (.start window caller) =
      let r := enter p.code on (.start window passed)
      (r.1.map startInfo,
        { p with
          code := r.2
          context := (Entrance.leaves? ⟨on, .start window passed, r.1⟩).getD p.context }) := by
  simp only [Provider.respond, answerTo, start, h, call]
  cases (enter p.code on (.start window passed)).1 <;> rfl

/-- A module that faults when it is started has left no context. -/
theorem context_of_fault {cause : Cause}
    (h : (respond p on (.start window caller)).1 = .error cause) :
    (respond p on (.start window caller)).2.context = p.context := by
  cases passed : CString.ofText? caller with
  | none => rw [start_of_unpassable p on window passed]
  | some text =>
    rw [start_of_passable p on window passed] at h ⊢
    simp only at h ⊢
    cases he : (enter p.code on (.start window text)).1 with
    | ok a => simp [he, Except.map] at h
    | error cause => rfl

end NativeProvider

def Remembering.enter (m : Remembering μ) (on : Thread) (call : EntryCall) :
    Except Cause call.Answer × Remembering μ :=
  let (answer, code) := ModuleCode.enter m.code on call
  (answer, { code, past := m.past ++ [⟨on, call, answer⟩] })

instance : ModuleCode (Remembering μ) := ⟨Remembering.enter, fun m => ModuleCode.spent m.code⟩

structure Midway (call : Call) : Prop where
  unstarted : ∀ window caller, call ≠ .start window caller
  going_on : call ≠ .stop

/-- What one call adds to the past of a module, given the context before it, and the context after
it. -/
inductive Adds (context : Context) :
    (call : Call) → Except Cause call.Answer → Context → List Entrance → Prop
  | refused {call : Call} {r : Except Cause call.Answer} (going_on : call ≠ .stop)
      (unstarted : ∀ window caller, call = .start window caller → call.fine r = false) :
      Adds context call r context []
  | started {window : Window} {caller : String} {on : Thread} {passed : CString}
      (answer : Except Cause StartAnswer) :
      Adds context (.start window caller) (answer.map NativeProvider.startInfo)
        ((Entrance.leaves? ⟨on, .start window passed, answer⟩).getD context)
        [⟨on, .start window passed, answer⟩]
  | stopped {on : Thread} (answer : Except Cause Int32) :
      Adds context .stop (answer.map ResultCode.mk) .none [⟨on, .stop context, answer⟩]
  | other {call : Call} {r : Except Cause call.Answer} {e : Entrance} (midway : Midway call)
      (going_on : e.GoesOn) (told : e.call.context? = some context) :
      Adds context call r context [e]

namespace NativeProvider

/-- The module is entered once at most, with the provider's context, and goes on. -/
def GoesOn (p q : NativeProvider (Remembering μ)) : Prop :=
  q = p ∨ ∃ e : Entrance, q.code.past = p.code.past ++ [e] ∧ q.context = p.context ∧
    e.GoesOn ∧ e.call.context? = some p.context

variable (p : NativeProvider (Remembering μ)) (on : Thread) (window : Window)

theorem goesOn_call {α : Type} {c : EntryCall} (read : c.Answer → α)
    (told : c.context? = some p.context) (unstopped : c.entry ≠ .stop) :
    p.GoesOn (p.call on c read).2 :=
  .inr ⟨⟨on, c, _⟩, rfl, rfl, ⟨unstarted_of_told told, unstopped⟩, told⟩

theorem goesOn_withFiles (files : List String) {c : FileCall → EntryCall}
    (read : ∀ f, (c f).Answer → ResultCode) (told : ∀ f, (c f).context? = some f.context)
    (unstopped : ∀ f, (c f).entry ≠ .stop) :
    p.GoesOn (p.withFiles on window files c read).2 := by
  unfold withFiles
  split
  next => exact goesOn_call p on _ (told _) (unstopped _)
  next => exact .inl rfl

theorem goesOn_withComment (files : List String) (comment : String)
    {c : FileCall → CString → EntryCall} (read : ∀ f s, (c f s).Answer → ResultCode)
    (told : ∀ f s, (c f s).context? = some f.context) (unstopped : ∀ f s, (c f s).entry ≠ .stop) :
    p.GoesOn (p.withComment on window files comment c read).2 := by
  unfold withComment
  split
  next s _ => exact goesOn_withFiles p on window files _ (told · s) (unstopped · s)
  next => exact .inl rfl

/-- A call that neither starts nor stops the module keeps its context. -/
theorem goesOn_respond {call : Call} (midway : Midway call) : p.GoesOn (respond p on call).2 := by
  cases call with
  | start window caller => exact absurd rfl (midway.unstarted window caller)
  | stop => exact absurd rfl midway.going_on
  | threadsafeQuery =>
    simp only [Provider.respond, answerTo, threadsafeQuery]
    split
    next => exact goesOn_call p on _ rfl (by rintro ⟨⟩)
    next => exact .inl rfl
  | openProject window project comment flags =>
    simp only [Provider.respond, answerTo, openProject]
    split
    next => exact goesOn_call p on _ rfl (by rintro ⟨⟩)
    next => exact .inl rfl
  | closeProject => exact goesOn_call p on _ rfl (by rintro ⟨⟩)
  | chooseProject window project mayChange => exact goesOn_call p on _ rfl (by rintro ⟨⟩)
  | diff window file =>
    simp only [Provider.respond, answerTo, diff]
    split
    next => exact goesOn_call p on _ rfl (by rintro ⟨⟩)
    next => exact .inl rfl
  | properties window file =>
    simp only [Provider.respond, answerTo, properties]
    split
    next =>
      split
      next => exact goesOn_call p on _ rfl (by rintro ⟨⟩)
      next => exact .inl rfl
    next => exact .inl rfl
  | queryStatus files =>
    simp only [Provider.respond, answerTo, queryStatus]
    split
    next => exact goesOn_call p on _ rfl (by rintro ⟨⟩)
    next => exact .inl rfl
  | undoCheckOut window files | history window files =>
    exact goesOn_withFiles p on window files _ (fun _ => rfl) (by rintro _ ⟨⟩)
  | checkOut window files comment | checkIn window files comment flags
  | add window files comment | remove window files comment =>
    exact goesOn_withComment p on window files comment _ (fun _ _ => rfl) (by rintro _ _ ⟨⟩)

/-- What a call adds is what it adds given the provider's context. -/
theorem adds_respond (call : Call) :
    ∃ added, (respond p on call).2.code.past = p.code.past ++ added ∧
      Adds p.context call (respond p on call).1 (respond p on call).2.context added := by
  by_cases midway : Midway call
  · rcases goesOn_respond p on midway with same | ⟨e, past, context, going_on, told⟩
    · rw [same]
      exact ⟨[], (List.append_nil _).symm,
        .refused midway.going_on fun w c hc => absurd hc (midway.unstarted w c)⟩
    · rw [past, context]
      exact ⟨[e], rfl, .other midway going_on told⟩
  · cases call with
    | start window caller =>
      cases passed : CString.ofText? caller with
      | none =>
        rw [start_of_unpassable p on window passed]
        refine ⟨[], (List.append_nil _).symm, .refused (by rintro ⟨⟩) ?_⟩
        rintro _ _ ⟨⟩
        rfl
      | some text =>
        rw [start_of_passable p on window passed]
        exact ⟨_, rfl, .started _⟩
    | stop => exact ⟨_, rfl, .stopped _⟩
    | _ => exact absurd ⟨by rintro _ _ ⟨⟩, by rintro ⟨⟩⟩ midway

end NativeProvider

/-- One more entrance was told the context of its time. -/
theorem Told.concat {past : List Entrance} (h : Told past) {e : Entrance}
    (he : e.call.context? = if e.call.entry = .start then none else some (current past)) :
    Told (past ++ [e]) :=
  SharedWorker.forall_split_concat h he

/-- What a call adds is told the current context, and leaves the context that is current then. -/
theorem Adds.keeps {past added : List Entrance} {call : Call} {r : Except Cause call.Answer}
    {after : Context} (h : Adds (current past) call r after added) (told : Told past) :
    after = current (past ++ added) ∧ Told (past ++ added) := by
  cases h with
  | refused => rw [List.append_nil]; exact ⟨rfl, told⟩
  | started answer => exact ⟨(current_concat ..).symm, told.concat rfl⟩
  | stopped answer => exact ⟨by rw [current_concat]; rfl, told.concat rfl⟩
  | other midway going_on told' =>
    refine ⟨?_, told.concat ?_⟩
    · rw [current_concat, going_on.leaves?]
      rfl
    · rw [if_neg going_on.unstarted, told']

namespace NativeProvider

/-- The provider has the current context, and so had every call. -/
structure InStep (p : NativeProvider (Remembering μ)) : Prop where
  context : p.context = current p.code.past
  told : Told p.code.past

/-- A call keeps the provider in step with its module. -/
theorem InStep.respond {p : NativeProvider (Remembering μ)} (h : p.InStep) (on : Thread)
    (call : Call) : (Provider.respond p on call).2.InStep := by
  obtain ⟨added, past, adds⟩ := adds_respond p on call
  rw [h.context] at adds
  obtain ⟨context, told⟩ := adds.keeps h.told
  exact ⟨past ▸ context, past ▸ told⟩

def after (p : NativeProvider μ) (calls : List (Thread × Call)) : NativeProvider μ :=
  calls.foldl (fun p c => (respond p c.1 c.2).2) p

/-- By induction calls made one after another do. -/
theorem InStep.after {p : NativeProvider (Remembering μ)} (h : p.InStep)
    (calls : List (Thread × Call)) : (p.after calls).InStep := by
  induction calls generalizing p with
  | nil => exact h
  | cons c rest ih => exact ih (h.respond c.1 c.2)

omit [ModuleCode μ] in
/-- A module that was only loaded was never entered. -/
theorem inStep_of_resolve {exported : List EntryPoint} {code : μ}
    {p : NativeProvider (Remembering μ)} (h : resolve exported { code } = .ok p) :
    p.InStep ∧ p.code.past = [] := by
  unfold resolve at h
  split at h
  next => cases h
  next =>
    cases h
    exact ⟨⟨rfl, by simp [Told]⟩, rfl⟩

end NativeProvider

/-- The record of a provider, and what it tells of the past of its module. -/
inductive RecordOf : List Note → List Entrance → Prop
  | nil : RecordOf [] []
  | concat {notes : List Note} {past added : List Entrance} {call : Call}
      {r : Except Cause call.Answer} {before after : Context} (earlier : RecordOf notes past)
      (on : Thread) (adds : Adds before call r after added) :
      RecordOf (notes ++ [.heard on call r]) (past ++ added)

def InBetween : Note → Prop
  | .heard _ call _ => Midway call
  | _ => False

/-- What is heard in use neither starts nor stops. -/
theorem inBetween_of_ordinary {note : Note} {shared : Bool} (h : note.Ordinary shared) :
    InBetween note := by
  cases note with
  | heard on call answer =>
    cases on with
    | worker => exact ⟨h.1, h.2.2⟩
    | caller =>
      obtain ⟨-, files, rfl⟩ := h
      exact ⟨by rintro _ _ ⟨⟩, by rintro ⟨⟩⟩
  | _ => exact h.elim

section Adds

variable {before after : Context} {call : Call} {r : Except Cause call.Answer}
  {added : List Entrance}

theorem Adds.of_midway (h : Adds before call r after added) (midway : Midway call) :
    ∀ e ∈ added, e.GoesOn := by
  cases h with
  | refused => simp
  | started answer => exact absurd rfl (midway.unstarted _ _)
  | stopped answer => exact absurd rfl midway.going_on
  | other _ going_on => simpa using going_on

theorem Adds.of_started {window : Window} {caller : String} {info : ProviderInfo}
    (h : Adds before (.start window caller) (.ok info) after added)
    (fine : info.code.isOk = true) :
    ∃ first context, added = [first] ∧ first.call.entry = .start ∧
      first.leaves? = some context := by
  generalize hr : Except.ok info = r at h
  cases h with
  | refused _ unstarted =>
    have refused := unstarted window caller rfl
    rw [← hr] at refused
    exact absurd fine (Bool.eq_false_iff.mp refused)
  | started answer =>
    cases answer with
    | ok a => exact ⟨_, a.context, rfl, rfl, rfl⟩
    | error cause => cases hr
  | other midway => exact absurd rfl (midway.unstarted window caller)

/-- A stop enters the module once, with the context given before it. -/
theorem Adds.of_stopped {r : Except Cause ResultCode} (h : Adds before .stop r after added) :
    ∃ last, added = [last] ∧ last.call = .stop before := by
  cases h with
  | refused going_on => exact absurd rfl going_on
  | stopped answer => exact ⟨_, rfl, rfl⟩
  | other midway => exact absurd rfl midway.going_on

end Adds

namespace RecordOf

variable {notes : List Note} {past : List Entrance}

theorem of_nil (h : RecordOf [] past) : past = [] := by
  generalize hn : [] = notes at h
  cases h with
  | nil => rfl
  | concat => simp at hn

theorem of_concat {note : Note} (h : RecordOf (notes ++ [note]) past) :
    ∃ on call r earlier added before after, note = .heard on call r ∧ past = earlier ++ added ∧
      RecordOf notes earlier ∧ Adds before call r after added := by
  generalize hn : notes ++ [note] = all at h
  cases h with
  | nil => simp at hn
  | concat earlier on adds =>
    obtain ⟨rfl, he⟩ := List.append_inj' hn rfl
    exact ⟨_, _, _, _, _, _, _, List.singleton_inj.mp he, rfl, earlier, adds⟩

/-- A module that was started and is in use was entered for that first, and gave a context. -/
theorem of_started {on : Thread} {window : Window} {caller : String} {info : ProviderInfo}
    (fine : info.code.isOk = true) (between : ∀ note ∈ notes, InBetween note)
    (h : RecordOf (.heard on (.start window caller) (.ok info) :: notes) past) :
    ∃ first context middle, past = first :: middle ∧ first.call.entry = .start ∧
      first.leaves? = some context ∧ ∀ e ∈ middle, e.GoesOn := by
  induction notes using List.reverseRecOn generalizing past with
  | nil =>
    obtain ⟨_, _, _, earlier, added, _, _, he, rfl, nothing, adds⟩ :=
      of_concat (show RecordOf ([] ++ [_]) past from h)
    obtain rfl := nothing.of_nil
    cases he
    obtain ⟨first, context, rfl, entry, leaves⟩ := adds.of_started fine
    exact ⟨first, context, [], rfl, entry, leaves, by simp⟩
  | append_singleton notes note ih =>
    obtain ⟨_, _, _, earlier, added, _, _, rfl, rfl, recordOf, adds⟩ :=
      of_concat (show RecordOf ((_ :: notes) ++ [note]) past from h)
    have last := between _ (List.mem_append_right _ (List.mem_singleton_self _))
    obtain ⟨first, context, middle, rfl, entry, leaves, going_on⟩ :=
      ih (fun n hn => between n (List.mem_append_left _ hn)) recordOf
    refine ⟨first, context, middle ++ added, rfl, entry, leaves, fun e he => ?_⟩
    exact (List.mem_append.mp he).elim (going_on e) (adds.of_midway last e)

end RecordOf

/-- From its start on, a module is called with the context that it gave and is neither started nor
stopped again, until it is stopped with that context; nothing comes after that. -/
def OneSession (context : Context) (past : List Entrance) : Prop :=
  ∃ first middle last, past = first :: middle ++ [last] ∧ first.call.entry = .start ∧
    first.leaves? = some context ∧
    (∀ e ∈ middle, e.GoesOn ∧ e.call.context? = some context) ∧ last.call = .stop context

theorem current_of_goesOn {first : Entrance} {context : Context} {middle : List Entrance}
    (leaves : first.leaves? = some context) (going_on : ∀ e ∈ middle, e.GoesOn) :
    current (first :: middle) = context := by
  have none_left : middle.filterMap Entrance.leaves? = [] :=
    List.filterMap_eq_nil_iff.mpr fun e he => (going_on e he).leaves?
  simp [current, leaves, none_left]

/-- A past that begins with a start and ends with a stop is one session. -/
theorem oneSession_of_told {past middle : List Entrance} {first last : Entrance}
    {context before : Context} (told : Told past) (hpast : past = first :: middle ++ [last])
    (entry : first.call.entry = .start) (leaves : first.leaves? = some context)
    (going_on : ∀ e ∈ middle, e.GoesOn) (stopped : last.call = .stop before) :
    OneSession context past := by
  refine ⟨first, middle, last, hpast, entry, leaves, fun e he => ⟨going_on e he, ?_⟩, ?_⟩
  · obtain ⟨l, m, rfl⟩ := List.append_of_mem he
    have given := told (first :: l) e (m ++ [last]) (by simp [hpast])
    rw [if_neg (going_on e he).unstarted, current_of_goesOn leaves] at given
    · exact given
    · exact fun x hx => going_on x (List.mem_append_left _ hx)
  · have given := told (first :: middle) last [] hpast
    rw [stopped, current_of_goesOn leaves going_on] at given
    rw [stopped, Option.some.inj given]

/-- A provider whose record tells of the past of its module. -/
structure RecordMatches (t : Recorded (NativeProvider (Remembering μ))) : Prop where
  inStep : t.provider.InStep
  recordOf : RecordOf t.notes t.provider.code.past

/-- The record and the module's past grow together. -/
theorem RecordMatches.respond {t : Recorded (NativeProvider (Remembering μ))} (h : RecordMatches t)
    (on : Thread) (call : Call) : RecordMatches (Provider.respond t on call).2 := by
  obtain ⟨added, past, adds⟩ := t.provider.adds_respond on call
  have recordOf := h.recordOf.concat on adds
  rw [← past] at recordOf
  exact ⟨h.inStep.respond on call, recordOf⟩

/-- A provider that is called more has the same past and more. -/
theorem past_of_descends {t u : Recorded (NativeProvider (Remembering μ))} (h : Descends t u) :
    t.provider.code.past <+: u.provider.code.past := by
  refine h.keeps (P := fun u => t.provider.code.past <+: u.provider.code.past) ?_ List.prefix_rfl
  intro u on call grown
  obtain ⟨added, past, -⟩ := u.provider.adds_respond on call
  exact grown.trans ⟨added, past.symm⟩

def resolving (exports : μ → List EntryPoint) (l : Loader μ) :
    Loader (NativeProvider (Remembering μ)) where
  path := l.path
  load last :=
    match l.load (last.map fun p => p.code.code) with
    | .ok (.ok code) =>
      match resolve (exports code) { code } with
      | .ok p => .ok (.ok p)
      | .error missing => .ok (.error (.missingEntryPoint (l.path.getD "") missing.symbol))
    | .ok (.error e) => .ok (.error e)
    | .error cause => .error cause

omit [ModuleCode μ] in
theorem brings_resolving (exports : μ → List EntryPoint) (l : Loader μ) :
    (resolving exports l).recorded.Brings RecordMatches := by
  intro last t load
  obtain ⟨load, notes⟩ := load_recorded load
  simp only [resolving] at load
  split at load
  next code _ =>
    split at load
    next p resolved =>
      obtain rfl : p = t.provider := by simpa using load
      obtain ⟨inStep, past⟩ := NativeProvider.inStep_of_resolve resolved
      exact ⟨inStep, by rw [notes, past]; exact .nil⟩
    next => cases load
  next => cases load
  next => cases load

def native (exports : μ → List EntryPoint) (op : Operation μ) :
    Operation (NativeProvider (Remembering μ)) :=
  op.mapLoader (resolving exports)

omit [ModuleCode μ] in
theorem brings_native (exports : μ → List EntryPoint) (op : Operation μ) :
    (native exports op).recorded.Brings RecordMatches := by
  cases op with
  | bind => exact brings_resolving exports _
  | bindIndex => exact fun _ => brings_resolving exports _
  | bindName => exact fun _ => brings_resolving exports _
  | _ => trivial

theorem inBetween_prelude (threadsafe : Bool) {shared : Bool} {middle : List Note}
    (ordinary : ∀ note ∈ middle, note.Ordinary shared) :
    ∀ note ∈ .heard .worker .threadsafeQuery (.ok threadsafe) :: middle, InBetween note := by
  rintro note (_ | ⟨_, hn⟩)
  · exact ⟨by rintro _ _ ⟨⟩, by rintro ⟨⟩⟩
  · exact inBetween_of_ordinary (ordinary note hn)

/-- A whole session, taken apart into its start, what lies between and its stop. -/
theorem notes_of_bracketed {options : Options} {notes : List Note} (h : Bracketed options notes) :
    ∃ window info between answer,
      notes = (.heard .worker (.start window options.caller) (.ok info) :: between) ++
        [.heard .worker .stop answer] ∧
      info.code.isOk = true ∧ ∀ note ∈ between, InBetween note := by
  cases h with
  | @intro window info threadsafe middle last code ordinary closing =>
    have between := inBetween_prelude threadsafe ordinary
    generalize openOn middle = wasOpen at closing
    cases closing with
    | vacant answer => exact ⟨window, info, _, answer, rfl, code, between⟩
    | opened closed answer =>
      refine ⟨window, info, .heard .worker .threadsafeQuery (.ok threadsafe) :: middle ++
        [.heard .worker .closeProject closed], answer, by simp [prelude], code, fun note hn => ?_⟩
      rcases List.mem_append.mp hn with hn | hn
      · exact between note hn
      · rw [List.mem_singleton.mp hn]
        exact ⟨by rintro _ _ ⟨⟩, by rintro ⟨⟩⟩

omit [ModuleCode μ] in
/-- A module that was bound and let go of has had one session, with the context that it gave when it
was bound. -/
theorem oneSession_of_bracketed {options : Options} {shared : Bool}
    {t u : Recorded (NativeProvider (Remembering μ))} (ht : RecordMatches t) (hu : RecordMatches u)
    (inUse : InUse options shared t.notes) (session : Bracketed options u.notes)
    (grown : t.provider.code.past <+: u.provider.code.past) :
    OneSession t.provider.context u.provider.code.past := by
  obtain ⟨window, info, between, answer, notes, code, inBetween⟩ := notes_of_bracketed session
  obtain ⟨_, _, _, _, _, before, _, he, past, recordOf, adds⟩ := (notes ▸ hu.recordOf).of_concat
  cases he
  obtain ⟨first, context, middle, rfl, entry, leaves, going_on⟩ :=
    recordOf.of_started code inBetween
  obtain ⟨last, rfl, stopped⟩ := adds.of_stopped
  -- When the module was bound it had been entered for the same start.
  have given : t.provider.context = context := by
    generalize hn : t.notes = notes' at inUse
    cases inUse with
    | @intro _ _ threadsafe _ code' ordinary =>
      obtain ⟨first', context', middle', past', -, leaves', going_on'⟩ :=
        (hn ▸ ht.recordOf).of_started code' (inBetween_prelude threadsafe ordinary)
      rw [past', past] at grown
      obtain rfl : first' = first := (List.cons_prefix_cons.mp grown).1
      rw [ht.inStep.context, past', current_of_goesOn leaves' going_on',
        Option.some.inj (leaves'.symm.trans leaves)]
  rw [given]
  exact oneSession_of_told hu.inStep.told past entry leaves going_on stopped

section Runs

open Dispatcher

variable (exports : μ → List EntryPoint) (options : Options)

/-- The dispatcher after calls that are made one after another. -/
def afterNative (calls : List (Operation μ)) :
    Dispatcher (Recorded (NativeProvider (Remembering μ))) :=
  afterCalls options (calls.map (native exports))

theorem idle_afterNative (calls : List (Operation μ)) :
    (afterNative exports options calls).Idle :=
  (orderly_afterCalls options (calls.map (native exports))).idle

/-- Modules keep their places, whatever calls follow. -/
theorem lineage_afterNative (before after : List (Operation μ)) :
    Lineage RecordMatches (afterNative exports options before)
      (afterNative exports options (before ++ after)) := by
  have calls : ∀ op ∈ (after.map (native exports)).map Operation.recorded,
      op.Brings RecordMatches := by
    intro op hop
    rw [List.map_map] at hop
    obtain ⟨call, -, rfl⟩ := List.mem_map.mp hop
    exact brings_native exports call
  have further := lineage_performAll (idle_afterNative exports options before) calls
  simpa only [afterNative, afterCalls, List.map_append, performAll_append] using further

/-- The record of each module ever bound matches its past. -/
theorem recordMatches_afterNative (calls : List (Operation μ)) :
    ∀ t ∈ (afterNative exports options calls).allProviders, RecordMatches t :=
  (lineage_afterNative exports options [] calls).keeps (fun _ on call h => h.respond on call)
    (by simp [afterNative, afterCalls, performAll, allProviders])

/-- A module that one of the calls has bound has one session until it is let go of. -/
theorem oneSession_of_bound {before after : List (Operation μ)} {op : Operation μ}
    (bound : ((afterNative exports options before).perform (native exports op).recorded).1 =
      .bound true) :
    ∃ b r, (afterNative exports options (before ++ [op])).binding = some b ∧
      (afterNative exports options (before ++ op :: after)).shutdown.retired[(afterNative
        exports options (before ++ [op])).retired.length]? = some r ∧
      b.worker.provider.provider.code.past <+: r.provider.provider.code.past ∧
      OneSession b.worker.provider.provider.context r.provider.provider.code.past := by
  have outcome := outcome_perform (idle_afterNative exports options before) (native exports op)
  have here : afterNative exports options (before ++ [op]) =
      ((afterNative exports options before).perform (native exports op).recorded).2 := by
    rw [afterNative, List.map_append]
    exact afterCalls_concat ..
  rw [bound, ← here] at outcome
  obtain ⟨b, hb⟩ := bound_of_outcome outcome
  -- The record that was begun then is that of the module that is let go of in this place.
  have ordered := orderly_afterCalls options ((before ++ [op]).map (native exports))
  have follows := follows_afterCalls (.bound hb rfl List.prefix_rfl) (after.map (native exports))
  rw [← List.map_append, List.append_assoc, List.singleton_append] at follows
  obtain ⟨r, place, -, session⟩ := parted_of_shutdown (orderly_afterCalls ..) follows
  have lineage := (lineage_afterNative exports options (before ++ [op]) after).trans
    (lineage_shutdown (idle_afterNative exports options _))
  rw [List.append_assoc, List.singleton_append] at lineage
  have there : (afterNative exports options (before ++ [op])).allProviders[
      (afterNative exports options (before ++ [op])).retired.length]? =
        some b.worker.provider := by
    simp [allProviders, hb]
  obtain ⟨u, hu, descends⟩ := lineage.exists_descends there
  obtain rfl : r.provider = u := Option.some.inj ((allProviders_of_retired place).symm.trans hu)
  have grown := past_of_descends descends
  have ht := recordMatches_afterNative exports options _ _ (List.mem_of_getElem? there)
  have recordMatches := lineage.keeps (fun _ on call h => h.respond on call)
    (recordMatches_afterNative exports options _) _ (List.mem_of_getElem? hu)
  exact ⟨b, r, hb, place, grown,
    oneSession_of_bracketed ht recordMatches (ordered.inUse b hb).1 session grown⟩

end Runs

/-- A module is only ever handed the context of its current initialization. Whatever a provider is
asked, its module is told with every entrance but the first of a session the context that it left
when it was last started, or none if it did not or was told to stop since; a start that is refused
or faults leaves that as it was. In a run of the dispatcher each module that is bound has one
session: its context goes to its stop, once, and to nothing after that. -/
theorem handed_current_context :
    (∀ exported (code : μ) (p : NativeProvider (Remembering μ)) calls,
      resolve exported { code } = .ok p →
        (p.after calls).context = current (p.after calls).code.past ∧
          Told (p.after calls).code.past) ∧
      (∀ (p : NativeProvider μ) on window caller,
        ('\x00' ∈ caller.toList →
          respond p on (.start window caller) = (.ok { code := .initializeFailed }, p)) ∧
        ∀ cause, (respond p on (.start window caller)).1 = .error cause →
          (respond p on (.start window caller)).2.context = p.context) ∧
      ∀ (exports : μ → List EntryPoint) options before op after,
        ((afterNative exports options before).perform (native exports op).recorded).1 =
            .bound true →
          ∃ b r, (afterNative exports options (before ++ [op])).binding = some b ∧
            (afterNative exports options (before ++ op :: after)).shutdown.retired[(afterNative
              exports options (before ++ [op])).retired.length]? = some r ∧
            b.worker.provider.provider.code.past <+: r.provider.provider.code.past ∧
            OneSession b.worker.provider.provider.context r.provider.provider.code.past := by
  refine ⟨fun exported code p calls resolved => ?_, fun p on window caller => ⟨?_, ?_⟩, ?_⟩
  · obtain ⟨inStep, -⟩ := NativeProvider.inStep_of_resolve resolved
    have kept := inStep.after calls
    exact ⟨kept.context, kept.told⟩
  · exact fun zero => p.start_of_unpassable on window (CString.ofText?_eq_none_iff.mpr zero)
  · exact fun cause => p.context_of_fault on window
  · exact fun exports options before op after => oneSession_of_bound exports options

section Handle

open Rehearsal

def seventh : ScriptedModule where
  script := ⟨[(.start, [{ context := 7 }, { ending := .error .unnamed }])]⟩

def afterSeventh (more : List (Operation ScriptedModule)) :
    Dispatcher (Recorded (NativeProvider (Remembering ScriptedModule))) :=
  afterNative (fun _ => EntryPoint.all) {}
    (.bind "module" { load := fun _ => .ok (.ok seventh) } .none :: more)

theorem handed_current_context_seventh :
    (∃ p : NativeProvider (Remembering ScriptedModule),
      resolve EntryPoint.all { code := seventh } = .ok p ∧
        let started := p.after [(.worker, .start .none "caller")]
        current started.code.past = ⟨7⟩ ∧
          Told (started.after [(.worker, .closeProject), (.worker, .stop)]).code.past ∧
          respond started .worker (.start .none "\x00") =
            (.ok { code := .initializeFailed }, started) ∧
          (respond started .worker (.start .none "caller")).2.context = ⟨7⟩) ∧
      ∃ r, (afterSeventh [.request (.history ["file"])]).shutdown.retired[0]? = some r ∧
        OneSession ⟨7⟩ r.provider.provider.code.past := by
  constructor
  · let p : NativeProvider (Remembering ScriptedModule) :=
      { code := { code := seventh }, hasProperties := true, hasExtendedCapability := true }
    let started := p.after [(.worker, .start .none "caller")]
    obtain ⟨left, -⟩ := handed_current_context.1 EntryPoint.all seventh p
      [(.worker, .start .none "caller")] rfl
    obtain ⟨-, told⟩ := handed_current_context.1 EntryPoint.all seventh p
      [(.worker, .start .none "caller"), (.worker, .closeProject), (.worker, .stop)] rfl
    have refused := (handed_current_context.2.1 started .worker .none "\x00").1 (by decide)
    have faulted := (handed_current_context.2.1 started .worker .none "caller").2 .unnamed
      (by decide +kernel)
    have seven : started.context = ⟨7⟩ := by decide +kernel
    exact ⟨p, rfl, left.symm.trans seven, told, refused, faulted.trans seven⟩
  · obtain ⟨b, r, hb, hr, -, session⟩ :=
      handed_current_context.2.2 (fun _ => EntryPoint.all) {} []
        (.bind "module" { load := fun _ => .ok (.ok seventh) } .none)
        [.request (.history ["file"])] (by decide +kernel)
    have hb : (afterSeventh []).binding = some b := hb
    have hr : (afterSeventh [.request (.history ["file"])]).shutdown.retired[(afterSeventh
        []).retired.length]? = some r := hr
    have first : (afterSeventh []).retired.length = 0 := by decide +kernel
    have seven : (afterSeventh []).binding.map (fun b => b.worker.provider.provider.context) =
        some ⟨7⟩ := by decide +kernel
    rw [hb, Option.map_some, Option.some.injEq] at seven
    rw [first] at hr
    exact ⟨r, hr, seven ▸ session⟩

end Handle

end SccDispatch.Native
