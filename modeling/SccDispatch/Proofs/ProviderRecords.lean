import SccDispatch.Proofs.Sections

namespace SccDispatch

inductive Note
  | heard (on : Thread) (call : Call) (answer : Except Cause call.Answer)
  | began (thread : Nat)
  | ended (thread : Nat)
  | parting

structure Recorded (π : Type) where
  provider : π
  notes : List Note := []

variable {π : Type}

namespace Recorded

def add (t : Recorded π) (note : Note) : Recorded π := { t with notes := t.notes ++ [note] }

variable [Provider π]

def respond (t : Recorded π) (on : Thread) (call : Call) :
    Except Cause call.Answer × Recorded π :=
  let (r, provider) := Provider.respond t.provider on call
  (r, { t with provider }.add (.heard on call r))

instance : Provider (Recorded π) := ⟨respond, fun t => spent t.provider⟩

end Recorded

def Loader.recorded (l : Loader π) : Loader (Recorded π) where
  path := l.path
  load last := (l.load (last.map Recorded.provider)).map (Except.map fun provider => { provider })

def Operation.recorded (op : Operation π) : Operation (Recorded π) :=
  op.mapLoader Loader.recorded

theorem load_recorded {l : Loader π} {last : Option (Recorded π)} {t : Recorded π}
    (h : l.recorded.load last = .ok (.ok t)) :
    l.load (last.map Recorded.provider) = .ok (.ok t.provider) ∧ t.notes = [] := by
  simp only [Loader.recorded] at h
  generalize l.load (last.map Recorded.provider) = r at h
  rcases r with _ | _ | p <;> cases h
  exact ⟨rfl, rfl⟩

namespace Note

def seen? : Note → Option Seen
  | heard on call answer => some ⟨on, call, call.fine answer⟩
  | _ => none

/-- Of a provider in use: the worker's calls neither start nor stop it, and other threads make
status queries only, if they may. -/
def Ordinary (shared : Bool) : Note → Prop
  | heard .worker call _ =>
    (∀ window caller, call ≠ .start window caller) ∧ call ≠ .threadsafeQuery ∧ call ≠ .stop
  | heard .caller call _ => shared = true ∧ ∃ files, call = .queryStatus files
  | _ => False

end Note

/-- A project was opened and not closed since, as the notes tell. -/
def openOn (notes : List Note) : Bool := leftOpen (notes.filterMap Note.seen?)

@[simp]
theorem openOn_heard (notes : List Note) (on : Thread) (call : Call)
    (answer : Except Cause call.Answer) :
    openOn (notes ++ [.heard on call answer]) =
      (⟨on, call, call.fine answer⟩ : Seen).leaves (openOn notes) := by
  rw [openOn, List.filterMap_append]
  exact leftOpen_concat _ _

section Execute

variable [Provider π] (t : Recorded π) (on : Thread)

/-- Every command but a start makes one call, which goes on record. -/
theorem execute_recorded (shares : Bool) (command : Command)
    (h : ∀ window caller, command ≠ .start window caller) :
    ∃ answer, (execute t on shares command).2.notes = t.notes ++ [.heard on command.call answer] ∧
      (execute t on shares command).1.succeeded = command.call.fine answer := by
  obtain ⟨hs, ho⟩ := execute_call t on shares command h
  refine ⟨(Provider.respond t.provider on command.call).1, ?_, ho⟩
  rw [hs]
  rfl

end Execute

/-- On record once a provider was started and has answered the query that follows. -/
def prelude (window : Window) (caller : String) (info : ProviderInfo) (threadsafe : Bool) :
    List Note :=
  [.heard .worker (.start window caller) (.ok info),
    .heard .worker .threadsafeQuery (.ok threadsafe)]

section Startup

variable [Provider π]

/-- What comes out when a provider is started, and what is on record of it then. -/
inductive Startup (p : π) (shares : Bool) (window : Window) (caller : String) :
    Output → List Note → Prop
  | faulted {cause : Cause} {q : π}
      (start : Provider.respond p .worker (.start window caller) = (.error cause, q)) :
      Startup p shares window caller (.faulted (.of "initialize" cause))
        [.heard .worker (.start window caller) (.error cause)]
  | refused {info : ProviderInfo} {q : π}
      (start : Provider.respond p .worker (.start window caller) = (.ok info, q))
      (code : info.code.isOk = false) :
      Startup p shares window caller (.initialized info (shares && info.threadsafeQuery))
        [.heard .worker (.start window caller) (.ok info)]
  /-- The provider is running, but it cannot be asked about status queries. -/
  | lost {info : ProviderInfo} {cause : Cause} {q : π}
      (start : Provider.respond p .worker (.start window caller) = (.ok info, q))
      (code : info.code.isOk = true)
      (query : (Provider.respond q .worker .threadsafeQuery).1 = .error cause) :
      Startup p shares window caller (.faulted (.of "initialize" cause))
        [.heard .worker (.start window caller) (.ok info),
          .heard .worker .threadsafeQuery (.error cause)]
  | ready {info : ProviderInfo} {threadsafe : Bool} {q : π}
      (start : Provider.respond p .worker (.start window caller) = (.ok info, q))
      (code : info.code.isOk = true)
      (query : (Provider.respond q .worker .threadsafeQuery).1 = .ok threadsafe) :
      Startup p shares window caller
        (.initialized { info with threadsafeQuery := threadsafe } (shares && threadsafe))
        (prelude window caller info threadsafe)

/-- A provider that is in use after it was started has answered both calls. -/
theorem Startup.of_started {p : π} {shares : Bool} {window : Window} {caller : String}
    {out : Output} {notes : List Note} {told : ProviderInfo} {concurrent : Bool}
    (h : Startup p shares window caller out notes) (hs : out.started? = some (told, concurrent)) :
    ∃ info threadsafe q, respond p .worker (.start window caller) = (.ok info, q) ∧
      info.code.isOk = true ∧ (respond q .worker .threadsafeQuery).1 = .ok threadsafe ∧
      (shares && threadsafe) = concurrent ∧ notes = prelude window caller info threadsafe := by
  cases h with
  | faulted start => simp [Output.started?] at hs
  | refused start code => simp [Output.started?, code] at hs
  | lost start code query => simp [Output.started?] at hs
  | @ready info threadsafe q start code query =>
    have hc : (shares && threadsafe) = concurrent := by
      simp only [Output.started?, code, if_true, Option.some.injEq, Prod.mk.injEq] at hs
      exact hs.2
    exact ⟨info, threadsafe, q, start, code, query, hc, rfl⟩

/-- The output of a start says whether the caller was given the provider. -/
theorem concurrent_of_started {out : Output} {told : ProviderInfo} {concurrent : Bool}
    (h : out.started? = some (told, concurrent)) : out.concurrent = concurrent := by
  unfold Output.started? at h
  split at h
  next =>
    split at h <;> cases h
    rfl
  next => cases h

/-- What is on record of a provider once it was started. -/
theorem startup_of_new {t : Recorded π} (ht : t.notes = []) (shares : Bool) (window : Window)
    (caller : String) :
    Startup t.provider shares window caller
      (execute t .worker shares (.start window caller)).1
      (execute t .worker shares (.start window caller)).2.notes := by
  obtain ⟨p, notes⟩ := t
  subst ht
  have he : respond (⟨p, []⟩ : Recorded π) .worker (.start window caller) =
      ((Provider.respond p .worker (.start window caller)).1,
        ⟨(Provider.respond p .worker (.start window caller)).2,
          [.heard .worker (.start window caller)
            (Provider.respond p .worker (.start window caller)).1]⟩) := rfl
  simp only [execute, perform, start, he]
  obtain ⟨r, q, hs⟩ : ∃ r q, Provider.respond p .worker (.start window caller) = (r, q) :=
    ⟨_, _, rfl⟩
  rw [hs]
  cases r with
  | error cause => exact .faulted hs
  | ok info =>
    cases hc : info.code.isOk with
    | false =>
      simp only [hc]
      exact .refused hs hc
    | true =>
      simp only [hc, if_true, ask]
      have hq : ∀ notes, respond (⟨q, notes⟩ : Recorded π) .worker .threadsafeQuery =
          ((Provider.respond q .worker .threadsafeQuery).1,
            ⟨(Provider.respond q .worker .threadsafeQuery).2,
              notes ++ [.heard .worker .threadsafeQuery
                (Provider.respond q .worker .threadsafeQuery).1]⟩) := fun _ => rfl
      rw [hq]
      cases hr : (Provider.respond q .worker .threadsafeQuery).1 with
      | error cause => exact .lost hs hc hr
      | ok threadsafe => exact .ready hs hc hr

end Startup

end SccDispatch
