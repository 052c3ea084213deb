import SccDispatch.Proofs.WorkerDelivery
import SccDispatch.Proofs.Sessions

namespace SccDispatch

def Note.leavesQuerying (i : Nat) (before : Bool) : Note → Bool
  | began j => before || i == j
  | ended j => before && i != j
  | _ => before

/-- Thread `i` has begun a query and has not ended it. -/
def querying (i : Nat) (notes : List Note) : Bool := notes.foldl (Note.leavesQuerying i) false

@[simp]
theorem querying_concat (i : Nat) (notes : List Note) (note : Note) :
    querying i (notes ++ [note]) = note.leavesQuerying i (querying i notes) := by
  simp [querying]

def Running (notes : List Note) : Prop :=
  ∃ on window caller info, .heard on (.start window caller) (.ok info) ∈ notes ∧
    info.code.isOk = true

theorem Running.append {notes : List Note} (h : Running notes) (more : List Note) :
    Running (notes ++ more) := by
  obtain ⟨on, window, caller, info, hm, hc⟩ := h
  exact ⟨on, window, caller, info, List.mem_append_left _ hm, hc⟩

/-- What comes before a note. Threads begin and end their queries between the start of a provider
and the moment when it is about to be let go of, and every call made after that moment, of which a
stop is one, is made when no thread queries the provider. -/
def Note.Due (before : List Note) : Note → Prop
  | began i => Running before ∧ .parting ∉ before ∧ querying i before = false
  | ended i => .parting ∉ before ∧ querying i before = true
  | parting => ∀ i, querying i before = false
  | heard .caller call _ =>
    (∃ files, call = .queryStatus files) ∧ .parting ∉ before ∧ ∃ i, querying i before = true
  | heard .worker call _ =>
    (call = .stop → .parting ∈ before) ∧ (.parting ∈ before → ∀ i, querying i before = false)

def Disciplined (notes : List Note) : Prop :=
  ∀ before note after, notes = before ++ note :: after → note.Due before

section Disciplined

variable {notes more : List Note} {shared : Bool}

theorem disciplined_nil : Disciplined [] := by
  intro before note after he
  simp at he

/-- A note that is due may follow. -/
theorem Disciplined.concat (h : Disciplined notes) {note : Note} (hd : note.Due notes) :
    Disciplined (notes ++ [note]) := SharedWorker.forall_split_concat h hd

theorem Note.Ordinary.heard {note : Note} (h : note.Ordinary shared) :
    ∃ on call answer, note = .heard on call answer := by
  cases note with
  | heard on call answer => exact ⟨on, call, answer, rfl⟩
  | _ => exact h.elim

theorem querying_append (hm : ∀ note ∈ more, note.Ordinary shared) (i : Nat) :
    querying i (notes ++ more) = querying i notes := by
  induction more using List.reverseRecOn with
  | nil => rw [List.append_nil]
  | append_singleton more note ih =>
    obtain ⟨on, call, answer, rfl⟩ := (hm note (by simp)).heard
    rw [← List.append_assoc, querying_concat]
    exact ih fun n hn => hm n (List.mem_append_left _ hn)

theorem not_parting_append (hm : ∀ note ∈ more, note.Ordinary shared) (hp : .parting ∉ notes) :
    .parting ∉ notes ++ more := by
  intro h
  rcases List.mem_append.mp h with h | h
  · exact hp h
  · exact (hm _ h).elim

/-- Ordinary notes may follow until the provider is about to go. -/
theorem Disciplined.append (h : Disciplined notes) (hp : .parting ∉ notes)
    (hm : ∀ note ∈ more, note.Ordinary shared)
    (hs : shared = true → ∃ i, querying i notes = true) : Disciplined (notes ++ more) := by
  induction more using List.reverseRecOn with
  | nil => rwa [List.append_nil]
  | append_singleton more note ih =>
    have hb : ∀ n ∈ more, n.Ordinary shared := fun n hn => hm n (List.mem_append_left _ hn)
    have hn := not_parting_append hb hp
    have ho := hm note (by simp)
    obtain ⟨on, call, answer, rfl⟩ := ho.heard
    rw [← List.append_assoc]
    refine (ih hb).concat ?_
    cases on with
    | worker => exact ⟨fun he => absurd he ho.2.2, fun hc => absurd hc hn⟩
    | caller =>
      obtain ⟨i, hq⟩ := hs ho.1
      exact ⟨ho.2, hn, i, by rwa [querying_append hb]⟩

/-- The last calls may follow when nobody is querying. -/
theorem Disciplined.close {wasOpen : Bool} (h : Disciplined notes) (hp : .parting ∈ notes)
    (hq : ∀ i, querying i notes = false) (hc : Closing wasOpen more) :
    Disciplined (notes ++ more) ∧ ∀ i, querying i (notes ++ more) = false := by
  cases hc with
  | opened answer last =>
    have ho : Disciplined (notes ++ [.heard .worker .closeProject answer]) :=
      h.concat ⟨by rintro ⟨⟩, fun _ => hq⟩
    have hs : Disciplined (notes ++ [.heard .worker .closeProject answer] ++
        [.heard .worker .stop last]) := by
      refine ho.concat ⟨fun _ => List.mem_append_left _ hp, fun _ i => ?_⟩
      rw [querying_concat]
      exact hq i
    rw [List.append_assoc] at hs
    exact ⟨hs, fun i => by simpa [querying, Note.leavesQuerying] using hq i⟩
  | vacant last =>
    refine ⟨h.concat ⟨fun _ => hp, fun _ => hq⟩, fun i => ?_⟩
    rw [querying_concat]
    exact hq i

variable {π : Type} [Provider π] {p : π} {window : Window} {caller : String} {out : Output}

/-- A start leaves nobody querying. -/
theorem Startup.disciplined (h : Startup p shared window caller out notes) :
    Disciplined notes ∧ (∀ i, querying i notes = false) ∧ .parting ∉ notes := by
  have hs : ∀ answer, Disciplined [.heard .worker (.start window caller) answer] := fun answer =>
    disciplined_nil.concat ⟨by rintro ⟨⟩, fun _ _ => rfl⟩
  have hq : ∀ first answer, Disciplined [.heard .worker (.start window caller) first] →
      Disciplined [.heard .worker (.start window caller) first,
        .heard .worker .threadsafeQuery answer] := fun first answer h =>
    h.concat ⟨by rintro ⟨⟩, fun _ _ => rfl⟩
  cases h with
  | faulted start => exact ⟨hs _, fun _ => rfl, by simp⟩
  | refused start code => exact ⟨hs _, fun _ => rfl, by simp⟩
  | lost start code query => exact ⟨hq _ _ (hs _), fun _ => rfl, by simp⟩
  | ready start code query => exact ⟨hq _ _ (hs _), fun _ => rfl, by simp [prelude]⟩

/-- A provider that was started is running. -/
theorem Startup.running {told : ProviderInfo} {concurrent : Bool}
    (h : Startup p shared window caller out notes) (hs : out.started? = some (told, concurrent)) :
    Running notes := by
  obtain ⟨info, threadsafe, q, -, code, -, -, rfl⟩ := h.of_started hs
  exact ⟨_, _, _, _, List.mem_cons_self, code⟩

end Disciplined

/-- Where a thread stands that has the lock. -/
inductive Position (π : Type)
  | release
  | letGo
  | install (name : String) (loader : Loader π) (window : Window)
  | selectProject (initial : Project)
  | openProject (p : Project)
  /-- It keeps other threads from opening and closing projects, and none is open. -/
  | openNext (p : Project)
  | closeProject
  | request (r : Request)
  | query (r : Request)
  | done (alone : Bool)

variable {π : Type}

namespace Position

def alone : Position π → Bool
  | release | letGo | install .. => true
  | done alone => alone
  | _ => false

def steady : Position π → Bool
  | letGo | query _ => false
  | _ => true

def waits : Position π → Bool
  | openProject _ | closeProject => true
  | _ => false

end Position

def Section.first : Section π → Position π
  | .release => .release
  | .install name loader window => .install name loader window
  | .selectProject initial => .selectProject initial
  | .openProject p => .openProject p
  | .closeProject => .closeProject
  | .request r => .request r

def Binding.note (b : Binding (Recorded π)) (note : Note) : Binding (Recorded π) :=
  { b with worker := { b.worker with provider := b.worker.provider.add note } }

theorem Binding.idle_note {b : Binding (Recorded π)} (h : b.worker.Idle) (note : Note) :
    (b.note note).worker.Idle := ⟨h.queue, h.answers⟩

namespace Dispatcher

def note (d : Dispatcher (Recorded π)) (note : Note) : Dispatcher (Recorded π) :=
  d.mapProvider (·.add note)

theorem note_of_unbound {d : Dispatcher (Recorded π)} (hb : d.binding = none) (n : Note) :
    (d.note n).binding = none := by simp [note, mapProvider, hb]

theorem note_of_bound {d : Dispatcher (Recorded π)} {b : Binding (Recorded π)}
    (hb : d.binding = some b) (n : Note) : (d.note n).binding = some (b.note n) := by
  simp only [note, mapProvider, hb]
  rfl

def queries (d : Dispatcher (Recorded π)) (r : Request) : Bool :=
  r.idle?.isNone && (r.isQuery && d.hasConcurrentQueries)

theorem bound_of_queries {d : Dispatcher (Recorded π)} {r : Request} (hq : d.queries r = true) :
    ∃ b, d.binding = some b ∧ r.idle? = none ∧ (r.isQuery && b.concurrent) = true := by
  cases hb : d.binding with
  | none => simp [queries, hasConcurrentQueries, hb] at hq
  | some b => exact ⟨b, rfl, by simpa [queries, hasConcurrentQueries, hb] using hq⟩

variable [Provider π]

def stride (d : Dispatcher (Recorded π)) (i : Nat) :
    Position π → Dispatcher (Recorded π) × Position π
  | .release => (d.note .parting, .letGo)
  | .letGo => (d.shutdown, .done true)
  | .install name loader window => ((d.bind name loader.recorded window).2, .done true)
  | .selectProject initial => ((d.selectProject initial).2, .done false)
  | .openProject p => if d.isBound then (d.vacated, .openNext p) else (d, .done false)
  | .openNext p => ((d.opening p).2, .done false)
  | .closeProject => (d.closeProject.2, .done false)
  | .request r =>
    if d.queries r then (d.note (.began i), .query r) else ((d.request r).2, .done false)
  | .query r => ((d.request r).2.note (.ended i), .done false)
  | .done alone => (d, .done alone)

/-- A request that the calling thread does not query for goes through the worker. -/
theorem served_of_not_queries {d : Dispatcher (Recorded π)} {b : Binding (Recorded π)}
    (h : d.Idle) (hb : d.binding = some b) {r : Request} (hq : d.queries r = false) :
    ∃ c, Served false d b (d.request r).2 c := by
  cases hr : r.idle? with
  | some reply =>
    rw [request_of_noFiles h hr]
    exact ⟨b, .refl h hb⟩
  | none =>
    have hs : (r.isQuery && b.concurrent) = false := by
      simpa [queries, hr, hasConcurrentQueries, hb] using hq
    exact hs ▸ served_request h hb r

end Dispatcher

/-- A dispatcher among threads, those that have the lock and those that are about to. -/
structure SharedDispatcher (π : Type) where
  dispatcher : Dispatcher (Recorded π)
  due : Nat → List (Section π) := fun _ => []
  inside : Nat → Option (Position π) := fun _ => none

namespace SharedDispatcher

/-- The lock can be had: nobody has it, or it is shared. -/
def Admits (x : SharedDispatcher π) (t : Position π) : Prop :=
  ∀ j s, x.inside j = some s → t.alone = false ∧ s.alone = false

def call (x : SharedDispatcher π) (i : Nat) (op : Operation π) : SharedDispatcher π :=
  { x with due := Function.update x.due i op.sections }

def enter (x : SharedDispatcher π) (i : Nat) (s : Section π) (rest : List (Section π)) :
    SharedDispatcher π :=
  { x with
    due := Function.update x.due i rest
    inside := Function.update x.inside i (some s.first) }

def leave (x : SharedDispatcher π) (i : Nat) : SharedDispatcher π :=
  { x with inside := Function.update x.inside i none }

variable [Provider π]

def stride (x : SharedDispatcher π) (i : Nat) (t : Position π) : SharedDispatcher π :=
  { x with
    dispatcher := (x.dispatcher.stride i t).1
    inside := Function.update x.inside i (some (x.dispatcher.stride i t).2) }

inductive Step (x : SharedDispatcher π) : SharedDispatcher π → Prop
  | call {i : Nat} (op : Operation π) (finished : x.due i = []) (outside : x.inside i = none) :
      Step x (x.call i op)
  | enter {i : Nat} {s : Section π} {rest : List (Section π)} (due : x.due i = s :: rest)
      (outside : x.inside i = none) (admitted : x.Admits s.first) : Step x (x.enter i s rest)
  | stride {i : Nat} {t : Position π} (here : x.inside i = some t)
      (turn : t.waits = true → ∀ j p, x.inside j ≠ some (.openNext p)) : Step x (x.stride i t)
  | leave {i : Nat} {alone : Bool} (here : x.inside i = some (.done alone)) : Step x (x.leave i)

inductive Reached (options : Options) : SharedDispatcher π → Prop
  | start : Reached options { dispatcher := { options } }
  | next {x y : SharedDispatcher π} (h : Reached options x) (step : Step x y) : Reached options y

end SharedDispatcher

end SccDispatch
