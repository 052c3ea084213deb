import SccDispatch.Registry
import SccDispatch.Request
import SccDispatch.Worker

namespace SccDispatch

inductive BindError
  | load (path reason : String)
  | missingEntryPoint (path symbol : String)
  | unknownProvider (index : Nat)
  | notInstalled (name : String)
  | spawn (reason : String)
  | workerExited
  | fault (f : Fault)
  deriving DecidableEq, Repr

def BindError.text : BindError → String
  | load path reason => "Failed to load provider module " ++ path ++ ": " ++ reason
  | missingEntryPoint path symbol =>
    "Provider module " ++ path ++ " is missing entry point " ++ symbol
  | unknownProvider index => "Provider index " ++ toString index ++ " is out of range"
  | notInstalled name => "Provider " ++ name ++ " is not installed"
  | spawn reason => "Failed to spawn source control worker: " ++ reason
  | workerExited => "Source control worker exited before the provider was bound"
  | fault f => f.text

/-- How a provider is brought in on the worker's thread. -/
structure Loader (π : Type) where
  path : Option String := none
  /-- Brings the provider in. What the last provider left behind may play a part, because modules
  stay in the process. -/
  load : Option π → Except Cause (Except BindError π)

structure Options where
  caller : String := "Decoda"
  /-- A project that is opened is created if it does not exist. -/
  createMissing : Bool := true
  /-- Status queries run on the calling thread if the provider allows it. -/
  concurrentQueries : Bool := true
  deriving DecidableEq, Repr, Inhabited

structure Binding (π : Type) where
  worker : Worker π
  info : ProviderInfo
  window : Window
  concurrent : Bool

/-- A provider that is no longer bound. -/
structure Retired (π : Type) where
  provider : π
  handles : Handles

/-- The provider of a worker that has ended. The calling thread drops the handle that it has itself,
if it has one, when it is done. -/
def Retired.of {π : Type} (w : Worker π) (own : Holder) : Retired π :=
  ⟨w.provider, (w.drop own .caller).handles⟩

/-- The thread that dropped the last handle. -/
def Retired.thread? {π : Type} (r : Retired π) : Option Thread := r.handles.releasedBy

/-- The worker of a binding whose own handle is dropped before the worker ends. -/
def Binding.withdrawn {π : Type} (b : Binding π) : Worker π := b.worker.drop .binding .caller

/-- The provider of a binding that is dropped as it is: the worker ends first. -/
def Binding.dropped {π : Type} (b : Binding π) : Retired π := .of b.worker.ended .binding

/-- The worker when its provider is bound: the handle in the output is kept in the binding. -/
def Worker.kept {π : Type} (w : Worker π) : Worker π :=
  { w with handles := w.handles.move .output .binding }

section Handles

variable {π : Type} (b : Binding π) (w : Worker π)

@[simp]
theorem Retired.provider_of (own : Holder) : (Retired.of w own).provider = w.provider := rfl

@[simp]
theorem Binding.provider_withdrawn : b.withdrawn.provider = b.worker.provider := rfl

@[simp]
theorem Binding.queue_withdrawn : b.withdrawn.queue = b.worker.queue := rfl

@[simp]
theorem Worker.provider_kept : w.kept.provider = w.provider := rfl

@[simp]
theorem Worker.queue_kept : w.kept.queue = w.queue := rfl

end Handles

structure Dispatcher (π : Type) where
  options : Options := {}
  binding : Option (Binding π) := none
  project : Option Project := none
  selected : Option Project := none
  journal : Journal := {}
  retired : List (Retired π) := []

namespace Dispatcher

variable {π : Type}

def isBound (d : Dispatcher π) : Bool := d.binding.isSome

def info? (d : Dispatcher π) : Option ProviderInfo := d.binding.map Binding.info

def capabilities (d : Dispatcher π) : Capabilities :=
  match d.binding with
  | some b => b.info.capabilities
  | none => .empty

def hasConcurrentQueries (d : Dispatcher π) : Bool := d.binding.any Binding.concurrent

def isProjectOpen (d : Dispatcher π) : Bool := d.project.isSome

/-- The provider that was let go of last. -/
def lastRetired (d : Dispatcher π) : Option π := d.retired.getLast?.map Retired.provider

/-- The bound provider, or else the one that was let go of last. -/
def provider? (d : Dispatcher π) : Option π :=
  match d.binding with
  | some b => some b.worker.provider
  | none => d.lastRetired

def mapProvider (d : Dispatcher π) (f : π → π) : Dispatcher π :=
  { d with
    binding := d.binding.map fun b =>
      { b with worker := { b.worker with provider := f b.worker.provider } } }

def write (d : Dispatcher π) (level : Level) (text : String) : Dispatcher π :=
  { d with journal := d.journal.write level text }

def displaced (d : Dispatcher π) (j : Journal) : Journal :=
  if d.isBound then j.write .info "Source control worker stopped" .worker else j

variable [Provider π]

def run (d : Dispatcher π) (command : Window → Command) : Option Output × Dispatcher π :=
  match d.binding with
  | none => (none, d)
  | some b =>
    let (out, worker, journal) := b.worker.run d.journal (command b.window)
    (out, { d with binding := some { b with worker }, journal })

/-- Closes the open project, stops the provider and lets it go. -/
def shutdown (d : Dispatcher π) : Dispatcher π :=
  match d.binding with
  | none => d
  | some b =>
    let j := (d.journal.write .info "Shutting down source control provider").setPhase .unloading
    let w := b.withdrawn
    let (w, j) := if d.project.isSome then (w.run j .closeProject).2 else (w, j)
    let (_, w, j) := w.run j .stop
    let (w, j) := w.stop j
    { d with
      binding := none
      project := none
      selected := none
      journal := j.reset.summarize
      retired := d.retired ++ [.of w .binding] }

def refuse (d : Dispatcher π) (name : String) (e : BindError) : Bool × Dispatcher π :=
  let text := "Failed to bind source control provider " ++ name ++ ": " ++ e.text
  (false, { d with journal := (d.journal.write .error text).reset })

def abandon (d : Dispatcher π) (name reason : String) (worker : Worker π) (j : Journal) :
    Bool × Dispatcher π :=
  let text := "Source control provider " ++ name ++ " failed to initialize: " ++ reason
  let (worker, j) := worker.stop (j.write .error text)
  (false,
    { d with
      journal := j.reset
      retired := d.retired ++ [.of worker .output] })

def attach (d : Dispatcher π) (name : String) (b : Binding π) (j : Journal) :
    Bool × Dispatcher π :=
  let j := j.write .info
    ("Source control provider " ++ name ++ " ready (" ++ b.info.name ++ "; caps " ++
      b.info.capabilities.text ++ "; concurrent status queries: " ++ boolText b.concurrent ++ ")")
  let replaced := d.binding.map Binding.dropped
  (true,
    { d with
      binding := some b
      journal := d.displaced (j.bound name)
      retired := d.retired ++ replaced.toList })

/-- Starts a provider that was loaded and binds it if that succeeds. -/
def start (d : Dispatcher π) (name : String) (provider : π) (window : Window) :
    Bool × Dispatcher π :=
  let worker : Worker π := { provider, shares := d.options.concurrentQueries }
  let j := d.journal.write .info "Source control worker started" .worker
  match worker.dispatch j (.start window d.options.caller) with
  | (.ok (.initialized info concurrent), worker, j) =>
    if info.code.isOk then d.attach name { worker := worker.kept, info, window, concurrent } j
    else d.abandon name info.code.text worker j
  | (.ok out, worker, j) => d.abandon name out.resultCode.text worker j
  | (.error e, worker, j) => d.abandon name e.text worker j

/-- Loads a provider and starts it. A provider that is still bound is replaced as it is. -/
def bind (d : Dispatcher π) (name : String) (loader : Loader π) (window : Window) :
    Bool × Dispatcher π :=
  let d := d.write .info ("Initializing source control provider " ++ name)
  let d := { d with journal := (d.journal.setPhase .loading).writePath loader.path }
  match loader.load d.lastRetired with
  | .ok (.ok provider) => d.start name provider window
  | .ok (.error e) => d.refuse name e
  | .error cause =>
    let f := Fault.of "load" cause
    { d with journal := d.journal.write .error f.text .worker }.refuse name (.fault f)

def rebind (d : Dispatcher π) (name : String) (loader : Loader π) (window : Window) :
    Bool × Dispatcher π :=
  d.shutdown.bind name loader window

def rebindIndex (d : Dispatcher π) (registry : Registry) (load : Installed → Loader π)
    (index : Nat) (window : Window) : Bool × Dispatcher π :=
  match registry.get? index with
  | some p => d.rebind p.name (load p) window
  | none => (false, d.write .warn (BindError.unknownProvider index).text)

def rebindName (d : Dispatcher π) (registry : Registry) (load : Installed → Loader π)
    (name : String) (window : Window) : Bool × Dispatcher π :=
  match registry.find? name with
  | some p => d.rebind p.name (load p) window
  | none => (false, d.write .warn (BindError.notInstalled name).text)

/-- Lets the provider choose a project, starting from `initial`; it is not opened. -/
def selectProject (d : Dispatcher π) (initial : Project) : Option Project × Dispatcher π :=
  match d.run (.selectProject · initial true) with
  | (some (.projectPath choice), d) =>
    if choice.code.isOk then
      (some choice.project,
        { d with selected := some choice.project }.write .info
          ("Selected project " ++ choice.project.name ++ " (new: " ++ boolText choice.isNew ++
            ")"))
    else (none, d)
  | (_, d) => (none, d)

/-- Closes the project that is open, whatever the provider says. -/
def dropProject (d : Dispatcher π) : Bool × Dispatcher π :=
  let (out, d) := d.run fun _ => .closeProject
  (out.any Output.succeeded, { d with project := none, journal := d.journal.closed })

def openProject (d : Dispatcher π) (p : Project) : Bool × Dispatcher π :=
  match d.binding with
  | none => (false, d)
  | some _ =>
    let d := if d.project.isSome then d.dropProject.2 else d
    let flags := if d.options.createMissing then SccDispatch.createMissing else 0
    let (out, d) := d.run fun w => .openProject w p "" flags
    if out.any Output.succeeded then
      let d := d.write .info ("Opened source control project " ++ p.name)
      (true, { d with project := some p, journal := d.journal.opened p })
    else (false, d)

/-- Closes the open project; true if there is none. -/
def closeProject (d : Dispatcher π) : Bool × Dispatcher π :=
  match d.binding with
  | none => (false, d)
  | some _ => if d.project.isSome then d.dropProject else (true, d)

inductive Begun
  | answered (reply : Reply)
  | queued (ticket : Nat)

def settle (d : Dispatcher π) (r : Request) (out : Option Output) : Reply × Dispatcher π :=
  match r.warning? out with
  | some text => (r.reply out, d.write .warn text)
  | none => (r.reply out, d)

def queryDirectly (d : Dispatcher π) (b : Binding π) (command : Command) : Output × Dispatcher π :=
  let (out, provider) := execute b.worker.provider .caller false command
  let j := d.journal.count .recordDirectQuery
  let j := match out with
    | .faulted f => j.fault f .caller
    | _ => j
  (out,
    { d with binding := some { b with worker := { b.worker with provider } }, journal := j })

/-- Begins a request: it is answered at once, or its command is in the worker's queue. -/
def begin (d : Dispatcher π) (r : Request) : Begun × Dispatcher π :=
  match r.idle?, d.binding with
  | some reply, _ => (.answered reply, d)
  | none, none => (.answered (r.reply none), d)
  | none, some b =>
    let command := r.command b.window
    if r.isQuery && b.concurrent then
      let (out, d) := d.queryDirectly b command
      let (reply, d) := d.settle r (some out)
      (.answered reply, d)
    else
      match b.worker.enqueue d.journal command with
      | (.ok (ticket, worker), journal) =>
        (.queued ticket, { d with binding := some { b with worker }, journal })
      | (.error e, journal) =>
        let (reply, d) :=
          { d with journal := Worker.failed journal command.name e }.settle r none
        (.answered reply, d)

/-- Lets the worker run everything that is in its queue. -/
def serve (d : Dispatcher π) : Dispatcher π :=
  match d.binding with
  | none => d
  | some b =>
    let (worker, journal) := b.worker.serve d.journal
    { d with binding := some { b with worker }, journal }

def takeResult (d : Dispatcher π) (ticket : Nat) (name : String) :
    Option Output × Dispatcher π :=
  match d.binding with
  | none => (none, d)
  | some b =>
    match b.worker.result ticket name with
    | (.ok out, worker) => (some out, { d with binding := some { b with worker } })
    | (.error e, worker) =>
      (none,
        { d with
          binding := some { b with worker }
          journal := Worker.failed d.journal name e })

def finish (d : Dispatcher π) (r : Request) : Begun → Reply × Dispatcher π
  | .answered reply => (reply, d)
  | .queued ticket =>
    let (out, d) := d.takeResult ticket (r.command .none).name
    d.settle r out

def request (d : Dispatcher π) (r : Request) : Reply × Dispatcher π :=
  let (begun, d) := d.begin r
  d.serve.finish r begun

def beginAll (d : Dispatcher π) : List Request → List (Request × Begun) × Dispatcher π
  | [] => ([], d)
  | r :: rest =>
    let (begun, d) := d.begin r
    let (more, d) := d.beginAll rest
    ((r, begun) :: more, d)

def finishAll (d : Dispatcher π) : List (Request × Begun) → List Reply × Dispatcher π
  | [] => ([], d)
  | (r, begun) :: rest =>
    let (reply, d) := d.finish r begun
    let (more, d) := d.finishAll rest
    (reply :: more, d)

def burst (d : Dispatcher π) (rs : List Request) : List Reply × Dispatcher π :=
  let (begun, d) := d.beginAll rs
  d.serve.finishAll begun

end Dispatcher

end SccDispatch
