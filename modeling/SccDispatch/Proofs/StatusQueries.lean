import SccDispatch.Proofs.EventHistory
import SccDispatch.Rehearsal.Scripted

namespace SccDispatch

theorem length_resize {α : Type} (n : Nat) (a : α) (l : List α) : (resize n a l).length = n := by
  simp only [resize, List.length_append, List.length_take, List.length_replicate]
  omega

theorem getElem?_resize {α : Type} {n i : Nat} (hi : i < n) (a : α) (l : List α) :
    (resize n a l)[i]? = some (l[i]?.getD a) := by
  unfold resize
  by_cases hl : i < l.length
  · have ht : i < (l.take n).length := List.length_take ▸ Nat.lt_min.mpr ⟨hi, hl⟩
    rw [List.getElem?_append_left ht, List.getElem?_take_of_lt hi, List.getElem?_eq_getElem hl]
    rfl
  · have ht : (l.take n).length = l.length := by
      rw [List.length_take]
      omega
    rw [List.getElem?_append_right (by omega), ht, List.getElem?_replicate_of_lt (by omega),
      List.getElem?_eq_none (by omega)]
    rfl

/-- A provider's reply to a status query. -/
abbrev QueryReply : Type := Except Cause StatusReply

namespace QueryReply

def output (reply : QueryReply) : Output := .ofOutcome "query status" (reply.map .status)

def statusAt (i : Nat) : QueryReply → Status
  | .ok reply => if reply.code.isOk then (reply.masks[i]?).elim .error .ofMask else .error
  | .error _ => .error

def faults : QueryReply → List Fault
  | .ok _ => []
  | .error cause => [.of "query status" cause]

end QueryReply

/-- A query about files was answered: what the statuses are, and what the session has counted and
sent since. -/
structure Queried (files : List String) (reply : QueryReply) (before after : Journal)
    (statuses : List Status) : Prop where
  length : statuses.length = files.length
  status : ∀ i < files.length, statuses[i]? = some (reply.statusAt i)
  standing : after.standing = before.standing
  faults : after.faults = before.faults + .ofNat reply.faults.length
  events : after.events =
    before.events ++ reply.faults.map fun f => .faulted f.operation f.message

theorem length_statusesOf (n : Nat) (out : Option Output) : (statusesOf n out).length = n := by
  unfold statusesOf
  split
  next =>
    split
    next => exact length_resize ..
    next => exact List.length_replicate
  next => exact List.length_replicate

theorem getElem?_statusesOf {n i : Nat} (hi : i < n) (reply : QueryReply) :
    (statusesOf n (some reply.output))[i]? = some (reply.statusAt i) := by
  rcases reply with cause | reply
  · exact List.getElem?_replicate_of_lt hi
  · simp only [QueryReply.output, Except.map, Output.ofOutcome, statusesOf, QueryReply.statusAt]
    split
    next =>
      rw [getElem?_resize hi, List.getElem?_map]
      cases reply.masks[i]? <;> rfl
    next => exact List.getElem?_replicate_of_lt hi

theorem Journal.faults_heard (j : Journal) (elapsed : Duration) (reply : QueryReply) :
    (j.account "query status" elapsed reply.output).faults =
      j.faults + .ofNat reply.faults.length := by
  rcases reply with cause | reply
  · rfl
  · simp only [QueryReply.output, Except.map, Output.ofOutcome, Journal.account]
    split <;> exact (UInt64.add_zero _).symm

theorem Journal.events_heard (j : Journal) (elapsed : Duration) (reply : QueryReply) :
    (j.account "query status" elapsed reply.output).events =
      j.events ++ reply.faults.map fun f => .faulted f.operation f.message := by
  rcases reply with cause | reply
  · exact events_fault _ _ _
  · simp only [QueryReply.output, Except.map, Output.ofOutcome, Journal.account]
    split <;> exact (List.append_nil _).symm

/-- The session is not told how long a command took. -/
theorem Journal.session_account (j : Journal) (name : String) (elapsed : Duration) (out : Output) :
    (j.account name elapsed out).session = (j.account name {} out).session := by
  cases out with
  | faulted f => rfl
  | _ =>
    unfold Journal.account
    simp only
    split <;> rfl

/-- On the calling thread the reply is written down as the worker would have done it, as far as the
session goes. -/
theorem Journal.session_queried (j : Journal) (reply : QueryReply) :
    (j.queried reply.output).session =
      ((j.count .recordDispatched).account "query status" {} reply.output).session := by
  rcases reply with cause | reply
  · rfl
  · simp only [QueryReply.output, Except.map, Output.ofOutcome, Journal.queried, Journal.account]
    split <;> rfl

section

variable (files : List String) {j k : Journal} {reply : QueryReply}

theorem queried_of_session
    (hs : k.session =
      ((j.count .recordDispatched).account "query status" {} reply.output).session) :
    Queried files reply j k (statusesOf files.length (some reply.output)) where
  length := length_statusesOf ..
  status i hi := getElem?_statusesOf hi reply
  standing := by
    rw [Journal.standing, hs, ← Journal.standing, Journal.standing_account, Journal.standing_count]
  faults := by
    rw [Journal.faults, hs, ← Journal.faults, Journal.faults_heard]
    rfl
  events := by
    rw [Journal.events, hs, ← Journal.events, Journal.events_heard]
    rfl

end

variable {π : Type}

/-- The thread on which a status query runs. -/
def Binding.asker (b : Binding π) : Thread := if b.concurrent then .caller else .worker

/-- What the bound provider would reply to a query. -/
def Binding.replyOn [Provider π] (b : Binding π) (on : Thread) (files : List String) : QueryReply :=
  (respond b.worker.provider on (.queryStatus files)).1

namespace Dispatcher

variable [Provider π] {d : Dispatcher π} {b : Binding π}

/-- The same dispatcher, which runs status queries on the calling thread or leaves them to its
worker. -/
def querying (d : Dispatcher π) (directly : Bool) : Dispatcher π :=
  { d with binding := d.binding.map fun b => { b with concurrent := directly } }

omit [Provider π] in
theorem idle_querying (h : d.Idle) (directly : Bool) : (d.querying directly).Idle := by
  intro c hc
  obtain ⟨b, hb, rfl⟩ := Option.map_eq_some_iff.mp hc
  exact ⟨(h b hb).queue, (h b hb).answers⟩

omit [Provider π] in
theorem settle_eq (d : Dispatcher π) (r : Request) (out : Option Output) :
    d.settle r out = (r.reply out, (d.settle r out).2) := by
  unfold settle
  split <;> rfl

omit [Provider π] in
theorem session_settle (d : Dispatcher π) (r : Request) (out : Option Output) :
    (d.settle r out).2.journal.session = d.journal.session := by
  unfold settle
  split <;> rfl

/-- A query is answered from the provider's reply, which the session is told of. -/
theorem request_of_query (h : d.Idle) (hb : d.binding = some b) {r : Request}
    (hq : r.isQuery = true) (hf : r.files ≠ []) :
    (d.request r).1 = r.reply (some (b.replyOn b.asker r.files).output) ∧
      (d.request r).2.journal.session =
        ((d.journal.count .recordDispatched).account "query status" {}
          (b.replyOn b.asker r.files).output).session := by
  have hr : r.idle? = none := by simp [Request.idle?, hf]
  have hc : r.command b.window = .queryStatus r.files := by
    cases r <;> first | rfl | cases hq
  cases hd : b.concurrent with
  | true =>
    rw [request_of_direct h hr hb (by simp [hq, hd]), settle_eq, session_settle, hc]
    have ha : b.asker = .caller := by simp [Binding.asker, hd]
    rw [ha]
    exact ⟨rfl, d.journal.session_queried _⟩
  | false =>
    rw [request_of_queued h hr hb (by simp [hd]), settle_eq, session_settle, hc]
    have ha : b.asker = .worker := by simp [Binding.asker, hd]
    rw [ha]
    exact ⟨rfl, Journal.session_account ..⟩

omit [Provider π] in
/-- The status of one file is the only one in the statuses of a list of one. -/
theorem settle_fileStatus (d : Dispatcher π) (file : String) (out : Option Output) :
    ∃ status, d.settle (.fileStatuses [file]) out =
        (.statuses [status], (d.settle (.fileStatuses [file]) out).2) ∧
      d.settle (.fileStatus file) out =
        (.status status, (d.settle (.fileStatuses [file]) out).2) := by
  obtain ⟨status, hs⟩ := List.length_eq_one_iff.mp (length_statusesOf 1 out)
  have hr : (Request.fileStatuses [file]).reply out = .statuses [status] := by
    rw [← hs]
    rfl
  have hw : d.settle (.fileStatus file) out =
      (.status ((statusesOf 1 out).head?.getD .error),
        (d.settle (.fileStatuses [file]) out).2) := by
    have hw : (Request.fileStatuses [file]).warning? out = (Request.fileStatus file).warning? out :=
      rfl
    unfold settle
    rw [hw]
    split <;> rfl
  exact ⟨status, hr ▸ settle_eq d (.fileStatuses [file]) out, by rw [hw, hs]; rfl⟩

/-- One file's status is what the list of it alone is answered with. -/
theorem request_fileStatus (h : d.Idle) (file : String) :
    ∃ status e, d.request (.fileStatuses [file]) = (.statuses [status], e) ∧
      d.request (.fileStatus file) = (.status status, e) := by
  have ha : (Request.fileStatuses [file]).idle? = none := rfl
  have ho : (Request.fileStatus file).idle? = none := rfl
  cases hb : d.binding with
  | none =>
    rw [request_of_unbound ha hb, request_of_unbound ho hb]
    exact ⟨.error, d, rfl, rfl⟩
  | some b =>
    cases hd : b.concurrent with
    | true =>
      rw [request_of_direct h ha hb hd, request_of_direct h ho hb hd]
      obtain ⟨status, hl, hs⟩ := settle_fileStatus (d.queryDirectly b (.queryStatus [file])).2 file
        (some (d.queryDirectly b (.queryStatus [file])).1)
      exact ⟨status, _, hl, hs⟩
    | false =>
      rw [request_of_queued h ha hb hd, request_of_queued h ho hb hd]
      obtain ⟨status, hl, hs⟩ := settle_fileStatus (d.ran b (.queryStatus [file])) file
        (some (b.worker.outputOf (.queryStatus [file])))
      exact ⟨status, _, hl, hs⟩

/-- After any calls a list of files has its statuses from the provider's reply, an error where that
gives none. Which thread the query runs on makes no difference to them nor to the session if it
makes none to the reply, and the status of one file is that of the list of it alone. -/
theorem statuses_agree (options : Options) (calls : List (Operation π)) {files : List String}
    (hf : files ≠ []) {b : Binding π}
    (hb : (({ options } : Dispatcher π).performAll calls).2.binding = some b) :
    let d := (({ options } : Dispatcher π).performAll calls).2
    (∃ statuses, (d.request (.fileStatuses files)).1 = .statuses statuses ∧
      Queried files (b.replyOn b.asker files) d.journal
        (d.request (.fileStatuses files)).2.journal statuses) ∧
      (b.replyOn .caller files = b.replyOn .worker files → ∀ directly,
        ((d.querying directly).request (.fileStatuses files)).1 =
            (d.request (.fileStatuses files)).1 ∧
          ((d.querying directly).request (.fileStatuses files)).2.journal.session =
            (d.request (.fileStatuses files)).2.journal.session) ∧
      ∀ file, ∃ status e, d.request (.fileStatuses [file]) = (.statuses [status], e) ∧
        d.request (.fileStatus file) = (.status status, e) := by
  intro d
  have h : d.Idle := idle_performAll (idle_of_unbound rfl) calls
  obtain ⟨ha, hs⟩ := request_of_query (r := .fileStatuses files) h hb rfl hf
  refine ⟨⟨_, ha, queried_of_session files hs⟩, fun hsame directly => ?_, request_fileStatus h⟩
  have hq : (d.querying directly).binding = some { b with concurrent := directly } := by
    rw [querying, show d.binding = some b from hb]
    rfl
  have hon : ∀ on, b.replyOn on files = b.replyOn .worker files := by
    intro on
    cases on with
    | worker => rfl
    | caller => exact hsame
  have hon' : ∀ on, ({ b with concurrent := directly } : Binding π).replyOn on files =
      b.replyOn .worker files := hon
  obtain ⟨ha', hs'⟩ := request_of_query (r := .fileStatuses files) (idle_querying h directly) hq rfl
    hf
  rw [ha', ha, hs', hs]
  simp only [Request.files, hon, hon']
  exact ⟨trivial, rfl⟩

section Sparing

open Rehearsal

def sparing : Loader Scripted where
  load _ := .ok (.ok {
    threadsafe := true
    script := ⟨[(.queryInfo, [{ ending := .ok 3, masks := some [0x1002] }])]⟩ })

theorem statuses_agree_sparing :
    let d := (({} : Dispatcher Scripted).performAll [.bind "sparing" sparing .none]).2
    ∃ b, d.binding = some b ∧ b.concurrent = true ∧ ["a", "b"] ≠ [] ∧
      ∃ statuses, (d.request (.fileStatuses ["a", "b"])).1 = .statuses statuses ∧
        ((d.querying false).request (.fileStatuses ["a", "b"])).1 = .statuses statuses ∧
        statuses[0]? = some .checkedOutByUser ∧ statuses[1]? = some .error := by
  refine ⟨_, rfl, rfl, by simp, ?_⟩
  obtain ⟨⟨statuses, hs, hq⟩, hsame, -⟩ :=
    statuses_agree {} [.bind "sparing" sparing .none] (List.cons_ne_nil "a" ["b"]) rfl
  have hp := (hsame rfl false).1.trans hs
  exact ⟨statuses, hs, hp, hq.status 0 (by decide), hq.status 1 (by decide)⟩

end Sparing

end Dispatcher

end SccDispatch
