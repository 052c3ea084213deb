import Mathlib.Data.List.TakeWhile
import SccDispatch.Proofs.LossyDecoding

namespace SccDispatch.Native

open Text (Reading replacement)

/-- The bytes from an address on are looked at one by one, to the first zero: the addresses in their
order, and what stands there before the zero. -/
inductive Walk (memory : Nat → UInt8) : Nat → List Nat → List UInt8 → Prop
  | stop {a} (zero : memory a = 0) : Walk memory a [a] []
  | go_on {a looked bs} (byte : memory a ≠ 0) (further : Walk memory (a + 1) looked bs) :
    Walk memory a (a :: looked) (memory a :: bs)

/-- Memory says where a walk ends and what it has found. -/
theorem Walk.unique {memory : Nat → UInt8} {a : Nat} {looked looked' : List Nat}
    {bs bs' : List UInt8} (h : Walk memory a looked bs) (h' : Walk memory a looked' bs') :
    looked = looked' ∧ bs = bs' := by
  induction h generalizing looked' bs' with
  | stop zero =>
    cases h' with
    | stop => exact ⟨rfl, rfl⟩
    | go_on byte => exact absurd zero byte
  | go_on byte further ih =>
    cases h' with
    | stop zero => exact absurd zero byte
    | go_on _ further' =>
      obtain ⟨rfl, rfl⟩ := ih further'
      exact ⟨rfl, rfl⟩

theorem walk_of_zero {memory : Nat → UInt8} {a : Nat} {bs : List UInt8}
    (stands : ∀ i (h : i < bs.length), memory (a + i) = bs[i]) (no_zero : 0 ∉ bs)
    (zero : memory (a + bs.length) = 0) : Walk memory a (List.range' a (bs.length + 1)) bs := by
  induction bs generalizing a with
  | nil => exact .stop zero
  | cons b bs ih =>
    obtain ⟨byte, no_zero⟩ := not_or.mp (List.mem_cons.not.mp no_zero)
    have first : memory a = b := stands 0 (Nat.zero_lt_succ _)
    have further : Walk memory (a + 1) (List.range' (a + 1) (bs.length + 1)) bs := by
      refine ih (fun i h => ?_) no_zero ?_
      · rw [Nat.add_right_comm, Nat.add_assoc, stands (i + 1) (Nat.succ_lt_succ h)]
        rfl
      · rw [Nat.add_right_comm, Nat.add_assoc]
        exact zero
    rw [List.length_cons, List.range'_succ, ← first]
    exact .go_on (first ▸ Ne.symm byte) further

namespace Buffer

variable {capacity : Nat}

/-- The bytes of the buffer stand in memory from `start` on. -/
def LiesAt (b : Buffer capacity) (memory : Nat → UInt8) (start : Nat) : Prop :=
  ∀ i, i ≤ capacity → b.bytes[i]? = some (memory (start + i))

/-- The buffers have the same bytes up to the first zero; the last byte does not count. -/
def SameToZero (b b' : Buffer capacity) : Prop :=
  ∀ i, i < capacity → (∀ j, j < i → b.bytes[j]? ≠ some 0) → b.bytes[i]? = b'.bytes[i]?

theorem length_take (b : Buffer capacity) : (b.bytes.take capacity).length = capacity := by
  rw [List.length_take, b.length_eq]
  omega

theorem content_prefix (b : Buffer capacity) : b.content <+: b.bytes.take capacity :=
  List.takeWhile_prefix _

theorem zero_not_mem_content (b : Buffer capacity) : 0 ∉ b.content := fun h => by
  simpa using List.mem_takeWhile_imp h

theorem length_content_le (b : Buffer capacity) : b.content.length ≤ capacity :=
  b.content_prefix.length_le.trans (List.length_take_le ..)

theorem content_stops (b : Buffer capacity) :
    b.content.length = capacity ∨ b.bytes[b.content.length]? = some 0 := by
  have whole := List.takeWhile_append_dropWhile (p := (· != 0)) (l := b.bytes.take capacity)
  have after := List.head?_dropWhile_not (· != 0) (b.bytes.take capacity)
  cases rest : (b.bytes.take capacity).dropWhile (· != 0) with
  | nil =>
    rw [rest, List.append_nil] at whole
    exact .inl (by rw [content, whole, b.length_take])
  | cons z rest' =>
    rw [rest] at whole after
    have zero : z = 0 := by simpa using after
    have next : (b.bytes.take capacity)[b.content.length]? = some z := by
      rw [← whole, ← content, List.getElem?_append_right le_rfl, Nat.sub_self]
      rfl
    rw [List.getElem?_take] at next
    split at next
    · exact .inr (zero ▸ next)
    · cases next

theorem getElem_content (b : Buffer capacity) {i : Nat} (h : i < b.content.length) :
    b.bytes[i]? = some b.content[i] := by
  obtain ⟨rest, whole⟩ := b.content_prefix.trans (List.take_prefix ..)
  rw [← whole, List.getElem?_append_left h, List.getElem?_eq_getElem h]

/-- Once the last byte is zero, the walk from the first one ends in the buffer. -/
theorem walk_iff {b : Buffer capacity} {memory : Nat → UInt8} {start : Nat}
    (lies : b.LiesAt memory start) (looked : List Nat) (bs : List UInt8) :
    Walk (Function.update memory (start + capacity) 0) start looked bs ↔
      looked = List.range' start (b.content.length + 1) ∧ bs = b.content := by
  have short := b.length_content_le
  have walk : Walk (Function.update memory (start + capacity) 0) start
      (List.range' start (b.content.length + 1)) b.content := by
    refine walk_of_zero (fun i h => ?_) b.zero_not_mem_content ?_
    · rw [Function.update_of_ne (by omega)]
      exact Option.some.inj ((lies i (by omega)).symm.trans (b.getElem_content h))
    · rcases b.content_stops with full | zero
      · rw [full, Function.update_self]
      · rw [Function.update_apply]
        split
        · rfl
        · exact Option.some.inj ((lies _ short).symm.trans zero)
  constructor
  · exact fun h => h.unique walk
  · rintro ⟨rfl, rfl⟩
    exact walk

theorem takeWhile_eq_of_same {xs ys : List UInt8} (length_eq : xs.length = ys.length)
    (same : ∀ i, i < xs.length → (∀ j, j < i → xs[j]? ≠ some 0) → xs[i]? = ys[i]?) :
    xs.takeWhile (· != 0) = ys.takeWhile (· != 0) := by
  induction xs generalizing ys with
  | nil => rw [List.eq_nil_of_length_eq_zero length_eq.symm]
  | cons x xs ih =>
    cases ys with
    | nil => cases length_eq
    | cons y ys =>
      have first : x = y := by
        simpa using same 0 (Nat.zero_lt_succ _) fun j hj => absurd hj (Nat.not_lt_zero j)
      subst first
      by_cases zero : x = 0
      · simp [zero]
      · rw [List.takeWhile_cons_of_pos (by simpa using zero),
          List.takeWhile_cons_of_pos (by simpa using zero)]
        refine congrArg (x :: ·) (ih (Nat.succ.inj length_eq) fun i hi before => ?_)
        refine same (i + 1) (Nat.succ_lt_succ hi) fun j hj => ?_
        cases j with
        | zero => simpa using zero
        | succ j => exact before j (Nat.lt_of_succ_lt_succ hj)

theorem SameToZero.text_eq {b b' : Buffer capacity} (same : b.SameToZero b') :
    b.text = b'.text := by
  have room := b.length_take.trans b'.length_take.symm
  refine congrArg Text.lossy (takeWhile_eq_of_same room ?_)
  intro i hi before
  rw [length_take] at hi
  rw [List.getElem?_take_of_lt hi, List.getElem?_take_of_lt hi]
  refine same i hi fun j hj => ?_
  have earlier := before j hj
  rwa [List.getElem?_take_of_lt (hj.trans hi)] at earlier

end Buffer

/-- A text is what a buffer is read back as, and the reading keeps to the buffer. -/
structure ReadExactly {capacity : Nat} (b : Buffer capacity) (s : String) : Prop where
  /-- Wherever the buffer lies and whatever lies around it, the addresses looked at are its own, and
  what is found is its content. -/
  looked : ∀ memory start, b.LiesAt memory start → ∀ addresses bs,
    Walk (Function.update memory (start + capacity) 0) start addresses bs ↔
      addresses = List.range' start (b.content.length + 1) ∧ bs = b.content
  inside : ∀ start, ∀ a ∈ List.range' start (b.content.length + 1),
    start ≤ a ∧ a ≤ start + capacity
  /-- The content is what stands before the first zero among the bytes but the last. -/
  beginning : b.content <+: b.bytes.take capacity
  no_zero : 0 ∉ b.content
  stops : b.content.length = capacity ∨ b.bytes[b.content.length]? = some 0
  /-- Its characters are kept, and each longest stretch that is none gets one mark. -/
  reads : ∃ ps, (∀ qs, Reading b.content qs ↔ qs = ps) ∧
    s = String.ofList (ps.map fun c => c.getD replacement)
  valid : ∀ t, b.content = Text.bytes t → s = t
  /-- Nothing after the first zero matters. -/
  same : ∀ b' : Buffer capacity, b.SameToZero b' → b'.text = s

/-- The bytes before the first zero are read, and no others. -/
theorem readExactly_text {capacity : Nat} (b : Buffer capacity) : ReadExactly b b.text where
  looked _ _ lies := Buffer.walk_iff lies
  inside start a ha := by
    have short := b.length_content_le
    have within := List.mem_range'_1.mp ha
    omega
  beginning := b.content_prefix
  no_zero := b.zero_not_mem_content
  stops := b.content_stops
  reads := ⟨_, fun _ => Text.reading_iff, rfl⟩
  valid t ht := by
    rw [Buffer.text, ht]
    exact (Text.lossy_written t.toList).trans String.ofList_toList
  same _ same := same.text_eq.symm

/-- Whatever is read exactly is the text of the pieces. -/
theorem ReadExactly.eq_pieces {capacity : Nat} {b : Buffer capacity} {s : String}
    (h : ReadExactly b s) :
    s = String.ofList ((Text.pieces none b.content).map fun c => c.getD replacement) := by
  obtain ⟨ps, only, hs⟩ := h.reads
  rw [hs, (only _).mp (Text.reading_iff.mpr rfl)]

/-- Every buffer is read back exactly, and so is each text that a module answers in one. -/
theorem read_back_exactly {μ : Type} [ModuleCode μ] :
    (∀ capacity (b : Buffer capacity), ReadExactly b b.text) ∧
      (∀ (p : NativeProvider μ) on window caller passed a code,
        CString.ofText? caller = some passed →
        enter p.code on (.start window passed) = (.ok a, code) →
        ∃ info, (p.start on window caller).1 = .ok info ∧ ReadExactly a.name info.name ∧
          ReadExactly a.auxLabel info.auxLabel) ∧
      ∀ (p : NativeProvider μ) on window project mayChange, ∀ (a : PathAnswer) (code : μ),
        enter p.code on (.projectPath p.context window (.ofProject project) mayChange) =
          (.ok a, code) →
        ∃ choice, (p.chooseProject on window project mayChange).1 = .ok choice ∧
          ReadExactly a.project.user choice.project.user ∧
          ReadExactly a.project.name choice.project.name ∧
          ReadExactly a.project.localPath choice.project.localPath ∧
          ReadExactly a.project.auxPath choice.project.auxPath := by
  refine ⟨fun _ => readExactly_text, ?_, ?_⟩
  · intro p on window caller passed a code hpassed entered
    refine ⟨NativeProvider.startInfo a, ?_, readExactly_text _, readExactly_text _⟩
    simp only [NativeProvider.start, hpassed, NativeProvider.call, entered]
    rfl
  · intro p on window project mayChange a code entered
    refine ⟨⟨⟨a.code⟩, a.project.project, a.isNew != 0⟩, ?_, readExactly_text _,
      readExactly_text _, readExactly_text _, readExactly_text _⟩
    rw [NativeProvider.chooseProject, NativeProvider.call, entered]
    rfl

open Rehearsal

/-- The module leaves the beginning of a character before a zero, and another byte after it; and a
name with a byte that no character has, in place of the name it was given. -/
theorem read_back_exactly_broken :
    let reply : ModuleReply := { name := some [0x41, 0xE2, 0x82, 0, 0x42] }
    let moved : ModuleReply := { project := some [0xFF, 0x42] }
    let p : NativeProvider ScriptedModule :=
      { code := { script := ⟨[(.start, [reply]), (.projectPath, [moved])]⟩ }, hasProperties := true,
        hasExtendedCapability := true }
    let project : Project := { name := "project" }
    (∃ passed a code, CString.ofText? "c" = some passed ∧
      enter p.code .worker (.start .none passed) = (.ok a, code) ∧
      ∃ info, (p.start .worker .none "c").1 = .ok info ∧
        info.name = String.ofList ['A', replacement]) ∧
      ∃ a code, enter p.code .worker (.projectPath p.context .none (.ofProject project) true) =
          (.ok a, code) ∧
        ∃ choice, (p.chooseProject .worker .none project true).1 = .ok choice ∧
          choice.project.name = String.ofList [replacement, 'B'] := by
  intro reply moved p project
  constructor
  · have passed : CString.ofText? "c" = some ⟨[0x63], by decide⟩ := by decide +kernel
    obtain ⟨info, answered, named, -⟩ :=
      read_back_exactly.2.1 p .worker .none "c" _ (reply.start 0) _ passed rfl
    refine ⟨_, reply.start 0, _, passed, rfl, info, answered, ?_⟩
    rw [named.eq_pieces]
    decide +kernel
  · obtain ⟨choice, answered, -, named, -⟩ :=
      read_back_exactly.2.2 p .worker .none project true (moved.path 0 (.ofProject project)) _ rfl
    refine ⟨_, _, rfl, choice, answered, ?_⟩
    rw [named.eq_pieces]
    decide +kernel

end SccDispatch.Native
