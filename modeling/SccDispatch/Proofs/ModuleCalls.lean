import SccDispatch.Proofs.TextBytes
import SccDispatch.Rehearsal.Module

namespace SccDispatch.Native

/-- Code of a module that remembers how it was entered. -/
structure Logged (μ : Type) where
  code : μ
  entries : List (Thread × EntryCall) := []

variable {μ : Type}

section

variable [ModuleCode μ]

def Logged.enter (m : Logged μ) (on : Thread) (c : EntryCall) :
    Except Cause c.Answer × Logged μ :=
  let (answer, code) := ModuleCode.enter m.code on c
  (answer, { code, entries := m.entries ++ [(on, c)] })

instance : ModuleCode (Logged μ) := ⟨Logged.enter, fun m => ModuleCode.spent m.code⟩

end

namespace CString

theorem ofText?_eq_some_iff {s : String} {c : CString} :
    ofText? s = some c ↔ c.bytes = Text.bytes s := by
  unfold ofText?
  split
  next h =>
    constructor
    · rintro ⟨⟩
    · intro hb
      exact absurd (hb ▸ h) c.no_zero
  next h =>
    obtain ⟨bs, hbs⟩ := c
    rw [Option.some.injEq, CString.mk.injEq]
    exact eq_comm

theorem ofText?_eq_none_iff {s : String} : ofText? s = none ↔ '\x00' ∈ s.toList := by
  rw [← Text.zero_mem_bytes]
  unfold ofText?
  split <;> simp_all

theorem ofTexts?_nil : ofTexts? [] = some [] := rfl

theorem ofTexts?_cons (file : String) (files : List String) :
    ofTexts? (file :: files) =
      (ofText? file).bind fun f => (ofTexts? files).map (f :: ·) := by
  simp only [ofTexts?, List.mapM_cons, Option.map_eq_bind]
  rfl

/-- Texts that can be passed are passed byte by byte. -/
theorem ofTexts?_eq_some_iff {files : List String} {fs : List CString} :
    ofTexts? files = some fs ↔ fs.map bytes = files.map Text.bytes := by
  induction files generalizing fs with
  | nil =>
    rw [ofTexts?_nil, Option.some.injEq, List.map_nil, List.map_eq_nil_iff]
    exact eq_comm
  | cons file files ih =>
    simp only [ofTexts?_cons, Option.bind_eq_some_iff, Option.map_eq_some_iff, ofText?_eq_some_iff,
      ih, List.map_cons, List.map_eq_cons_iff]
    constructor
    · rintro ⟨f, hf, rest, hrest, rfl⟩
      exact ⟨f, rest, rfl, hf, hrest⟩
    · rintro ⟨f, rest, rfl, hf, hrest⟩
      exact ⟨f, hf, rest, hrest, rfl⟩

/-- One zero character is enough to keep all texts from being passed. -/
theorem ofTexts?_eq_none_iff {files : List String} :
    ofTexts? files = none ↔ ∃ file ∈ files, '\x00' ∈ file.toList := by
  induction files with
  | nil => simp [ofTexts?_nil]
  | cons file files ih =>
    simp only [ofTexts?_cons, List.mem_cons, exists_eq_or_imp]
    rw [← ih, ← ofText?_eq_none_iff]
    cases ofText? file <;> simp

end CString

/-- The texts of a call that are passed as strings. -/
def textsOf : Call → List String
  | .openProject _ project comment _ => [project.name, project.localPath, comment]
  | .checkOut _ files comment | .checkIn _ files comment _ | .add _ files comment
  | .remove _ files comment => comment :: files
  | .undoCheckOut _ files | .history _ files | .queryStatus files => files
  | .diff _ file | .properties _ file => [file]
  | .start .. | .stop | .threadsafeQuery | .closeProject | .chooseProject .. => []

/-- One string for each file, in the order of the files, and their number. -/
structure FileCall.Lists (f : FileCall) (context : Context) (window : Window)
    (files : List String) : Prop where
  context : f.context = context
  window : f.window = window
  count : f.count = .ofNat files.length
  files : f.files.map CString.bytes = files.map Text.bytes

/-- The entry point that a call goes through with all that is passed, and how the module's answer is
read. -/
inductive Handover (context : Context) :
    (call : Call) → (c : EntryCall) → (c.Answer → call.Answer) → Prop
  | openProject {window : Window} {project : Project} {comment : String} {flags : Int32}
      {name localPath c : CString} (named : name.bytes = Text.bytes project.name)
      (located : localPath.bytes = Text.bytes project.localPath)
      (commented : c.bytes = Text.bytes comment) :
      Handover context (.openProject window project comment flags)
        (.openProject context window (.ofText _ project.user) name localPath
          (.ofText _ project.auxPath) c flags)
        ResultCode.mk
  | checkOut {window : Window} {files : List String} {comment : String} {f : FileCall}
      {c : CString} (lists : f.Lists context window files)
      (commented : c.bytes = Text.bytes comment) :
      Handover context (.checkOut window files comment) (.checkOut f c 0) ResultCode.mk
  | undoCheckOut {window : Window} {files : List String} {f : FileCall}
      (lists : f.Lists context window files) :
      Handover context (.undoCheckOut window files) (.undoCheckOut f 0) ResultCode.mk
  | checkIn {window : Window} {files : List String} {comment : String} {flags : Int32}
      {f : FileCall} {c : CString} (lists : f.Lists context window files)
      (commented : c.bytes = Text.bytes comment) :
      Handover context (.checkIn window files comment flags) (.checkIn f c flags) ResultCode.mk
  | add {window : Window} {files : List String} {comment : String} {f : FileCall} {c : CString}
      (lists : f.Lists context window files) (commented : c.bytes = Text.bytes comment) :
      Handover context (.add window files comment) (.add f c (List.replicate files.length 0))
        ResultCode.mk
  | remove {window : Window} {files : List String} {comment : String} {f : FileCall} {c : CString}
      (lists : f.Lists context window files) (commented : c.bytes = Text.bytes comment) :
      Handover context (.remove window files comment) (.remove f c 0) ResultCode.mk
  | diff {window : Window} {file : String} {c : CString} (named : c.bytes = Text.bytes file) :
      Handover context (.diff window file) (.diff context window c 0) ResultCode.mk
  | history {window : Window} {files : List String} {f : FileCall}
      (lists : f.Lists context window files) :
      Handover context (.history window files) (.history f 0) ResultCode.mk
  | properties {window : Window} {file : String} {c : CString}
      (named : c.bytes = Text.bytes file) :
      Handover context (.properties window file) (.properties context window c) ResultCode.mk
  | queryStatus {files : List String} {fs : List CString}
      (named : fs.map CString.bytes = files.map Text.bytes) :
      Handover context (.queryStatus files)
        (.queryInfo context (.ofNat files.length) fs (List.replicate files.length 0))
        fun a => ⟨⟨a.code⟩, a.masks⟩

/-- Calls about files, and those that open a project. -/
def handsOver : Call → Prop
  | .start .. | .stop | .threadsafeQuery | .closeProject | .chooseProject .. => False
  | _ => True

/-- The answer to such a call when it is refused. -/
def refusal (code : ResultCode) : (call : Call) → call.Answer
  | .start .. => { code }
  | .threadsafeQuery => false
  | .chooseProject .. => { code }
  | .queryStatus _ => { code, masks := [] }
  | .stop | .openProject .. | .closeProject | .checkOut .. | .undoCheckOut .. | .checkIn ..
  | .add .. | .remove .. | .diff .. | .history .. | .properties .. => code

/-- The module has no entry point for the call. -/
def NativeProvider.lacks (p : NativeProvider μ) : Call → Prop
  | .properties .. => p.hasProperties = false
  | _ => False

namespace NativeProvider

variable [ModuleCode μ]

section

variable (p : NativeProvider μ) (on : Thread) (window : Window) {files : List String}
  {comment : String}

theorem withFiles_of_zero (h : ∃ file ∈ files, '\x00' ∈ file.toList) (c : FileCall → EntryCall)
    (read : ∀ f, (c f).Answer → ResultCode) :
    p.withFiles on window files c read = p.answer .invalidFilePath := by
  rw [withFiles, CString.ofTexts?_eq_none_iff.mpr h]

theorem exists_names (h : ∀ file ∈ files, '\x00' ∉ file.toList) :
    ∃ fs, CString.ofTexts? files = some fs := by
  cases hf : CString.ofTexts? files with
  | some fs => exact ⟨fs, rfl⟩
  | none =>
    obtain ⟨file, hm, hz⟩ := CString.ofTexts?_eq_none_iff.mp hf
    exact absurd hz (h file hm)

theorem exists_text {s : String} (h : '\x00' ∉ s.toList) : ∃ c, CString.ofText? s = some c := by
  cases hs : CString.ofText? s with
  | some c => exact ⟨c, rfl⟩
  | none => exact absurd (CString.ofText?_eq_none_iff.mp hs) h

/-- Files that can be passed are handed over with the context and the window. -/
theorem withFiles_of_passable (h : ∀ file ∈ files, '\x00' ∉ file.toList)
    (c : FileCall → EntryCall) (read : ∀ f, (c f).Answer → ResultCode) :
    ∃ f : FileCall, f.Lists p.context window files ∧
      p.withFiles on window files c read = p.call on (c f) (read f) := by
  obtain ⟨fs, hf⟩ := exists_names h
  have hb := CString.ofTexts?_eq_some_iff.mp hf
  have hl : fs.length = files.length := by simpa using congrArg List.length hb
  exact ⟨⟨p.context, window, .ofNat fs.length, fs⟩, ⟨rfl, rfl, by rw [hl], hb⟩,
    by rw [withFiles, hf]⟩

theorem withComment_of_zero (h : ∃ s ∈ comment :: files, '\x00' ∈ s.toList)
    (c : FileCall → CString → EntryCall) (read : ∀ f s, (c f s).Answer → ResultCode) :
    p.withComment on window files comment c read = p.answer .invalidFilePath := by
  unfold withComment
  cases hs : CString.ofText? comment with
  | none => rfl
  | some s =>
    refine withFiles_of_zero p on window ?_ _ _
    simpa [← CString.ofText?_eq_none_iff, hs] using h

/-- Files and a comment that can be passed are handed over likewise. -/
theorem withComment_of_passable (h : ∀ s ∈ comment :: files, '\x00' ∉ s.toList)
    (c : FileCall → CString → EntryCall) (read : ∀ f s, (c f s).Answer → ResultCode) :
    ∃ (f : FileCall) (s : CString), f.Lists p.context window files ∧ s.bytes = Text.bytes comment ∧
      p.withComment on window files comment c read = p.call on (c f s) (read f s) := by
  obtain ⟨s, hs⟩ := exists_text (h comment List.mem_cons_self)
  obtain ⟨f, hl, he⟩ := withFiles_of_passable p on window
    (fun file hm => h file (List.mem_cons_of_mem _ hm)) (c · s) (read · s)
  exact ⟨f, s, hl, CString.ofText?_eq_some_iff.mp hs, by rw [withComment, hs]; exact he⟩

end

/-- A module that lacks the entry point is not entered. -/
theorem respond_of_lacks (p : NativeProvider μ) (on : Thread) {call : Call} (h : p.lacks call) :
    respond p on call = (.ok (refusal .opNotSupported call), p) := by
  cases call with
  | properties window file =>
    have hp : p.hasProperties = false := h
    simp [Provider.respond, answerTo, properties, hp, answer, refusal]
  | _ => exact h.elim

/-- A text with a zero character keeps the module from being entered. -/
theorem respond_of_zero (p : NativeProvider μ) (on : Thread) {call : Call} (hl : ¬p.lacks call)
    (h : ∃ s ∈ textsOf call, '\x00' ∈ s.toList) :
    respond p on call = (.ok (refusal .invalidFilePath call), p) := by
  cases call with
  | openProject window project comment flags =>
    simp only [textsOf, List.mem_cons, List.not_mem_nil, or_false, exists_eq_or_imp,
      exists_eq_left, ← CString.ofText?_eq_none_iff] at h
    simp only [Provider.respond, answerTo, openProject]
    split
    next hn hp hc => simp [hn, hp, hc] at h
    next => rfl
  | checkOut window files comment => exact withComment_of_zero p on window h _ _
  | undoCheckOut window files =>
    have h : ∃ file ∈ files, '\x00' ∈ file.toList := h
    exact withFiles_of_zero p on window h (.undoCheckOut · 0) fun _ => ResultCode.mk
  | checkIn window files comment flags => exact withComment_of_zero p on window h _ _
  | add window files comment => exact withComment_of_zero p on window h _ _
  | remove window files comment => exact withComment_of_zero p on window h _ _
  | diff window file =>
    have hf : CString.ofText? file = none := by simpa [textsOf, CString.ofText?_eq_none_iff] using h
    simp [Provider.respond, answerTo, diff, hf, answer, refusal]
  | history window files =>
    have h : ∃ file ∈ files, '\x00' ∈ file.toList := h
    exact withFiles_of_zero p on window h (.history · 0) fun _ => ResultCode.mk
  | properties window file =>
    have hp : p.hasProperties = true := Bool.not_eq_false _ ▸ hl
    have hf : CString.ofText? file = none := by simpa [textsOf, CString.ofText?_eq_none_iff] using h
    simp [Provider.respond, answerTo, properties, hp, hf, answer, refusal]
  | queryStatus files =>
    have hf : CString.ofTexts? files = none := CString.ofTexts?_eq_none_iff.mpr h
    simp [Provider.respond, answerTo, queryStatus, hf, answer, refusal]
  | start | stop | threadsafeQuery | closeProject | chooseProject => simp [textsOf] at h

/-- Texts without a zero character reach the module. -/
theorem respond_of_passable (p : NativeProvider μ) (on : Thread) {call : Call}
    (hh : handsOver call) (hl : ¬p.lacks call) (h : ∀ s ∈ textsOf call, '\x00' ∉ s.toList) :
    ∃ c read, Handover p.context call c read ∧ respond p on call = p.call on c read := by
  cases call with
  | openProject window project comment flags =>
    obtain ⟨name, hn⟩ := exists_text (h project.name (by simp [textsOf]))
    obtain ⟨localPath, hp⟩ := exists_text (h project.localPath (by simp [textsOf]))
    obtain ⟨c, hc⟩ := exists_text (h comment (by simp [textsOf]))
    refine ⟨_, _, .openProject (CString.ofText?_eq_some_iff.mp hn)
      (CString.ofText?_eq_some_iff.mp hp) (CString.ofText?_eq_some_iff.mp hc), ?_⟩
    simp only [Provider.respond, answerTo, openProject, hn, hp, hc]
  | checkOut window files comment =>
    obtain ⟨f, c, lists, commented, he⟩ := withComment_of_passable p on window h _ _
    exact ⟨_, _, .checkOut lists commented, he⟩
  | undoCheckOut window files =>
    have h : ∀ file ∈ files, '\x00' ∉ file.toList := h
    obtain ⟨f, lists, he⟩ := withFiles_of_passable p on window h (.undoCheckOut · 0)
      fun _ => ResultCode.mk
    exact ⟨_, _, .undoCheckOut lists, he⟩
  | checkIn window files comment flags =>
    obtain ⟨f, c, lists, commented, he⟩ := withComment_of_passable p on window h _ _
    exact ⟨_, _, .checkIn lists commented, he⟩
  | add window files comment =>
    obtain ⟨f, c, lists, commented, he⟩ := withComment_of_passable p on window h
      (fun f s => .add f s (List.replicate f.files.length 0)) fun _ _ => ResultCode.mk
    have hn : f.files.length = files.length := by simpa using congrArg List.length lists.files
    rw [hn] at he
    exact ⟨_, _, .add lists commented, he⟩
  | remove window files comment =>
    obtain ⟨f, c, lists, commented, he⟩ := withComment_of_passable p on window h _ _
    exact ⟨_, _, .remove lists commented, he⟩
  | diff window file =>
    obtain ⟨c, hc⟩ := exists_text (h file (by simp [textsOf]))
    refine ⟨_, _, .diff (CString.ofText?_eq_some_iff.mp hc), ?_⟩
    simp only [Provider.respond, answerTo, diff, hc]
  | history window files =>
    have h : ∀ file ∈ files, '\x00' ∉ file.toList := h
    obtain ⟨f, lists, he⟩ := withFiles_of_passable p on window h (.history · 0)
      fun _ => ResultCode.mk
    exact ⟨_, _, .history lists, he⟩
  | properties window file =>
    have hp : p.hasProperties = true := Bool.not_eq_false _ ▸ hl
    obtain ⟨c, hc⟩ := exists_text (h file (by simp [textsOf]))
    refine ⟨_, _, .properties (CString.ofText?_eq_some_iff.mp hc), ?_⟩
    simp only [Provider.respond, answerTo, properties, hp, if_true, hc]
  | queryStatus files =>
    have h : ∀ file ∈ files, '\x00' ∉ file.toList := h
    obtain ⟨fs, hf⟩ := exists_names h
    have hb := CString.ofTexts?_eq_some_iff.mp hf
    have hn : fs.length = files.length := by simpa using congrArg List.length hb
    refine ⟨_, _, .queryStatus hb, ?_⟩
    simp only [Provider.respond, answerTo, queryStatus, hf]
    rw [hn]
  | start | stop | threadsafeQuery | closeProject | chooseProject => exact hh.elim

/-- A call about files or a project is refused without entering the module if the module has no
entry point for it or a text holds a zero character; otherwise the module is entered once, with all
that the call passes, and its answer is the provider's. -/
theorem handed_over (p : NativeProvider (Logged μ)) (on : Thread) {call : Call}
    (hh : handsOver call) :
    (p.lacks call → respond p on call = (.ok (refusal .opNotSupported call), p)) ∧
      (¬p.lacks call → (∃ s ∈ textsOf call, '\x00' ∈ s.toList) →
        respond p on call = (.ok (refusal .invalidFilePath call), p)) ∧
      (¬p.lacks call → (∀ s ∈ textsOf call, '\x00' ∉ s.toList) →
        ∃ c read, Handover p.context call c read ∧
          (respond p on call).1 = (enter p.code.code on c).1.map read ∧
          (respond p on call).2 =
            { p with code := ⟨(enter p.code.code on c).2, p.code.entries ++ [(on, c)]⟩ }) := by
  refine ⟨respond_of_lacks p on, respond_of_zero p on, fun hl hz => ?_⟩
  obtain ⟨c, read, handover, he⟩ := respond_of_passable p on hh hl hz
  exact ⟨c, read, handover, by rw [he]; rfl, by rw [he]; rfl⟩

section Pair

open Rehearsal

def warning : NativeProvider (Logged ScriptedModule) where
  code := ⟨{ script := ⟨[(.checkIn, [{ ending := .ok 7 }])]⟩ }, []⟩
  hasProperties := true
  hasExtendedCapability := true

def pair : Call := .checkIn ⟨5⟩ ["a.c", "ä.c"] "done" keepCheckedOut

theorem handed_over_pair :
    handsOver pair ∧ ∃ c read, Handover .none pair c read ∧
      (respond warning .worker pair).1 = .ok ⟨7⟩ ∧
      (respond warning .worker pair).2.code.entries = [(.worker, c)] := by
  obtain ⟨-, -, h⟩ := handed_over warning .worker (show handsOver pair from trivial)
  obtain ⟨c, read, handover, ha, he⟩ := h id (by decide)
  refine ⟨trivial, c, read, handover, ?_, by rw [he]; rfl⟩
  rw [ha]
  cases handover with
  | checkIn lists commented => rfl

end Pair

end NativeProvider

end SccDispatch.Native
