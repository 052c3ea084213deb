import Mathlib.Data.List.TakeWhile
import SccDispatch.Native.Provider
import SccDispatch.Proofs.TextBytes
import SccDispatch.Rehearsal.Module

namespace SccDispatch

namespace Text

theorem lossy_written (cs : List Char) : lossy (written cs) = String.ofList cs := by
  simp [lossy, pieces_written, Function.comp_def]

/-- Bytes always come to something. -/
theorem eq_nil_of_pieces {st : Option Partial} {bs : List UInt8} (h : pieces st bs = []) :
    st = none ∧ bs = [] := by
  induction bs generalizing st with
  | nil =>
    cases st with
    | none => exact ⟨rfl, rfl⟩
    | some p => cases h
  | cons b rest ih =>
    cases st with
    | none =>
      rw [pieces] at h
      split at h
      next => cases h
      next => cases (ih h).1
      next => cases h
    | some p =>
      rw [pieces] at h
      split at h
      next =>
        split at h
        next => cases h
        next => cases (ih h).1
      next => split at h <;> cases h

/-- The first bytes of one character, if not all, are one part that is no character. -/
theorem pieces_of_cut {st : Option Partial} {bs more : List UInt8} {c : Char}
    (h : pieces st (bs ++ more) = [some c]) (hmore : more ≠ []) (hbs : st = none → bs ≠ []) :
    pieces st bs = [none] := by
  induction bs generalizing st with
  | nil =>
    cases st with
    | none => exact absurd rfl (hbs rfl)
    | some p => rfl
  | cons b rest ih =>
    -- A character may not end here, because there is more.
    have goes_on : pieces none (rest ++ more) ≠ [] := fun hn =>
      hmore (List.append_eq_nil_iff.mp (eq_nil_of_pieces hn).2).2
    rw [List.cons_append] at h
    cases st with
    | none =>
      rw [pieces] at h ⊢
      split at h
      next => exact absurd (List.cons.inj h).2 goes_on
      next => exact ih h fun he => absurd he (Option.some_ne_none _)
      next => cases (List.cons.inj h).1
    | some p =>
      rw [pieces] at h ⊢
      split at h
      next hf =>
        rw [if_pos hf]
        split at h
        next => exact absurd (List.cons.inj h).2 goes_on
        next ho =>
          rw [if_neg ho]
          exact ih h fun he => absurd he (Option.some_ne_none _)
      next => split at h <;> cases (List.cons.inj h).1

/-- A character that breaks off is read as no character. -/
theorem pieces_take_utf8EncodeChar (c : Char) {n : Nat} (hpos : 0 < n)
    (hn : n < (String.utf8EncodeChar c).length) :
    pieces none ((String.utf8EncodeChar c).take n) = [none] := by
  have whole := pieces_utf8EncodeChar c []
  rw [List.append_nil, ← List.take_append_drop n (String.utf8EncodeChar c)] at whole
  refine pieces_of_cut whole ?_ fun _ => ?_
  · exact List.drop_eq_nil_iff.not.mpr (Nat.not_le.mpr hn)
  · exact List.ne_nil_of_length_pos (by rw [List.length_take]; omega)

/-- One of the characters lies on both sides of the `n`th byte. -/
def Splits (n : Nat) (cs : List Char) : Prop :=
  ∃ kept c rest, cs = kept ++ c :: rest ∧ (written kept).length < n ∧
    n < (written (kept ++ [c])).length

/-- What is left of a character that was cut is read as one mark. -/
theorem lossy_of_split {n : Nat} {kept rest : List Char} {c : Char}
    (hlo : (written kept).length < n) (hhi : n < (written (kept ++ [c])).length) :
    lossy ((written (kept ++ c :: rest)).take n) = String.ofList (kept ++ [replacement]) := by
  have first : (written (kept ++ c :: rest)).take n =
      written kept ++ (String.utf8EncodeChar c).take (n - (written kept).length) := by
    rw [written_append, List.length_append, written_singleton] at hhi
    rw [written_append, List.take_append, List.take_of_length_le hlo.le, written_cons,
      List.take_append_of_le_length (by omega)]
  rw [written_append, List.length_append, written_singleton] at hhi
  have cut := pieces_take_utf8EncodeChar c (n := n - (written kept).length) (by omega) (by omega)
  simp [lossy, first, pieces_written_append, cut, Function.comp_def]

/-- Without a cut the first bytes are those of the first characters. -/
theorem take_written {n : Nat} {cs : List Char} (h : ¬Splits n cs) :
    ∃ kept, kept <+: cs ∧ (written cs).take n = written kept := by
  induction cs generalizing n with
  | nil => exact ⟨[], List.prefix_rfl, List.take_nil⟩
  | cons c cs ih =>
    rcases Nat.eq_zero_or_pos n with rfl | hpos
    · exact ⟨[], List.nil_prefix, rfl⟩
    rcases Nat.lt_or_ge n (String.utf8EncodeChar c).length with hn | hn
    · refine absurd ⟨[], c, cs, rfl, hpos, ?_⟩ h
      rwa [List.nil_append, written_singleton]
    · have rest : ¬Splits (n - (String.utf8EncodeChar c).length) cs := by
        rintro ⟨kept, d, rest, rfl, hlo, hhi⟩
        refine h ⟨c :: kept, d, rest, rfl, ?_, ?_⟩
        · rw [written_cons, List.length_append]
          omega
        · rw [List.cons_append, written_cons, List.length_append]
          omega
      obtain ⟨kept, hk, ht⟩ := ih rest
      refine ⟨c :: kept, List.cons_prefix_cons.mpr ⟨rfl, hk⟩, ?_⟩
      rw [written_cons, List.take_append, List.take_of_length_le hn, ht, written_cons]

def beforeZero (s : String) : List Char := s.toList.takeWhile (· != '\x00')

theorem beforeZero_prefix (s : String) : beforeZero s <+: s.toList := List.takeWhile_prefix _

theorem beforeZero_eq {s : String} (h : '\x00' ∉ s.toList) : beforeZero s = s.toList := by
  refine List.takeWhile_eq_self_iff.mpr fun c hc => ?_
  simp only [bne_iff_ne]
  rintro rfl
  exact h hc

/-- The first zero byte of a text is its first zero character. -/
theorem takeWhile_written (cs : List Char) :
    (written cs).takeWhile (· != 0) = written (cs.takeWhile (· != '\x00')) := by
  induction cs with
  | nil => rfl
  | cons c cs ih =>
    by_cases hc : c = '\x00'
    · subst hc
      rfl
    · have nonzero : ∀ b ∈ String.utf8EncodeChar c, (b != 0) = true := by
        intro b hb
        simp only [bne_iff_ne]
        rintro rfl
        refine hc (Char.toNat_inj.mp ?_)
        exact (zero_mem_utf8EncodeChar c).mp hb
      rw [written_cons, List.takeWhile_append_of_pos nonzero, ih,
        List.takeWhile_cons_of_pos (by simpa using hc), written_cons]

theorem takeWhile_zeros (bs : List UInt8) (n : Nat) :
    (bs ++ List.replicate n 0).takeWhile (· != 0) = bs.takeWhile (· != 0) := by
  induction bs with
  | nil => simp
  | cons b bs ih => simp only [List.cons_append, List.takeWhile_cons, ih]

end Text

namespace Native

open Text (beforeZero lossy replacement Splits written)

/-- A buffer that nobody has written to holds the first bytes of the text, up to a zero. -/
theorem content_ofText (n : Nat) (s : String) :
    (Buffer.ofText n s).content = (written (beforeZero s)).take n := by
  have short : ((Text.bytes s).take n).length ≤ n := List.length_take_le ..
  have filled : (fit (n + 1) ((Text.bytes s).take n)).take n =
      (Text.bytes s).take n ++ List.replicate (n - ((Text.bytes s).take n).length) 0 := by
    rw [fit, List.take_of_length_le (i := n + 1) (by omega), List.take_append,
      List.take_of_length_le short, List.take_replicate]
    congr 2
    omega
  rw [Buffer.content, Buffer.ofText, filled, Text.takeWhile_zeros, ← List.take_takeWhile]
  exact congrArg _ (Text.takeWhile_written s.toList)

/-- A beginning of the text, of at most `n` bytes. -/
structure Shortens (n : Nat) (s t : String) : Prop where
  beginning : t.toList <+: s.toList
  bounded : (Text.bytes t).length ≤ n

/-- What is read back of a text from a buffer for `n` bytes. -/
structure ReadBack (n : Nat) (s t : String) : Prop where
  shortens : Shortens n s t ↔ ¬Splits n (beforeZero s)
  /-- All that the buffer has room for is kept. -/
  kept : ¬Splits n (beforeZero s) → Text.bytes t = (written (beforeZero s)).take n
  /-- There is a mark in the place of the character that was cut. -/
  split : ∀ kept c rest, beforeZero s = kept ++ c :: rest → (written kept).length < n →
    n < (written (kept ++ [c])).length → t = String.ofList (kept ++ [replacement])
  fits : (Text.bytes s).length ≤ n → '\x00' ∉ s.toList → t = s

/-- Where a character was cut there is no beginning of the text: either it has another character
there, or it has that very mark and there is no room for it. -/
theorem not_shortens_of_split {n : Nat} {s : String} {kept rest : List Char} {c : Char}
    (hs : beforeZero s = kept ++ c :: rest) (hhi : n < (written (kept ++ [c])).length) :
    ¬Shortens n s (String.ofList (kept ++ [replacement])) := by
  rintro ⟨beginning, bounded⟩
  have here : kept ++ [c] <+: s.toList := by
    refine List.IsPrefix.trans ?_ (Text.beforeZero_prefix s)
    rw [hs]
    exact ⟨rest, by simp⟩
  rw [String.toList_ofList] at beginning
  have same := List.prefix_of_prefix_length_le beginning here (by simp)
  have same := same.eq_of_length (by simp)
  rw [Text.bytes, String.toList_ofList, same] at bounded
  exact absurd bounded (Nat.not_le.mpr hhi)

/-- A character that lies across the end is replaced. -/
theorem text_of_split {n : Nat} {s : String} {kept rest : List Char} {c : Char}
    (hs : beforeZero s = kept ++ c :: rest) (hlo : (written kept).length < n)
    (hhi : n < (written (kept ++ [c])).length) :
    (Buffer.ofText n s).text = String.ofList (kept ++ [replacement]) := by
  rw [Buffer.text, content_ofText, hs, Text.lossy_of_split hlo hhi]

/-- If none does, what is kept is the beginning of the text. -/
theorem text_of_whole {n : Nat} {s : String} (h : ¬Splits n (beforeZero s)) :
    (Buffer.ofText n s).text.toList <+: beforeZero s ∧
      Text.bytes (Buffer.ofText n s).text = (written (beforeZero s)).take n := by
  obtain ⟨kept, hk, ht⟩ := Text.take_written h
  have read : (Buffer.ofText n s).text = String.ofList kept := by
    rw [Buffer.text, content_ofText, ht, Text.lossy_written]
  rw [read, ht, Text.bytes, String.toList_ofList]
  exact ⟨hk, rfl⟩

/-- Together they say what is read back of any text. -/
theorem readBack_ofText (n : Nat) (s : String) : ReadBack n s (Buffer.ofText n s).text := by
  refine ⟨⟨fun shortens => ?_, fun whole => ?_⟩, fun whole => (text_of_whole whole).2,
    fun kept c rest => text_of_split, fun hn hz => ?_⟩
  · rintro ⟨kept, c, rest, hs, hlo, hhi⟩
    rw [text_of_split hs hlo hhi] at shortens
    exact not_shortens_of_split hs hhi shortens
  · obtain ⟨beginning, kept⟩ := text_of_whole whole
    refine ⟨beginning.trans (Text.beforeZero_prefix s), ?_⟩
    rw [kept]
    exact List.length_take_le ..
  · have all : (written (beforeZero s)).take n = Text.bytes s := by
      rw [Text.beforeZero_eq hz]
      exact List.take_of_length_le hn
    rw [Buffer.text, content_ofText, all]
    exact (Text.lossy_written s.toList).trans String.ofList_toList

/-- Buffers shorten texts, unless they cut a character; a module that leaves its buffers as they are
gives back each part of a project so. -/
theorem shortened_unless_split {μ : Type} [ModuleCode μ] :
    (∀ n s, ReadBack n s (Buffer.ofText n s).text) ∧
      ∀ (p : NativeProvider μ) on window project mayChange,
        ∀ (a : PathAnswer) (code : μ),
          enter p.code on (.projectPath p.context window (.ofProject project) mayChange) =
            (.ok a, code) → a.project = .ofProject project →
          ∃ choice, (p.chooseProject on window project mayChange).1 = .ok choice ∧
            ReadBack userCapacity project.user choice.project.user ∧
            ReadBack projectCapacity project.name choice.project.name ∧
            ReadBack pathCapacity project.localPath choice.project.localPath ∧
            ReadBack projectCapacity project.auxPath choice.project.auxPath := by
  refine ⟨readBack_ofText, fun p on window project mayChange a code entered untouched => ?_⟩
  refine ⟨⟨⟨a.code⟩, (ProjectBuffers.ofProject project).project, a.isNew != 0⟩, ?_,
    readBack_ofText .., readBack_ofText .., readBack_ofText .., readBack_ofText ..⟩
  rw [NativeProvider.chooseProject, NativeProvider.call, entered, ← untouched]
  rfl

open Rehearsal

theorem shortened_unless_split_short :
    let p : NativeProvider ScriptedModule :=
      { code := {}, hasProperties := true, hasExtendedCapability := true }
    let project : Project := { user := "é", name := "p" }
    ∃ a code, enter p.code .worker (.projectPath p.context .none (.ofProject project) true) =
        (.ok a, code) ∧ a.project = .ofProject project ∧
      ∃ choice, (p.chooseProject .worker .none project true).1 = .ok choice ∧
        choice.project.user = "é" := by
  intro p project
  obtain ⟨choice, answered, user, -⟩ :=
    shortened_unless_split.2 p .worker .none project true _ _ rfl rfl
  exact ⟨_, _, rfl, rfl, choice, answered, user.fits (by decide +kernel) (by decide +kernel)⟩

/-- One byte of the two of a character comes back as a mark that needs three. -/
theorem cut_not_shortens : ¬Shortens 1 "é" (Buffer.ofText 1 "é").text := fun h =>
  (readBack_ofText 1 "é").shortens.mp h
    ⟨[], 'é', [], by decide +kernel, by decide +kernel, by decide +kernel⟩

end Native

end SccDispatch
