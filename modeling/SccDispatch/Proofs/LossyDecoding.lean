import Mathlib.Algebra.Group.Nat.Defs
import Mathlib.Data.List.Induction
import SccDispatch.Proofs.TextShortening

namespace SccDispatch.Text

/-- Bytes with which the writing of some character begins. -/
def Begins (bs : List UInt8) : Prop := ∃ c, bs <+: String.utf8EncodeChar c

/-- The characters of a byte string in order, `none` for each longest stretch that is no character:
a byte no character begins with, or the beginning of one that breaks off. -/
inductive Reading : List UInt8 → List (Option Char) → Prop
  | nil : Reading [] []
  | char {rest ps} (c : Char) (tail : Reading rest ps) :
    Reading (String.utf8EncodeChar c ++ rest) (some c :: ps)
  | stray {b rest ps} (alone : ¬Begins [b]) (tail : Reading rest ps) :
    Reading (b :: rest) (none :: ps)
  | part {u rest ps} (some_byte : u ≠ []) (begins : Begins u)
    (unfinished : ∀ c, ¬String.utf8EncodeChar c <+: u ++ rest)
    (breaks_off : ∀ b, rest.head? = some b → ¬Begins (u ++ [b])) (tail : Reading rest ps) :
    Reading (u ++ rest) (none :: ps)

theorem Begins.of_prefix {u v : List UInt8} (h : Begins v) (hu : u <+: v) : Begins u :=
  h.imp fun _ hv => hu.trans hv

theorem begins_utf8EncodeChar (c : Char) : Begins (String.utf8EncodeChar c) :=
  ⟨c, List.prefix_rfl⟩

/-- The reader's account of bytes that begin a character. -/
inductive Awaits : List UInt8 → Partial → Prop
  | lead {b p} (first : Lead.ofByte b = .more p) : Awaits [b] p
  | read {u p b} (before : Awaits u p) (fits : p.fits b = true) (more : 1 < p.owed) :
    Awaits (u ++ [b]) (p.read b)

theorem exists_toNat_eq {v : Nat} (valid : v.isValidChar) : ∃ c : Char, c.toNat = v :=
  ⟨.ofNatAux v valid, rfl⟩

theorem ofByte_char {b : UInt8} {c : Char} (h : Lead.ofByte b = .char c) :
    String.utf8EncodeChar c = [b] := by
  simp only [Lead.ofByte] at h
  split at h
  next small =>
    cases h
    obtain ⟨c, value⟩ := exists_toNat_eq (v := b.toNat) (Or.inl (by omega))
    rw [← value, Char.ofNat_toNat, utf8EncodeChar_eq, if_pos (by omega), value, UInt8.ofNat_toNat]
  next => repeat' (first | cases h | split at h)

/-- The bytes with which the writing of more than one byte begins. -/
theorem ofByte_more {b : UInt8} {p : Partial} (h : Lead.ofByte b = .more p) :
    (0xC2 ≤ b.toNat ∧ b.toNat < 0xE0) ∨ (0xE0 ≤ b.toNat ∧ b.toNat < 0xF0) ∨
      0xF0 ≤ b.toNat ∧ b.toNat ≤ 0xF4 := by
  simp only [Lead.ofByte] at h
  repeat' (first | cases h | omega | split at h)

theorem firstBits_eq (value owed : Nat) : firstBits value owed = value / 64 ^ owed := by
  induction owed with
  | zero => rw [firstBits_zero, Nat.pow_zero, Nat.div_one]
  | succ owed ih => rw [firstBits, ih, Nat.div_div_eq_div_mul, Nat.pow_succ]

namespace Awaits

variable {u : List UInt8} {p : Partial}

/-- Some byte fits, and those that fit go on a character. -/
theorem bounds (h : Awaits u p) :
    0 < p.owed ∧ 0x80 ≤ p.lo.toNat ∧ p.lo.toNat ≤ p.hi.toNat ∧ p.hi.toNat ≤ 0xBF := by
  cases h with
  | lead first =>
    rcases ofByte_more first with ⟨lo, hi⟩ | ⟨lo, hi⟩ | ⟨lo, hi⟩
    · obtain rfl := Lead.more.inj ((ofByte_two lo hi).symm.trans first)
      simp only [UInt8.reduceToNat]
      omega
    · obtain rfl := Lead.more.inj ((ofByte_three lo hi).symm.trans first)
      dsimp only
      split <;> split <;> simp only [UInt8.reduceToNat] <;> omega
    · obtain rfl := Lead.more.inj ((ofByte_four lo hi).symm.trans first)
      dsimp only
      split <;> split <;> simp only [UInt8.reduceToNat] <;> omega
  | read before fits more =>
    simp only [Partial.read, UInt8.reduceToNat]
    omega

theorem toNat_of_fits {b : UInt8} (fits : p.fits b = true) :
    p.lo.toNat ≤ b.toNat ∧ b.toNat ≤ p.hi.toNat := by
  simpa only [Partial.fits, Bool.and_eq_true, decide_eq_true_eq, UInt8.le_iff_toNat_le] using fits

/-- A byte that fits puts its bits after those that were read. -/
theorem read_bits {b : UInt8} (h : Awaits u p) (fits : p.fits b = true) :
    (p.read b).value / 64 = p.value ∧ tailByte (p.read b).value = b := by
  have bounds := h.bounds
  have within := toNat_of_fits fits
  have bits : (p.read b).value / 64 = p.value ∧ (p.read b).value % 64 + 128 = b.toNat := by
    simp only [Partial.read]
    omega
  exact ⟨bits.1, by rw [tailByte, bits.2, UInt8.ofNat_toNat]⟩

/-- Bits that are in bounds and go on those of a first byte make a character. -/
theorem lead_ends {b : UInt8} {value owed : Nat} (first : Lead.ofByte b = .more p)
    (howed : p.owed = owed + 1) (hvalue : p.value = firstBits value (owed + 1))
    (hlo : p.lo.toNat ≤ firstBits value owed % 64 + 128)
    (hhi : firstBits value owed % 64 + 128 ≤ p.hi.toNat) :
    ∃ c : Char, c.toNat = value ∧ b :: tailBytes value (owed + 1) = String.utf8EncodeChar c := by
  rcases ofByte_more first with ⟨lo, hi⟩ | ⟨lo, hi⟩ | ⟨lo, hi⟩
  · obtain rfl := Lead.more.inj ((ofByte_two lo hi).symm.trans first)
    obtain rfl : 0 = owed := Nat.succ.inj howed
    simp only [Nat.reduceAdd, firstBits_one] at hvalue
    obtain ⟨c, rfl⟩ := exists_toNat_eq (v := value) (Or.inl (by omega))
    refine ⟨c, rfl, ?_⟩
    rw [utf8EncodeChar_eq, if_neg (by omega), if_pos (by omega),
      show c.toNat / 64 % 32 + 192 = b.toNat by omega, UInt8.ofNat_toNat]
  · obtain rfl := Lead.more.inj ((ofByte_three lo hi).symm.trans first)
    obtain rfl : 1 = owed := Nat.succ.inj howed
    simp only [Nat.reduceAdd, firstBits_one, firstBits_two] at hvalue hlo hhi
    have large : 2048 ≤ value := by
      split at hlo <;> simp only [UInt8.reduceToNat] at hlo <;> omega
    have whole : value < 0xD800 ∨ 0xDFFF < value := by
      split at hhi <;> simp only [UInt8.reduceToNat] at hhi <;> omega
    obtain ⟨c, rfl⟩ := exists_toNat_eq (v := value) (whole.imp_right fun _ => by omega)
    refine ⟨c, rfl, ?_⟩
    rw [utf8EncodeChar_eq, if_neg (by omega), if_neg (by omega), if_pos (by omega),
      show c.toNat / 4096 % 16 + 224 = b.toNat by omega, UInt8.ofNat_toNat]
  · obtain rfl := Lead.more.inj ((ofByte_four lo hi).symm.trans first)
    obtain rfl : 2 = owed := Nat.succ.inj howed
    simp only [Nat.reduceAdd, firstBits_two, firstBits_three] at hvalue hlo hhi
    have large : 65536 ≤ value := by
      split at hlo <;> simp only [UInt8.reduceToNat] at hlo <;> omega
    have bounded : value < 0x110000 := by
      split at hhi <;> simp only [UInt8.reduceToNat] at hhi <;> omega
    obtain ⟨c, rfl⟩ := exists_toNat_eq (v := value) (Or.inr ⟨by omega, bounded⟩)
    refine ⟨c, rfl, ?_⟩
    rw [utf8EncodeChar_eq, if_neg (by omega), if_neg (by omega), if_neg (by omega),
      show c.toNat / 262144 % 8 + 240 = b.toNat by omega, UInt8.ofNat_toNat]

/-- Bits that are in bounds and go on those that were read make a character. -/
theorem ends (h : Awaits u p) (value owed : Nat) (howed : p.owed = owed + 1)
    (hvalue : p.value = firstBits value (owed + 1))
    (hlo : p.lo.toNat ≤ firstBits value owed % 64 + 128)
    (hhi : firstBits value owed % 64 + 128 ≤ p.hi.toNat) :
    ∃ c : Char, c.toNat = value ∧ u ++ tailBytes value (owed + 1) = String.utf8EncodeChar c := by
  induction h generalizing owed with
  | lead first => exact lead_ends first howed hvalue hlo hhi
  | @read u p b before fits more ih =>
    have within := toNat_of_fits fits
    obtain ⟨bits, this_byte⟩ := before.read_bits fits
    rw [hvalue] at bits this_byte
    have place : firstBits value (owed + 1) % 64 + 128 = b.toNat := by
      rw [← toNat_tailByte, this_byte]
    obtain ⟨c, hc, written⟩ := ih (owed + 1) (Nat.eq_add_of_sub_eq more.le howed)
      bits.symm (by rw [place]; exact within.1) (by rw [place]; exact within.2)
    refine ⟨c, hc, ?_⟩
    rw [← written, tailBytes.eq_2 value (owed + 1), this_byte, List.append_assoc,
      List.singleton_append]

/-- The last byte that is owed ends a character. -/
theorem char {b : UInt8} (h : Awaits u p) (fits : p.fits b = true) (last : p.owed ≤ 1) :
    u ++ [b] = String.utf8EncodeChar (Char.ofNat (p.read b).value) := by
  have within := toNat_of_fits fits
  obtain ⟨bits, this_byte⟩ := h.read_bits fits
  have place : (p.read b).value % 64 + 128 = b.toNat := by rw [← toNat_tailByte, this_byte]
  obtain ⟨c, hc, written⟩ := h.ends (p.read b).value 0
    (Nat.le_antisymm last h.bounds.1) bits.symm
    (by rw [firstBits_zero, place]; exact within.1) (by rw [firstBits_zero, place]; exact within.2)
  rw [← hc, Char.ofNat_toNat, ← written, tailBytes, firstBits_zero, this_byte, tailBytes]

/-- The least byte that fits, and then the least bytes of all, end a character. -/
theorem begins (h : Awaits u p) : Begins u := by
  have bounds := h.bounds
  obtain ⟨owed, howed⟩ : ∃ owed, p.owed = owed + 1 := ⟨p.owed - 1, by omega⟩
  have bits := firstBits_eq ((p.value * 64 + (p.lo.toNat - 0x80)) * 64 ^ owed) owed
  rw [Nat.mul_div_cancel _ (Nat.pow_pos (by decide))] at bits
  obtain ⟨c, -, written⟩ := h.ends _ owed howed (by rw [firstBits, bits]; omega)
    (by rw [bits]; omega)
    (by rw [bits]; omega)
  exact ⟨c, written ▸ List.prefix_append ..⟩

theorem ne_nil (h : Awaits u p) : u ≠ [] := by
  cases h <;> simp

/-- Bytes that begin a character wait for the rest of it. -/
theorem pieces_eq (h : Awaits u p) (rest : List UInt8) :
    pieces none (u ++ rest) = pieces (some p) rest := by
  induction h generalizing rest with
  | lead first => rw [List.singleton_append, pieces, first]
  | read before fits more ih =>
    rw [List.append_assoc, ih, List.singleton_append, pieces, if_pos fits, if_neg (by omega)]

end Awaits

/-- A character, with more bytes or without, is not read as a mark first. -/
theorem not_prefix_of_mark {bs : List UInt8} {ps : List (Option Char)}
    (h : pieces none bs = none :: ps) (c : Char) : ¬String.utf8EncodeChar c <+: bs := by
  rintro ⟨rest, rfl⟩
  rw [pieces_utf8EncodeChar] at h
  cases h

/-- A byte that does not fit breaks the character off and is read again as a first one. -/
theorem pieces_of_misfit {p : Partial} {b : UInt8} (h : p.fits b = false) (rest : List UInt8) :
    pieces (some p) (b :: rest) = none :: pieces none (b :: rest) := by
  simp only [pieces, h, Bool.false_eq_true, if_false]
  cases Lead.ofByte b <;> rfl

theorem not_begins_stray {b : UInt8} (h : Lead.ofByte b = .stray) : ¬Begins [b] := by
  rintro ⟨c, rest, written⟩
  have read := pieces_utf8EncodeChar c []
  rw [List.append_nil, ← written, List.singleton_append, pieces.eq_3, h] at read
  cases read

theorem Awaits.not_begins {u : List UInt8} {p : Partial} {b : UInt8} (h : Awaits u p)
    (misfit : p.fits b = false) : ¬Begins (u ++ [b]) := by
  rintro ⟨c, rest, written⟩
  have read := pieces_utf8EncodeChar c []
  rw [List.append_nil, ← written, List.append_assoc, h.pieces_eq, List.singleton_append,
    pieces_of_misfit misfit] at read
  cases read

/-- A byte that fits goes on a beginning. -/
theorem Awaits.begins_read {u : List UInt8} {p : Partial} {b : UInt8} (h : Awaits u p)
    (fits : p.fits b = true) : Begins (u ++ [b]) := by
  rcases Nat.lt_or_ge 1 p.owed with more | last
  · exact (h.read fits more).begins
  · rw [h.char fits last]
    exact begins_utf8EncodeChar _

/-- The reader makes of bytes what they read as. -/
theorem reading_pieces (bs : List UInt8) :
    Reading bs (pieces none bs) ∧
      ∀ u p, Awaits u p → Reading (u ++ bs) (pieces (some p) bs) := by
  -- By the bytes, for a reader that has begun nothing and for one amid a character at once.
  induction bs with
  | nil =>
    refine ⟨.nil, fun u p begun => ?_⟩
    refine .part begun.ne_nil begun.begins ?_ (fun b hb => ?_) .nil
    · exact not_prefix_of_mark (begun.pieces_eq [])
    · cases hb
  | cons b rest ih =>
    obtain ⟨whole, within⟩ := ih
    have first : Reading (b :: rest) (pieces none (b :: rest)) := by
      rw [pieces]
      split
      next c hb =>
        have here := Reading.char c whole
        rwa [ofByte_char hb] at here
      next p hb => exact within [b] p (.lead hb)
      next hb => exact .stray (not_begins_stray hb) whole
    refine ⟨first, fun u p begun => ?_⟩
    cases fits : p.fits b with
    | true =>
      rw [pieces, if_pos fits, List.append_cons]
      split
      next last =>
        rw [begun.char fits last]
        exact .char _ whole
      next more => exact within _ _ (begun.read fits (by omega))
    | false =>
      have mark := pieces_of_misfit fits rest
      rw [mark]
      refine .part begun.ne_nil begun.begins ?_ ?_ first
      · exact not_prefix_of_mark ((begun.pieces_eq _).trans mark)
      · rintro _ ⟨⟩
        exact begun.not_begins fits

/-- A beginning that is no character yet is one that the reader goes on with. -/
theorem exists_awaits {u : List UInt8} (some_byte : u ≠ []) (h : Begins u)
    (unfinished : ∀ c, u ≠ String.utf8EncodeChar c) : ∃ p, Awaits u p := by
  induction u using List.reverseRecOn with
  | nil => exact absurd rfl some_byte
  | append_singleton u b ih =>
    rcases List.eq_nil_or_concat u with rfl | ⟨_, _, hu⟩
    · cases first : Lead.ofByte b with
      | char c => exact absurd (ofByte_char first).symm (unfinished c)
      | more p => exact ⟨p, .lead first⟩
      | stray => exact absurd h (not_begins_stray first)
    · -- What comes before the last byte is no character either: no character begins with another.
      have before : ∀ c, u ≠ String.utf8EncodeChar c := by
        rintro c rfl
        obtain ⟨d, rest, written⟩ := h
        have read := pieces_utf8EncodeChar d []
        rw [List.append_nil, ← written, List.append_assoc, pieces_utf8EncodeChar] at read
        cases (eq_nil_of_pieces (List.cons.inj read).2).2
      obtain ⟨p, begun⟩ := ih (by simp [hu]) (h.of_prefix (List.prefix_append ..)) before
      have fits : p.fits b = true := by
        by_contra misfit
        exact begun.not_begins (Bool.eq_false_iff.mpr misfit) h
      rcases Nat.lt_or_ge 1 p.owed with more | last
      · exact ⟨_, begun.read fits more⟩
      · exact absurd (begun.char fits last) (unfinished _)

/-- There is one way to read bytes, and it is the reader's. -/
theorem reading_iff {bs : List UInt8} {ps : List (Option Char)} :
    Reading bs ps ↔ ps = pieces none bs := by
  refine ⟨fun h => ?_, fun h => h ▸ (reading_pieces bs).1⟩
  -- On the reading: the reader comes to the end of each part just where the part ends.
  induction h with
  | nil => rfl
  | char c tail ih => rw [pieces_utf8EncodeChar, ih]
  | @stray b rest ps alone tail ih =>
    rw [pieces]
    split
    next c first =>
      refine absurd ?_ alone
      rw [← ofByte_char first]
      exact begins_utf8EncodeChar c
    next p first => exact absurd (Awaits.lead first).begins alone
    next => rw [ih]
  | @part u rest ps some_byte begins unfinished breaks_off tail ih =>
    obtain ⟨p, begun⟩ := exists_awaits some_byte begins fun c hc =>
      unfinished c (hc ▸ List.prefix_append ..)
    rw [begun.pieces_eq, ih]
    cases rest with
    | nil => rfl
    | cons b rest =>
      have misfit : p.fits b = false := Bool.eq_false_iff.mpr fun fits =>
        breaks_off b rfl (begun.begins_read fits)
      exact (pieces_of_misfit misfit rest).symm

end SccDispatch.Text
