import SccDispatch.Text.Utf8

namespace SccDispatch.Text

def tailByte (n : Nat) : UInt8 := UInt8.ofNat (n % 64 + 128)

/-- A number without its last bits, six for each byte that is owed. -/
def firstBits (value : Nat) : Nat → Nat
  | 0 => value
  | owed + 1 => firstBits value owed / 64

theorem firstBits_zero (value : Nat) : firstBits value 0 = value := rfl

theorem firstBits_one (value : Nat) : firstBits value 1 = value / 64 := rfl

theorem firstBits_two (value : Nat) : firstBits value 2 = value / 4096 := Nat.div_div_eq_div_mul ..

theorem firstBits_three (value : Nat) : firstBits value 3 = value / 262144 := by
  rw [firstBits, firstBits_two, Nat.div_div_eq_div_mul]

def tailBytes (value : Nat) : Nat → List UInt8
  | 0 => []
  | owed + 1 => tailByte (firstBits value owed) :: tailBytes value owed

theorem toNat_tailByte (n : Nat) : (tailByte n).toNat = n % 64 + 128 := by
  rw [tailByte, UInt8.toNat_ofNat']
  omega

theorem fits_tailByte {p : Partial} {n : Nat} (hlo : p.lo.toNat ≤ n % 64 + 128)
    (hhi : n % 64 + 128 ≤ p.hi.toNat) : p.fits (tailByte n) = true := by
  simp only [Partial.fits, Bool.and_eq_true, decide_eq_true_eq, UInt8.le_iff_toNat_le,
    toNat_tailByte]
  exact ⟨hlo, hhi⟩

/-- A tail byte adds the next six bits. -/
theorem read_tailByte {p : Partial} {value owed : Nat} (h : p.value = firstBits value (owed + 1)) :
    (p.read (tailByte (firstBits value owed))).value = firstBits value owed := by
  simp only [Partial.read, toNat_tailByte, h, firstBits]
  omega

/-- A character that has begun ends with the bytes that are owed. -/
theorem pieces_tailBytes {p : Partial} {value owed : Nat} (rest : List UInt8)
    (howed : p.owed = owed + 1) (hvalue : p.value = firstBits value (owed + 1))
    (hlo : p.lo.toNat ≤ firstBits value owed % 64 + 128)
    (hhi : firstBits value owed % 64 + 128 ≤ p.hi.toNat) :
    pieces (some p) (tailBytes value (owed + 1) ++ rest) =
      some (Char.ofNat value) :: pieces none rest := by
  induction owed generalizing p with
  | zero =>
    rw [tailBytes, List.cons_append, pieces, if_pos (fits_tailByte hlo hhi),
      if_pos (by omega), read_tailByte hvalue, firstBits_zero]
    rfl
  | succ owed ih =>
    rw [tailBytes, List.cons_append, pieces, if_pos (fits_tailByte hlo hhi), if_neg (by omega)]
    refine ih (by simp [Partial.read, howed]) (read_tailByte hvalue) ?_ ?_
    · simp [Partial.read]
    · simp only [Partial.read, UInt8.reduceToNat]
      omega

theorem ofByte_two {b : UInt8} (hlo : 0xC2 ≤ b.toNat) (hhi : b.toNat < 0xE0) :
    Lead.ofByte b = .more ⟨1, 0x80, 0xBF, b.toNat - 0xC0⟩ := by
  simp only [Lead.ofByte]
  rw [if_neg (by omega), if_neg (by omega), if_pos hhi]

/-- The second byte after the first `0xE0` may not be too small for a character that needs three
bytes, and after `0xED` it may not make half of a surrogate pair. -/
theorem ofByte_three {b : UInt8} (hlo : 0xE0 ≤ b.toNat) (hhi : b.toNat < 0xF0) :
    Lead.ofByte b = .more ⟨2, if b.toNat = 0xE0 then 0xA0 else 0x80,
      if b.toNat = 0xED then 0x9F else 0xBF, b.toNat - 0xE0⟩ := by
  simp only [Lead.ofByte]
  rw [if_neg (by omega), if_neg (by omega), if_neg (by omega)]
  by_cases hfirst : b.toNat = 0xE0
  · simp [hfirst]
  · by_cases hsurrogate : b.toNat = 0xED
    · simp [hsurrogate]
    · rw [if_neg hfirst, if_neg hsurrogate, if_pos hhi, if_neg hfirst, if_neg hsurrogate]

theorem ofByte_four {b : UInt8} (hlo : 0xF0 ≤ b.toNat) (hhi : b.toNat ≤ 0xF4) :
    Lead.ofByte b = .more ⟨3, if b.toNat = 0xF0 then 0x90 else 0x80,
      if b.toNat = 0xF4 then 0x8F else 0xBF, b.toNat - 0xF0⟩ := by
  simp only [Lead.ofByte]
  rw [if_neg (by omega), if_neg (by omega), if_neg (by omega), if_neg (by omega),
    if_neg (by omega), if_neg (by omega)]
  by_cases hfirst : b.toNat = 0xF0
  · simp [hfirst]
  · by_cases hlast : b.toNat = 0xF4
    · simp [hlast]
    · rw [if_neg hfirst, if_pos (by omega), if_neg hfirst, if_neg hlast]

theorem pieces_lead {p : Partial} {b : UInt8} {value owed : Nat} (rest : List UInt8)
    (hb : Lead.ofByte b = .more p) (howed : p.owed = owed + 1)
    (hvalue : p.value = firstBits value (owed + 1))
    (hlo : p.lo.toNat ≤ firstBits value owed % 64 + 128)
    (hhi : firstBits value owed % 64 + 128 ≤ p.hi.toNat) :
    pieces none (b :: tailBytes value (owed + 1) ++ rest) =
      some (Char.ofNat value) :: pieces none rest := by
  rw [List.cons_append, pieces, hb]
  exact pieces_tailBytes rest howed hvalue hlo hhi

theorem pieces_one {v : Nat} (rest : List UInt8) (hv : v ≤ 127) :
    pieces none (UInt8.ofNat v :: rest) = some (Char.ofNat v) :: pieces none rest := by
  have hb : (UInt8.ofNat v).toNat = v := by
    rw [UInt8.toNat_ofNat']
    omega
  rw [pieces, Lead.ofByte, hb]
  simp only [if_pos (show v < 0x80 by omega)]

theorem pieces_two {v : Nat} (rest : List UInt8) (hlo : 127 < v) (hhi : v ≤ 2047) :
    pieces none (UInt8.ofNat (v / 64 % 32 + 192) :: tailBytes v 1 ++ rest) =
      some (Char.ofNat v) :: pieces none rest := by
  have hb : (UInt8.ofNat (v / 64 % 32 + 192)).toNat = v / 64 + 192 := by
    rw [UInt8.toNat_ofNat']
    omega
  refine pieces_lead rest (ofByte_two (by omega) (by omega)) rfl ?_ ?_ ?_
  · rw [hb, firstBits_one, Nat.add_sub_cancel]
  · exact Nat.le_add_left ..
  · simp only [firstBits_zero, UInt8.reduceToNat]
    omega

theorem pieces_three {v : Nat} (rest : List UInt8) (hlo : 2047 < v) (hhi : v ≤ 65535)
    (hvalid : v < 0xD800 ∨ 0xDFFF < v) :
    pieces none (UInt8.ofNat (v / 4096 % 16 + 224) :: tailBytes v 2 ++ rest) =
      some (Char.ofNat v) :: pieces none rest := by
  have hb : (UInt8.ofNat (v / 4096 % 16 + 224)).toNat = v / 4096 + 224 := by
    rw [UInt8.toNat_ofNat']
    omega
  refine pieces_lead rest (ofByte_three (by omega) (by omega)) rfl ?_ ?_ ?_
  · rw [hb, firstBits_two, Nat.add_sub_cancel]
  · simp only [hb, firstBits_one]
    split
    · simp only [UInt8.reduceToNat]
      omega
    · exact Nat.le_add_left ..
  · simp only [hb, firstBits_one]
    split <;> simp only [UInt8.reduceToNat] <;> omega

theorem pieces_four {v : Nat} (rest : List UInt8) (hlo : 65535 < v) (hhi : v < 0x110000) :
    pieces none (UInt8.ofNat (v / 262144 % 8 + 240) :: tailBytes v 3 ++ rest) =
      some (Char.ofNat v) :: pieces none rest := by
  have hb : (UInt8.ofNat (v / 262144 % 8 + 240)).toNat = v / 262144 + 240 := by
    rw [UInt8.toNat_ofNat']
    omega
  refine pieces_lead rest (ofByte_four (by omega) (by omega)) rfl ?_ ?_ ?_
  · rw [hb, firstBits_three, Nat.add_sub_cancel]
  · simp only [hb, firstBits_two]
    split
    · simp only [UInt8.reduceToNat]
      omega
    · exact Nat.le_add_left ..
  · simp only [hb, firstBits_two]
    split <;> simp only [UInt8.reduceToNat] <;> omega

theorem utf8EncodeChar_eq (c : Char) :
    String.utf8EncodeChar c =
      if c.toNat ≤ 127 then [UInt8.ofNat c.toNat]
      else if c.toNat ≤ 2047 then UInt8.ofNat (c.toNat / 64 % 32 + 192) :: tailBytes c.toNat 1
      else if c.toNat ≤ 65535 then UInt8.ofNat (c.toNat / 4096 % 16 + 224) :: tailBytes c.toNat 2
      else UInt8.ofNat (c.toNat / 262144 % 8 + 240) :: tailBytes c.toNat 3 := by
  simp only [tailBytes, tailByte, firstBits_zero, firstBits_one, firstBits_two]
  rfl

/-- The writing of a character is read as that character. -/
theorem pieces_utf8EncodeChar (c : Char) (rest : List UInt8) :
    pieces none (String.utf8EncodeChar c ++ rest) = some c :: pieces none rest := by
  have hvalid : c.toNat < 0xD800 ∨ 0xDFFF < c.toNat ∧ c.toNat < 0x110000 := c.valid
  conv => rhs; rw [← c.ofNat_toNat]
  rw [utf8EncodeChar_eq]
  split
  next hone => exact pieces_one rest hone
  next hone =>
    split
    next htwo => exact pieces_two rest (by omega) htwo
    next htwo =>
      split
      next hthree => exact pieces_three rest (by omega) hthree (by omega)
      next hthree => exact pieces_four rest (by omega) (by omega)

def written (cs : List Char) : List UInt8 := cs.flatMap String.utf8EncodeChar

theorem written_append (cs ds : List Char) : written (cs ++ ds) = written cs ++ written ds :=
  List.flatMap_append

theorem written_cons (c : Char) (cs : List Char) :
    written (c :: cs) = String.utf8EncodeChar c ++ written cs := List.flatMap_cons ..

theorem written_singleton (c : Char) : written [c] = String.utf8EncodeChar c :=
  List.flatMap_singleton ..

theorem pieces_written_append (cs : List Char) (rest : List UInt8) :
    pieces none (written cs ++ rest) = cs.map some ++ pieces none rest := by
  induction cs with
  | nil => rfl
  | cons c cs ih =>
    rw [written_cons, List.append_assoc, pieces_utf8EncodeChar]
    exact congrArg (some c :: ·) ih

theorem pieces_written (cs : List Char) : pieces none (written cs) = cs.map some := by
  have hp := pieces_written_append cs []
  rwa [List.append_nil, pieces, List.append_nil] at hp

/-- The bytes of a text are read back as its characters. -/
theorem pieces_bytes (s : String) : pieces none (bytes s) = s.toList.map some :=
  pieces_written s.toList

/-- What is written is read, whatever the text. -/
theorem decode?_bytes (s : String) : decode? (bytes s) = some s := by
  have hall : ∀ cs : List Char, (cs.map some).mapM id = some cs := by
    intro cs
    induction cs with
    | nil => rfl
    | cons c cs ih => simp [ih]
  rw [decode?, pieces_bytes, hall, Option.map_some, String.ofList_toList]

theorem zero_not_mem_tailBytes (value owed : Nat) : 0 ∉ tailBytes value owed := by
  induction owed with
  | zero => exact List.not_mem_nil
  | succ owed ih =>
    have hb : (tailByte (firstBits value owed)).toNat ≠ 0 := by
      rw [toNat_tailByte]
      omega
    intro h
    rcases List.mem_cons.mp h with h | h
    · exact hb (congrArg UInt8.toNat h.symm)
    · exact ih h

theorem zero_mem_utf8EncodeChar (c : Char) : 0 ∈ String.utf8EncodeChar c ↔ c.toNat = 0 := by
  have hfirst : ∀ n, 0 = UInt8.ofNat n ↔ n % 256 = 0 := by
    intro n
    rw [← UInt8.toNat_inj, UInt8.toNat_ofNat']
    exact eq_comm
  rw [utf8EncodeChar_eq]
  split
  next hone =>
    rw [List.mem_singleton, hfirst]
    omega
  next hone =>
    split <;> try split
    all_goals
      simp only [List.mem_cons, zero_not_mem_tailBytes, or_false, hfirst]
      omega

/-- Only the zero character is written with a zero byte. -/
theorem zero_mem_bytes (s : String) : 0 ∈ bytes s ↔ '\x00' ∈ s.toList := by
  have hzero : ∀ c : Char, c.toNat = 0 ↔ '\x00' = c := by
    intro c
    rw [← Char.toNat_inj]
    exact eq_comm
  simp only [bytes, List.mem_flatMap, zero_mem_utf8EncodeChar, hzero, exists_eq_right']

end SccDispatch.Text
