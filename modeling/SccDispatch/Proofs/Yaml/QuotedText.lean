import Mathlib.Algebra.Group.Nat.Defs
import SccDispatch.Yaml.Scalar.Quoted
import SccDispatch.Proofs.Yaml.PlainText

namespace SccDispatch.Yaml

theorem hasNeighbours_right {p q : Char → Bool} (as : List Char) {bs : List Char}
    (h : hasNeighbours p q (as ++ bs) = false) : hasNeighbours p q bs = false := by
  induction as with
  | nil => exact h
  | cons a as ih =>
    simp only [List.cons_append, hasNeighbours, Bool.or_eq_false_iff] at h
    exact ih h.2

/-- Characters of the first kind do not stand right before one of the second. -/
theorem eq_nil_of_no_neighbours {p q : Char → Bool} {as bs : List Char} {b : Char}
    (h : hasNeighbours p q (as ++ b :: bs) = false) (hp : ∀ a ∈ as, p a = true)
    (hq : q b = true) : as = [] := by
  rcases List.eq_nil_or_concat as with rfl | ⟨init, a, rfl⟩
  · rfl
  · have hpair : hasNeighbours p q (a :: b :: bs) = false :=
      hasNeighbours_right init (by simpa using h)
    have ha : p a = true := hp a (by simp)
    simp [hasNeighbours, startsWith, ha, hq] at hpair

theorem single?_gap {s : Spot} {rest : List Spot} {g : Gap} {done : List Char}
    (h : isBlank s.char = true ∨ isBreak s.char = true) :
    single? done g (s :: rest) = single? done (g.push s.char) rest := by
  rw [single?.eq_def]
  simp [h]

theorem single?_spaces {p : Point} {g : Gap} {n : Nat} {done tail : List Char} :
    single? done g (p.locate (spaces n ++ tail)) =
      single? done { g with chars := g.chars ++ spaces n } ((p.after (spaces n)).locate tail) := by
  induction n generalizing p g with
  | zero => simp [spaces]
  | succ n ih =>
    have hs : spaces (n + 1) = ' ' :: spaces n := rfl
    rw [hs, List.cons_append, Point.locate_cons, single?_gap (.inl rfl), ih]
    simp [Gap.push]

/-- A quote inside single quotes is doubled. -/
theorem single?_char {p : Point} {g : Gap} {c : Char} {done tail : List Char}
    (hblank : isBlank c = false) (hbreak : isBreak c = false) (hcolumn : p.column ≠ 0) :
    single? done g (p.locate ((if c == '\'' then [c, c] else [c]) ++ tail)) =
      single? (c :: (g.text.reverse ++ done)) .empty
        ((p.after (if c == '\'' then [c, c] else [c])).locate tail) := by
  have hmark : ∀ rest, brokenOff (p.spot c :: rest) = false :=
    fun _ => documentMarkAhead_eq_false hcolumn
  by_cases hq : c = '\''
  · subst hq
    simp only [beq_self_eq_true, if_true, List.cons_append, List.nil_append, Point.locate_cons]
    rw [single?.eq_def]
    simp [hblank, hbreak, hmark]
  · simp only [beq_iff_eq, hq, if_false, List.cons_append, List.nil_append, Point.locate_cons]
    rw [single?.eq_def]
    simp [hblank, hbreak, hmark, hq]

theorem single?_close {p : Point} {g : Gap} {c : Char} {done tail : List Char}
    (hcolumn : p.column ≠ 0) (hc : c ≠ '\'') :
    single? done g (p.locate ('\'' :: c :: tail)) =
      some (String.ofList (done.reverse ++ g.text), (p.next '\'').locate (c :: tail)) := by
  have hmark : ∀ rest, brokenOff (p.spot '\'' :: rest) = false :=
    fun _ => documentMarkAhead_eq_false hcolumn
  rw [Point.locate_cons, Point.locate_cons, single?.eq_def]
  simp [isBlank, isBreak, hmark, hc]

def lead (indent : Nat) (fresh : Bool) : List Char := if fresh then spaces indent else []

/-- What has been read of single quoted text but not taken over yet: spaces on a line, or else the
line ends before it. -/
def Pending (fresh : Bool) (cs : List Char) : Prop :=
  if fresh then cs ≠ [] ∧ ∀ c ∈ cs, isBreak c = true ∧ c ≠ '\n' else ∀ c ∈ cs, c = ' '

theorem breaks_of_breaks {bs : List Char} (n : Nat) (h : ∀ c ∈ bs, isBreak c = true) :
    ({ chars := bs ++ spaces n } : Gap).breaks = bs := by
  have hs : (spaces n).filter isBreak = [] := by
    rw [List.filter_eq_nil_iff]
    intro c hc
    simp [Point.isBreak_of_mem_spaces hc]
  simp only [Gap.breaks, List.filter_append, hs, List.append_nil, List.filter_eq_self]
  exact h

/-- Line ends other than feeds stand for themselves, and the spaces after them for nothing. -/
theorem Pending.text {fresh : Bool} {pend : List Char} (h : Pending fresh pend) (indent : Nat) :
    ({ chars := pend ++ lead indent fresh } : Gap).text = pend := by
  cases fresh with
  | false =>
    rw [Gap.text_of_no_break rfl]
    · simp [lead]
    · intro c hc
      rw [h c (by simpa [lead] using hc)]
      decide
  | true =>
    have hb := breaks_of_breaks indent fun c hc => (h.2 c hc).1
    obtain ⟨b, rest, rfl⟩ := List.exists_cons_of_ne_nil h.1
    have hfeed := (h.2 b List.mem_cons_self).2
    simp only [lead, if_true, Gap.text, hb, Bool.false_eq_true, if_false]
    split <;> simp_all

theorem single?_lead {p : Point} {indent : Nat} {fresh : Bool} {done pend tail : List Char} :
    single? done { chars := pend } (p.locate (lead indent fresh ++ tail)) =
      single? done { chars := pend ++ lead indent fresh }
        ((p.after (lead indent fresh)).locate tail) := by
  cases fresh with
  | false => simp [lead]
  | true => exact single?_spaces

/-- What is pending of a text in single quotes and what is still to come: spaces and line ends
never stand side by side. -/
structure SingleRest (fresh : Bool) (pend cs : List Char) : Prop where
  pending : Pending fresh pend
  chars : ∀ x ∈ cs, isPrintable x = true ∧ x ≠ '\n'
  before : hasNeighbours (· == ' ') endsLine (pend ++ cs) = false
  behind : hasNeighbours endsLine (· == ' ') (pend ++ cs) = false

namespace SingleRest

variable {fresh : Bool} {pend cs : List Char}

/-- Before a line end nothing but line ends is pending. -/
theorem lineEnd {x : Char} (h : SingleRest fresh pend (x :: cs)) (hx : isBreak x = true) :
    SingleRest true (pend ++ [x]) cs := by
  refine ⟨⟨by simp, fun y hy => ?_⟩, fun y hy => h.chars y (List.mem_cons_of_mem _ hy),
    by simpa using h.before, by simpa using h.behind⟩
  rcases List.mem_append.1 hy with hy | hy
  · cases fresh with
    | true => exact h.pending.2 y hy
    | false =>
      have hnil := eq_nil_of_no_neighbours h.before (fun a ha => by simp [h.pending a ha])
        (endsLine_of_isBreak hx)
      simp [hnil] at hy
  · rw [List.mem_singleton.1 hy]
    exact ⟨hx, (h.chars x List.mem_cons_self).2⟩

/-- Spaces do not begin a line. -/
theorem fresh_eq_false (h : SingleRest fresh pend (' ' :: cs)) : fresh = false := by
  cases fresh with
  | false => rfl
  | true =>
    have hnil := eq_nil_of_no_neighbours h.behind
      (fun a ha => endsLine_of_isBreak (h.pending.2 a ha).1) (by simp)
    exact absurd hnil h.pending.1

theorem space (h : SingleRest false pend (' ' :: cs)) : SingleRest false (pend ++ [' ']) cs := by
  refine ⟨fun y hy => ?_, fun y hy => h.chars y (List.mem_cons_of_mem _ hy),
    by simpa using h.before, by simpa using h.behind⟩
  rcases List.mem_append.1 hy with hy | hy
  · exact h.pending y hy
  · exact List.mem_singleton.1 hy

theorem char {x : Char} (h : SingleRest fresh pend (x :: cs)) : SingleRest false [] cs where
  pending := by simp [Pending]
  chars := fun y hy => h.chars y (List.mem_cons_of_mem _ hy)
  before := hasNeighbours_right (pend ++ [x]) (by simpa using h.before)
  behind := hasNeighbours_right (pend ++ [x]) (by simpa using h.behind)

end SingleRest

theorem singleBody_char (indent : Nat) (fresh : Bool) {x : Char} (cs : List Char)
    (hx : isBreak x = false) :
    singleBody indent fresh (x :: cs) =
      lead indent fresh ++ ((if x == '\'' then [x, x] else [x]) ++ singleBody indent false cs) := by
  simp [singleBody, hx, lead]

/-- Text between single quotes is read back up to the closing quote. -/
theorem single?_body {p : Point} {indent : Nat} (fresh : Bool) {c : Char}
    (done pend cs tail : List Char) (hindent : indent ≠ 0) (h : SingleRest fresh pend cs)
    (hcolumn : fresh = false → p.column ≠ 0) (hc : c ≠ '\'') :
    single? done { chars := pend }
        (p.locate (singleBody indent fresh cs ++ '\'' :: c :: tail)) =
      some (String.ofList (done.reverse ++ pend ++ cs),
        (p.after (singleBody indent fresh cs ++ ['\''])).locate (c :: tail)) := by
  have hlead : (p.after (lead indent fresh)).column ≠ 0 := by
    cases fresh with
    | false => exact hcolumn rfl
    | true =>
      simp only [lead, if_true, Point.after_spaces_column]
      omega
  induction cs generalizing p fresh done pend with
  | nil =>
    rw [show singleBody indent fresh [] = lead indent fresh from rfl, single?_lead,
      single?_close hlead hc, h.pending.text]
    simp
  | cons x cs ih =>
    cases hbreak : isBreak x with
    | true =>
      have hcol : ((p.next x).after (lead indent true)).column ≠ 0 := by
        simp only [lead, if_true, Point.after_spaces_column]
        omega
      simp only [singleBody, hbreak, if_true, List.cons_append, Point.locate_cons]
      rw [single?_gap (.inr hbreak)]
      simp only [Gap.push, Point.spot_char]
      rw [ih true _ _ (h.lineEnd hbreak) (by simp) hcol]
      simp
    | false =>
      by_cases hs : x = ' '
      · subst hs
        obtain rfl := h.fresh_eq_false
        have hcol : (p.next ' ').column ≠ 0 := by simp
        simp only [singleBody, hbreak, Bool.false_eq_true, if_false, List.nil_append,
          show (' ' == '\'') = false from rfl, List.cons_append, Point.locate_cons]
        rw [single?_gap (.inl rfl)]
        simp only [Gap.push, Point.spot_char]
        rw [ih false _ _ h.space (fun _ => hcol) hcol]
        simp
      · have hblank := not_isBlank (h.chars x List.mem_cons_self).1 hs
        have hcol : ((p.after (lead indent fresh)).after
            (if x == '\'' then [x, x] else [x])).column ≠ 0 := by
          split <;> simp [Point.next_of_not_break _ hbreak]
        have hread := ih false (x :: (pend.reverse ++ done)) [] h.char (fun _ => hcol) hcol
        rw [singleBody_char _ _ _ hbreak, List.append_assoc, single?_lead, List.append_assoc,
          single?_char hblank hbreak hlead, h.pending.text,
          show Gap.empty = { chars := [] } from rfl, hread]
        simp

theorem eq_of_mem_hexDigits {count n : Nat} {c : Char} (h : c ∈ hexDigits count n) :
    ∃ d < 16, c = (Nat.digitChar d).toUpper := by
  induction count generalizing n with
  | zero => simp [hexDigits] at h
  | succ count ih =>
    rcases List.mem_append.1 h with h | h
    · exact ih h
    · exact ⟨n % 16, Nat.mod_lt _ (by decide), List.mem_singleton.1 h⟩

theorem digit?_digitChar : ∀ d < 16, Text.digit? 16 (Nat.digitChar d).toUpper = some d := by
  decide

/-- Digits that are not the last ones add to the value. -/
theorem double?_hexDigits {p : Point} {count value n : Nat} (owed : Nat) {done : List Char}
    (tail : List Char)
    (ho : owed ≠ 0) :
    double? (.digits (count + owed) value) done .empty (p.locate (hexDigits count n ++ tail)) =
      double? (.digits owed (value * 16 ^ count + n % 16 ^ count)) done .empty
        ((p.after (hexDigits count n)).locate tail) := by
  induction count generalizing n owed tail with
  | zero => simp [hexDigits, Nat.mod_one]
  | succ count ih =>
    have hread := ih (n := n / 16) (owed + 1) ((Nat.digitChar (n % 16)).toUpper :: tail) (by omega)
    have hvalue : (value * 16 ^ count + n / 16 % 16 ^ count) * 16 + n % 16 =
        value * 16 ^ (count + 1) + n % 16 ^ (count + 1) := by
      rw [Nat.pow_succ, Nat.mul_comm (16 ^ count) 16, Nat.mod_mul, Nat.mul_left_comm]
      omega
    rw [hexDigits, List.append_assoc, List.singleton_append,
      show count + 1 + owed = count + (owed + 1) by omega, hread, Point.locate_cons, double?.eq_def]
    simp [digit?_digitChar _ (Nat.mod_lt n (show 0 < 16 by decide)), ho, hvalue]

/-- All the digits of a character's number are read as the character. -/
theorem double?_number {p : Point} {count : Nat} {c : Char} {done tail : List Char}
    (hc : c.toNat < 16 ^ (count + 1)) :
    double? (.digits (count + 1) 0) done .empty
        (p.locate (hexDigits (count + 1) c.toNat ++ tail)) =
      double? .text (c :: done) .empty
        ((p.after (hexDigits (count + 1) c.toNat)).locate tail) := by
  have hvalue : c.toNat / 16 % 16 ^ count * 16 + c.toNat % 16 = c.toNat := by
    rw [Nat.mod_eq_of_lt (by rw [Nat.pow_succ] at hc; omega)]
    omega
  have hchar : charOf? c.toNat = some c := by
    rw [charOf?, if_pos (show c.toNat.isValidChar from c.valid), Char.ofNat_toNat]
  rw [hexDigits, List.append_assoc, double?_hexDigits 1 _ (by decide), List.singleton_append,
    Point.locate_cons, double?.eq_def]
  simp [digit?_digitChar _ (Nat.mod_lt c.toNat (show 0 < 16 by decide)), hvalue, hchar]

/-- What an escape consists of after its backslash: a letter, or a mark and digits. -/
inductive Escaped (c : Char) : List Char → Prop
  | letter (l : Char) : escape? l = some (.char c) → isBreak l = false → isPrintable l = true →
      endsLine l = false → l.utf8Size = 1 → Escaped c [l]
  | number (mark : Char) (count : Nat) : escape? mark = some (.digits (count + 1)) →
      mark ∈ ['x', 'u', 'U'] → c.toNat < 16 ^ (count + 1) → count + 3 ≤ 4 * c.utf8Size →
      Escaped c (mark :: hexDigits (count + 1) c.toNat)

theorem escapedLetter {c l : Char} (h : escapeLetter? c = some l) : Escaped c [l] := by
  unfold escapeLetter? at h
  split at h <;>
    first
    | (cases h; exact .letter _ (by decide) (by decide) (by decide) (by decide) (by decide))
    | contradiction

theorem two_le_utf8Size {c : Char} (h : 0x7F < c.toNat) : 2 ≤ c.utf8Size := by
  have hone : c.utf8Size ≠ 1 := mt Char.utf8Size_eq_one_iff.1
    (by simpa [UInt32.le_iff_toNat_le] using h)
  have := c.utf8Size_pos
  omega

theorem utf8Size_eq_four {c : Char} (h : 0xFFFF < c.toNat) : c.utf8Size = 4 := by
  rw [Char.utf8Size_eq_four_iff]
  simpa [UInt32.lt_iff_toNat_lt] using h

/-- Every character has an escape. -/
theorem exists_escaped (c : Char) : ∃ cs, escaped c = '\\' :: cs ∧ Escaped c cs := by
  unfold escaped
  split
  next l hl => exact ⟨_, rfl, escapedLetter hl⟩
  next =>
    have hmax : c.toNat < 16 ^ 8 := Nat.lt_of_lt_of_le c.val.toNat_lt (by decide)
    have hsize := c.utf8Size_pos
    simp only []
    split
    · exact ⟨_, rfl, .number 'x' 1 (by decide) (by decide) (by omega) (by omega)⟩
    next hx =>
      split
      · have hsize := two_le_utf8Size (c := c) (by omega)
        exact ⟨_, rfl, .number 'u' 3 (by decide) (by decide) (by omega) (by omega)⟩
      · have hsize := utf8Size_eq_four (c := c) (by omega)
        exact ⟨_, rfl, .number 'U' 7 (by decide) (by decide) (by omega) (by omega)⟩

/-- What stands after the backslash is read as the character. -/
theorem double?_escaped {p : Point} {g : Gap} {c : Char} {done tail : List Char}
    (hcolumn : p.column ≠ 0) :
    double? .text done g (p.locate (escaped c ++ tail)) =
      double? .text (c :: (g.text.reverse ++ done)) .empty ((p.after (escaped c)).locate tail) := by
  have hmark : ∀ rest, brokenOff (p.spot '\\' :: rest) = false :=
    fun _ => documentMarkAhead_eq_false hcolumn
  have hstart : ∀ cs, double? .text done g (p.locate ('\\' :: cs)) =
      double? .escape (g.text.reverse ++ done) .empty ((p.next '\\').locate cs) := by
    intro cs
    rw [Point.locate_cons, double?.eq_def]
    simp [isBlank, isBreak, hmark]
  obtain ⟨cs, hcs, he⟩ := exists_escaped c
  rw [hcs, List.cons_append, hstart, Point.after_cons]
  cases he with
  | letter l he hb =>
    rw [List.singleton_append, Point.locate_cons, double?.eq_def]
    simp [hb, he]
  | number mark count he hmem hc =>
    have hb : isBreak mark = false := by
      revert hmem
      simp only [List.mem_cons, List.not_mem_nil, or_false]
      rintro (rfl | rfl | rfl) <;> rfl
    rw [List.cons_append, Point.locate_cons, Point.after_cons, ← double?_number hc,
      double?.eq_def]
    simp [hb, he]

/-- Text in double quotes ends no line and shows no control character. -/
theorem of_mem_doubleChar {c x : Char} (h : x ∈ doubleChar c) :
    isPrintable x = true ∧ endsLine x = false := by
  have hdigit : ∀ d < 16, isPrintable (Nat.digitChar d).toUpper = true ∧
      endsLine (Nat.digitChar d).toUpper = false := by decide
  have hmark : ∀ y ∈ ['x', 'u', 'U'], isPrintable y = true ∧ endsLine y = false := by
    simp only [List.mem_cons, List.not_mem_nil, or_false]
    rintro y (rfl | rfl | rfl) <;> decide
  unfold doubleChar at h
  split at h
  next =>
    obtain ⟨cs, hcs, he⟩ := exists_escaped c
    rw [hcs] at h
    rcases List.mem_cons.1 h with rfl | h
    · decide
    · cases he with
      | letter l he hb hp hl =>
        rw [List.mem_singleton.1 h]
        exact ⟨hp, hl⟩
      | number mark count he hmem =>
        rcases List.mem_cons.1 h with rfl | h
        · exact hmark _ hmem
        · obtain ⟨d, hd, rfl⟩ := eq_of_mem_hexDigits h
          exact hdigit d hd
  next hc =>
    rw [List.mem_singleton.1 h]
    simp only [Bool.not_eq_true, Bool.or_eq_false_iff, Bool.not_eq_false'] at hc
    exact ⟨hc.1.1.1, hc.1.1.2⟩

theorem doubleChar_column {p : Point} {c : Char} : (p.after (doubleChar c)).column ≠ 0 := by
  have hne : doubleChar c ≠ [] := by
    unfold doubleChar
    split
    · obtain ⟨cs, hcs, -⟩ := exists_escaped c
      simp [hcs]
    · simp
  have hlength := List.length_pos_iff.2 hne
  rw [Point.after_of_no_break p fun x hx => not_isBreak (of_mem_doubleChar hx).2]
  simp only
  omega

/-- A character other than a space is read with the spaces before it, escaped or not. -/
theorem double?_char {p : Point} {g : Gap} {c : Char} {done tail : List Char}
    (hcolumn : p.column ≠ 0) (hc : c ≠ ' ') :
    double? .text done g (p.locate (doubleChar c ++ tail)) =
      double? .text (c :: (g.text.reverse ++ done)) .empty
        ((p.after (doubleChar c)).locate tail) := by
  unfold doubleChar
  split
  · rw [double?_escaped hcolumn]
  next h =>
    have hmark : ∀ rest, brokenOff (p.spot c :: rest) = false :=
      fun _ => documentMarkAhead_eq_false hcolumn
    simp only [Bool.not_eq_true, Bool.or_eq_false_iff, Bool.not_eq_false',
      beq_eq_false_iff_ne] at h
    obtain ⟨⟨⟨hp, hl⟩, hquote⟩, hslash⟩ := h
    rw [List.singleton_append, Point.locate_cons, double?.eq_def]
    simp [not_isBlank hp hc, not_isBreak hl, hmark, hquote, hslash]

/-- Text between double quotes is read back up to the closing quote. -/
theorem double?_body {p : Point} {n : Nat} (done cs tail : List Char) (hcolumn : p.column ≠ 0) :
    double? .text done (.ofSpaces n) (p.locate (cs.flatMap doubleChar ++ '"' :: tail)) =
      some (String.ofList (done.reverse ++ spaces n ++ cs),
        (p.after (cs.flatMap doubleChar ++ ['"'])).locate tail) := by
  induction cs generalizing p n done with
  | nil =>
    have hmark : ∀ rest, brokenOff (p.spot '"' :: rest) = false :=
      fun _ => documentMarkAhead_eq_false hcolumn
    rw [List.flatMap_nil, List.nil_append, Point.locate_cons, double?.eq_def]
    simp [isBlank, isBreak, hmark, spaces]
  | cons c cs ih =>
    have hnext := doubleChar_column (p := p) (c := c)
    rw [List.flatMap_cons, List.append_assoc, List.append_assoc, Point.after_append]
    by_cases hs : c = ' '
    · subst hs
      have hread := ih (n := n + 1) done hnext
      rw [show doubleChar ' ' = [' '] from rfl] at hread ⊢
      rw [List.singleton_append, Point.locate_cons, double?.eq_def]
      simp only [Point.spot_char, show isBlank ' ' = true from rfl, Bool.true_or, if_true,
        Gap.push_ofSpaces]
      rw [show p.next ' ' = p.after [' '] from rfl, hread]
      simp [spaces, List.replicate_succ']
    · rw [double?_char hcolumn hs, Gap.ofSpaces_text, ← Gap.ofSpaces_zero, ih _ hnext]
      simp [spaces]

end SccDispatch.Yaml
