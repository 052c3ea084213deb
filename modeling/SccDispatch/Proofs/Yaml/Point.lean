import Mathlib.Data.Nat.Basic
import SccDispatch.Yaml.Layout

namespace SccDispatch.Yaml

structure Point where
  line : Nat
  column : Nat
  offset : Nat

namespace Point

def next (p : Point) (c : Char) : Point :=
  if isBreak c then ⟨p.line + 1, 0, p.offset + c.utf8Size⟩
  else ⟨p.line, p.column + 1, p.offset + c.utf8Size⟩

def after (p : Point) (cs : List Char) : Point := cs.foldl next p

def spot (p : Point) (c : Char) : Spot := ⟨c, p.line, p.column, p.offset⟩

def locate (p : Point) (cs : List Char) : List Spot := Yaml.locate p.line p.column p.offset cs

@[simp] theorem spot_char (p : Point) (c : Char) : (p.spot c).char = c := rfl

@[simp] theorem spot_column (p : Point) (c : Char) : (p.spot c).column = p.column := rfl

@[simp] theorem spot_line (p : Point) (c : Char) : (p.spot c).line = p.line := rfl

@[simp] theorem locate_nil (p : Point) : p.locate [] = [] := rfl

@[simp] theorem locate_cons (p : Point) (c : Char) (cs : List Char) :
    p.locate (c :: cs) = p.spot c :: (p.next c).locate cs := by
  simp only [locate, Yaml.locate, next]
  split <;> rfl

@[simp] theorem after_nil (p : Point) : p.after [] = p := rfl

@[simp] theorem after_cons (p : Point) (c : Char) (cs : List Char) :
    p.after (c :: cs) = (p.next c).after cs := rfl

@[simp] theorem after_append (p : Point) (as bs : List Char) :
    p.after (as ++ bs) = (p.after as).after bs := List.foldl_append ..

@[simp] theorem length_locate (p : Point) (cs : List Char) : (p.locate cs).length = cs.length := by
  induction cs generalizing p with
  | nil => rfl
  | cons c cs ih => simp [ih]

theorem next_of_break {c : Char} (p : Point) (h : isBreak c = true) :
    p.next c = ⟨p.line + 1, 0, p.offset + c.utf8Size⟩ := if_pos h

theorem next_of_not_break {c : Char} (p : Point) (h : isBreak c = false) :
    p.next c = ⟨p.line, p.column + 1, p.offset + c.utf8Size⟩ := if_neg (by simp [h])

theorem column_next {c : Char} (p : Point) (h : isBreak c = false) :
    (p.next c).column = p.column + 1 := by rw [next_of_not_break p h]

@[simp] theorem next_space_column (p : Point) : (p.next ' ').column = p.column + 1 := rfl

@[simp] theorem next_feed_column (p : Point) : (p.next '\n').column = 0 := rfl

theorem line_le_next (p : Point) (c : Char) : p.line ≤ (p.next c).line := by
  unfold next
  split <;> simp

theorem line_le_after (p : Point) (cs : List Char) : p.line ≤ (p.after cs).line := by
  induction cs generalizing p with
  | nil => exact Nat.le_refl _
  | cons c cs ih => exact Nat.le_trans (line_le_next p c) (ih _)

def size : List Char → Nat
  | [] => 0
  | c :: cs => c.utf8Size + size cs

@[simp] theorem size_nil : size [] = 0 := rfl

@[simp] theorem size_cons (c : Char) (cs : List Char) : size (c :: cs) = c.utf8Size + size cs := rfl

@[simp] theorem size_append (as bs : List Char) : size (as ++ bs) = size as + size bs := by
  induction as with
  | nil => rw [List.nil_append, size_nil, Nat.zero_add]
  | cons a as ih => rw [List.cons_append, size_cons, size_cons, ih, Nat.add_assoc]

/-- Text without a line end stays on its line. -/
theorem after_of_no_break {cs : List Char} (p : Point) (h : ∀ c ∈ cs, isBreak c = false) :
    p.after cs = ⟨p.line, p.column + cs.length, p.offset + size cs⟩ := by
  induction cs generalizing p with
  | nil => rfl
  | cons c cs ih =>
    have hc := h c List.mem_cons_self
    rw [after_cons, ih _ fun x hx => h x (List.mem_cons_of_mem _ hx), next_of_not_break p hc]
    simp only [size_cons, List.length_cons, Point.mk.injEq, true_and]
    omega

theorem isBreak_of_mem_spaces {n : Nat} {c : Char} (h : c ∈ spaces n) : isBreak c = false := by
  rw [List.eq_of_mem_replicate h]
  decide

@[simp] theorem after_spaces_column (p : Point) (n : Nat) :
    (p.after (spaces n)).column = p.column + n := by
  rw [after_of_no_break p fun c => isBreak_of_mem_spaces]
  simp [spaces]

@[simp] theorem after_spaces_line (p : Point) (n : Nat) :
    (p.after (spaces n)).line = p.line := by
  rw [after_of_no_break p fun c => isBreak_of_mem_spaces]

end Point

@[simp] theorem gapAhead_cons (x : Spot) (rest : List Spot) :
    gapAhead (x :: rest) = (isBlank x.char || isBreak x.char) := rfl

/-- A mark between documents stands at the start of a line. -/
theorem markAhead_eq_false_of_column {c : Char} {x : Spot} {rest : List Spot} (h : x.column ≠ 0) :
    markAhead c (x :: rest) = false := by
  unfold markAhead
  split <;> simp_all

theorem documentMarkAhead_eq_false {x : Spot} {rest : List Spot} (h : x.column ≠ 0) :
    documentMarkAhead (x :: rest) = false := by
  simp [documentMarkAhead, markAhead_eq_false_of_column h]

/-- A token may begin with the character, at whatever column. -/
def beginsToken (c : Char) : Bool :=
  !(isBlank c || isBreak c || c == '#' || c == byteOrderMark)

theorem beginsToken_iff {c : Char} :
    beginsToken c = true ↔ isBlank c = false ∧ isBreak c = false ∧ c ≠ '#' ∧ c ≠ byteOrderMark := by
  simp [beginsToken, and_assoc]

/-- What follows on a new line: nothing, or a token no further to the right than the column. -/
def Continues (column : Nat) (tail : List Char) : Prop :=
  tail = [] ∨ ∃ j c cs, j ≤ column ∧ tail = spaces j ++ c :: cs ∧ beginsToken c = true

theorem Continues.mono {i j : Nat} {tail : List Char} (h : Continues i tail) (hij : i ≤ j) :
    Continues j tail := by
  rcases h with rfl | ⟨k, c, cs, hk, ht, hc⟩
  · exact .inl rfl
  · exact .inr ⟨k, c, cs, Nat.le_trans hk hij, ht, hc⟩

theorem skipBlanks_of_token {p : Point} {j : Nat} {c : Char} {cs : List Char}
    (hc : beginsToken c = true) :
    skipBlanks (p.locate (spaces j ++ c :: cs)) = (p.after (spaces j)).locate (c :: cs) := by
  induction j generalizing p with
  | zero => simp [spaces, skipBlanks, (beginsToken_iff.1 hc).1]
  | succ j ih =>
    have hs : spaces (j + 1) = ' ' :: spaces j := rfl
    rw [hs, List.cons_append, Point.locate_cons, Point.after_cons, ← ih]
    simp [skipBlanks, isBlank]

end SccDispatch.Yaml
