import SccDispatch.Yaml.Scalar.Block
import SccDispatch.Proofs.Yaml.PlainText

namespace SccDispatch.Yaml

/-- The header with the hints it was written with. -/
theorem blockHeader?_hints {p : Point} {d h rest : List Char} {depth : Option Nat} {chomp : Chomp}
    (hd : d = [] ∧ depth = none ∨ d = ['2'] ∧ depth = some 2)
    (hh : h = [] ∧ chomp = .clip ∨ h = ['+'] ∧ chomp = .keep ∨ h = ['-'] ∧ chomp = .strip) :
    blockHeader? (p.locate (d ++ (h ++ '\n' :: rest))) =
      some (⟨chomp, depth⟩, (p.after (d ++ (h ++ ['\n']))).locate rest) := by
  obtain ⟨rfl, rfl⟩ | ⟨rfl, rfl⟩ := hd <;>
    obtain ⟨rfl, rfl⟩ | ⟨rfl, rfl⟩ | ⟨rfl, rfl⟩ := hh <;>
      simp [blockHeader?, chomp?, depth?, lineEnd?, skipBlanks, isBlank, isBreak, breakAhead]

theorem margin?_spaces {p : Point} {n : Nat} {c : Char} (rest : List Char)
    (hblank : isBlank c = false) (hbreak : isBreak c = false) :
    margin? p.column (p.locate (spaces n ++ c :: rest)) = some (p.column + n) := by
  simp only [isBlank, Bool.or_eq_false_iff] at hblank
  induction n generalizing p with
  | zero => simp [spaces, margin?, hblank.1, hblank.2, hbreak]
  | succ n ih =>
    have hs : spaces (n + 1) = ' ' :: spaces n := rfl
    have hread := ih (p := p.next ' ')
    rw [Point.next_space_column] at hread
    rw [hs, List.cons_append, Point.locate_cons, margin?, if_pos (by simp)]
    simp only [Point.spot_column, show max p.column (p.column + 1) = p.column + 1 by omega, hread]
    congr 1
    omega

/-- The read says just this text: its breaks at the end are kept apart, the one that ends the last
line with text and those of empty lines. -/
structure BlockRead.Holds (b : BlockRead) (cs : List Char) : Prop where
  done : b.done = cs.reverse.dropWhile isBreak
  breaks : b.empties ++ b.ended = cs.reverse.takeWhile isBreak
  ended : b.done ≠ [] → b.inLine = false → b.ended.length = 1
  inLine : b.inLine = true → b.empties = [] ∧ b.ended = []

namespace BlockRead.Holds

variable {b : BlockRead} {cs : List Char}

theorem all (h : b.Holds cs) : b.empties ++ b.ended ++ b.done = cs.reverse := by
  rw [h.breaks, h.done, List.takeWhile_append_dropWhile]

theorem beginLine {c : Char} (h : b.Holds cs) (hc : isBreak c = false) :
    (b.beginLine false c).Holds (cs ++ [c]) where
  done := by simp [BlockRead.beginLine, ← h.all, hc]
  breaks := by simp [BlockRead.beginLine, hc]
  ended _ hin := by simp [BlockRead.beginLine] at hin
  inLine _ := ⟨rfl, rfl⟩

theorem char {c : Char} (h : b.Holds cs) (hin : b.inLine = true) (hc : isBreak c = false) :
    BlockRead.Holds { b with done := c :: b.done } (cs ++ [c]) := by
  obtain ⟨he, hd⟩ := h.inLine hin
  have hall := h.all
  simp only [he, hd, List.nil_append] at hall
  refine ⟨by simp [hc, hall], by simp [he, hd, hc], ?_, h.inLine⟩
  intro _ hout
  simp [hin] at hout

theorem lineEnd {c : Char} (h : b.Holds cs) (hin : b.inLine = true) (hc : isBreak c = true) :
    BlockRead.Holds { b with ended := [c], inLine := false } (cs ++ [c]) := by
  obtain ⟨he, hd⟩ := h.inLine hin
  have hbreaks := h.breaks
  rw [he, hd] at hbreaks
  exact ⟨by simp [hc, h.done], by simp [hc, he, ← hbreaks], by simp, by simp⟩

theorem emptyLine {c : Char} (h : b.Holds cs) (hin : b.inLine = false) (hc : isBreak c = true) :
    BlockRead.Holds { b with empties := c :: b.empties } (cs ++ [c]) := by
  refine ⟨by simp [hc, h.done], by simp [hc, ← h.breaks], h.ended, ?_⟩
  simp [hin]

end BlockRead.Holds

theorem blockLines?_spaces {p : Point} {column n : Nat} {b : BlockRead} {tail : List Char}
    (hin : b.inLine = false) (hn : p.column + n ≤ column) :
    blockLines? false column b (p.locate (spaces n ++ tail)) =
      blockLines? false column b ((p.after (spaces n)).locate tail) := by
  induction n generalizing p with
  | zero => rfl
  | succ n ih =>
    have hs : spaces (n + 1) = ' ' :: spaces n := rfl
    have hread := ih (p := p.next ' ') (by rw [Point.next_space_column]; omega)
    have hleft : p.column < column := by omega
    rw [hs, List.cons_append, Point.locate_cons, Point.after_cons, ← hread, blockLines?]
    simp [hin, hleft]

/-- The lines end before a token that stands further to the left. -/
theorem blockLines?_tail {p : Point} {column i : Nat} {b : BlockRead} {tail : List Char}
    (hin : b.inLine = false) (ht : Continues i tail) (hi : i < column) (hp : p.column = 0) :
    blockLines? false column b (p.locate tail) = some (b, skipBlanks (p.locate tail)) := by
  rcases ht with rfl | ⟨j, c, cs, hj, rfl, hc⟩
  · rfl
  · obtain ⟨hblank, hbreak, -, -⟩ := beginsToken_iff.1 hc
    simp only [isBlank, Bool.or_eq_false_iff] at hblank
    have hleft : j < column := by omega
    rw [blockLines?_spaces hin (by omega), skipBlanks_of_token hc, Point.locate_cons, blockLines?]
    simp [hin, hblank.1, hblank.2, hbreak, hp, hleft]

/-- The body of a literal block does not need a line end of its own. -/
def endsFresh (fresh : Bool) (cs : List Char) : Bool := (cs.getLast?.map isBreak).getD fresh

theorem endsFresh_cons (fresh : Bool) (c : Char) (cs : List Char) :
    endsFresh fresh (c :: cs) = endsFresh (isBreak c) cs := by
  simp only [endsFresh, List.getLast?_cons]
  cases cs.getLast? <;> rfl

/-- A line end belongs to the line with text that it ends, or it makes an empty line. -/
theorem blockLines?_break {p : Point} (column : Nat) {b : BlockRead} {before : List Char} {c : Char}
    (rest : List Char) (hb : b.Holds before) (hc : isBreak c = true) :
    ∃ b' : BlockRead, b'.Holds (before ++ [c]) ∧ b'.inLine = false ∧
      blockLines? false column b (p.locate (c :: rest)) =
        blockLines? false column b' ((p.next c).locate rest) := by
  cases hin : b.inLine with
  | true =>
    refine ⟨_, hb.lineEnd hin hc, rfl, ?_⟩
    rw [Point.locate_cons, blockLines?]
    simp [hin, hc]
  | false =>
    have hnot : c ≠ ' ' ∧ c ≠ '\t' := by
      constructor <;> (rintro rfl; revert hc; decide)
    refine ⟨_, hb.emptyLine hin hc, hin, ?_⟩
    rw [Point.locate_cons, blockLines?]
    simp [hin, hnot.1, hnot.2, hc]

/-- A character goes on with its line, or begins one behind the indentation. -/
theorem blockLines?_char {p : Point} (indent : Nat) {fresh : Bool} {b : BlockRead}
    {before : List Char} {c : Char} (rest : List Char) (hb : b.Holds before)
    (hin : b.inLine = !fresh) (hp : fresh = true → p.column = 0) (hc : isBreak c = false) :
    ∃ b' : BlockRead, b'.Holds (before ++ [c]) ∧ b'.inLine = true ∧
      blockLines? false indent b
          (p.locate ((if fresh then spaces indent else []) ++ c :: rest)) =
        blockLines? false indent b'
          (((p.after (if fresh then spaces indent else [])).next c).locate rest) := by
  cases fresh with
  | true =>
    have hcol : (p.after (spaces indent)).column = indent := by
      rw [Point.after_spaces_column, hp rfl, Nat.zero_add]
    refine ⟨_, hb.beginLine hc, rfl, ?_⟩
    rw [if_pos rfl, blockLines?_spaces hin (by rw [hp rfl]; omega), Point.locate_cons, blockLines?]
    simp [hin, hcol, hc]
  | false =>
    refine ⟨_, hb.char hin hc, hin, ?_⟩
    rw [if_neg Bool.false_ne_true, List.nil_append, Point.locate_cons, blockLines?]
    simp [hin, hc]

/-- The lines of a literal block are read up to its end, by induction over its characters. -/
theorem blockLines?_body {p : Point} {indent i : Nat} (fresh : Bool) {b : BlockRead}
    {before : List Char} (cs : List Char) {tail : List Char} (hb : b.Holds before)
    (hin : b.inLine = !fresh)
    (hp : fresh = true → p.column = 0) (ht : Continues i tail) (hi : i < indent) :
    ∃ b' : BlockRead, b'.Holds (before ++ cs ++ if endsFresh fresh cs then [] else ['\n']) ∧
      b'.inLine = false ∧ (p.after (literalBody indent fresh cs)).column = 0 ∧
      blockLines? false indent b (p.locate (literalBody indent fresh cs ++ tail)) =
        some (b', skipBlanks ((p.after (literalBody indent fresh cs)).locate tail)) := by
  induction cs generalizing p fresh b before with
  | nil =>
    cases fresh with
    | true =>
      refine ⟨b, by simpa [endsFresh] using hb, hin, hp rfl, ?_⟩
      exact blockLines?_tail hin ht hi (hp rfl)
    | false =>
      obtain ⟨b', hb', hin', hstep⟩ := blockLines?_break (p := p) indent tail hb
        (c := '\n') rfl
      refine ⟨b', by simpa [endsFresh] using hb', hin', rfl, ?_⟩
      exact hstep.trans (blockLines?_tail hin' ht hi rfl)
  | cons c cs ih =>
    have hends := endsFresh_cons fresh c cs
    cases hc : isBreak c with
    | true =>
      have hcol : (p.next c).column = 0 := by rw [Point.next_of_break p hc]
      obtain ⟨b₁, hb₁, hin₁, hstep⟩ := blockLines?_break (p := p) indent
        (literalBody indent true cs ++ tail) hb hc
      obtain ⟨b', hb', hin', hcol', hread⟩ := ih true hb₁ hin₁ (fun _ => hcol)
      rw [hc] at hends
      simp only [literalBody, hc, if_true, List.cons_append, Point.after_cons, hends]
      exact ⟨b', by simpa using hb', hin', hcol', hstep.trans hread⟩
    | false =>
      obtain ⟨b₁, hb₁, hin₁, hstep⟩ := blockLines?_char (p := p) indent
        (literalBody indent false cs ++ tail) hb hin hp hc
      obtain ⟨b', hb', hin', hcol', hread⟩ := ih
        (p := (p.after (if fresh then spaces indent else [])).next c) false hb₁ hin₁ (by simp)
      rw [hc] at hends
      simp only [literalBody, hc, Bool.false_eq_true, if_false, hends, List.append_assoc,
        List.cons_append, Point.after_append, Point.after_cons]
      exact ⟨b', by simpa using hb', hin', hcol', hstep.trans hread⟩

/-- The hint says what becomes of the breaks at the end so that just those of the text stay. -/
theorem chompHint_text {cs : List Char} {b : BlockRead} (hne : cs ≠ [])
    (hb : b.Holds (cs ++ if endsFresh true cs then [] else ['\n'])) (hin : b.inLine = false) :
    ∃ chomp, (chompHint cs = [] ∧ chomp = Chomp.clip ∨ chompHint cs = ['+'] ∧ chomp = .keep ∨
      chompHint cs = ['-'] ∧ chomp = .strip) ∧ b.text chomp = String.ofList cs := by
  obtain ⟨before, c, rfl⟩ := (List.eq_nil_or_concat cs).resolve_left hne
  have hends : endsFresh true (before.concat c) = isBreak c := by simp [endsFresh]
  rw [hends] at hb
  cases hc : isBreak c with
  | false =>
    refine ⟨.strip, .inr (.inr ⟨by simp [chompHint, hc], rfl⟩), ?_⟩
    have hdone := hb.done
    simp only [hc, Bool.false_eq_true, if_false] at hdone
    rw [BlockRead.text, hdone]
    have hfeed : isBreak '\n' = true := rfl
    simp [hfeed, hc]
  | true =>
    simp only [hc, if_true, List.append_nil] at hb
    have hall := hb.all
    cases hbefore : before.reverse with
    | nil =>
      refine ⟨.keep, .inr (.inl ⟨by simp [chompHint, hc, hbefore], rfl⟩), ?_⟩
      simp [BlockRead.text, hall]
    | cons d rest =>
      cases hd : isBreak d with
      | true =>
        refine ⟨.keep, .inr (.inl ⟨by simp [chompHint, hc, hbefore, startsWith, hd], rfl⟩), ?_⟩
        simp [BlockRead.text, hall]
      | false =>
        refine ⟨.clip, .inl ⟨by simp [chompHint, hc, hbefore, startsWith, hd], rfl⟩, ?_⟩
        have hdone := hb.done
        have hbreaks := hb.breaks
        simp only [List.concat_eq_append, List.reverse_append, List.reverse_cons, List.reverse_nil,
          List.nil_append, List.singleton_append, hbefore, hc, hd, List.dropWhile_cons, if_true,
          Bool.false_eq_true, if_false, List.takeWhile_cons] at hdone hbreaks
        have hone := hb.ended (by simp [hdone]) hin
        have hempties : b.empties = [] := by
          have hlength := congrArg List.length hbreaks
          simp only [List.length_append, hone, List.length_singleton] at hlength
          exact List.length_eq_zero_iff.1 (by omega)
        rw [hempties, List.nil_append] at hall
        simp [BlockRead.text, hall]

/-- The column of the lines is said by the header or shown by the first of them. -/
theorem literal_column {p : Point} {i : Nat} {cs : List Char} (tail : List Char) (hne : cs ≠ [])
    (hchars : ∀ c ∈ cs, isPrintable c = true) (hp : p.column = 0) :
    depthHint cs = ['2'] ∨ depthHint cs = [] ∧
      (margin? 0 (p.locate (literalBody (i + step) true cs ++ tail))).map (lineColumn (some i)) =
        some (i + step) := by
  cases hs : startsWith (fun c => c == ' ' || isBreak c) cs with
  | true => exact .inl (by simp [depthHint, hs])
  | false =>
    obtain ⟨c, rest, rfl⟩ := List.exists_cons_of_ne_nil hne
    simp only [startsWith, Bool.or_eq_false_iff, beq_eq_false_iff_ne] at hs
    have hblank := not_isBlank (hchars c List.mem_cons_self) hs.1
    have hbody : literalBody (i + step) true (c :: rest) ++ tail =
        spaces (i + step) ++ c :: (literalBody (i + step) false rest ++ tail) := by
      simp [literalBody, hs.2]
    have hmargin := margin?_spaces (p := p) (n := i + step)
      (literalBody (i + step) false rest ++ tail) hblank hs.2
    rw [hp] at hmargin
    refine .inr ⟨by simp [depthHint, startsWith, hs], ?_⟩
    rw [hbody, hmargin, Option.map_some, lineColumn, Option.some_inj, step]
    omega

/-- A literal block says the text it was written for, and ends where its last line does. -/
theorem block?_literal {p : Point} {i : Nat} {cs tail : List Char} (hne : cs ≠ [])
    (hchars : ∀ c ∈ cs, isPrintable c = true) (ht : Continues i tail) :
    (p.after (depthHint cs ++
        (chompHint cs ++ '\n' :: literalBody (i + step) true cs))).column = 0 ∧
      block? false (some i)
          (p.locate (depthHint cs ++ (chompHint cs ++ '\n' ::
            (literalBody (i + step) true cs ++ tail)))) =
        some (String.ofList cs, skipBlanks ((p.after (depthHint cs ++ (chompHint cs ++
          '\n' :: literalBody (i + step) true cs))).locate tail)) := by
  have hp : (p.after (depthHint cs ++ (chompHint cs ++ ['\n']))).column = 0 := by
    simp
  have hempty : BlockRead.Holds {} [] := ⟨rfl, rfl, by simp, by simp⟩
  obtain ⟨b, hb, hin, hcol, hread⟩ := blockLines?_body true cs hempty rfl
    (fun _ => hp) ht (show i < i + step by simp [step])
  obtain ⟨chomp, hchomp, htext⟩ := chompHint_text hne (by simpa using hb) hin
  have hafter : p.after (depthHint cs ++ (chompHint cs ++ '\n' :: literalBody (i + step) true cs)) =
      (p.after (depthHint cs ++ (chompHint cs ++ ['\n']))).after
        (literalBody (i + step) true cs) := by
    simp
  rw [hafter]
  refine ⟨hcol, ?_⟩
  rcases literal_column (i := i) tail hne hchars hp with hdepth | ⟨hdepth, hcolumn⟩
  · rw [block?, blockHeader?_hints (.inr ⟨hdepth, rfl⟩) hchomp]
    simp only [Option.bind_eq_bind, Option.bind_some, Option.getD_some]
    rw [show i + 2 = i + step from rfl, hread, Option.bind_some, htext]
    rfl
  · rw [block?, blockHeader?_hints (.inl ⟨hdepth, rfl⟩) hchomp]
    simp only [Option.bind_eq_bind, Option.bind_some, hcolumn, hread, htext]
    rfl

end SccDispatch.Yaml
