import SccDispatch.Yaml.Scalar.Plain
import SccDispatch.Proofs.Yaml.Point

namespace SccDispatch.Yaml

theorem endsLine_of_isBreak {c : Char} (h : isBreak c = true) : endsLine c = true := by
  simp only [isBreak, Bool.or_eq_true, beq_iff_eq] at h
  obtain (rfl | rfl) | rfl := h <;> decide

theorem not_isBreak {c : Char} (h : endsLine c = false) : isBreak c = false := by
  cases hb : isBreak c with
  | false => rfl
  | true => simp [endsLine_of_isBreak hb] at h

theorem isGap_of_isBlank {c : Char} (h : isBlank c = true) : isGap c = true := by
  simp only [isBlank, Bool.or_eq_true, beq_iff_eq] at h
  obtain rfl | rfl := h <;> decide

theorem isGap_of_isBreak {c : Char} (h : isBreak c = true) : isGap c = true := by
  simp [isGap, endsLine_of_isBreak h]

/-- The only blank that can be written as it is. -/
theorem eq_space {c : Char} (hp : isPrintable c = true) (hb : isBlank c = true) : c = ' ' := by
  simp only [isBlank, Bool.or_eq_true, beq_iff_eq] at hb
  obtain rfl | rfl := hb
  · rfl
  · revert hp
    decide

theorem not_isBlank {c : Char} (hp : isPrintable c = true) (hc : c ≠ ' ') : isBlank c = false := by
  cases hb : isBlank c with
  | false => rfl
  | true => exact absurd (eq_space hp hb) hc

/-- Text that goes on at once has no gap ahead. -/
theorem not_gapAhead {p : Point} {cs tail : List Char} (h : gapNext cs = false) :
    gapAhead (p.locate (cs ++ tail)) = false := by
  cases cs with
  | nil => simp [gapNext] at h
  | cons c cs =>
    have hg : isGap c = false := by simpa [gapNext, startsWith] using h
    cases hb : isBlank c with
    | true => simp [isGap_of_isBlank hb] at hg
    | false =>
      cases hk : isBreak c with
      | true => simp [isGap_of_isBreak hk] at hg
      | false => simp [hb, hk]

namespace Gap

theorem text_of_no_break {g : Gap} (he : g.escaped = false)
    (h : ∀ c ∈ g.chars, isBreak c = false) : g.text = g.chars := by
  have hb : g.breaks = [] := by
    simp only [breaks, List.filter_eq_nil_iff]
    intro c hc
    simp [h c hc]
  simp [text, he, hb]

def ofSpaces (n : Nat) : Gap := { chars := spaces n }

@[simp] theorem ofSpaces_text (n : Nat) : (ofSpaces n).text = spaces n :=
  text_of_no_break rfl fun _ => Point.isBreak_of_mem_spaces

@[simp] theorem push_ofSpaces (n : Nat) : (ofSpaces n).push ' ' = ofSpaces (n + 1) := by
  simp [ofSpaces, push, spaces, List.replicate_succ']

@[simp] theorem ofSpaces_zero : ofSpaces 0 = .empty := rfl

end Gap

theorem plain?_space {place : PlainPlace} {p : Point} {n : Nat} {done rest : List Char} :
    plain? place done (.ofSpaces n) (p.locate (' ' :: rest)) =
      plain? place done (.ofSpaces (n + 1)) ((p.next ' ').locate rest) := by
  rw [Point.locate_cons, plain?, if_pos (by simp [isBlank]),
    if_neg (by simp [PlainPlace.forbidsBlank]), Point.spot_char, Gap.push_ofSpaces]

/-- A character is taken over with the spaces before it, unless it begins a comment or marks a
value. -/
theorem plain?_char {place : PlainPlace} {p : Point} {n : Nat} {c : Char} {done rest : List Char}
    (hflow : place.inFlow = false) (hblank : isBlank c = false) (hbreak : isBreak c = false)
    (hgap : n ≠ 0 → p.column ≠ 0 ∧ place.indent ≤ p.column ∧ c ≠ '#')
    (hcolon : c = ':' → gapAhead ((p.next c).locate rest) = false) :
    plain? place done (.ofSpaces n) (p.locate (c :: rest)) =
      plain? place (c :: (spaces n ++ done)) .empty ((p.next c).locate rest) := by
  have hafter : place.endsAfter (.ofSpaces n) (p.spot c) ((p.next c).locate rest) = false := by
    by_cases hn : n = 0
    · subst hn
      rfl
    · obtain ⟨hzero, hindent, hsharp⟩ := hgap hn
      have hmark : documentMarkAhead (p.spot c :: (p.next c).locate rest) = false :=
        documentMarkAhead_eq_false hzero
      have hdeep : ¬p.column < place.indent := by omega
      simp [PlainPlace.endsAfter, hmark, hsharp, hdeep]
  have hat : place.endsAt (p.spot c) ((p.next c).locate rest) = false := by
    by_cases hc : c = ':'
    · simp [PlainPlace.endsAt, hflow, hcolon hc]
    · simp [PlainPlace.endsAt, hflow, hc]
  have hforbids : place.forbids (p.spot c) ((p.next c).locate rest) = false := by
    simp [PlainPlace.forbids, hflow]
  rw [Point.locate_cons, plain?, if_neg (by simpa using hblank), if_neg (by simpa using hbreak),
    if_neg (by simp [hafter, hat]), if_neg (by simp [hforbids])]
  simp [spaces]

/-- Characters of a plain scalar are taken over, spaces before them included. What follows does not
matter, since the text does not end in a mark that needs it. -/
theorem plain?_append {place : PlainPlace} {p : Point} {n : Nat} {done cs tail : List Char}
    (hflow : place.inFlow = false)
    (hchars : ∀ c ∈ cs, isPrintable c = true ∧ endsLine c = false)
    (hinner : hasInnerMark cs = false) (hends : endsWith (· == ' ') cs = false)
    (hsign : n ≠ 0 → startsWith (· == '#') cs = false ∧ cs ≠ [])
    (hcolumn : n ≠ 0 → p.column ≠ 0 ∧ place.indent ≤ p.column)
    (hnext : place.indent ≤ p.column + 1) :
    plain? place done (.ofSpaces n) (p.locate (cs ++ tail)) =
      plain? place (cs.reverse ++ (spaces n ++ done)) .empty ((p.after cs).locate tail) := by
  induction cs generalizing p n done with
  | nil =>
    have hn : n = 0 := by
      by_contra hn
      exact (hsign hn).2 rfl
    subst hn
    rfl
  | cons c cs ih =>
    obtain ⟨hp, hl⟩ := hchars c List.mem_cons_self
    have hbreak := not_isBreak hl
    have hrest : ∀ x ∈ cs, isPrintable x = true ∧ endsLine x = false :=
      fun x hx => hchars x (List.mem_cons_of_mem _ hx)
    simp only [hasInnerMark, Bool.or_eq_false_iff] at hinner
    obtain ⟨⟨hcolon, hgap⟩, hinner⟩ := hinner
    have hends' : endsWith (· == ' ') cs = false := by
      cases cs with
      | nil => rfl
      | cons d ds => simpa [endsWith] using hends
    have hcol : (p.next c).column = p.column + 1 := by rw [Point.next_of_not_break p hbreak]
    rw [List.cons_append, Point.after_cons]
    by_cases hs : c = ' '
    · subst hs
      have hne : cs ≠ [] := by
        rintro rfl
        simp [endsWith] at hends
      have hstart : startsWith (· == '#') cs = false := by simpa [isGap] using hgap
      rw [plain?_space, ih hrest hinner hends' (fun _ => ⟨hstart, hne⟩) (fun _ => by omega)
        (by omega)]
      simp [spaces, List.replicate_succ]
    · have hsharp : n ≠ 0 → p.column ≠ 0 ∧ place.indent ≤ p.column ∧ c ≠ '#' := by
        intro hn
        exact ⟨(hcolumn hn).1, (hcolumn hn).2, by simpa [startsWith] using (hsign hn).1⟩
      have hnextGap : c = ':' → gapAhead ((p.next c).locate (cs ++ tail)) = false :=
        fun hc => not_gapAhead (by simpa [hc] using hcolon)
      rw [plain?_char hflow (not_isBlank hp hs) hbreak hsharp hnextGap, ← Gap.ofSpaces_zero,
        ih hrest hinner hends' (by simp) (by simp) (by omega)]
      simp [spaces]

theorem plain?_spaces {place : PlainPlace} {p : Point} {g : Gap} {n : Nat} {done tail : List Char} :
    plain? place done g (p.locate (spaces n ++ tail)) =
      plain? place done { g with chars := g.chars ++ spaces n }
        ((p.after (spaces n)).locate tail) := by
  induction n generalizing p g with
  | zero => simp [spaces]
  | succ n ih =>
    have hs : spaces (n + 1) = ' ' :: spaces n := rfl
    rw [hs, List.cons_append, Point.locate_cons, plain?, if_pos (by simp [isBlank]),
      if_neg (by simp [PlainPlace.forbidsBlank]), ih]
    simp [Gap.push]

/-- A plain scalar ends with its line if what comes next stands further to the left. -/
theorem plain?_line {place : PlainPlace} {p : Point} {i : Nat} {done tail : List Char}
    (hflow : place.inFlow = false) (ht : Continues i tail) (hi : i < place.indent) :
    plain? place done .empty (p.locate ('\n' :: tail)) =
      some ⟨String.ofList done.reverse, true, skipBlanks ((p.next '\n').locate tail)⟩ := by
  rw [Point.locate_cons, plain?, if_neg (by simp [isBlank]), if_pos (by simp [isBreak])]
  rcases ht with rfl | ⟨j, c, cs, hj, rfl, hc⟩
  · rfl
  · obtain ⟨hblank, hbreak, -, -⟩ := beginsToken_iff.1 hc
    have hcolumn : j < place.indent := by omega
    have hafter : ∀ rest, place.endsAfter { chars := '\n' :: spaces j }
        (((p.next '\n').after (spaces j)).spot c) rest = true := by
      intro rest
      simp [PlainPlace.endsAfter, Gap.isEmpty, hflow, hcolumn]
    rw [plain?_spaces, Point.locate_cons, plain?, if_neg (by simpa using hblank),
      if_neg (by simpa using hbreak), skipBlanks_of_token hc]
    simp [Gap.push, Gap.empty, hafter, Gap.hasBreak, Gap.breaks, isBreak]

/-- A plain key ends before its colon. -/
theorem plain?_colon {place : PlainPlace} {p : Point} {c : Char} {done tail : List Char}
    (hc : isBlank c = true ∨ isBreak c = true) :
    plain? place done .empty (p.locate (':' :: c :: tail)) =
      some ⟨String.ofList done.reverse, false, p.locate (':' :: c :: tail)⟩ := by
  have hat : place.endsAt (p.spot ':') ((p.next ':').locate (c :: tail)) = true := by
    simp [PlainPlace.endsAt, hc]
  rw [Point.locate_cons, plain?, if_neg (by simp [isBlank]), if_neg (by simp [isBreak]),
    if_pos (by rw [hat, Bool.or_true])]
  rfl

end SccDispatch.Yaml
