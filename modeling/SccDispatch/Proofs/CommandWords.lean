import SccDispatch.CommandLine.Run

namespace SccDispatch.CommandLine

theorem exists_ok_of_bind {ε α β : Type} {x : Except ε α} {f : α → Except ε β} {b : β}
    (h : x >>= f = .ok b) : ∃ a, x = .ok a ∧ f a = .ok b := by
  cases x with
  | error e => cases h
  | ok a => exact ⟨a, rfl, h⟩

namespace Reading

variable {g : Grammar} {r r' : Reading}

theorem operands_note {f : Flag} {value : Option String} (h : r.note f value = .ok r') :
    r'.words.operands = r.words.operands := by
  unfold note at h
  split at h <;> cases h
  rfl

theorem operands_settle (h : r.settle = .ok r') : r'.words.operands = r.words.operands := by
  unfold settle at h
  split at h
  next => cases h; rfl
  next => cases h
  next f v _ => exact operands_note (r := { r with pending := none, awaits := false }) h

theorem operands_meet {f : Flag} {attached : Option String} (h : r.meet f attached = .ok r') :
    r'.words.operands = r.words.operands := by
  unfold meet at h
  split at h
  next =>
    obtain ⟨s, hs, hn⟩ := exists_ok_of_bind h
    exact (operands_note hn).trans (operands_settle hs)
  next =>
    obtain ⟨s, hs, hn⟩ := exists_ok_of_bind h
    cases hn
    have ho := operands_settle hs
    exact ho
  next => cases h
  next =>
    obtain ⟨s, hs, hn⟩ := exists_ok_of_bind h
    obtain ⟨s', hs', hn⟩ := exists_ok_of_bind hn
    cases hn
    exact (operands_note hs').trans (operands_settle hs)
  next =>
    obtain ⟨s, hs, hn⟩ := exists_ok_of_bind h
    cases hn
  next =>
    obtain ⟨s, hs, hn⟩ := exists_ok_of_bind h
    cases hn

theorem operands_meetLetters {letters : List Char} (h : r.meetLetters g letters = .ok r') :
    r'.words.operands = r.words.operands := by
  induction letters generalizing r with
  | nil => cases h; rfl
  | cons c rest ih =>
    rw [meetLetters] at h
    split at h
    next => cases h
    next =>
      split at h
      next => exact operands_meet h
      next => exact operands_meet h
      next => exact operands_meet h
      next =>
        obtain ⟨s, hs, hn⟩ := exists_ok_of_bind h
        exact (ih hn).trans (operands_meet hs)

theorem operands_meetName {cs : List Char} (h : r.meetName g cs = .ok r') :
    r'.words.operands = r.words.operands := by
  unfold meetName at h
  simp only at h
  split at h
  next => exact operands_meet h
  next => cases h

theorem operands_meetOperand {name word : String} (hg : g.operands = .one name)
    (h : r.meetOperand g word = .ok r') : r'.words.operands = [word] := by
  unfold meetOperand at h
  simp only [hg] at h
  split at h
  next hr =>
    obtain ⟨s, hs, hn⟩ := exists_ok_of_bind h
    cases hn
    have ho := operands_settle hs
    rw [List.isEmpty_iff.mp hr] at ho
    simp only [ho, List.nil_append]
  next => cases h

theorem length_operands_meetWord {name word : String} (hg : g.operands = .one name)
    (hr : r.words.operands.length ≤ 1) (h : r.meetWord g word = .ok r') :
    r'.words.operands.length ≤ 1 := by
  have hone {s : Reading} (h : r.meetOperand g word = .ok s) : s.words.operands.length ≤ 1 := by
    rw [operands_meetOperand hg h]
    exact Nat.le_refl 1
  unfold meetWord at h
  split at h
  next => exact hone h
  next =>
    split at h
    next => cases h; exact hr
    next => rwa [operands_meetName h]
    next => rwa [operands_meetLetters h]
    next =>
      split at h
      next => cases h; exact hr
      next => exact hone h

theorem length_operands_foldlM {name : String} (hg : g.operands = .one name) {words : List String}
    (hr : r.words.operands.length ≤ 1) (h : words.foldlM (meetWord g) r = .ok r') :
    r'.words.operands.length ≤ 1 := by
  induction words generalizing r with
  | nil => cases h; exact hr
  | cons word words ih =>
    obtain ⟨s, hs, hn⟩ := exists_ok_of_bind h
    exact ih (length_operands_meetWord hg hr hs) hn

end Reading

namespace Grammar

variable {g : Grammar} {words : List String} {w : Words}

/-- Reading is meeting one word after another, and settling at the end. -/
theorem read_eq (h : g.read words = .ok w) :
    ∃ r r', words.foldlM (Reading.meetWord g) {} = .ok r ∧ r.settle = .ok r' ∧ r'.words = w ∧
      (g.operands = .none ∨ w.operands ≠ []) := by
  obtain ⟨r, hr, h⟩ := exists_ok_of_bind h
  obtain ⟨r', hs, h⟩ := exists_ok_of_bind h
  refine ⟨r, r', hr, hs, ?_⟩
  split at h
  next hc => cases h
  next hc =>
    cases h
    have hc : g.operands = .none ∨ r'.words.operands ≠ [] := by
      by_cases hg : g.operands = .none <;> simp_all
    exact ⟨rfl, hc⟩

/-- A command that takes arguments has been given some. -/
theorem operands_ne_nil (h : g.read words = .ok w) (hg : g.operands ≠ .none) :
    w.operands ≠ [] := by
  obtain ⟨_, _, -, -, -, hw⟩ := read_eq h
  exact hw.resolve_left hg

theorem operands_eq_singleton {name : String} (h : g.read words = .ok w)
    (hg : g.operands = .one name) : ∃ operand, w.operands = [operand] := by
  obtain ⟨r, r', hr, hs, rfl, hw⟩ := read_eq h
  have hl : r'.words.operands.length ≤ 1 := by
    rw [Reading.operands_settle hs]
    exact Reading.length_operands_foldlM (r := {}) hg (Nat.zero_le 1) hr
  have hne := hw.resolve_left (by simp [hg])
  exact List.length_eq_one_iff.mp
    (Nat.le_antisymm hl (List.length_pos_iff.mpr hne))

end Grammar

/-- From where `r` has got to, the words go on with options of the program itself, then name a
command and end with what that reads. -/
structure Names (r : Reading) (words : List String) (own : Words) (c : Command) (w : Words) :
    Prop where
  split : ∃ before after s t, words = before ++ c.grammar.name :: after ∧
    before.foldlM (Reading.meetWord program) r = .ok s ∧ s.awaits = false ∧
    s.settle = .ok t ∧ t.words = own ∧ c.grammar.read after = .ok w

theorem Names.cons {r s : Reading} {word : String} {words : List String} {own w : Words}
    {c : Command} (h : Names s words own c w) (hs : r.meetWord program word = .ok s) :
    Names r (word :: words) own c w := by
  obtain ⟨before, after, s', t, rfl, hb, ha, ht, ho, hr⟩ := h.split
  refine ⟨word :: before, after, s', t, rfl, ?_, ha, ht, ho, hr⟩
  rw [List.foldlM_cons, hs]
  exact hb

theorem name_ofName? {word : String} {c : Command} (h : Command.ofName? word = some c) :
    c.grammar.name = word := by simpa using List.find?_some h

theorem halted_ne_run (e : Halt) (a : Arguments) : halted e ≠ .ok (.run a) := by
  cases e <;> simp [halted]

theorem describe_ne_run (words : List String) (a : Arguments) : describe words ≠ .ok (.run a) := by
  unfold describe
  repeat' split
  all_goals simp

/-- Words that are read as a command name it and end with its own words. -/
theorem names_of_readCommand {r : Reading} {c : Command} {words : List String} {a : Arguments}
    (h : readCommand r c words = .ok (.run a)) (hr : r.awaits = false) :
    ∃ own w, Names r (c.grammar.name :: words) own c w ∧ a = .of own (c.task w) := by
  unfold readCommand at h
  split at h
  next => cases h
  next e _ _ => exact absurd h (halted_ne_run e a)
  next w hw =>
    split at h
    next e _ => exact absurd h (halted_ne_run e a)
    next t ht =>
      cases h
      exact ⟨t.words, w, ⟨[], words, r, t, rfl, rfl, hr, ht, rfl, hw⟩, rfl⟩

/-- A run is asked for by the options of the program, the name of a command and what that reads. -/
theorem names_of_readFrom {r : Reading} {words : List String} {a : Arguments}
    (h : readFrom r words = .ok (.run a)) :
    ∃ own c w, Names r words own c w ∧ a = .of own (c.task w) := by
  induction words generalizing r with
  | nil =>
    rw [readFrom] at h
    split at h
    next e _ => exact absurd h (halted_ne_run e a)
    next => split at h <;> cases h
  | cons word rest ih =>
    rw [readFrom] at h
    split at h
    next hn =>
      split at h
      next => cases h
      next hv =>
        have hr : r.awaits = false := by
          simp only [namesCommand, hv, Bool.false_or, Bool.and_eq_true, Bool.not_eq_true'] at hn
          exact hn.1
        split at h
        next => exact absurd h (describe_ne_run rest a)
        next =>
          split at h
          next c hc =>
            obtain ⟨own, w, names, ha⟩ := names_of_readCommand h hr
            rw [name_ofName? hc] at names
            exact ⟨own, c, w, names, ha⟩
          next => cases h
    next =>
      split at h
      next e _ => exact absurd h (halted_ne_run e a)
      next s hs =>
        obtain ⟨own, c, w, names, ha⟩ := ih h
        exact ⟨own, c, w, names.cons hs, ha⟩

end SccDispatch.CommandLine
