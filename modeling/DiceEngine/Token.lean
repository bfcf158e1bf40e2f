import DiceEngine.Expression

/-!
# Tokens

The recognisers of the parts of an expression. Each looks at the start of a text and answers with
the value found and the text behind it, or not at all. They take as many characters as they may,
and none of them takes blanks or tries a shorter reading again.

Main statements: `length_lt_of_term` and `length_lt_of_operator`, a token is never empty, so reading
one after another ends.
-/

namespace DiceEngine.Token

/-- A number written with one to `limit` digits. -/
def number (limit : Nat) (s : List Char) : Option (Nat × List Char) :=
  let digits := (s.take limit).takeWhile Char.isDigit
  if digits.isEmpty then none
  else some (Nat.ofDigitChars 10 digits 0, s.drop digits.length)

/-- How many dice: one or two digits, and not zero. -/
def quantity (s : List Char) : Option (Nat × List Char) :=
  (number 2 s).filter fun r => 1 ≤ r.1

/-- How many sides: `100`, or else one or two digits, and not zero. -/
def sides : List Char → Option (Nat × List Char)
  | '1' :: '0' :: '0' :: rest => some (100, rest)
  | s => (number 2 s).filter fun r => 1 ≤ r.1

/-- Which end is kept. -/
def selector : List Char → Option (Selector × List Char)
  | 'v' :: rest => some (.lowest, rest)
  | '^' :: rest => some (.highest, rest)
  | _ => none

/-- How many dice are kept, and of which end: a selector and one to three digits. -/
def keep (s : List Char) : Option (Keep × List Char) := do
  let (selector, s) ← selector s
  let (count, s) ← number 3 s
  some (⟨selector, count⟩, s)

/-- The sides of a group, behind the `d`. -/
def dieSides : List Char → Option (Nat × List Char)
  | 'd' :: rest => sides rest
  | _ => none

/-- How many dice are kept, where it is said at all. A selector without a number behind it is left
unread. -/
def keepOrAll (s : List Char) : Option Keep × List Char :=
  match keep s with
  | some (k, rest) => (some k, rest)
  | none => (none, s)

/-- A die group. -/
def dieGroup (s : List Char) : Option (DieGroup × List Char) := do
  let (quantity, s) ← quantity s
  let (sides, s) ← dieSides s
  let (kept, s) := keepOrAll s
  let g ← (DieGroup.create quantity sides kept).toOption
  some (g, s)

/-- A number as a term: one to three digits. -/
def literal (s : List Char) : Option (Int × List Char) :=
  (number 3 s).map fun r => (Int.ofNat r.1, r.2)

/-- A die group, or else a number. -/
def term (s : List Char) : Option (Term × List Char) :=
  match dieGroup s with
  | some (g, rest) => some (.dice g, rest)
  | none => (literal s).map fun r => (.literal r.1, r.2)

def operator : List Char → Option (Operator × List Char)
  | '+' :: rest => some (.add, rest)
  | '-' :: rest => some (.sub, rest)
  | _ => none

theorem length_lt_of_number {limit n : Nat} {s rest : List Char}
    (h : number limit s = some (n, rest)) : rest.length < s.length := by
  simp only [number] at h
  split at h
  · cases h
  · next hd =>
    cases h
    have h1 := (List.takeWhile_sublist Char.isDigit (l := s.take limit)).length_le
    have h2 : 0 < ((s.take limit).takeWhile Char.isDigit).length :=
      List.length_pos_iff.2 (by simpa using hd)
    simp only [List.length_take] at h1
    simp only [List.length_drop]
    omega

theorem length_lt_of_quantity {n : Nat} {s rest : List Char}
    (h : quantity s = some (n, rest)) : rest.length < s.length :=
  length_lt_of_number (Option.filter_eq_some_iff.1 h).1

theorem length_lt_of_sides {n : Nat} {s rest : List Char}
    (h : sides s = some (n, rest)) : rest.length < s.length := by
  unfold sides at h
  split at h
  · cases h; simp only [List.length_cons]; omega
  · exact length_lt_of_number (Option.filter_eq_some_iff.1 h).1

theorem length_lt_of_selector {sel : Selector} {s rest : List Char}
    (h : selector s = some (sel, rest)) : rest.length < s.length := by
  unfold selector at h
  split at h <;> cases h <;> exact Nat.lt_succ_self _

theorem length_lt_of_keep {k : Keep} {s rest : List Char}
    (h : keep s = some (k, rest)) : rest.length < s.length := by
  simp only [keep, Option.bind_eq_bind, Option.bind_eq_some_iff] at h
  obtain ⟨⟨sel, r⟩, hs, ⟨n, r'⟩, hn, h⟩ := h
  cases h
  exact Nat.lt_trans (length_lt_of_number hn) (length_lt_of_selector hs)

theorem length_keepOrAll_le (s : List Char) : (keepOrAll s).2.length ≤ s.length := by
  unfold keepOrAll
  split
  · next h => exact Nat.le_of_lt (length_lt_of_keep h)
  · exact Nat.le_refl _

theorem length_lt_of_dieSides {n : Nat} {s rest : List Char}
    (h : dieSides s = some (n, rest)) : rest.length < s.length := by
  unfold dieSides at h
  split at h
  · exact Nat.lt_trans (length_lt_of_sides h) (Nat.lt_succ_self _)
  · cases h

theorem length_lt_of_dieGroup {g : DieGroup} {s rest : List Char}
    (h : dieGroup s = some (g, rest)) : rest.length < s.length := by
  simp only [dieGroup, Option.bind_eq_bind, Option.bind_eq_some_iff] at h
  obtain ⟨⟨q, r⟩, hq, ⟨n, r'⟩, hn, g', hg, h⟩ := h
  cases h
  exact Nat.lt_of_le_of_lt (length_keepOrAll_le _)
    (Nat.lt_trans (length_lt_of_dieSides hn) (length_lt_of_quantity hq))

theorem length_lt_of_term {t : Term} {s rest : List Char}
    (h : term s = some (t, rest)) : rest.length < s.length := by
  unfold term at h
  split at h
  · next hg => cases h; exact length_lt_of_dieGroup hg
  · obtain ⟨⟨n, r⟩, hn, h⟩ := Option.map_eq_some_iff.1 h
    cases h
    obtain ⟨⟨m, r'⟩, hm, hr⟩ := Option.map_eq_some_iff.1 hn
    cases hr
    exact length_lt_of_number hm

theorem length_lt_of_operator {op : Operator} {s rest : List Char}
    (h : operator s = some (op, rest)) : rest.length < s.length := by
  unfold operator at h
  split at h <;> cases h <;> simp

end DiceEngine.Token
