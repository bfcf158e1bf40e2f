import DiceEngine.Expression.Expectation
import DiceEngine.Proofs.Spelling
import DiceEngine.Proofs.Written
import Mathlib.Algebra.Order.Ring.Int
import Mathlib.Data.List.SplitBy

/-!
# Transcripts read back

A reader of the two texts of an evaluation, who does not know the expression. The
text is cut into its lines, the indented lines are put with the lines in front of
them, and each line is cut at its brackets and at its arrow (`ReadBack.brief`,
`ReadBack.full`).

Numbers and faces are written without the characters that cut a line
(`ReadBack.Unmarked`), so the reader finds of an outcome what it shows
(`Outcome.block_brief`, `Outcome.block_full`).
-/

namespace DiceEngine

/-! ## A reader -/

namespace ReadBack

/-- What the lines of a term say: a number, or faces in brackets, faces in parentheses where there
are any, and the number behind the arrow. -/
inductive Shown where
  | literal (value : Int)
  | dice (listed : List Int) (chosen : Option (List Int)) (value : Int)
  deriving DecidableEq, Repr

/-- The faces in brackets, of each term that has them. -/
def Shown.listed : Shown → List (List Int)
  | literal _ => []
  | dice faces _ _ => [faces]

/-- The number of a line. -/
def Shown.value : Shown → Int
  | literal value => value
  | dice _ _ value => value

/-- The faces that are shown as kept sum to the number behind the arrow. -/
def Shown.AddsUp : Shown → Prop
  | literal _ => True
  | dice faces chosen value => (chosen.getD faces).sum = value

/-- The lines of a term, with the operator in front of them. -/
structure Entry where
  lead : Option Operator
  shown : Shown
  deriving DecidableEq, Repr

/-- The faces in brackets, line by line. -/
def listed (es : List Entry) : List (List Int) := es.flatMap fun entry => entry.shown.listed

/-- What the lines come to, when each number joins by the operator in front of it. -/
def total (es : List Entry) : Int :=
  es.foldl (fun total entry => (entry.lead.getD .add).combine total entry.shown.value) 0

def natural (s : List Char) : Option Nat :=
  if s ≠ [] ∧ s.all Char.isDigit then some (Nat.ofDigitChars 10 s 0) else none

/-- A number with its sign. -/
def number : List Char → Option Int
  | '-' :: s => (natural s).map Int.negOfNat
  | s => (natural s).map Int.ofNat

/-- The faces between commas. -/
def faces (s : List Char) : Option (List Int) :=
  if s = [] then some [] else ((s.filter (· ≠ ' ')).splitOn ',').mapM number

/-- A line is cut at these characters. -/
def isMark (c : Char) : Bool := c = '[' ∨ c = ']' ∨ c = '(' ∨ c = ')' ∨ c = '>'

/-- The lines of a term, behind the operator. -/
def block (lines : List (List Char)) : Option Shown :=
  match lines.map (List.splitOnP isMark) with
  | [[value]] => (number value).map .literal
  | [[_, listed, [' ', '-'], ' ' :: value]] => do
    some (.dice (← faces listed) none (← number value))
  | [[_, listed, _], [_, chosen, [' ', '-'], ' ' :: value]] => do
    some (.dice (← faces listed) (some (← faces chosen)) (← number value))
  | _ => none

/-- The operator at the start of a line, and the line behind it. -/
def operator : List Char → Option (Operator × List Char)
  | '+' :: ' ' :: line => some (.add, line)
  | '-' :: ' ' :: line => some (.sub, line)
  | _ => none

/-- The lines of a term that is not the first one. -/
def entry : List (List Char) → Option Entry
  | [] => none
  | line :: lines => do
    let (op, line) ← operator line
    some ⟨some op, ← block (line :: lines)⟩

/-- The lines of all terms. -/
def entries : List (List (List Char)) → Option (List Entry)
  | [] => some []
  | first :: blocks => do
    some (⟨none, ← block first⟩ :: (← blocks.mapM entry))

def lines (text : String) : List (List Char) := text.toList.splitOn '\n'

/-- A line begins with a blank. -/
def indented (line : List Char) : Bool := line.head? == some ' '

/-- The brief text has a line for each term. -/
def brief (text : String) : Option (List Entry) := entries ((lines text).map fun line => [line])

/-- The total in the last line of the full text. -/
def lastTotal : List Char → Option Int
  | '=' :: ' ' :: value => number value
  | _ => none

/-- In the full text the lines of a term are one that is not indented and those behind it that
are; the total stands in the last line. -/
def full (text : String) : Option (List Entry × Int) := do
  let total ← (lines text).getLast?.bind lastTotal
  let entries ← entries ((lines text).dropLast.splitBy fun _ line => indented line)
  some (entries, total)

/-! ## Numbers and faces are read back -/

theorem exists_numeral (n : Nat) : ∃ limit, Numeral limit (toString n).toList n :=
  ⟨n + 1, numeral_toString n.succ_pos (n.lt_succ_self.trans (Nat.lt_pow_self (by decide)))⟩

/-- Without a sign, a number is what its digits say. -/
theorem number_of_digits {s : List Char} (h : ∀ c ∈ s, c.isDigit = true) :
    number s = (natural s).map Int.ofNat := by
  unfold number
  split
  · exact absurd (h '-' List.mem_cons_self) (by decide)
  · rfl

theorem number_toString (v : Int) : number (toString v).toList = some v := by
  have hnatural : ∀ n : Nat, natural (toString n).toList = some n := by
    intro n
    obtain ⟨limit, hlength, -, hdigits, hvalue⟩ := exists_numeral n
    rw [natural, if_pos ⟨List.ne_nil_of_length_pos hlength, List.all_eq_true.mpr hdigits⟩, hvalue]
  by_cases hv : v < 0
  · rw [toString_of_neg hv, String.toList_append]
    show (natural (toString (-v).toNat).toList).map Int.negOfNat = _
    rw [hnatural, Option.map_some, Int.negOfNat_eq, Int.ofNat_eq_natCast,
      Int.toNat_of_nonneg (by omega), Int.neg_neg]
  · obtain ⟨n, rfl⟩ := Int.eq_ofNat_of_zero_le (Int.not_lt.mp hv)
    obtain ⟨limit, -, -, hdigits, -⟩ := exists_numeral n
    rw [toString_natCast, number_of_digits hdigits, hnatural]
    rfl

/-- No character of a number stands between numbers. -/
theorem not_between_of_mem_toString {v : Int} {c : Char} (h : c ∈ (toString v).toList) :
    isMark c = false ∧ c ≠ '\n' ∧ c ≠ ',' ∧ c ≠ ' ' := by
  rcases mem_toString h with hd | rfl
  · have hne : ∀ d : Char, d.isDigit = false → c ≠ d := by
      rintro d hd' rfl
      rw [hd'] at hd
      cases hd
    refine ⟨?_, hne _ rfl, hne _ rfl, hne _ rfl⟩
    simp only [isMark, hne '[' rfl, hne ']' rfl, hne '(' rfl, hne ')' rfl, hne '>' rfl, or_self,
      decide_false]
  · decide

theorem toString_ne_nil (v : Int) : (toString v).toList ≠ [] := by
  intro hnil
  have h := number_toString v
  rw [hnil] at h
  cases h

theorem filter_intercalate {α : Type} (p : α → Bool) (sep : List α) (parts : List (List α)) :
    (sep.intercalate parts).filter p = (sep.filter p).intercalate (parts.map (List.filter p)) := by
  induction parts with
  | nil => rfl
  | cons part parts ih =>
    cases parts with
    | nil => rw [List.map_singleton, List.intercalate_singleton, List.intercalate_singleton]
    | cons next parts =>
      rw [List.intercalate_cons_cons, List.filter_append, List.filter_append, ih, List.map_cons,
        List.map_cons, List.map_cons, List.intercalate_cons_cons]

theorem mapM_map_eq_some {α β γ : Type} {f : α → β} {g : β → Option γ} {k : α → γ}
    (h : ∀ a, g (f a) = some (k a)) (l : List α) : (l.map f).mapM g = some (l.map k) := by
  rw [List.mapM_map, show g ∘ f = fun a => pure (k a) from funext h, List.mapM_pure]
  rfl

theorem faces_listed (fs : List Int) : faces (Outcome.listed fs).toList = some fs := by
  cases fs with
  | nil => rfl
  | cons f fs =>
    have hparts : (Outcome.listed (f :: fs)).toList.filter (· ≠ ' ') =
        [','].intercalate ((f :: fs).map fun f => (toString f).toList) := by
      rw [Outcome.listed, String.toList_intercalate, filter_intercalate, List.map_map, List.map_map]
      refine congrArg _ (List.map_congr_left fun f _ => List.filter_eq_self.mpr fun c hc => ?_)
      exact decide_eq_true (not_between_of_mem_toString hc).2.2.2
    have hsplit : (([','].intercalate ((f :: fs).map fun f => (toString f).toList)).splitOn ',') =
        (f :: fs).map fun f => (toString f).toList := by
      refine List.splitOn_intercalate _ (List.forall_mem_map.mpr fun f _ hc => ?_)
        (List.cons_ne_nil _ _)
      exact (not_between_of_mem_toString hc).2.2.1 rfl
    have hne : (Outcome.listed (f :: fs)).toList ≠ [] := by
      intro h
      rw [h, List.filter_nil] at hparts
      rw [← hparts, List.map_cons] at hsplit
      exact toString_ne_nil f (List.cons.inj hsplit).1.symm
    rw [faces, if_neg hne, hparts, hsplit, mapM_map_eq_some number_toString, List.map_id']

/-! ## The lines of a term are read back -/

/-- A run of characters inside a line that does not cut it. -/
def Unmarked (s : List Char) : Prop := ∀ c ∈ s, isMark c = false ∧ c ≠ '\n'

instance (s : List Char) : Decidable (Unmarked s) := List.decidableBAll _ s

theorem Unmarked.newline {s : List Char} (h : Unmarked s) : '\n' ∉ s := fun hc => (h _ hc).2 rfl

theorem Unmarked.append {s s' : List Char} (h : Unmarked s) (h' : Unmarked s') :
    Unmarked (s ++ s') :=
  List.forall_mem_append.mpr ⟨h, h'⟩

theorem Unmarked.intercalate {sep : List Char} {parts : List (List Char)} (hsep : Unmarked sep)
    (h : ∀ part ∈ parts, Unmarked part) : Unmarked (sep.intercalate parts) := by
  induction parts with
  | nil => exact fun _ hc => nomatch hc
  | cons part parts ih =>
    obtain ⟨hpart, hparts⟩ := List.forall_mem_cons.mp h
    cases parts with
    | nil => rwa [List.intercalate_singleton]
    | cons next parts =>
      rw [List.intercalate_cons_cons]
      exact (hpart.append hsep).append (ih hparts)

theorem unmarked_toString (v : Int) : Unmarked (toString v).toList := by
  intro c hc
  have h := not_between_of_mem_toString hc
  exact ⟨h.1, h.2.1⟩

theorem unmarked_natural (n : Nat) : Unmarked (toString n).toList := by
  rw [← toString_natCast]
  exact unmarked_toString n

theorem unmarked_listed (fs : List Int) : Unmarked (Outcome.listed fs).toList := by
  rw [Outcome.listed, String.toList_intercalate, List.map_map]
  refine Unmarked.intercalate (by decide) ?_
  exact List.forall_mem_map.mpr fun f _ => unmarked_toString f

theorem unmarked_named (g : DieGroup) : Unmarked (Outcome.named g).toList := by
  rw [Outcome.named, String.toList_append, String.toList_append]
  exact ((unmarked_natural _).append (by decide)).append (unmarked_natural _)

/-- A line is cut at the two sides of what stands between two marks. -/
theorem splitOnP_enclosed {pre inner tail : List Char} {l r : Char} (hl : isMark l = true)
    (hr : isMark r = true) (hpre : Unmarked pre) (hinner : Unmarked inner) :
    (pre ++ l :: (inner ++ r :: tail)).splitOnP isMark =
      pre :: inner :: tail.splitOnP isMark := by
  rw [List.splitOnP_append_cons_of_forall_mem (fun c hc => (hpre c hc).1) l hl,
    List.splitOnP_append_cons_of_forall_mem (fun c hc => (hinner c hc).1) r hr]

/-- The faces of a group in brackets, at the start of a line. -/
theorem splitOnP_header (g : DieGroup) (fs : List Int) (tail : String) :
    (Outcome.named g ++ ": [" ++ Outcome.listed fs ++ "]" ++ tail).toList.splitOnP isMark =
      ((Outcome.named g).toList ++ [':', ' ']) :: (Outcome.listed fs).toList ::
        tail.toList.splitOnP isMark := by
  rw [← splitOnP_enclosed (l := '[') (r := ']') rfl rfl ((unmarked_named g).append (by decide))
    (unmarked_listed fs)]
  simp only [String.toList_append, List.append_assoc]
  rfl

/-- The faces that are chosen in parentheses, in a line of their own. -/
theorem splitOnP_chosen (k : Keep) (fs : List Int) (tail : String) :
    ("  " ++ k.selector.name ++ " " ++ toString k.count ++ " (" ++ Outcome.listed fs ++ ")" ++
        tail).toList.splitOnP isMark =
      ("  ".toList ++ k.selector.name.toList ++ " ".toList ++ (toString k.count).toList ++ [' ']) ::
        (Outcome.listed fs).toList :: tail.toList.splitOnP isMark := by
  have hname : Unmarked k.selector.name.toList := by
    cases k.selector <;> decide
  rw [← splitOnP_enclosed (l := '(') (r := ')') rfl rfl _ (unmarked_listed fs)]
  · simp only [String.toList_append, List.append_assoc]
    rfl
  · exact ((((show Unmarked "  ".toList by decide).append hname).append (by decide)).append
      (unmarked_natural _)).append (by decide)

theorem splitOnP_arrow (v : Int) : (" -> " ++ toString v).toList.splitOnP isMark =
    [[' ', '-'], ' ' :: (toString v).toList] := by
  have hcut : (" -> " ++ toString v).toList = [' ', '-'] ++ '>' :: (' ' :: (toString v).toList) := by
    rw [String.toList_append]
    rfl
  have hstem : Unmarked [' ', '-'] := by decide
  have hvalue : Unmarked (' ' :: (toString v).toList) :=
    (show Unmarked [' '] by decide).append (unmarked_toString v)
  rw [hcut, List.splitOnP_append_cons_of_forall_mem (fun c hc => (hstem c hc).1) '>' rfl,
    List.splitOnP_eq_singleton fun c hc => (hvalue c hc).1]

theorem indented_toString (v : Int) (s : List Char) : indented ((toString v).toList ++ s) = false := by
  obtain ⟨c, s', hs⟩ := List.exists_cons_of_ne_nil (toString_ne_nil v)
  have hc : c ≠ ' ' := (not_between_of_mem_toString (hs ▸ List.mem_cons_self)).2.2.2
  rw [hs, List.cons_append, indented, List.head?_cons]
  simpa using hc

end ReadBack

namespace Outcome

open ReadBack

/-- What the brief text shows of an outcome: of the faces, those that are kept. -/
def inBrief : Outcome → Shown
  | literal value => .literal value
  | dice g faces => .dice (g.kept faces) none (g.keptSum faces)

/-- What the full text shows of an outcome: all faces, and those that are kept where the group says
so. -/
def inFull : Outcome → Shown
  | literal value => .literal value
  | dice g faces => .dice faces (g.keep.map fun _ => g.kept faces) (g.keptSum faces)

theorem block_literal (v : Int) : block [(toString v).toList] = some (.literal v) := by
  have hcut : (toString v).toList.splitOnP isMark = [(toString v).toList] :=
    List.splitOnP_eq_singleton fun c hc => (unmarked_toString v c hc).1
  rw [block, List.map_singleton, hcut]
  show (number (toString v).toList).map Shown.literal = _
  rw [number_toString]
  rfl

/-- A line with faces in brackets and the value behind them. -/
theorem block_dice (g : DieGroup) (fs : List Int) (v : Int) :
    block [(named g ++ ": [" ++ listed fs ++ "]" ++ (" -> " ++ toString v)).toList] =
      some (.dice fs none v) := by
  rw [block, List.map_singleton, splitOnP_header, splitOnP_arrow]
  show (do some (Shown.dice (← faces (listed fs).toList) none (← number (toString v).toList))) = _
  rw [faces_listed, number_toString]
  rfl

/-- Two lines, with the faces in brackets in one of them and those that are chosen in the other. -/
theorem block_chosen (g : DieGroup) (k : Keep) (fs chosen : List Int) (v : Int) :
    block [(named g ++ ": [" ++ listed fs ++ "]").toList,
      ("  " ++ k.selector.name ++ " " ++ toString k.count ++ " (" ++ listed chosen ++ ")" ++
        (" -> " ++ toString v)).toList] = some (.dice fs (some chosen) v) := by
  have hheader := splitOnP_header g fs ""
  rw [String.append_empty] at hheader
  rw [block, List.map_cons, List.map_singleton, hheader, splitOnP_chosen, splitOnP_arrow]
  show (do some (Shown.dice (← faces (listed fs).toList) (some (← faces (listed chosen).toList))
    (← number (toString v).toList))) = _
  rw [faces_listed, faces_listed, number_toString]
  rfl

theorem block_brief (o : Outcome) :
    block ((o.briefLines.1 :: o.briefLines.2).map String.toList) = some o.inBrief := by
  cases o with
  | literal v => exact block_literal v
  | dice g fs =>
    have hline : briefLine (.dice g fs) = named g ++ ": [" ++ listed (g.kept fs) ++ "]" ++
        (" -> " ++ toString (g.keptSum fs)) := by
      rw [briefLine, show "] -> " = "]" ++ " -> " from rfl]
      simp only [String.append_assoc]
    rw [briefLines, hline, List.map_singleton, block_dice, inBrief]

theorem block_full (o : Outcome) :
    block ((o.fullLines.1 :: o.fullLines.2).map String.toList) = some o.inFull := by
  cases o with
  | literal v => exact block_literal v
  | dice g fs =>
    cases hk : g.keep with
    | none =>
      simp only [fullLines, inFull, hk, Option.map_none, List.map_cons, List.map_nil]
      rw [← block_dice g]
      simp only [String.append_assoc]
    | some k =>
      simp only [fullLines, inFull, hk, Option.map_some, List.map_cons, List.map_nil]
      rw [← block_chosen g k, show ") -> " = ")" ++ " -> " from rfl]
      simp only [String.append_assoc]

theorem newline_not_mem_append {a b : String} :
    '\n' ∉ (a ++ b).toList ↔ '\n' ∉ a.toList ∧ '\n' ∉ b.toList := by
  rw [String.toList_append, List.mem_append, not_or]

/-- No outcome breaks a line. -/
theorem newline_not_mem_briefLines (o : Outcome) :
    ∀ line ∈ o.briefLines.1 :: o.briefLines.2, '\n' ∉ line.toList := by
  rw [briefLines, List.forall_mem_singleton]
  cases o with
  | literal v => exact (unmarked_toString v).newline
  | dice g fs =>
    simp only [briefLine, newline_not_mem_append]
    exact ⟨⟨⟨⟨(unmarked_named g).newline, by decide⟩, (unmarked_listed _).newline⟩, by decide⟩,
      (unmarked_toString _).newline⟩

theorem newline_not_mem_fullLines (o : Outcome) :
    ∀ line ∈ o.fullLines.1 :: o.fullLines.2, '\n' ∉ line.toList := by
  cases o with
  | literal v =>
    simp only [fullLines, List.mem_singleton, forall_eq]
    exact (unmarked_toString v).newline
  | dice g fs =>
    have hheader : '\n' ∉ (named g ++ ": [" ++ listed fs ++ "]").toList := by
      simp only [newline_not_mem_append]
      exact ⟨⟨⟨(unmarked_named g).newline, by decide⟩, (unmarked_listed _).newline⟩, by decide⟩
    cases hk : g.keep with
    | none =>
      simp only [fullLines, hk, List.mem_singleton, forall_eq]
      rw [newline_not_mem_append, newline_not_mem_append]
      exact ⟨⟨hheader, by decide⟩, (unmarked_toString _).newline⟩
    | some k =>
      simp only [fullLines, hk, List.forall_mem_cons]
      have hname : '\n' ∉ k.selector.name.toList := by
        cases k.selector <;> decide
      refine ⟨hheader, ?_, List.forall_mem_nil _⟩
      simp only [newline_not_mem_append]
      exact ⟨⟨⟨⟨⟨⟨⟨by decide, hname⟩, by decide⟩, (unmarked_natural _).newline⟩, by decide⟩,
        (unmarked_listed _).newline⟩, by decide⟩, (unmarked_toString _).newline⟩

/-- Of the lines of an outcome, those behind the first one are indented. -/
theorem indented_fullLines (o : Outcome) : indented o.fullLines.1.toList = false ∧
    ∀ line ∈ o.fullLines.2, indented line.toList = true := by
  cases o with
  | literal v =>
    refine ⟨?_, List.forall_mem_nil _⟩
    rw [← List.append_nil (fullLines (.literal v)).1.toList]
    exact indented_toString v []
  | dice g fs =>
    have hheader : ∀ tail : String, indented (named g ++ tail).toList = false := by
      intro tail
      simp only [named, String.toList_append, List.append_assoc]
      rw [← toString_natCast]
      exact indented_toString _ _
    cases hk : g.keep with
    | none =>
      simp only [fullLines, hk, String.append_assoc]
      exact ⟨hheader _, List.forall_mem_nil _⟩
    | some k =>
      simp only [fullLines, hk, String.append_assoc, List.forall_mem_singleton]
      refine ⟨hheader _, ?_⟩
      rw [String.toList_append]
      rfl

end Outcome

end DiceEngine
