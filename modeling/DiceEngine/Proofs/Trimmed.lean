import DiceEngine.Proofs.Canonical
import Mathlib.Data.List.Basic

/-!
# Texts without blanks at their ends

Every text that is not blank is some blanks, its trimmed text and some blanks
(`Text.exists_padding`), and only the blanks around a trimmed text are trimmed
(`Text.Trimmed.trim_padded`), so trimming a second time changes nothing
(`Text.trim_trim`). The spelling of a term is trimmed (`Term.Spelled.trimmed`).
-/

namespace DiceEngine

namespace Text

/-- A text that is not empty and has no blank at either end. -/
structure Trimmed (s : List Char) : Prop where
  ne_nil : s ≠ []
  head : ∀ c ∈ s.head?, isBlank c = false
  last : ∀ c ∈ s.getLast?, isBlank c = false

theorem trimmed_iff {s : List Char} : Trimmed s ↔ s ≠ [] ∧
    s.head?.all (fun c => !isBlank c) = true ∧ s.getLast?.all (fun c => !isBlank c) = true := by
  simp only [Option.all_eq_true, Bool.not_eq_true']
  exact ⟨fun h => ⟨h.ne_nil, h.head, h.last⟩, fun h => ⟨h.1, h.2.1, h.2.2⟩⟩

instance (s : List Char) : Decidable (Trimmed s) := decidable_of_iff _ trimmed_iff.symm

theorem head_trimStart (s : List Char) : ∀ c ∈ (trimStart s).head?, isBlank c = false := by
  intro c hc
  have h := List.head?_dropWhile_not isBlank s
  rw [Option.mem_def] at hc
  rwa [show (s.dropWhile isBlank).head? = some c from hc] at h

theorem trimStart_of_head {s : List Char} (h : ∀ c ∈ s.head?, isBlank c = false) :
    trimStart s = s := by
  cases s with
  | nil => rfl
  | cons c s => exact trimStart_of_not_blank (h c rfl)

theorem trimEnd_of_last {s : List Char} (h : ∀ c ∈ s.getLast?, isBlank c = false) :
    trimEnd s = s := by
  rw [← List.head?_reverse] at h
  rw [trimEnd, ← trimStart, trimStart_of_head h, List.reverse_reverse]

theorem trimEnd_append_blank {b : List Char} (h : Blank b) (s : List Char) :
    trimEnd (s ++ b) = trimEnd s := by
  have hb : Blank b.reverse := fun c hc => h c (List.mem_reverse.mp hc)
  rw [trimEnd, List.reverse_append, ← trimStart, trimStart_append hb, trimEnd, ← trimStart]

theorem last_trimEnd (s : List Char) : ∀ c ∈ (trimEnd s).getLast?, isBlank c = false := by
  rw [trimEnd, List.getLast?_reverse]
  exact head_trimStart s.reverse

/-- Blanks around a text are trimmed, and nothing else is. -/
theorem Trimmed.trim_padded {s lead trail : List Char} (h : Trimmed s) (hl : Blank lead)
    (ht : Blank trail) : trim (lead ++ (s ++ trail)) = s := by
  have hhead : ∀ c ∈ (s ++ trail).head?, isBlank c = false := by
    rw [List.head?_append_of_ne_nil _ h.ne_nil]
    exact h.head
  rw [trim, trimStart_append hl, trimStart_of_head hhead, trimEnd_append_blank ht,
    trimEnd_of_last h.last]

/-- A text begins with the head of its beginning and ends with the last of its end. -/
theorem Trimmed.append {s t u : List Char} (hs : Trimmed s) (hu : Trimmed u) :
    Trimmed (s ++ (t ++ u)) where
  ne_nil := List.append_ne_nil_of_left_ne_nil hs.ne_nil _
  head := by
    rw [List.head?_append_of_ne_nil _ hs.ne_nil]
    exact hs.head
  last := by
    rw [← List.append_assoc, List.getLast?_append_of_ne_nil _ hu.ne_nil]
    exact hu.last

/-- A trimmed text does not end on a blank. -/
theorem Trimmed.not_blank_behind {s t : List Char} {c : Char} (h : Trimmed (s ++ c :: t))
    (hc : isBlank c = true) : ¬ Blank t := by
  intro ht
  have hne := List.cons_ne_nil c t
  have hlast := h.last
  rw [List.getLast?_append_of_ne_nil _ hne] at hlast
  have hnot := hlast _ (List.getLast?_eq_some_getLast hne)
  have hall : Blank (c :: t) := List.forall_mem_cons.mpr ⟨hc, ht⟩
  exact Bool.false_ne_true (hnot.symm.trans (hall _ (List.getLast_mem hne)))

theorem Trimmed.of_not_blank {s : List Char} (hne : s ≠ []) (h : ∀ c ∈ s, isBlank c = false) :
    Trimmed s :=
  ⟨hne, fun c hc => h c (List.mem_of_head? hc), fun c hc => h c (List.mem_of_getLast? hc)⟩

/-- Every text that is not blank is some blanks, its trimmed text and some blanks. -/
theorem exists_padding {s : List Char} (h : ¬ Blank s) : ∃ lead trail, Blank lead ∧ Blank trail ∧
    s = lead ++ (trim s ++ trail) ∧ Trimmed (trim s) := by
  obtain ⟨lead, hlead, hs⟩ := exists_blank_append_trimStart s
  obtain ⟨trail, htrail, hstart⟩ := exists_trimEnd_append_blank (trimStart s)
  have hne : trim s ≠ [] := by
    intro hnil
    rw [trim] at hnil
    rw [hnil, List.nil_append] at hstart
    rw [hstart] at hs
    exact h fun c hc => by
      rw [hs] at hc
      exact (List.mem_append.mp hc).elim (hlead c) (htrail c)
  refine ⟨lead, trail, hlead, htrail, ?_, hne, ?_, last_trimEnd _⟩
  · rw [trim, ← hstart]
    exact hs
  · have hhead := head_trimStart s
    rw [hstart, ← trim, List.head?_append_of_ne_nil _ hne] at hhead
    exact hhead

/-- Nothing is left of blanks, and of nothing else. -/
theorem trim_eq_nil_iff {s : List Char} : trim s = [] ↔ Blank s := by
  constructor
  · intro h
    by_contra hb
    obtain ⟨-, -, -, -, -, htrimmed⟩ := exists_padding hb
    exact htrimmed.ne_nil h
  · intro h
    rw [trim, trimStart_eq_nil_iff.mpr h]
    rfl

/-- What is trimmed has no blank in front. -/
theorem trimStart_trim (s : List Char) : trimStart (trim s) = trim s := by
  by_cases h : Blank s
  · rw [trim_eq_nil_iff.mpr h]
    rfl
  · obtain ⟨-, -, -, -, -, htrimmed⟩ := exists_padding h
    exact trimStart_of_head htrimmed.head

theorem trim_trim (s : List Char) : trim (trim s) = trim s := by
  rw [trim, trimStart_trim]
  exact trimEnd_of_last (last_trimEnd _)

end Text

theorem Term.Spelled.trimmed {t : Term} {cs : List Char} (h : t.Spelled cs) : Text.Trimmed cs := by
  obtain ⟨c, u, hcs, -⟩ := h.head
  refine .of_not_blank (by rw [hcs]; exact List.cons_ne_nil _ _) ?_
  cases h with
  | literal h => exact fun c hc => Text.not_blank_of_digit (h.2.2.1 c hc)
  | dice h => exact h.not_blank

end DiceEngine
