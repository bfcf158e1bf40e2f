import DiceEngine.Toml.Document
import DiceEngine.Total

/-!
# Integers of documents

An integer that stands under a key of a document has 64 bits, whatever way the
document is written (`Document.sized_of_entries`). A line adds what its value
reads as (`Reader.sized_value`) or a table, and sections are tables and arrays
of them (`Section.sized_gather`).
-/

namespace DiceEngine.Toml

/-- An integer has 64 bits. Of other values nothing is asked. -/
def Value.Sized (v : Value) : Prop := ∀ n, v = .integer n → Total.InRange n

theorem Value.Sized.integer {n : Int} (h : Total.InRange n) : (Value.integer n).Sized := by
  intro m hm
  cases hm
  exact h

/-- The values under the keys are sized. What stands deeper is not looked at. -/
def Entries.Sized (entries : Entries) : Prop := ∀ r ∈ entries, r.2.Sized

theorem Entries.Sized.append {es es' : Entries} (h : es.Sized) (h' : es'.Sized) :
    (es ++ es').Sized :=
  fun r hr => (List.mem_append.mp hr).elim (h r) (h' r)

theorem Entries.sized_singleton {key : String} {v : Value} (h : v.Sized) :
    Entries.Sized [(key, v)] := by
  intro r hr
  rw [List.mem_singleton.mp hr]
  exact h

namespace Number

theorem inRange_of_eq_some {n m : Int} (h : inRange n = some m) : Total.InRange m := by
  unfold inRange at h
  split at h
  case isTrue hbounds =>
    cases h
    have hboth : -0x8000000000000000 ≤ n ∧ n ≤ 0x7fffffffffffffff := by simpa using hbounds
    exact hboth
  case isFalse => cases h

theorem inRange_of_decimalInteger {s : List Char} {n : Int} (h : decimalInteger s = some n) :
    Total.InRange n := by
  simp only [decimalInteger, Option.bind_eq_bind, Option.bind_eq_some_iff] at h
  obtain ⟨_, -, h⟩ := h
  split at h
  · exact inRange_of_eq_some h
  · cases h

theorem inRange_of_integerIn {base : Nat} {s : List Char} {n : Int}
    (h : integerIn base s = some n) : Total.InRange n := by
  simp only [integerIn, Option.bind_eq_bind, Option.bind_eq_some_iff] at h
  obtain ⟨_, -, h⟩ := h
  split at h
  · exact inRange_of_eq_some h
  · cases h

end Number

namespace Reader

variable {s : List Char} {ts rest : List Token} {v : Value}

theorem sized_of_map {α : Type} {x : Option α} {f : α → Value × List Token}
    (hf : ∀ a, x = some a → (f a).1.Sized) (h : x.map f = some (v, rest)) : v.Sized := by
  obtain ⟨a, ha, heq⟩ := Option.map_eq_some_iff.mp h
  have hsized := hf a ha
  rwa [heq] at hsized

theorem sized_number (h : number s ts = some (v, rest)) : v.Sized := by
  unfold number at h
  split at h
  · exact sized_of_map (fun _ hn => .integer (Number.inRange_of_integerIn hn)) h
  · exact sized_of_map (fun _ hn => .integer (Number.inRange_of_integerIn hn)) h
  · exact sized_of_map (fun _ hn => .integer (Number.inRange_of_integerIn hn)) h
  · split at h
    · exact sized_of_map (fun _ _ => by nofun) h
    · split at h
      · exact sized_of_map (fun _ _ => by nofun) h
      · cases h
      · split at h
        · cases h; exact nofun
        split at h
        · cases h; exact nofun
        split at h
        · cases h; exact nofun
        exact sized_of_map (fun _ hn => .integer (Number.inRange_of_decimalInteger hn)) h

theorem sized_date (h : date s ts = some (v, rest)) : v.Sized := by
  simp only [date, Option.bind_eq_bind] at h
  split at h
  · obtain ⟨_, -, h⟩ := Option.bind_eq_some_iff.mp h
    cases h
    exact nofun
  · cases h
    exact nofun

theorem sized_numberOrDate (h : numberOrDate s ts = some (v, rest)) : v.Sized := by
  unfold numberOrDate at h
  split at h
  · exact sized_date h
  · exact sized_number h

theorem sized_bareValue (h : bareValue s ts = some (v, rest)) : v.Sized := by
  unfold bareValue at h
  split at h
  · cases h; exact nofun
  split at h
  · cases h; exact nofun
  split at h
  · exact sized_numberOrDate h
  split at h
  · split at h
    · exact sized_numberOrDate h
    · cases h
  · cases h

theorem sized_value {limit : Nat} (h : value limit ts = some (v, rest)) : v.Sized := by
  cases limit with
  | zero => simp [value] at h
  | succ limit =>
    rw [value.eq_def] at h
    dsimp only at h
    split at h
    · cases h; exact nofun
    · exact sized_bareValue h
    · exact sized_number h
    · exact sized_of_map (fun _ _ => by nofun) h
    · split at h
      · cases h; exact nofun
      · exact sized_of_map (fun _ _ => by nofun) h
    · cases h

end Reader

namespace Value

/-- Where a value is changed to a sized one, all values stay sized. -/
theorem sized_changeFirst {key : String} {f : Value → Option Value}
    (hf : ∀ v v', f v = some v' → v'.Sized) {es : Entries} : ∀ {es' : Entries}, es.Sized →
    changeFirst key f es = some es' → Entries.Sized es' := by
  induction es with
  | nil => exact fun _ h => nomatch h
  | cons r es ih =>
    intro es' hes h
    obtain ⟨k, v⟩ := r
    obtain ⟨hr, hrest⟩ := List.forall_mem_cons.mp hes
    unfold changeFirst at h
    split at h
    · obtain ⟨v', hv', heq⟩ := Option.bind_eq_some_iff.mp h
      cases heq
      exact List.forall_mem_cons.mpr ⟨hf v v' hv', hrest⟩
    · obtain ⟨es₁, hes₁, heq⟩ := Option.bind_eq_some_iff.mp h
      cases heq
      exact List.forall_mem_cons.mpr ⟨hr, ih hrest hes₁⟩

/-- A key alone adds its value, and a path adds or changes a table. -/
theorem sized_insert {es es' : Entries} {key : String} {path : List String} {v : Value}
    (hes : es.Sized) (hv : v.Sized) (h : insert es key path v = some es') : es'.Sized := by
  cases path with
  | nil =>
    rw [insert] at h
    cases h
    exact hes.append (Entries.sized_singleton hv)
  | cons next path =>
    rw [insert] at h
    split at h
    · refine sized_changeFirst (fun old new hnew => ?_) hes h
      split at hnew
      · obtain ⟨_, -, heq⟩ := Option.map_eq_some_iff.mp hnew
        cases heq
        exact nofun
      · cases hnew
    · cases h
      exact hes.append (Entries.sized_singleton nofun)

end Value

namespace Reader

theorem sized_entry {limit : Nat} {es es' : Entries} {ts rest : List Token} (hes : es.Sized)
    (h : entry limit es ts = some (es', rest)) : es'.Sized := by
  simp only [entry, Option.bind_eq_bind, Option.bind_eq_some_iff] at h
  obtain ⟨_, -, h⟩ := h
  split at h
  · simp only [Option.bind_eq_some_iff] at h
    obtain ⟨⟨v, behind⟩, hvalue, added, hadded, _, -, heq⟩ := h
    cases heq
    exact Value.sized_insert hes (sized_value hvalue) hadded
  · cases h

/-- The lines in front of the first header are entries of the document itself. -/
theorem sized_lines {limit : Nat} : ∀ {root : Entries} {done : List Section}
    {current : Option Section} {ts : List Token} {d : Document}, root.Sized →
    lines limit root done current ts = some d → d.root.Sized := by
  induction limit with
  | zero => exact fun _ h => nomatch h
  | succ limit ih =>
    intro root done current ts d hroot h
    rw [lines.eq_def] at h
    dsimp only at h
    split at h
    · cases h
      exact hroot
    · obtain ⟨_, -, hrest⟩ := Option.bind_eq_some_iff.mp h
      exact ih hroot hrest
    · obtain ⟨_, -, hrest⟩ := Option.bind_eq_some_iff.mp h
      exact ih hroot hrest
    · split at h
      · obtain ⟨_, -, hrest⟩ := Option.bind_eq_some_iff.mp h
        exact ih hroot hrest
      · obtain ⟨⟨entries, rest⟩, hentry, hrest⟩ := Option.bind_eq_some_iff.mp h
        exact ih (sized_entry hroot hentry) hrest

end Reader

namespace Section

theorem sized_of_bind {α : Type} {x : Option α} {f : α → Value} {v : Value}
    (hf : ∀ a, (f a).Sized) (h : (do return f (← x)) = some v) : v.Sized := by
  obtain ⟨a, -, heq⟩ := Option.bind_eq_some_iff.mp h
  cases heq
  exact hf a

/-- Sections under a key are a table or an array. -/
theorem sized_gather {limit : Nat} {ss : List Section} {v : Value}
    (h : gather limit ss = some v) : v.Sized := by
  cases limit with
  | zero => simp [gather] at h
  | succ limit =>
    rw [gather.eq_def] at h
    dsimp only at h
    split at h
    · cases h
    · split at h
      · exact sized_of_bind (fun _ => by nofun) h
      · split at h
        · exact sized_of_bind (fun _ => by nofun) h
        · split at h
          · cases h
          · exact sized_of_bind (fun _ => by nofun) h
        · cases h

theorem sized_table_nil {limit : Nat} {es : Entries} (h : table limit [] = some es) :
    es.Sized := by
  simp only [table, Option.some.injEq] at h
  subst h
  exact List.forall_mem_nil _

theorem sized_table {limit : Nat} : ∀ {ss : List Section} {es : Entries},
    table limit ss = some es → es.Sized := by
  induction limit with
  | zero =>
    intro ss es h
    cases ss with
    | nil => exact sized_table_nil h
    | cons s ss => simp [table] at h
  | succ limit ih =>
    intro ss es h
    cases ss with
    | nil => exact sized_table_nil h
    | cons s ss =>
      rw [table] at h
      split at h
      · cases h
      · obtain ⟨v, hv, h⟩ := Option.bind_eq_some_iff.mp h
        obtain ⟨rest, hrest, heq⟩ := Option.bind_eq_some_iff.mp h
        cases heq
        exact List.forall_mem_cons.mpr ⟨sized_gather hv, ih hrest⟩

end Section

theorem Document.sized_of_entries {text : String} {d : Document} {es : Entries}
    (hd : parse text = some d) (hes : d.entries = some es) : es.Sized := by
  obtain ⟨ts, -, hlines⟩ := Option.bind_eq_some_iff.mp hd
  obtain ⟨sections, hsections, heq⟩ := Option.bind_eq_some_iff.mp hes
  cases heq
  exact (Reader.sized_lines (List.forall_mem_nil _) hlines).append (Section.sized_table hsections)

end DiceEngine.Toml
