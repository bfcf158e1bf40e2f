import DiceEngine.Expression.Transcript
import DiceEngine.Proofs.Throw

/-!
# Draws

What a draw ends in, whatever its source: `Draw.Ends E P` says that it ends in
a result that satisfies `P` or in a fault that satisfies `E`. The rules follow
the way draws are put together, so that a fact about single faces becomes one
about throws and then one about terms.

* `Draw.faceOf_range`: a word that is accepted chooses a face of the die;
* `Draw.ends_face`: a list of words gives a face of the die or runs dry;
* `Draw.ends_face_any`: any other source may also have no word that is accepted;
* `Term.ends_roll`: what a term counts for lies between its bounds.
-/

namespace DiceEngine

namespace Draw

section Rules

variable {σ α β : Type} {E : Fault → Prop} {P : α → Prop} {Q : β → Prop}

/-- A result that satisfies `P`, or a fault that satisfies `E`. -/
def Ending (E : Fault → Prop) (P : α → Prop) : Except Fault α → Prop
  | .ok a => P a
  | .error f => E f

/-- From every source the draw ends in a result that satisfies `P` or in a fault that satisfies
`E`. -/
def Ends (E : Fault → Prop) (P : α → Prop) (d : Draw σ α) : Prop :=
  ∀ s, Ending E P (d.run s).1

theorem run_bind (d : Draw σ α) (k : α → Draw σ β) (s : σ) :
    (d >>= k).run s = match d.run s with
      | (.ok a, s') => (k a).run s'
      | (.error f, s') => (.error f, s') := by
  show (ExceptT.bindCont k (d.run s).1) (d.run s).2 = _
  rcases d.run s with ⟨_ | _, s'⟩ <;> rfl

theorem run_bind_eq_ok_iff {d : Draw σ α} {k : α → Draw σ β} {s s' : σ} {b : β} :
    (d >>= k).run s = (.ok b, s') ↔ ∃ a t, d.run s = (.ok a, t) ∧ (k a).run t = (.ok b, s') := by
  rw [run_bind]
  rcases d.run s with ⟨f | a, t⟩
  · exact iff_of_false nofun nofun
  · constructor
    · exact fun h => ⟨a, t, rfl, h⟩
    · rintro ⟨_, _, h, hk⟩
      cases h
      exact hk

theorem Ends.pure {a : α} (h : P a) : Ends E P (pure a : Draw σ α) := fun _ => h

theorem Ends.mono {P' : α → Prop} {d : Draw σ α} (h : Ends E P d) (hp : ∀ a, P a → P' a) :
    Ends E P' d := by
  intro s
  have hs := h s
  revert hs
  cases (d.run s).1 with
  | ok a => exact hp a
  | error f => exact id

theorem Ends.mono_fault {E' : Fault → Prop} {d : Draw σ α} (h : Ends E P d)
    (he : ∀ f, E f → E' f) : Ends E' P d := by
  intro s
  have hs := h s
  revert hs
  cases (d.run s).1 with
  | ok a => exact id
  | error f => exact he f

/-- What draws nothing ends as it is. -/
theorem Ends.lift {x : Except Fault α} (h : Ending E P x) : Ends E P (liftM x : Draw σ α) :=
  fun _ => h

theorem Ends.bind {d : Draw σ α} {k : α → Draw σ β} (h : Ends E P d)
    (hk : ∀ a, P a → Ends E Q (k a)) : Ends E Q (d >>= k) := by
  intro s
  have hs := h s
  rw [run_bind]
  revert hs
  cases d.run s with
  | mk r s' =>
    cases r with
    | ok a => exact fun ha => hk a ha s'
    | error f => exact fun hf => hf

end Rules

/-! ## Faces -/

/-- A word that is accepted chooses a face of the die. -/
theorem faceOf_range {sides f : Nat} {w : UInt64} (hs : 1 ≤ sides) (h : faceOf sides w = some f) :
    1 ≤ f ∧ f ≤ sides := by
  simp only [faceOf] at h
  split at h
  · cases h
    have hw : w.toNat * sides < UInt64.size * sides := Nat.mul_lt_mul_of_pos_right w.toNat_lt hs
    have hface : w.toNat * sides / UInt64.size < sides := Nat.div_lt_of_lt_mul hw
    rw [Nat.add_comm 1]
    exact ⟨Nat.succ_pos _, hface⟩
  · cases h

theorem run_word {σ : Type} [WordSource σ] (s : σ) :
    (word : Draw σ UInt64).run s = match WordSource.next s with
      | some (w, s') => (.ok w, s')
      | none => (.error .outOfWords, s) := rfl

theorem run_word_cons (w : UInt64) (ws : List UInt64) :
    (word : Draw (List UInt64) UInt64).run (w :: ws) = (.ok w, ws) := rfl

/-- More tries than words: a list gives a face or runs dry, before the tries do. -/
theorem faceWithin_list {sides : Nat} (hs : 1 ≤ sides) (ws : List UInt64) : ∀ {tries : Nat},
    ws.length < tries → Ending (· = .outOfWords) (fun f => 1 ≤ f ∧ f ≤ sides)
      ((faceWithin sides tries : Draw (List UInt64) Nat).run ws).1 := by
  induction ws with
  | nil =>
    intro tries h
    obtain ⟨tries, rfl⟩ := Nat.exists_eq_add_of_lt h
    rw [faceWithin, run_bind]
    rfl
  | cons w ws ih =>
    intro tries h
    obtain ⟨more, rfl⟩ := Nat.exists_eq_add_of_lt h
    rw [faceWithin, run_bind, run_word_cons]
    rcases hf : faceOf sides w with _ | f
    · simp only [hf]
      exact ih (by rw [List.length_cons]; omega)
    · simp only [hf]
      exact faceOf_range hs hf

/-- A list of words gives a face of the die or runs dry. -/
theorem ends_face {sides : Nat} (hs : 1 ≤ sides) :
    Ends (· = .outOfWords) (fun f => 1 ≤ f ∧ f ≤ sides) (face sides : Draw (List UInt64) Nat) :=
  fun ws => faceWithin_list hs ws (Nat.lt_succ_self _)

/-- From any source, what is drawn as a face is a face of the die. Drawing it ends without a face
only where the source runs dry or offers no word that is accepted. -/
theorem ends_faceWithin {σ : Type} [WordSource σ] {E : Fault → Prop} (hdry : E .outOfWords)
    (hnever : E .neverAccepted) {sides : Nat} (hs : 1 ≤ sides) :
    ∀ tries : Nat, Ends E (fun f => 1 ≤ f ∧ f ≤ sides) (faceWithin sides tries : Draw σ Nat)
  | 0 => fun _ => hnever
  | tries + 1 => by
    have hword : Ends E (fun _ => True) (word : Draw σ UInt64) := by
      intro s
      rw [run_word]
      rcases WordSource.next s with _ | ⟨w, s'⟩
      · exact hdry
      · trivial
    refine hword.bind fun w _ => ?_
    rcases h : faceOf sides w with _ | f
    · exact ends_faceWithin hdry hnever hs tries
    · exact Ends.pure (faceOf_range hs h)

theorem ends_face_any {σ : Type} [WordSource σ] {E : Fault → Prop} (hdry : E .outOfWords)
    (hnever : E .neverAccepted) {sides : Nat} (hs : 1 ≤ sides) :
    Ends E (fun f => 1 ≤ f ∧ f ≤ sides) (face sides : Draw σ Nat) :=
  fun s => ends_faceWithin hdry hnever hs (WordSource.horizon s) s

end Draw

/-! ## Throws

What a source gives as a face decides what it gives as a throw. -/

section Throws

variable {σ : Type} [WordSource σ] {E : Fault → Prop}
  (hface : ∀ sides, 1 ≤ sides →
    Draw.Ends E (fun f => 1 ≤ f ∧ f ≤ sides) (Draw.face sides : Draw σ Nat))

include hface

theorem Draw.ends_faces {sides : Nat} (hs : 1 ≤ sides) : ∀ quantity : Nat,
    Draw.Ends E (fun fs => fs.length = quantity ∧ ∀ f ∈ fs, 1 ≤ f ∧ f ≤ (sides : Int))
      (Draw.faces sides quantity : Draw σ (List Int))
  | 0 => Ends.pure ⟨rfl, fun _ hf => nomatch hf⟩
  | quantity + 1 =>
    (hface sides hs).bind fun f hf => (Draw.ends_faces hs quantity).bind fun fs hfs =>
      Ends.pure ⟨by rw [List.length_cons, hfs.1], fun f' hf' => by
        rcases List.mem_cons.mp hf' with rfl | hf'
        · simp only [Int.ofNat_eq_natCast]
          omega
        · exact hfs.2 f' hf'⟩

theorem DieGroup.ends_throw (g : DieGroup) : Draw.Ends E g.IsThrow (g.throw : Draw σ (List Int)) :=
  (Draw.ends_faces hface g.sides_pos g.quantity).mono fun _ h => ⟨h.1, h.2⟩

/-- What a term counts for lies between its bounds. -/
theorem Term.ends_roll (t : Term) :
    Draw.Ends E (fun v => t.low ≤ v ∧ v ≤ t.high) (t.roll : Draw σ Int) := by
  cases t with
  | literal v => exact Draw.Ends.pure ⟨Int.le_refl v, Int.le_refl v⟩
  | dice g =>
    exact (g.ends_throw hface).bind fun fs h =>
      Draw.Ends.pure ⟨h.low_le_keptSum, h.keptSum_le_high⟩

end Throws

end DiceEngine
