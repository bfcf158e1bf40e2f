import DiceEngine.Proofs.Attained
import DiceEngine.Proofs.Logged
import DiceEngine.Random.ChaCha
import DiceEngine.Random.Xoshiro
import Mathlib.Data.Fintype.Pigeonhole
import Mathlib.Data.Fintype.Prod
import Mathlib.Logic.Function.Iterate

/-!
# Sources that supply all dice

A die is supplied when the source gives it a word that it accepts, after any
number of words that it rejects (`Draw.Gets`), and an expression when the source
supplies its dice one after another (`Draw.Supplies`). A draw gives up at the
horizon of its source, so this must lie behind all that the source has to give.
That is the law of `LawfulSource`: a list ends before its horizon, a ChaCha
stream has begun again by then, and a generator of finitely many states has come
back to one of them.

* `Draw.run_face_iff`: a die that is supplied, and no other, gets a face;
* `Expression.run_roll_of_supplies`: an expression that has bounds and is supplied
  comes to a total.
-/

namespace DiceEngine

variable {σ : Type} [WordSource σ]

/-- A source that gives each word that it ever gives for the first time before its horizon. -/
class LawfulSource (σ : Type) [WordSource σ] : Prop where
  first_lt_horizon {s s' : σ} {ws : List UInt64} {w : UInt64} (h : Gives s (ws ++ [w]) s')
    (hw : w ∉ ws) : ws.length < WordSource.horizon s

/-! ## Horizons -/

instance : LawfulSource (List UInt64) where
  first_lt_horizon {s s' ws w} h _ := by
    rw [gives_list_iff.mp h]
    show ws.length < (ws ++ [w] ++ s').length + 1
    simp only [List.length_append]
    omega

section Stream

variable {word : σ → UInt64} {advance : σ → σ}
  (hnext : ∀ s : σ, WordSource.next s = some (word s, advance s))

include hnext

/-- The words of a source that never runs dry. -/
theorem gives_stream {ws : List UInt64} : ∀ {s s' : σ}, Gives s ws s' →
    ws = (List.range ws.length).map fun i => word (advance^[i] s) := by
  induction ws with
  | nil => exact fun _ => rfl
  | cons w ws ih =>
    rintro s s' ⟨t, ht, h⟩
    rw [hnext, Option.some.injEq, Prod.mk.injEq] at ht
    obtain ⟨rfl, rfl⟩ := ht
    rw [List.length_cons, List.range_succ_eq_map, List.map_cons, List.map_map]
    exact congrArg _ (ih h)

/-- A source that has nothing new to give from its horizon on. -/
theorem LawfulSource.of_stream (hold : ∀ (s : σ) (n : Nat), WordSource.horizon s ≤ n →
    ∃ m < n, word (advance^[m] s) = word (advance^[n] s)) : LawfulSource σ where
  first_lt_horizon {s s' ws w} h hw := by
    by_contra hle
    obtain ⟨m, hm, heq⟩ := hold s ws.length (Nat.not_lt.mp hle)
    have hws := gives_stream hnext h
    rw [List.length_append, List.length_singleton, List.range_succ, List.map_append] at hws
    obtain ⟨hinit, hlast⟩ := List.append_inj hws (by simp)
    rw [List.map_singleton, List.cons.injEq] at hlast
    refine hw ?_
    rw [hlast.1, ← heq, hinit]
    exact List.mem_map.mpr ⟨m, List.mem_range.mpr (by simpa using hm), rfl⟩

end Stream

namespace ChaCha

/-- The word at a place of a stream: blocks are numbered with words of 64 bits. -/
theorem word_iterate (s : ChaCha) (n : Nat) : (advance^[n] s).word =
    (block s.doubleRounds s.key ((s.position + n) / 8))[(s.position + n) % 8] := by
  have hplace : ∀ n : Nat, (advance^[n] s).doubleRounds = s.doubleRounds ∧
      (advance^[n] s).key = s.key ∧ (advance^[n] s).position = s.position + n := by
    intro n
    induction n with
    | zero => exact ⟨rfl, rfl, rfl⟩
    | succ n ih =>
      rw [Function.iterate_succ_apply']
      exact ⟨ih.1, ih.2.1, congrArg (· + 1) ih.2.2⟩
  obtain ⟨hrounds, hkey, hposition⟩ := hplace n
  simp only [word, block_eq, hrounds, hkey, hposition]

/-- A stream of 2^64 blocks begins again. -/
instance : LawfulSource ChaCha := by
  refine @LawfulSource.of_stream ChaCha _ word advance (fun _ => rfl) ?_
  intro s n (hn : 2 ^ 67 ≤ n)
  refine ⟨n - 2 ^ 67, by omega, ?_⟩
  have hplace : (s.position + n) % 8 = (s.position + (n - 2 ^ 67)) % 8 := by omega
  have hblock : (s.position + n) / 8 = (s.position + (n - 2 ^ 67)) / 8 + 2 ^ 64 := by omega
  have hindex : ((s.position + (n - 2 ^ 67)) / 8 + 2 ^ 64).toUInt64 =
      ((s.position + (n - 2 ^ 67)) / 8).toUInt64 := by
    refine UInt64.toNat_inj.mp ?_
    show (UInt64.ofNat _).toNat = (UInt64.ofNat _).toNat
    rw [UInt64.toNat_ofNat', UInt64.toNat_ofNat', Nat.add_mod_right]
  simp only [word_iterate, hplace, hblock, block, hindex]

end ChaCha

/-- Where there are no more than so many states, each state after so many steps has been there
before. -/
theorem exists_iterate_eq {α β : Type} [Fintype β] {code : α → β} (hcode : code.Injective)
    (f : α → α) (s : α) {n : Nat} (hn : Fintype.card β ≤ n) : ∃ m < n, f^[m] s = f^[n] s := by
  obtain ⟨i, j, hne, hij⟩ := Fintype.exists_ne_map_eq_of_card_lt
    (fun k : Fin (n + 1) => code (f^[k] s)) (by rw [Fintype.card_fin]; omega)
  have hback : ∀ i j : Fin (n + 1), i < j → f^[i] s = f^[j] s → ∃ m < n, f^[m] s = f^[n] s := by
    intro i j hlt heq
    have hj := j.isLt
    refine ⟨n - j + i, by omega, ?_⟩
    rw [Function.iterate_add_apply, heq, ← Function.iterate_add_apply,
      Nat.sub_add_cancel (by omega)]
  rcases Nat.lt_or_gt_of_ne (Fin.val_ne_of_ne hne) with h | h
  · exact hback i j h (hcode hij)
  · exact hback j i h (hcode hij).symm

/-- Four words of 64 bits have no more states than the horizon has steps. -/
instance : LawfulSource Xoshiro := by
  refine @LawfulSource.of_stream Xoshiro _ Xoshiro.word Xoshiro.advance (fun _ => rfl) ?_
  intro s n hn
  have hcode : Function.Injective
      fun s : Xoshiro => (s.s0.toFin, s.s1.toFin, s.s2.toFin, s.s3.toFin) := by
    rintro ⟨a, b, c, d⟩ ⟨a', b', c', d'⟩ h
    simp only [Prod.mk.injEq] at h
    obtain ⟨h0, h1, h2, h3⟩ := h
    rw [UInt64.eq_of_toFin_eq h0, UInt64.eq_of_toFin_eq h1, UInt64.eq_of_toFin_eq h2,
      UInt64.eq_of_toFin_eq h3]
  obtain ⟨m, hm, heq⟩ := exists_iterate_eq hcode Xoshiro.advance s (n := n) (by
    simp only [Fintype.card_prod, Fintype.card_fin]
    exact hn)
  exact ⟨m, hm, congrArg Xoshiro.word heq⟩

/-! ## Dice that are supplied -/

namespace Draw

/-- The source gives a die some words that it rejects and then one that it accepts for this
face. -/
def Gets (sides : Nat) (s : σ) (face : Nat) (s' : σ) : Prop :=
  ∃ ws w, Gives s (ws ++ [w]) s' ∧ (∀ v ∈ ws, faceOf sides v = none) ∧ faceOf sides w = some face

/-- The source gives each of these dice a face, one after another, until another source is left. -/
def Supplies : σ → List Nat → σ → Prop
  | s, [], s' => s' = s
  | s, sides :: rest, s' => ∃ face t, Gets sides s face t ∧ Supplies t rest s'

theorem supplies_append_iff {sides sides' : List Nat} : ∀ {s s' : σ},
    Supplies s (sides ++ sides') s' ↔ ∃ t, Supplies s sides t ∧ Supplies t sides' s' := by
  induction sides with
  | nil => exact fun {s s'} => ⟨fun h => ⟨s, rfl, h⟩, fun ⟨_, h, h'⟩ => h ▸ h'⟩
  | cons n sides ih =>
    intro s s'
    constructor
    · rintro ⟨f, t, hget, h⟩
      obtain ⟨u, hu, hu'⟩ := ih.mp h
      exact ⟨u, ⟨f, t, hget, hu⟩, hu'⟩
    · rintro ⟨u, ⟨f, t, hget, hu⟩, hu'⟩
      exact ⟨f, t, hget, ih.mpr ⟨u, hu, hu'⟩⟩

/-- One more word that is rejected. -/
theorem Gets.cons {sides face : Nat} {s t s' : σ} {w : UInt64}
    (hnext : WordSource.next s = some (w, t)) (hw : faceOf sides w = none)
    (h : Gets sides t face s') : Gets sides s face s' := by
  obtain ⟨ws, v, hgives, hws, hv⟩ := h
  exact ⟨w :: ws, v, ⟨t, hnext, hgives⟩, List.forall_mem_cons.mpr ⟨hw, hws⟩, hv⟩

/-- What is drawn as a face was given by the source. -/
theorem gets_of_run {sides face : Nat} {s' : σ} : ∀ {tries : Nat} {s : σ},
    (faceWithin sides tries : Draw σ Nat).run s = (.ok face, s') → Gets sides s face s' := by
  intro tries
  induction tries with
  | zero =>
    intro s h
    have hresult := (Prod.mk.inj h).1
    cases hresult
  | succ tries ih =>
    intro s h
    rw [faceWithin, run_bind, run_word] at h
    rcases hnext : WordSource.next s with _ | ⟨w, t⟩
    · rw [hnext] at h
      have hresult := (Prod.mk.inj h).1
      cases hresult
    · rw [hnext] at h
      rcases hw : faceOf sides w with _ | f
      · simp only [hw] at h
        exact (ih h).cons hnext hw
      · simp only [hw] at h
        cases h
        exact ⟨[], w, ⟨_, hnext, rfl⟩, List.forall_mem_nil _, hw⟩

/-- With a try for each of the words, the source gives the face. -/
theorem run_faceWithin {sides face : Nat} {w : UInt64} {ws : List UInt64} {s' : σ}
    (hw : faceOf sides w = some face) : ∀ {tries : Nat} {s : σ}, Gives s (ws ++ [w]) s' →
    (∀ v ∈ ws, faceOf sides v = none) → ws.length < tries →
    (faceWithin sides tries : Draw σ Nat).run s = (.ok face, s') := by
  induction ws with
  | nil =>
    rintro tries s ⟨t, hnext, rfl⟩ - hlt
    obtain ⟨tries, rfl⟩ := Nat.exists_eq_add_of_lt hlt
    rw [faceWithin, run_bind, run_word, hnext]
    simp only [hw]
    rfl
  | cons v ws ih =>
    rintro tries s ⟨t, hnext, h⟩ hws hlt
    obtain ⟨hv, hws⟩ := List.forall_mem_cons.mp hws
    obtain ⟨tries, rfl⟩ := Nat.exists_eq_add_of_lt hlt
    rw [faceWithin, run_bind, run_word, hnext]
    simp only [hv]
    exact ih h hws (by rw [List.length_cons]; omega)

variable [LawfulSource σ]

/-- A die gets a face exactly where the source gives it one. -/
theorem run_face_iff {sides face : Nat} {s s' : σ} :
    (Draw.face sides : Draw σ Nat).run s = (.ok face, s') ↔ Gets sides s face s' := by
  constructor
  · exact fun h => gets_of_run h
  · rintro ⟨ws, w, hgives, hws, hw⟩
    -- The word that is accepted is none of those before it, so it comes before the horizon.
    have hnew : w ∉ ws := by
      intro hmem
      rw [hws w hmem] at hw
      cases hw
    exact run_faceWithin hw hgives hws (LawfulSource.first_lt_horizon hgives hnew)

theorem run_faces_of_supplies {sides : Nat} : ∀ {quantity : Nat} {s s' : σ},
    Supplies s (List.replicate quantity sides) s' →
    ∃ fs, (faces sides quantity : Draw σ (List Int)).run s = (.ok fs, s') := by
  intro quantity
  induction quantity with
  | zero =>
    rintro s s' rfl
    exact ⟨[], rfl⟩
  | succ quantity ih =>
    rintro s s' ⟨f, t, hget, h⟩
    obtain ⟨fs, hfs⟩ := ih h
    refine ⟨Int.ofNat f :: fs, ?_⟩
    rw [faces, run_bind, run_face_iff.mpr hget]
    simp only
    rw [run_bind, hfs]
    rfl

end Draw

/-! ## Expressions that are supplied -/

variable [LawfulSource σ]

/-- A term whose dice are supplied has a value between its bounds. -/
theorem Term.run_roll_of_supplies {t : Term} {s s' : σ} (h : Draw.Supplies s t.diceSides s') :
    ∃ v, (t.roll : Draw σ Int).run s = (.ok v, s') ∧ t.low ≤ v ∧ v ≤ t.high := by
  have hrun : ∃ v, (t.roll : Draw σ Int).run s = (.ok v, s') := by
    cases t with
    | literal v =>
      cases h
      exact ⟨v, rfl⟩
    | dice g =>
      obtain ⟨fs, hfs⟩ := Draw.run_faces_of_supplies h
      refine ⟨g.keptSum fs, ?_⟩
      rw [Term.roll, DieGroup.roll, Draw.run_bind, DieGroup.throw, hfs]
      rfl
  obtain ⟨v, hv⟩ := hrun
  have hend := t.ends_roll (E := fun _ => True)
    (fun _ hs => Draw.ends_face_any trivial trivial hs) s
  rw [hv] at hend
  exact ⟨v, hv, hend⟩

namespace Expression

/-- The terms of an evaluation, one after another, when their dice are supplied. -/
theorem run_foldlM_of_supplies (steps : List (Operator × Term)) :
    ∀ {total lo hi lo' hi' : Int} {s s' : σ}, lo ≤ total → total ≤ hi →
    steps.foldlM joinLow lo = .ok lo' → steps.foldlM joinHigh hi = .ok hi' →
    Draw.Supplies s (steps.flatMap fun step => step.2.diceSides) s' →
    ∃ total', (steps.foldlM join total : Draw σ Int).run s = (.ok total', s') ∧
      lo' ≤ total' ∧ total' ≤ hi' := by
  induction steps with
  | nil =>
    intro total lo hi lo' hi' s s' hl hh hlow hhigh h
    cases hlow
    cases hhigh
    cases h
    exact ⟨total, rfl, hl, hh⟩
  | cons step steps ih =>
    intro total lo hi lo' hi' s s' hl hh hlow hhigh h
    obtain ⟨op, t⟩ := step
    rw [List.foldlM_cons] at hlow hhigh
    obtain ⟨lo₁, hlow₁, hlow⟩ := bind_eq_ok_iff.mp hlow
    obtain ⟨hi₁, hhigh₁, hhigh⟩ := bind_eq_ok_iff.mp hhigh
    obtain ⟨u, hu, hu'⟩ := Draw.supplies_append_iff.mp h
    obtain ⟨v, hrun, hv⟩ := Term.run_roll_of_supplies hu
    obtain ⟨total₁, happly, hl₁, hh₁⟩ := join_between hl hh hlow₁ hhigh₁ hv
    obtain ⟨total', hrest, hbounds⟩ := ih hl₁ hh₁ hlow hhigh hu'
    refine ⟨total', ?_, hbounds⟩
    rw [List.foldlM_cons, join, bind_assoc, Draw.run_bind, hrun]
    simp only
    rw [happly]
    exact hrest

/-- An expression that has bounds and whose dice are supplied comes to a total between them, and
leaves what the source has left behind the dice. -/
theorem run_roll_of_supplies {e : Expression} {lo hi : Int} {s s' : σ} (hlo : e.minimum = .ok lo)
    (hhi : e.maximum = .ok hi) (h : Draw.Supplies s e.diceSides s') :
    ∃ total, (e.roll : Draw σ Int).run s = (.ok total, s') ∧ lo ≤ total ∧ total ≤ hi := by
  obtain ⟨steps, hs, hlow, hhigh⟩ := exists_steps_of_bounds hlo hhi
  rw [diceSides, ← map_snd_of_steps hs, List.flatMap_map] at h
  rw [roll_eq, hs]
  exact run_foldlM_of_supplies steps (Int.le_refl 0) (Int.le_refl 0) hlow hhigh h

end Expression

end DiceEngine
