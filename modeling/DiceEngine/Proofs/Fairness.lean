import DiceEngine.Proofs.Draw
import DiceEngine.Proofs.FaceVectors
import Mathlib.Data.List.Forall2
import Mathlib.Data.Set.Card
import Mathlib.Order.Interval.Finset.Nat

/-!
# Fair dice

The words that choose a face are neighbours: they begin with `Draw.firstWord`,
and there are `2⁶⁴ / sides` of them (`Draw.faceOf_eq_some_iff`), the same number
for each face. Words that are accepted one after another give their faces
(`Draw.run_faces`), so each throw of a group comes from the same number of lists
of words, which is counted die by die (`ncard_forall₂`). What this says of a
group is `DieGroup.Fair`.
-/

namespace DiceEngine

/-- Where each member of a list is related to something, the list is related to a list. -/
theorem exists_forall₂ {α β : Type} {R : α → β → Prop} {as : List α}
    (h : ∀ a ∈ as, ∃ b, R a b) : ∃ bs, List.Forall₂ R as bs := by
  induction as with
  | nil => exact ⟨[], .nil⟩
  | cons a as ih =>
    obtain ⟨b, hb⟩ := h a List.mem_cons_self
    obtain ⟨bs, hbs⟩ := ih fun a' ha' => h a' (List.mem_cons_of_mem a ha')
    exact ⟨b :: bs, .cons hb hbs⟩

namespace Draw

/-! ## The words of a face -/

/-- The first of the words that choose a face. -/
def firstWord (sides face : Nat) : Nat := ((face - 1) * UInt64.size + (sides - 1)) / sides

theorem firstWord_le_iff {sides face v : Nat} (hs : 1 ≤ sides) :
    firstWord sides face ≤ v ↔ (face - 1) * UInt64.size ≤ v * sides := by
  rw [firstWord, Nat.div_le_iff_le_mul_add_pred hs, Nat.mul_comm v]
  omega

theorem lt_firstWord_add_iff {sides face v m : Nat} (hs : 1 ≤ sides) :
    v < firstWord sides face + m ↔ v * sides < (face - 1) * UInt64.size + m * sides := by
  rcases Nat.lt_or_ge v m with hv | hv
  · have hprod : v * sides < m * sides := Nat.mul_lt_mul_of_pos_right hv hs
    exact iff_of_true (by omega) (by omega)
  · obtain ⟨u, rfl⟩ := Nat.exists_eq_add_of_le hv
    have hu := @firstWord_le_iff sides face u hs
    rw [Nat.add_mul]
    omega

/-- The accepted low halves are as many as the greatest multiple of the sides says. -/
theorem le_acceptedUpTo_iff {sides r : Nat} (hs : 1 ≤ sides) (hsize : sides ≤ UInt64.size) :
    r ≤ acceptedUpTo sides ↔ r < UInt64.size / sides * sides := by
  have hrest : (UInt64.size - sides) % sides = UInt64.size % sides :=
    (Nat.mod_eq_sub_mod hsize).symm
  have hdiv := Nat.div_add_mod UInt64.size sides
  have hlt := Nat.mod_lt UInt64.size hs
  rw [acceptedUpTo, hrest, Nat.mul_comm _ sides]
  generalize UInt64.size % sides = rest at hdiv hlt
  generalize sides * (UInt64.size / sides) = whole at hdiv ⊢
  omega

/-- The words that choose a face are neighbours. -/
theorem faceOf_eq_some_iff {sides face : Nat} {w : UInt64} (hs : 1 ≤ sides)
    (hsize : sides ≤ UInt64.size) (hf : 1 ≤ face) :
    faceOf sides w = some face ↔ firstWord sides face ≤ w.toNat ∧
      w.toNat < firstWord sides face + UInt64.size / sides := by
  have hpos : 0 < UInt64.size := by decide
  have hm : UInt64.size / sides * sides ≤ UInt64.size := Nat.div_mul_le_self _ _
  have hchosen : faceOf sides w = some face ↔ w.toNat * sides / UInt64.size = face - 1 ∧
      w.toNat * sides % UInt64.size < UInt64.size / sides * sides := by
    simp only [faceOf, le_acceptedUpTo_iff hs hsize]
    split
    · next h =>
      rw [Option.some.injEq, and_iff_left h]
      omega
    · next h => exact iff_of_false (Option.some_ne_none face).symm fun h' => h h'.2
  rw [hchosen, firstWord_le_iff hs, lt_firstWord_add_iff hs]
  generalize w.toNat * sides = product
  generalize UInt64.size / sides * sides = accepted at hm ⊢
  constructor
  · rintro ⟨hk, hr⟩
    have hdiv := Nat.div_add_mod product UInt64.size
    rw [hk, Nat.mul_comm] at hdiv
    exact ⟨by omega, by omega⟩
  · rintro ⟨hlow, hhigh⟩
    have hboth : product / UInt64.size = face - 1 ∧
        product % UInt64.size = product - (face - 1) * UInt64.size := by
      rw [Nat.div_mod_unique hpos, Nat.mul_comm UInt64.size]
      omega
    exact ⟨hboth.1, by omega⟩

/-- The last word of a face is a word. -/
theorem firstWord_add_le {sides face : Nat} (hs : 1 ≤ sides) (hf : 1 ≤ face)
    (hf' : face ≤ sides) : firstWord sides face + UInt64.size / sides ≤ UInt64.size := by
  have hm : UInt64.size / sides * sides ≤ UInt64.size := Nat.div_mul_le_self _ _
  have hface : (face - 1) * UInt64.size + UInt64.size ≤ UInt64.size * sides := by
    rw [← Nat.succ_mul, Nat.mul_comm UInt64.size, Nat.succ_eq_add_one, Nat.sub_add_cancel hf]
    exact Nat.mul_le_mul_right _ hf'
  have hlast := @lt_firstWord_add_iff sides face UInt64.size (UInt64.size / sides) hs
  omega

theorem ncard_words_between {a m : Nat} (h : a + m ≤ UInt64.size) :
    {w : UInt64 | a ≤ w.toNat ∧ w.toNat < a + m}.ncard = m := by
  have himage : UInt64.toNat '' {w : UInt64 | a ≤ w.toNat ∧ w.toNat < a + m} =
      (Finset.Ico a (a + m) : Set Nat) := by
    ext v
    rw [Set.mem_image, Finset.mem_coe, Finset.mem_Ico]
    constructor
    · rintro ⟨w, hw, rfl⟩
      exact hw
    · intro hv
      have hw : (UInt64.ofNat v).toNat = v := UInt64.toNat_ofNat_of_lt' (by omega)
      exact ⟨UInt64.ofNat v, by rw [Set.mem_ofPred_eq, hw]; exact hv, hw⟩
  rw [← Set.ncard_image_of_injective _ fun _ _ => UInt64.toNat_inj.mp, himage,
    Set.ncard_coe_finset, Nat.card_Ico, Nat.add_sub_cancel_left]

/-- Each face of a die is chosen by the same number of words. -/
theorem ncard_faceOf {sides face : Nat} (hs : 1 ≤ sides) (hsize : sides ≤ UInt64.size)
    (hf : 1 ≤ face) (hf' : face ≤ sides) :
    {w : UInt64 | faceOf sides w = some face}.ncard = UInt64.size / sides := by
  simp only [faceOf_eq_some_iff hs hsize hf]
  exact ncard_words_between (firstWord_add_le hs hf hf')

/-- Each face of a die is chosen by some word. -/
theorem exists_faceOf {sides face : Nat} (hs : 1 ≤ sides) (hsize : sides ≤ UInt64.size)
    (hf : 1 ≤ face) (hf' : face ≤ sides) : ∃ w, faceOf sides w = some face := by
  have hm : 1 ≤ UInt64.size / sides := Nat.div_pos hsize hs
  have hlast := firstWord_add_le hs hf hf'
  have hw : (UInt64.ofNat (firstWord sides face)).toNat = firstWord sides face :=
    UInt64.toNat_ofNat_of_lt' (by omega)
  refine ⟨UInt64.ofNat (firstWord sides face), ?_⟩
  rw [faceOf_eq_some_iff hs hsize hf, hw]
  omega

/-! ## Faces from lists of words -/

theorem run_face_cons (sides : Nat) (w : UInt64) (ws : List UInt64) :
    (face sides : Draw (List UInt64) Nat).run (w :: ws) = match faceOf sides w with
      | some f => (.ok f, ws)
      | none => (face sides : Draw (List UInt64) Nat).run ws := by
  show (faceWithin sides (ws.length + 2)).run (w :: ws) = _
  rw [faceWithin, run_bind, run_word_cons]
  rcases h : faceOf sides w with _ | f
  · simp only [h]
    rfl
  · simp only [h]
    rfl

/-- The word is accepted and chooses the face. -/
def Chooses (sides : Nat) (w : UInt64) (f : Int) : Prop :=
  (faceOf sides w).map Int.ofNat = some f

theorem isSome_of_forall₂ {sides : Nat} {ws : List UInt64} {fs : List Int}
    (h : List.Forall₂ (Chooses sides) ws fs) : ∀ w ∈ ws, (faceOf sides w).isSome := by
  have hacc : List.Forall₂ (fun w f => (faceOf sides w).isSome ∧ Chooses sides w f) ws fs := by
    refine h.imp fun w f hw => ⟨?_, hw⟩
    rw [← Option.isSome_map, hw]
    rfl
  exact ((List.forall₂_and_left ws fs).mp hacc).1

/-- Words that are accepted one after another give their faces, and no other word is drawn. -/
theorem run_faces {sides : Nat} {ws : List UInt64} {fs : List Int}
    (h : List.Forall₂ (Chooses sides) ws fs) (rest : List UInt64) :
    (faces sides fs.length : Draw (List UInt64) (List Int)).run (ws ++ rest) =
      (.ok fs, rest) := by
  induction h with
  | nil => rfl
  | @cons w f ws fs hw _ ih =>
    obtain ⟨f, hface, rfl⟩ := Option.map_eq_some_iff.mp hw
    rw [List.length_cons, faces, run_bind, List.cons_append, run_face_cons, hface]
    simp only
    rw [run_bind, ih]
    rfl

/-- Words that are all accepted give as many faces. -/
theorem exists_forall₂_chooses {sides : Nat} {ws : List UInt64}
    (h : ∀ w ∈ ws, (faceOf sides w).isSome) : ∃ fs, List.Forall₂ (Chooses sides) ws fs := by
  refine exists_forall₂ fun w hw => ?_
  obtain ⟨f, hf⟩ := Option.isSome_iff_exists.mp (h w hw)
  exact ⟨Int.ofNat f, by rw [Chooses, hf]; rfl⟩

end Draw

/-! ## Counting throws -/

/-- If each member of a list is related to the same number of things, the lists that are related
to it member by member are that number's power. -/
theorem ncard_forall₂ {α β : Type} {R : α → β → Prop} {n : Nat} {bs : List β}
    (h : ∀ b ∈ bs, {a | R a b}.ncard = n) :
    {as | List.Forall₂ R as bs}.ncard = n ^ bs.length := by
  induction bs with
  | nil =>
    simp only [List.forall₂_nil_right_iff, Set.ofPred_eq_eq_singleton, Set.ncard_singleton,
      List.length_nil, Nat.pow_zero]
  | cons b bs ih =>
    have hcons : {as | List.Forall₂ R as (b :: bs)} =
        (fun p : α × List α => p.1 :: p.2) '' ({a | R a b} ×ˢ {as | List.Forall₂ R as bs}) := by
      ext as
      rw [Set.mem_ofPred_eq, List.forall₂_cons_right_iff, Set.mem_image]
      constructor
      · rintro ⟨a, as, ha, has, rfl⟩
        exact ⟨(a, as), ⟨ha, has⟩, rfl⟩
      · rintro ⟨⟨a, as⟩, ⟨ha, has⟩, rfl⟩
        exact ⟨a, as, ha, has, rfl⟩
    have hinj : Function.Injective fun p : α × List α => p.1 :: p.2 := by
      rintro ⟨a, as⟩ ⟨a', as'⟩ heq
      obtain ⟨rfl, rfl⟩ := List.cons.inj heq
      rfl
    rw [hcons, Set.ncard_image_of_injective _ hinj, Set.ncard_prod, h b List.mem_cons_self,
      ih fun b' hb' => h b' (List.mem_cons_of_mem b hb'), List.length_cons, Nat.pow_succ,
      Nat.mul_comm]

namespace DieGroup

variable {g : DieGroup}

theorem sides_le_size (g : DieGroup) : g.sides ≤ UInt64.size :=
  Nat.le_trans g.sides_le (by decide)

/-- The words that choose a face of the group's dice. -/
theorem ncard_chooses {f : Int} (h : 1 ≤ f ∧ f ≤ g.sides) :
    {w : UInt64 | Draw.Chooses g.sides w f}.ncard = UInt64.size / g.sides := by
  obtain ⟨face, rfl⟩ := Int.eq_ofNat_of_zero_le (show 0 ≤ f by omega)
  have hface : ∀ w : UInt64, Draw.Chooses g.sides w face ↔ Draw.faceOf g.sides w = some face := by
    intro w
    rw [Draw.Chooses, Option.map_eq_some_iff]
    constructor
    · rintro ⟨f, hf, heq⟩
      rw [hf, Int.ofNat_inj.mp heq]
    · exact fun hf => ⟨face, hf, rfl⟩
  simp only [hface]
  exact Draw.ncard_faceOf g.sides_pos g.sides_le_size (by omega) (by omega)

/-- The lists of accepted words that give a throw are those whose words choose its faces. -/
theorem run_throw_iff {fs : List Int} (h : g.IsThrow fs) (ws : List UInt64) :
    (ws.length = g.quantity ∧ (∀ w ∈ ws, (Draw.faceOf g.sides w).isSome) ∧
      (g.throw : Draw (List UInt64) (List Int)).run ws = (.ok fs, [])) ↔
      List.Forall₂ (Draw.Chooses g.sides) ws fs := by
  constructor
  · rintro ⟨hl, hacc, hrun⟩
    obtain ⟨fs', hfs⟩ := Draw.exists_forall₂_chooses hacc
    have hthrow := Draw.run_faces hfs []
    rw [List.append_nil, ← hfs.length_eq, hl] at hthrow
    rw [throw, hthrow] at hrun
    cases hrun
    exact hfs
  · intro hfs
    have hthrow := Draw.run_faces hfs []
    rw [List.append_nil, h.length] at hthrow
    exact ⟨hfs.length_eq.trans h.length, Draw.isSome_of_forall₂ hfs, hthrow⟩

theorem ncard_isThrow (g : DieGroup) : {fs | g.IsThrow fs}.ncard = g.sides ^ g.quantity := by
  have hset : {fs | g.IsThrow fs} = ((faceVectors g.sides g.quantity).toFinset : Set (List Int)) := by
    ext fs
    rw [Set.mem_ofPred_eq, List.coe_toFinset, Set.mem_ofPred_eq, mem_faceVectors]
    exact ⟨fun h => ⟨h.length, h.range⟩, fun ⟨hl, hr⟩ => ⟨hl, hr⟩⟩
  rw [hset, Set.ncard_coe_finset, List.toFinset_card_of_nodup (nodup_faceVectors _ _),
    length_faceVectors]

/-- All dice of the group are fair: no word prefers a face, and no list of words a throw. -/
structure Fair (g : DieGroup) : Prop where
  /-- As many of the words are accepted for one face as for another. -/
  words_per_face : ∀ face, 1 ≤ face → face ≤ g.sides →
    {w : UInt64 | Draw.faceOf g.sides w = some face}.ncard = 2 ^ 64 / g.sides
  /-- A word that is accepted is drawn as its face. -/
  accepted : ∀ w face ws, Draw.faceOf g.sides w = some face → (1 ≤ face ∧ face ≤ g.sides) ∧
    (Draw.face g.sides : Draw (List UInt64) Nat).run (w :: ws) = (.ok face, ws)
  /-- Every other word is rejected, and the next one is drawn in its place. -/
  redrawn : ∀ w ws, (∀ face, 1 ≤ face → face ≤ g.sides → Draw.faceOf g.sides w ≠ some face) →
    (Draw.face g.sides : Draw (List UInt64) Nat).run (w :: ws) =
      (Draw.face g.sides : Draw (List UInt64) Nat).run ws
  /-- As many lists of words give one throw without a rejection as another. -/
  words_per_throw : ∀ fs, g.IsThrow fs →
    {ws : List UInt64 | ws.length = g.quantity ∧ (∀ w ∈ ws, (Draw.faceOf g.sides w).isSome) ∧
      (g.throw : Draw (List UInt64) (List Int)).run ws = (.ok fs, [])}.ncard =
      (2 ^ 64 / g.sides) ^ g.quantity
  throws : {fs | g.IsThrow fs}.ncard = g.sides ^ g.quantity
  /-- Whatever the source, every face thrown is a face of the dice. -/
  faces_in_range : ∀ {σ : Type} [WordSource σ] (s s' : σ) (fs : List Int),
    (g.throw : Draw σ (List Int)).run s = (.ok fs, s') → g.IsThrow fs

/-- The dice of every group are fair. -/
theorem fair (g : DieGroup) : g.Fair where
  words_per_face face hf hf' := Draw.ncard_faceOf g.sides_pos g.sides_le_size hf hf'
  accepted w face ws h := by
    refine ⟨Draw.faceOf_range g.sides_pos h, ?_⟩
    rw [Draw.run_face_cons, h]
  redrawn w ws h := by
    have hnone : Draw.faceOf g.sides w = none := by
      refine Option.eq_none_iff_forall_ne_some.mpr fun face hface => ?_
      obtain ⟨hf, hf'⟩ := Draw.faceOf_range g.sides_pos hface
      exact h face hf hf' hface
    rw [Draw.run_face_cons, hnone]
  words_per_throw fs h := by
    simp only [run_throw_iff h]
    rw [ncard_forall₂ fun f hf => ncard_chooses (h.range f hf), h.length]
    rfl
  throws := g.ncard_isThrow
  faces_in_range s s' fs hrun := by
    have h := g.ends_throw (E := fun _ => True)
      (fun _ hs => Draw.ends_face_any trivial trivial hs) s
    rw [hrun] at h
    exact h

end DieGroup

end DiceEngine
