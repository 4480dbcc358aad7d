import TexelFlow.Proofs.Operator.Infer
import Mathlib.Data.Nat.Init

/-!
# Leading extents of one

A shape means the same to every operation whether or not it has extents of one in front. Broadcasting
fills shapes up with them anyway, and an image may stand in a batch of one. Shapes that differ in
nothing else are those that become equal when they are filled up to one rank.

## Main statements

* `Shape.padded_eq_padded` — shapes of one core are equal at every common rank.
* `Shape.broadcast_core` — cores that go together give a core.
* `Image.eq_of_core` — an image is read off a core.

## §1 — cores
## §2 — broadcasting
## §3 — images
-/

namespace TexelFlow

namespace Shape

/-! ## §1 — cores -/

variable {a b c a' b' c' : Shape} {rank axis : Nat}

/-- A shape without the extents of one in front. -/
def core (shape : Shape) : Shape := shape.dropWhile (· = 1)

@[simp] theorem core_one_cons (shape : Shape) : core (1 :: shape) = core shape := by
  simp [core]

theorem core_cons_of_ne {d : Nat} (h : d ≠ 1) (shape : Shape) : core (d :: shape) = d :: shape := by
  simp [core, h]

theorem padded_length (a : Shape) : a.padded a.length = a := by
  unfold padded
  rw [Nat.sub_self]
  rfl

theorem padded_succ (h : a.length ≤ rank) : a.padded (rank + 1) = 1 :: a.padded rank := by
  unfold padded
  rw [Nat.succ_sub h, List.replicate_succ, List.cons_append]

theorem padded_one_cons (h : a.length < rank) : padded rank (1 :: a) = a.padded rank := by
  unfold padded
  have hone : rank - a.length = rank - (1 :: a).length + 1 := by
    rw [List.length_cons]
    omega
  rw [hone, List.replicate_succ', List.append_assoc, List.singleton_append]

@[simp] theorem core_padded (a : Shape) (rank : Nat) : (a.padded rank).core = a.core := by
  unfold padded
  induction rank - a.length with
  | zero => rfl
  | succ k ih => rw [List.replicate_succ, List.cons_append, core_one_cons, ih]

/-- Filled up, a shape is its core filled up. -/
theorem padded_core (h : a.length ≤ rank) : a.core.padded rank = a.padded rank := by
  induction a with
  | nil => rfl
  | cons d rest ih =>
    rw [List.length_cons] at h
    by_cases hd : d = 1
    · subst hd
      rw [core_one_cons, ih (by omega), padded_one_cons h]
    · rw [core_cons_of_ne hd]

/-- **Shapes of one core** are equal at every common rank. -/
theorem padded_eq_padded (h : a.core = a'.core) (ha : a.length ≤ rank) (ha' : a'.length ≤ rank) :
    a.padded rank = a'.padded rank := by
  rw [← padded_core ha, h, padded_core ha']

theorem prod_core (a : Shape) : a.core.prod = a.prod := by
  induction a with
  | nil => rfl
  | cons d rest ih =>
    by_cases hd : d = 1
    · subst hd
      rw [core_one_cons, ih, List.prod_cons, Nat.one_mul]
    · rw [core_cons_of_ne hd]

theorem prod_padded (a : Shape) (rank : Nat) : (a.padded rank).prod = a.prod := by
  rw [← prod_core, core_padded, prod_core]

/-! ## §2 — broadcasting -/

/-- Extents of one in front of both sides stay in front of what the sides give together. -/
theorem joinFrom_one_cons (h : joinFrom axis a b = .ok c) (axis' : Nat) :
    joinFrom axis' (1 :: a) (1 :: b) = .ok (1 :: c) := by
  have hany : ∀ (axis' : Nat), joinFrom axis' a b = .ok c := by
    -- the axis is only named in faults
    intro axis'
    induction a generalizing b c axis axis' with
    | nil => cases h; rfl
    | cons x a ih =>
      cases b with
      | nil => cases h; rfl
      | cons y b =>
        obtain ⟨e, rest, he, hrest, rfl⟩ := joinFrom_cons_eq_ok_iff.mp h
        exact joinFrom_cons_eq_ok_iff.mpr ⟨e, rest, he, ih hrest _, rfl⟩
  exact joinFrom_cons_eq_ok_iff.mpr ⟨1, c, rfl, hany _, rfl⟩

theorem length_of_broadcast (h : a.broadcast b = .ok c) : c.length = max a.length b.length := by
  unfold broadcast at h
  dsimp only at h
  split at h
  · rename_i joined hjoined
    obtain rfl := Except.ok.inj h
    have ha : (a.padded (max a.length b.length)).length = max a.length b.length :=
      length_padded (Nat.le_max_left _ _)
    have hb : (b.padded (max a.length b.length)).length = max a.length b.length :=
      length_padded (Nat.le_max_right _ _)
    rw [← (joinFrom_eq_ok (ha.trans hb.symm) hjoined).1.length_eq, ha]
  · cases h

/-- Broadcasting gives the same at every rank that is large enough. -/
theorem joinFrom_padded (h : a.broadcast b = .ok c) (hrank : max a.length b.length ≤ rank) :
    joinFrom 0 (a.padded rank) (b.padded rank) = .ok (c.padded rank) := by
  have hlength := length_of_broadcast h
  induction rank, hrank using Nat.le_induction with
  | base =>
    unfold broadcast at h
    dsimp only at h
    split at h
    · rename_i joined hjoined
      obtain rfl := Except.ok.inj h
      rw [hjoined, ← hlength, padded_length]
    · cases h
  | succ rank hrank ih =>
    rw [padded_succ (by omega), padded_succ (by omega), padded_succ (by omega)]
    exact joinFrom_one_cons ih 0

/-- **Cores that go together give a core.** -/
theorem broadcast_core (h : a.broadcast b = .ok c) (h' : a'.broadcast b' = .ok c')
    (ha : a.core = a'.core) (hb : b.core = b'.core) : c.core = c'.core := by
  -- at a common rank both are the same
  let rank := max (max a.length b.length) (max a'.length b'.length)
  have hjoined : joinFrom 0 (a.padded rank) (b.padded rank) = .ok (c.padded rank) :=
    joinFrom_padded h (Nat.le_max_left _ _)
  have hjoined' : joinFrom 0 (a'.padded rank) (b'.padded rank) = .ok (c'.padded rank) :=
    joinFrom_padded h' (Nat.le_max_right _ _)
  have haa : a.padded rank = a'.padded rank := padded_eq_padded ha (by omega) (by omega)
  have hbb : b.padded rank = b'.padded rank := padded_eq_padded hb (by omega) (by omega)
  rw [haa, hbb, hjoined'] at hjoined
  rw [← core_padded c rank, ← Except.ok.inj hjoined, core_padded]

end Shape

/-! ## §3 — images -/

namespace Image

variable {node : String} {shape shape' : Shape} {image image' : Image}

theorem core_of_ofShape (h : ofShape node shape = .ok image) :
    shape.core = Shape.core [image.height, image.width, image.channels] := by
  obtain ⟨batch, rfl | rfl, rfl⟩ := ofShape_eq_ok h
  · rfl
  · exact Shape.core_one_cons _

/-- **An image is read off a core.** -/
theorem eq_of_core (h : ofShape node shape = .ok image) (h' : ofShape node shape' = .ok image')
    (hcore : shape.core = shape'.core) : image = image' := by
  rw [core_of_ofShape h, core_of_ofShape h'] at hcore
  have hextents : Shape.padded 3 [image.height, image.width, image.channels] =
      Shape.padded 3 [image'.height, image'.width, image'.channels] :=
    Shape.padded_eq_padded hcore (Nat.le_refl _) (Nat.le_refl _)
  cases image
  cases image'
  simpa [Shape.padded] using hextents

theorem core_inPlaceOf (h : ofShape node shape = .ok image) (image' : Image) :
    (image'.inPlaceOf shape).core = Shape.core [image'.height, image'.width, image'.channels] := by
  unfold inPlaceOf
  obtain ⟨batch, rfl | rfl, rfl⟩ := ofShape_eq_ok h
  · rfl
  · exact Shape.core_one_cons _

end Image

theorem Resize.Params.core_outputShape {node : String} {shape : Shape} {image : Image}
    (h : Image.ofShape node shape = .ok image) (p : Resize.Params) :
    (p.outputShape shape).core = Shape.core [p.outH, p.outW, image.channels] := by
  unfold outputShape
  obtain ⟨batch, rfl | rfl, rfl⟩ := Image.ofShape_eq_ok h
  · rfl
  · exact Shape.core_one_cons _

end TexelFlow
