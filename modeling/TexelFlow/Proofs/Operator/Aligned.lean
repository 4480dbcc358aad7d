import TexelFlow.Proofs.Operator.Rank

/-!
# Shapes aligned at their last axes

Broadcasting fills the shorter shape up and joins the extents from the first axis on. Neither the rank that
shapes are filled up to nor the axis at which joining starts is a matter of the result: counted from the
last axis, a shape has an extent at every place, one where it has no axis, and a broadcast shape has at each
place what the two extents there give together.

## Main statements

* `Shape.eq_of_fromLast` — a shape is its rank and its extents, counted from the last axis.
* `Shape.broadcast_eq_ok_iff` — what two shapes are broadcast to.
* `Shape.exists_broadcast_iff` — which shapes can be broadcast.

## §1 — extents from the last axis
## §2 — joining
## §3 — broadcasting
-/

namespace TexelFlow.Shape

/-! ## §1 — extents from the last axis -/

/-- The extent of an axis, counted from the last one; a missing axis counts as one. -/
def fromLast (shape : Shape) (i : Nat) : Nat := shape.reverse[i]?.getD 1

variable {a b c shape : Shape} {i x y z : Nat}

theorem fromLast_of_length_le (h : shape.length ≤ i) : shape.fromLast i = 1 := by
  unfold fromLast
  rw [List.getElem?_eq_none (by rwa [List.length_reverse])]
  rfl

theorem fromLast_cons (d : Nat) (rest : Shape) (i : Nat) :
    fromLast (d :: rest) i = if i = rest.length then d else rest.fromLast i := by
  split
  · rename_i hi
    unfold fromLast
    rw [List.reverse_cons, hi, ← List.length_reverse, List.getElem?_concat_length]
    rfl
  · rename_i hi
    by_cases hlt : i < rest.length
    · unfold fromLast
      rw [List.reverse_cons, List.getElem?_append_left (by rwa [List.length_reverse])]
    · rw [fromLast_of_length_le (by rw [List.length_cons]; omega), fromLast_of_length_le (by omega)]

/-- An extent of one in front is the one that a missing axis counts as. -/
theorem fromLast_one_cons (shape : Shape) (i : Nat) : fromLast (1 :: shape) i = shape.fromLast i := by
  rw [fromLast_cons]
  split
  · rename_i hi
    rw [fromLast_of_length_le (Nat.le_of_eq hi.symm)]
  · rfl

@[simp] theorem fromLast_padded (rank : Nat) (shape : Shape) (i : Nat) :
    (shape.padded rank).fromLast i = shape.fromLast i := by
  unfold padded
  induction rank - shape.length with
  | zero => rfl
  | succ k ih => rw [List.replicate_succ, List.cons_append, fromLast_one_cons, ih]

/-- **A shape is its rank and its extents**, counted from the last axis. -/
theorem eq_of_fromLast (hlength : a.length = b.length) (h : ∀ i, a.fromLast i = b.fromLast i) : a = b := by
  refine List.reverse_injective (List.ext_getElem (by simpa using hlength) fun i ha hb => ?_)
  have hi := h i
  unfold fromLast at hi
  rwa [List.getElem?_eq_getElem ha, List.getElem?_eq_getElem hb] at hi

/-- A shape of given extents. -/
theorem exists_fromLast (extent : Nat → Nat) (rank : Nat) :
    ∃ shape : Shape, shape.length = rank ∧ ∀ i < rank, shape.fromLast i = extent i := by
  refine ⟨((List.range rank).map extent).reverse, by simp, ?_⟩
  intro i hi
  unfold fromLast
  rw [List.reverse_reverse, List.getElem?_map, List.getElem?_range hi]
  rfl

/-! ## §2 — joining -/

theorem joinExtent_eq_some_iff : joinExtent x y = some z ↔
    (x = y ∨ x = 1 ∨ y = 1) ∧ z = if x = 1 then y else x := by
  unfold joinExtent
  split_ifs with hxy hx hy <;> grind

/-- Joined shapes are joined extents, counted from the last axis. -/
theorem joinFrom_eq_ok_iff (axis : Nat) (hlength : a.length = b.length) : joinFrom axis a b = .ok c ↔
    c.length = a.length ∧ ∀ i, joinExtent (a.fromLast i) (b.fromLast i) = some (c.fromLast i) := by
  induction a generalizing b c axis with
  | nil =>
    obtain rfl := List.length_eq_zero_iff.mp hlength.symm
    constructor
    · intro h
      obtain rfl := Except.ok.inj h
      exact ⟨rfl, fun i => rfl⟩
    · rintro ⟨hnil, -⟩
      rw [List.length_eq_zero_iff.mp hnil]
      rfl
  | cons x a ih =>
    match b, hlength with
    | y :: b, hlength =>
      have hlength := Nat.succ.inj hlength
      rw [joinFrom_cons_eq_ok_iff]
      constructor
      · rintro ⟨e, rest, he, hrest, rfl⟩
        obtain ⟨hrank, hextents⟩ := (ih _ hlength).mp hrest
        refine ⟨congrArg Nat.succ hrank, fun i => ?_⟩
        rw [fromLast_cons, fromLast_cons, fromLast_cons, ← hlength, hrank]
        split
        · exact he
        · exact hextents i
      · rintro ⟨hrank, hextents⟩
        match c, hrank with
        | e :: rest, hrank =>
          have hrank : rest.length = a.length := Nat.succ.inj hrank
          have hextents : ∀ i, joinExtent (if i = a.length then x else fromLast a i)
              (if i = a.length then y else fromLast b i) =
              some (if i = a.length then e else fromLast rest i) := by
            intro i
            have hi := hextents i
            rwa [fromLast_cons, fromLast_cons, fromLast_cons, ← hlength, hrank] at hi
          refine ⟨e, rest, ?_, (ih _ hlength).mpr ⟨hrank, fun i => ?_⟩, rfl⟩
          · have hfirst := hextents a.length
            rwa [if_pos rfl, if_pos rfl, if_pos rfl] at hfirst
          · by_cases hi : i = a.length
            · rw [fromLast_of_length_le (Nat.le_of_eq hi.symm), fromLast_of_length_le (by omega),
                fromLast_of_length_le (by omega)]
              rfl
            · have hi' := hextents i
              rwa [if_neg hi, if_neg hi, if_neg hi] at hi'

/-! ## §3 — broadcasting -/

/-- **What two shapes are broadcast to**: the rank of the longer one and, at each place from the last axis,
what the extents there give together. -/
theorem broadcast_eq_ok_iff : a.broadcast b = .ok c ↔ c.length = max a.length b.length ∧
    ∀ i, joinExtent (a.fromLast i) (b.fromLast i) = some (c.fromLast i) := by
  have ha : (a.padded (max a.length b.length)).length = max a.length b.length :=
    length_padded (Nat.le_max_left _ _)
  have hb : (b.padded (max a.length b.length)).length = max a.length b.length :=
    length_padded (Nat.le_max_right _ _)
  have hjoin := joinFrom_eq_ok_iff 0 (c := c) (ha.trans hb.symm)
  simp only [fromLast_padded, ha] at hjoin
  rw [← hjoin]
  unfold broadcast
  dsimp only
  split
  · rename_i joined hjoined
    rw [hjoined]
    exact ⟨fun h => congrArg _ (Except.ok.inj h), fun h => congrArg _ (Except.ok.inj h)⟩
  · rename_i fault hfault
    rw [hfault]
    exact iff_of_false nofun nofun

/-- Shapes go together when, counted from the last axis, their extents are equal or one of them is one. -/
def Together (a b : Shape) : Prop :=
  ∀ i, a.fromLast i = b.fromLast i ∨ a.fromLast i = 1 ∨ b.fromLast i = 1

/-- What shapes that go together give. -/
structure Joined (a b shape : Shape) : Prop where
  /-- The rank is that of the longer one. -/
  rank : shape.length = max a.length b.length
  /-- An extent is that of the one where the other has one element. -/
  extents : ∀ i, shape.fromLast i = if a.fromLast i = 1 then b.fromLast i else a.fromLast i

/-- What shapes give is one shape. -/
theorem Joined.eq {c' : Shape} (h : a.Joined b c) (h' : a.Joined b c') : c = c' :=
  eq_of_fromLast (h.rank.trans h'.rank.symm) fun i => (h.extents i).trans (h'.extents i).symm

theorem joined_of_broadcast (h : a.broadcast b = .ok c) : a.Joined b c := by
  obtain ⟨hrank, hextents⟩ := broadcast_eq_ok_iff.mp h
  exact ⟨hrank, fun i => (joinExtent_eq_some_iff.mp (hextents i)).2⟩

/-- **Shapes can be broadcast** exactly when they go together. -/
theorem exists_broadcast_iff : (∃ c, a.broadcast b = .ok c) ↔ a.Together b := by
  constructor
  · rintro ⟨c, hc⟩ i
    exact (joinExtent_eq_some_iff.mp ((broadcast_eq_ok_iff.mp hc).2 i)).1
  · intro h
    obtain ⟨c, hrank, hextents⟩ := exists_fromLast
      (fun i => if a.fromLast i = 1 then b.fromLast i else a.fromLast i) (max a.length b.length)
    refine ⟨c, broadcast_eq_ok_iff.mpr ⟨hrank, fun i => joinExtent_eq_some_iff.mpr ⟨h i, ?_⟩⟩⟩
    by_cases hi : i < max a.length b.length
    · exact hextents i hi
    · -- beyond both ranks there are ones on all sides
      rw [fromLast_of_length_le (by omega), fromLast_of_length_le (by omega),
        fromLast_of_length_le (by omega)]
      rfl

end TexelFlow.Shape
