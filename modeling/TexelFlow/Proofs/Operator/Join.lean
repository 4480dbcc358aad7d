import TexelFlow.Proofs.Operator.Aligned

/-!
# Broadcasting joins shapes

Shapes are ordered by how they fit each other: a shape fits one of the same or a higher rank that has its
extents, ones apart, counted from the last axis. In this order shapes with a common bound have a least one,
and broadcasting gives it. Whatever broadcasting is asked in two steps is therefore asked of the bounds of all
its operands at once, so neither the order of operands nor the order of steps is a matter of the result, and a
step fails only where there is no bound at all.

## Main statements

* `fits_iff`, `Fits.trans`, `Fits.antisymm` — fitting orders shapes.
* `broadcast_eq_ok_iff_join` — broadcasting gives the least bound where there is a bound.
* `broadcast_twice_iff` — so it does in two steps.
* `broadcast_joins` — broadcasting is a partial join.

## §1 — the order of shapes
## §2 — bounds of two shapes
## §3 — bounds of several shapes
-/

namespace TexelFlow.Shape

variable {a b c s u shape : Shape} {shapes shapes' : List Shape} {i k : Nat}

/-! ## §1 — the order of shapes -/

/-- Axes taken away in front do not move the last ones. -/
theorem fromLast_drop (h : i < (shape.drop k).length) : fromLast (shape.drop k) i = shape.fromLast i := by
  rw [List.length_drop] at h
  unfold fromLast
  rw [List.reverse_drop, List.getElem?_take_of_lt h]

/-- **A shape fits another one** when each of its extents, counted from the last axis, is that of the other or
one. -/
theorem fits_iff : a.Fits s ↔
    a.length ≤ s.length ∧ ∀ i, a.fromLast i = s.fromLast i ∨ a.fromLast i = 1 := by
  unfold Fits
  refine and_congr_right fun hrank => ?_
  have hlength : (s.drop (s.length - a.length)).length = a.length := by
    rw [List.length_drop]
    omega
  rw [← List.forall₂_reverse_iff, List.forall₂_iff_get]
  constructor
  · rintro ⟨-, hextents⟩ i
    by_cases hi : i < a.length
    · have hdropped : i < (s.drop (s.length - a.length)).length := by rwa [hlength]
      have hextent := hextents i (by rwa [List.length_reverse]) (by rwa [List.length_reverse])
      rw [List.get_eq_getElem, List.get_eq_getElem] at hextent
      rw [← fromLast_drop hdropped]
      unfold fromLast
      rwa [List.getElem?_eq_getElem, List.getElem?_eq_getElem]
    · exact .inr (fromLast_of_length_le (Nat.not_lt.mp hi))
  · intro hextents
    refine ⟨by rw [List.length_reverse, List.length_reverse, hlength], fun i ha hs => ?_⟩
    have hdropped : i < (s.drop (s.length - a.length)).length := by rwa [List.length_reverse] at hs
    have hextent := hextents i
    rw [← fromLast_drop hdropped] at hextent
    unfold fromLast at hextent
    rwa [List.getElem?_eq_getElem ha, List.getElem?_eq_getElem hs] at hextent

theorem Fits.refl (a : Shape) : a.Fits a := fits_iff.mpr ⟨Nat.le_refl _, fun _ => .inl rfl⟩

theorem Fits.trans (h : a.Fits b) (h' : b.Fits c) : a.Fits c := by
  rw [fits_iff] at h h' ⊢
  refine ⟨Nat.le_trans h.1 h'.1, fun i => ?_⟩
  rcases h.2 i with hab | hone
  · rw [hab]
    exact h'.2 i
  · exact .inr hone

/-- Shapes that fit each other are one shape. -/
theorem Fits.antisymm (h : a.Fits b) (h' : b.Fits a) : a = b := by
  rw [fits_iff] at h h'
  refine eq_of_fromLast (Nat.le_antisymm h.1 h'.1) fun i => ?_
  rcases h.2 i with hab | hone
  · exact hab
  · rcases h'.2 i with hba | hone'
    · exact hba.symm
    · rw [hone, hone']

/-- The shape without axes fits every shape. -/
theorem fits_nil (a : Shape) : Fits [] a := fits_iff.mpr ⟨Nat.zero_le _, fun _ => .inr rfl⟩

/-! ## §2 — bounds of two shapes -/

/-- **Shapes can be broadcast** exactly when they fit a common one. -/
theorem exists_broadcast_iff_bounded : (∃ c, a.broadcast b = .ok c) ↔ ∃ u, a.Fits u ∧ b.Fits u := by
  constructor
  · rintro ⟨c, hc⟩
    exact ⟨c, broadcast_eq_ok hc⟩
  · rintro ⟨u, ha, hb⟩
    rw [fits_iff] at ha hb
    refine exists_broadcast_iff.mpr fun i => ?_
    rcases ha.2 i with hau | hone
    · rcases hb.2 i with hbu | hone
      · exact .inl (hau.trans hbu.symm)
      · exact .inr (.inr hone)
    · exact .inr (.inl hone)

/-- What shapes are broadcast to fits whatever they fit. -/
theorem fits_of_broadcast (h : a.broadcast b = .ok c) (ha : a.Fits u) (hb : b.Fits u) : c.Fits u := by
  obtain ⟨hrank, hextents⟩ := joined_of_broadcast h
  rw [fits_iff] at ha hb ⊢
  refine ⟨by omega, fun i => ?_⟩
  rw [hextents i]
  split
  · exact hb.2 i
  · rename_i hne
    exact .inl ((ha.2 i).resolve_right hne)

/-! ## §3 — bounds of several shapes -/

/-- A shape that all of some shapes fit. -/
def Bounds (shapes : List Shape) (u : Shape) : Prop := ∀ a ∈ shapes, a.Fits u

theorem bounds_pair : Bounds [a, b] u ↔ a.Fits u ∧ b.Fits u := by
  unfold Bounds
  simp

theorem bounds_cons : Bounds (a :: shapes) u ↔ a.Fits u ∧ Bounds shapes u := List.forall_mem_cons

/-- **The join of some shapes** is the least shape that all of them fit. -/
structure Join (shapes : List Shape) (s : Shape) : Prop where
  /-- All of the shapes fit it. -/
  bounds : Bounds shapes s
  /-- It fits whatever they all fit. -/
  least : ∀ u, Bounds shapes u → s.Fits u

/-- There is one join at most. -/
theorem Join.eq (h : Join shapes s) (h' : Join shapes u) : s = u :=
  (h.least u h'.bounds).antisymm (h'.least s h.bounds)

/-- The join depends on which shapes there are, not on their order. -/
theorem Join.congr (h : ∀ a, a ∈ shapes ↔ a ∈ shapes') : Join shapes s ↔ Join shapes' s := by
  have hbounds : ∀ u, Bounds shapes u ↔ Bounds shapes' u := fun u =>
    forall_congr' fun a => imp_congr_left (h a)
  constructor
  · exact fun hs => ⟨(hbounds s).mp hs.bounds, fun u hu => hs.least u ((hbounds u).mpr hu)⟩
  · exact fun hs => ⟨(hbounds s).mpr hs.bounds, fun u hu => hs.least u ((hbounds u).mp hu)⟩

/-- **Broadcasting gives the join**, and fails where there is none. -/
theorem broadcast_eq_ok_iff_join : a.broadcast b = .ok s ↔ Join [a, b] s := by
  have hjoin : ∀ c, a.broadcast b = .ok c → Join [a, b] c := by
    intro c hc
    refine ⟨bounds_pair.mpr (broadcast_eq_ok hc), fun u hu => ?_⟩
    obtain ⟨ha, hb⟩ := bounds_pair.mp hu
    exact fits_of_broadcast hc ha hb
  refine ⟨hjoin s, fun h => ?_⟩
  obtain ⟨c, hc⟩ := exists_broadcast_iff_bounded.mpr ⟨s, bounds_pair.mp h.bounds⟩
  rw [hc, (hjoin c hc).eq h]

/-- The bounds of a join are those of its shapes. -/
theorem Join.bounds_iff (h : Join shapes s) : Bounds shapes u ↔ s.Fits u :=
  ⟨h.least u, fun hu a ha => (h.bounds a ha).trans hu⟩

/-- **Broadcasting in two steps** gives the join of all three shapes. A bound of all three is one of the first
two, so the first step does not fail where the three have a join. -/
theorem broadcast_twice_iff :
    (∃ ab, a.broadcast b = .ok ab ∧ ab.broadcast c = .ok s) ↔ Join [a, b, c] s := by
  have hthree : ∀ ab u, Join [a, b] ab → (Bounds [a, b, c] u ↔ Bounds [ab, c] u) := by
    intro ab u hab
    rw [bounds_pair, ← hab.bounds_iff, bounds_pair, bounds_cons, bounds_pair, and_assoc]
  constructor
  · rintro ⟨ab, hab, habc⟩
    rw [broadcast_eq_ok_iff_join] at hab habc
    refine ⟨(hthree ab s hab).mpr habc.bounds, fun u hu => ?_⟩
    exact habc.least u ((hthree ab u hab).mp hu)
  · intro h
    obtain ⟨ha, hbc⟩ := bounds_cons.mp h.bounds
    obtain ⟨ab, hab⟩ := exists_broadcast_iff_bounded.mpr ⟨s, ha, (bounds_pair.mp hbc).1⟩
    refine ⟨ab, hab, broadcast_eq_ok_iff_join.mpr ?_⟩
    rw [broadcast_eq_ok_iff_join] at hab
    refine ⟨(hthree ab s hab).mp h.bounds, fun u hu => ?_⟩
    exact h.least u ((hthree ab u hab).mpr hu)

theorem broadcast_comm : a.broadcast b = .ok s ↔ b.broadcast a = .ok s := by
  rw [broadcast_eq_ok_iff_join, broadcast_eq_ok_iff_join]
  exact Join.congr fun x => by simp [or_comm]

/-- A shape that another one fits is what the two are broadcast to. -/
theorem broadcast_of_fits (h : a.Fits b) : a.broadcast b = .ok b :=
  broadcast_eq_ok_iff_join.mpr
    ⟨bounds_pair.mpr ⟨h, .refl b⟩, fun _ hu => (bounds_pair.mp hu).2⟩

/-- **Broadcasting is a partial join.** Operands can be exchanged, a shape joined with itself or with the one
without axes stays as it is, three shapes can be joined in either order of steps, and the result is the least
shape that the operands fit. -/
theorem broadcast_joins (a b c : Shape) :
    (∀ s, a.broadcast b = .ok s ↔ b.broadcast a = .ok s) ∧
    a.broadcast a = .ok a ∧ broadcast [] a = .ok a ∧ a.broadcast [] = .ok a ∧
    (∀ s, (∃ ab, a.broadcast b = .ok ab ∧ ab.broadcast c = .ok s) ↔
      ∃ bc, b.broadcast c = .ok bc ∧ a.broadcast bc = .ok s) ∧
    ∀ s, a.broadcast b = .ok s ↔ Join [a, b] s := by
  have hnil : broadcast [] a = .ok a := broadcast_of_fits (fits_nil a)
  refine ⟨fun s => broadcast_comm, broadcast_of_fits (.refl a), hnil, broadcast_comm.mp hnil, fun s => ?_,
    fun s => broadcast_eq_ok_iff_join⟩
  -- the second way round is the first one for the same three shapes in another order
  have hcomm : (∃ bc, b.broadcast c = .ok bc ∧ a.broadcast bc = .ok s) ↔
      ∃ bc, b.broadcast c = .ok bc ∧ bc.broadcast a = .ok s :=
    exists_congr fun bc => and_congr_right fun _ => broadcast_comm
  rw [hcomm, broadcast_twice_iff, broadcast_twice_iff]
  exact Join.congr fun x => by simp only [List.mem_cons, List.not_mem_nil, or_false]; tauto

/-- Three shapes whose ranks differ, with ones, a zero and missing axes among the extents. -/
example : broadcast [2, 1, 1] [0] = .ok [2, 1, 0] ∧ broadcast [2, 1, 0] [3, 1] = .ok [2, 3, 0] ∧
    broadcast [0] [3, 1] = .ok [3, 0] ∧ broadcast [2, 1, 1] [3, 0] = .ok [2, 3, 0] := by decide

end TexelFlow.Shape
