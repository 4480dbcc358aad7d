import TexelFlow.Proofs.Evaluate.Elements
import TexelFlow.Proofs.Shader.Semantics
import TexelFlow.Proofs.Texture.Layout

/-!
# Index functions find the operands of the host

The host evaluator writes out the coordinates of an element of the result and looks them up in each
operand. The index function of a shader never forms them: it takes one axis after the other off the index
and adds up shares, without the axes along which the operand does not move. Both end at the same element
of the operand, at every element of the output and for all ranks, and the words of a device are large
enough on the way.

## Main statements

* `shares_eq` — the shares of all axes are the position that the host computes.
* `execAll_axisShares` — what the unrolled lines of an index function leave in their variables.
* `Broadcasts.picked` — what the host reads is an element of the operand.
* `Broadcasts.meaningOf_index` — an index function gives it.

## §1 — shares
## §2 — operands
## §3 — index functions
-/

namespace TexelFlow

namespace Wgsl

/-! ## §1 — shares -/

/-- The strides of an operand along its own axes; zero where it has one element. -/
def ownStrides : Shape → List Nat
  | [] => []
  | d :: rest => (if d = 1 then 0 else Shape.count rest) :: ownStrides rest

/-- What the axes of an index contribute to the index of an operand. -/
def shares : List (Nat × Nat) → Nat → Nat
  | [], _ => 0
  | (stride, share) :: rest, i => i / stride * share + shares rest (i % stride)

variable {operand output : Shape} {strides : List Nat} {lead i : Nat}

/-- **The shares of all axes** are the position that the host computes from coordinates. -/
theorem shares_eq : shares (strides.zip (List.replicate lead 0 ++ ownStrides operand)) i =
    Pairwise.alignedPosition ((Pairwise.coordinates strides i).drop lead) operand := by
  induction lead generalizing strides i with
  | zero =>
    rw [List.replicate_zero, List.nil_append, List.drop_zero]
    induction operand generalizing strides i with
    | nil =>
      rw [ownStrides, List.zip_nil_right, shares]
      unfold Pairwise.alignedPosition
      split
      · cases ‹[] = _›
      · rfl
    | cons d dims ih =>
      cases strides with
      | nil => rfl
      | cons stride strides =>
        rw [ownStrides, List.zip_cons_cons, shares, Pairwise.coordinates, Pairwise.alignedPosition, ih]
        split
        · rw [Nat.mul_zero]
        · rfl
  | succ lead ih =>
    cases strides with
    | nil =>
      rw [List.zip_nil_left, shares, Pairwise.coordinates, List.drop_nil]
      rfl
    | cons stride strides =>
      rw [List.replicate_succ, List.cons_append, List.zip_cons_cons, shares, Nat.mul_zero,
        Nat.zero_add, Pairwise.coordinates, List.drop_succ_cons, ih]

theorem length_ownStrides (operand : Shape) : (ownStrides operand).length = operand.length := by
  induction operand with
  | nil => rfl
  | cons d rest ih => rw [ownStrides, List.length_cons, ih, List.length_cons]

theorem getElem?_ownStrides (operand : Shape) (k : Nat) : (ownStrides operand)[k]?.getD 0 =
    match operand[k]?, operand.strides[k]? with
    | some extent, some stride => if extent = 1 then 0 else stride
    | _, _ => 0 := by
  induction operand generalizing k with
  | nil => rfl
  | cons d rest ih =>
    cases k with
    | zero => rfl
    | succ k => exact ih k

/-- Along each axis the shader adds the share of the operand's own axis. -/
theorem operandStride_eq (operand output : Shape) (axis : Nat) :
    operandStride operand output axis =
      (List.replicate (output.length - operand.length) 0 ++ ownStrides operand)[axis]?.getD 0 := by
  unfold operandStride
  dsimp only
  split
  · rename_i haxis
    rw [List.getElem?_append_left (by rwa [List.length_replicate]), List.getElem?_replicate_of_lt haxis]
    rfl
  · rename_i haxis
    rw [List.getElem?_append_right (by rw [List.length_replicate]; omega), List.length_replicate]
    exact (getElem?_ownStrides operand _).symm

/-- The statements of all axes, as a list over pairs of strides. -/
theorem axisShares_eq (h : operand.length ≤ output.length) :
    (output.strides.mapIdx fun axis stride =>
      axisShare stride (operandStride operand output axis)) =
    (output.strides.zip (List.replicate (output.length - operand.length) 0 ++ ownStrides operand)).map
      fun p => axisShare p.1 p.2 := by
  refine List.ext_getElem ?_ fun axis haxis haxis' => ?_
  · rw [List.length_mapIdx, List.length_map, List.length_zip, List.length_append,
      List.length_replicate, length_ownStrides, Shape.length_strides]
    omega
  · rw [List.getElem_mapIdx, List.getElem_map, List.getElem_zip, operandStride_eq]
    rw [List.length_map, List.length_zip] at haxis'
    rw [List.getElem?_eq_getElem (by omega)]
    rfl

/-! ## §2 — operands -/

/-- Where the host reads an operand for the element of the output at a position and channel. -/
def hostPosition (operand output : Layout) (s c : Nat) : Nat :=
  Pairwise.operandPosition (Pairwise.coordinates output.shape.strides (s * output.channels + c))
    operand.shape

/-- The same by position and channel of the operand. -/
def pick (operand output : Layout) (s c : Nat) : Nat × Nat :=
  (hostPosition operand output s c / operand.channels, hostPosition operand output s c % operand.channels)

/-- What a pair of position and channel has to be, to be the element of an operand that the host reads for
the element of the output at `s` and `c`. -/
structure Picked (operand output : Layout) (s c : Nat) (p : Nat × Nat) : Prop where
  /-- The operand has the position. -/
  position_lt : p.1 < operand.spatial
  /-- The operand has the channel. -/
  channel_lt : p.2 < operand.channels
  /-- The host reads there. -/
  host : p.1 * operand.channels + p.2 = Pairwise.operandPosition
    (Pairwise.coordinates output.shape.strides (s * output.channels + c)) operand.shape
  /-- Operands of the shape of the output are read where it is written. -/
  same : operand.shape = output.shape → p = (s, c)

/-- What the shader of a pairwise operation rests on: an operand and the output have layouts, the operand
fits, and the elements of the output are counted by words of the device. -/
structure Broadcasts (operand output : Layout) : Prop where
  operand_computed : operand.Computed operand.shape
  output_computed : output.Computed output.shape
  fits : Shape.Fits operand.shape output.shape
  elements_lt : output.shape.prod < 2 ^ 32

/-- Computed layouts are those of an operand and the output. -/
theorem Broadcasts.of_compute {x y : String} {d o : Descriptor} {limits : Layout.Limits}
    {options : Layout.Options} {operand output : Layout}
    (hoperand : Layout.compute x d limits options = .ok operand)
    (houtput : Layout.compute y o limits options = .ok output) (hfits : Shape.Fits d.shape o.shape)
    (hsize : o.shape.prod < 2 ^ 32) : Broadcasts operand output := by
  have hoperand' := Layout.compute_shape hoperand
  have houtput' := Layout.compute_shape houtput
  constructor
  case operand_computed => exact hoperand' ▸ Layout.compute_eq_ok hoperand
  case output_computed => exact houtput' ▸ Layout.compute_eq_ok houtput
  case fits => rwa [hoperand', houtput']
  case elements_lt => rwa [houtput']

section Picks

variable {operand output : Layout} {s c : Nat} (h : Broadcasts operand output)
include h

theorem Broadcasts.output_eq : output.spatial * output.channels = output.shape.prod :=
  h.output_computed.prod_eq

theorem Broadcasts.output_pos : 0 < output.shape.prod := by
  rw [← h.output_eq]
  exact Nat.mul_pos h.output_computed.spatial_pos h.output_computed.channels_pos

theorem Broadcasts.operand_lt : operand.shape.prod < 2 ^ 32 :=
  Nat.lt_of_le_of_lt (h.fits.prod_le h.output_pos).2 h.elements_lt

theorem Broadcasts.operand_eq : operand.spatial * operand.channels = operand.shape.prod :=
  h.operand_computed.prod_eq

/-- Positions and channels of the output are counted by words. -/
theorem Broadcasts.output_extents_lt : output.spatial < 2 ^ 32 ∧ output.channels < 2 ^ 32 := by
  have hle := h.output_computed.extents_le
  rw [h.output_eq] at hle
  exact ⟨Nat.lt_of_le_of_lt hle.1 h.elements_lt, Nat.lt_of_le_of_lt hle.2 h.elements_lt⟩

theorem Broadcasts.operand_extents_lt : operand.spatial < 2 ^ 32 ∧ operand.channels < 2 ^ 32 := by
  have hle := h.operand_computed.extents_le
  rw [h.operand_eq] at hle
  exact ⟨Nat.lt_of_le_of_lt hle.1 h.operand_lt, Nat.lt_of_le_of_lt hle.2 h.operand_lt⟩

variable (hs : s < output.spatial) (hc : c < output.channels)
include hs hc

theorem Broadcasts.index_lt : s * output.channels + c < output.shape.prod := by
  rw [← h.output_eq]
  exact Size.mul_add_lt hs hc

theorem Broadcasts.hostPosition_lt : hostPosition operand output s c < operand.shape.prod := by
  have hcoords := Pairwise.coordinates_lt (h.index_lt hs hc)
  exact Pairwise.operandPosition_lt h.fits hcoords

/-- **What the host reads** is an element of the operand. -/
theorem Broadcasts.picked : Picked operand output s c (pick operand output s c) := by
  have hlt := h.hostPosition_lt hs hc
  rw [← h.operand_eq] at hlt
  constructor
  case position_lt => exact Nat.div_lt_of_lt_mul (by rwa [Nat.mul_comm] at hlt)
  case channel_lt => exact Nat.mod_lt _ h.operand_computed.channels_pos
  case host => exact Size.div_mul_add_mod _ _
  case same =>
    intro hshape
    have hchannels : operand.channels = output.channels := by
      rw [h.operand_computed.channels, h.output_computed.channels, hshape]
    have hposition : hostPosition operand output s c = s * output.channels + c := by
      unfold hostPosition
      rw [hshape]
      exact Pairwise.operandPosition_self (h.index_lt hs hc)
    unfold pick
    rw [hposition, hchannels, Size.mul_add_div hc, Size.mul_add_mod hc]

theorem Broadcasts.pick_lt :
    (pick operand output s c).1 < 2 ^ 32 ∧ (pick operand output s c).2 < 2 ^ 32 := by
  obtain ⟨hposition, hchannel, -, -⟩ := h.picked hs hc
  exact ⟨hposition.trans h.operand_extents_lt.1, hchannel.trans h.operand_extents_lt.2⟩

end Picks

/-- The shares of an operand that fits can be written down. -/
theorem Broadcasts.checkIndex_eq {operand output : Layout} (h : Broadcasts operand output) :
    checkIndex operand.shape output.shape = .ok () := by
  have hoperand : 0 < operand.shape.prod := by
    rw [← h.operand_eq]
    exact Nat.mul_pos h.operand_computed.spatial_pos h.operand_computed.channels_pos
  obtain ⟨strides, hstrides⟩ : ∃ strides, [output.shape, operand.shape].mapM Shape.strided = .ok strides := by
    rw [Shape.exists_strided_iff, List.forall_mem_cons, List.forall_mem_singleton]
    constructor
    · exact Shape.strided_of_prod_pos h.output_pos (h.elements_lt.trans (by decide))
    · exact Shape.strided_of_prod_pos hoperand (h.operand_lt.trans (by decide))
  unfold checkIndex
  rw [Outcome.bind_of_eq_ok hstrides, Size.sub_of_le h.fits.1]
  rfl

/-! ## §3 — index functions -/

section Axes

variable (fns : Functions) {env : Env}

/-- One axis: its share goes to the index of the operand, and it leaves the index of the output. -/
theorem execAll_axisShare {i j stride share : Nat} (hi : i < 2 ^ 32) (hstride : 0 < stride)
    (hstride' : stride < 2 ^ 32) :
    Stmt.execAll fns (axisShare stride share) (("j", .ofNat j) :: ("rem", .ofNat i) :: env) =
      some (("j", .ofNat (j + i / stride * share)) :: ("rem", .ofNat (i % stride)) :: env, .next) := by
  have hrem : ∀ {j : Nat}, Stmt.execAll fns [.assign (v "rem") (v "rem" % u stride)]
      (("j", .ofNat j) :: ("rem", .ofNat i) :: env) =
      some (("j", .ofNat j) :: ("rem", .ofNat (i % stride)) :: env, .next) := by
    intro j
    refine execAll_cons_of_next fns ?_ []
    simp [Stmt.exec, Env.find?, Env.write, Env.set, v, Value.binary_rem_ofNat hi hstride hstride',
      Expr.eval]
  unfold axisShare
  by_cases hshare : share = 0
  · rw [if_neg (by simp [hshare]), List.nil_append, hrem, hshare, Nat.mul_zero, Nat.add_zero]
  · rw [if_pos hshare]
    have hjoin : Stmt.execAll fns [.increase (v "j") (paren (v "rem" / u stride) * u share)]
        (("j", .ofNat j) :: ("rem", .ofNat i) :: env) =
        some (("j", .ofNat (j + i / stride * share)) :: ("rem", .ofNat i) :: env, .next) := by
      refine execAll_cons_of_next fns ?_ []
      simp [Stmt.exec, Env.find?, Env.write, Env.set, v, Value.binary_div_ofNat hi hstride hstride',
        Expr.eval]
    rw [execAll_append_of_next fns hjoin, hrem]

/-- **All axes**, one after the other. -/
theorem execAll_axisShares {pairs : List (Nat × Nat)} {i j : Nat} (hi : i < 2 ^ 32)
    (hpairs : ∀ p ∈ pairs, 0 < p.1 ∧ p.1 < 2 ^ 32) :
    ∃ i', Stmt.execAll fns (pairs.map fun p => axisShare p.1 p.2).flatten
        (("j", .ofNat j) :: ("rem", .ofNat i) :: env) =
      some (("j", .ofNat (j + shares pairs i)) :: ("rem", .ofNat i') :: env, .next) := by
  induction pairs generalizing i j with
  | nil => exact ⟨i, execAll_nil fns _⟩
  | cons p pairs ih =>
    obtain ⟨hstride, hstride'⟩ := hpairs p List.mem_cons_self
    have hle : i % p.1 ≤ i := Nat.mod_le i p.1
    obtain ⟨i', hrest⟩ := @ih (i % p.1) (j + i / p.1 * p.2) (by omega)
      fun q hq => hpairs q (List.mem_cons_of_mem _ hq)
    refine ⟨i', ?_⟩
    rw [List.map_cons, List.flatten_cons, execAll_append_of_next fns
      (execAll_axisShare fns hi hstride hstride'), hrest, shares, Nat.add_assoc]

end Axes

/-- The body of an index function. -/
def indexBody (operand output : Shape) : List Stmt :=
  let channels := operand.getLast?.getD 1
  [.var "rem" (v "s" * v "OUT_CHANNELS" + v "c"), .var "j" (u 0)]
    ++ (output.strides.mapIdx fun axis stride =>
      axisShare stride (operandStride operand output axis)).flatten
    ++ [.give (.make (.vec 2 .u32) [v "j" / u channels, v "j" % u channels])]

/-- The parameters of functions of a position and a channel. -/
def elementParams : List Param := [param "s" .u32, param "c" .u32]

/-- A position and a channel as a value. -/
def pairValue (p : Nat × Nat) : Value :=
  .vector [.unsigned (.ofNat p.1), .unsigned (.ofNat p.2)]

theorem make_pair (m n : Nat) : Value.make (.vec 2 .u32) [.ofNat m, .ofNat n] = some (pairValue (m, n)) :=
  rfl

/-- **An index function** gives the position that the host computes, cut into position and channel. -/
theorem meaningOf_indexBody (fns : Functions) {globals : Env} {channels s c : Nat}
    (hglobal : globals.find? "OUT_CHANNELS" = some (.ofNat channels))
    (hindex : s * channels + c < 2 ^ 32) (hlength : operand.length ≤ output.length)
    (hstrides : ∀ stride ∈ output.strides, 0 < stride ∧ stride < 2 ^ 32)
    {position : Nat} (hposition : position < 2 ^ 32)
    (heq : Pairwise.operandPosition (Pairwise.coordinates output.strides (s * channels + c)) operand =
      position) {own : Nat} (hown : operand.getLast?.getD 1 = own) (hpos : 0 < own)
    (hown' : own < 2 ^ 32) :
    meaningOf fns globals elementParams (indexBody operand output) [.ofNat s, .ofNat c] =
      some (pairValue (position / own, position % own)) := by
  have hshares : shares (output.strides.zip
      (List.replicate (output.length - operand.length) 0 ++ ownStrides operand)) (s * channels + c) =
      position := by
    rw [shares_eq, ← heq, Pairwise.operandPosition, Pairwise.length_coordinates, Shape.length_strides]
  have hpairs : ∀ p ∈ output.strides.zip
      (List.replicate (output.length - operand.length) 0 ++ ownStrides operand),
      0 < p.1 ∧ p.1 < 2 ^ 32 := fun p hp => hstrides p.1 (List.of_mem_zip hp).1
  have hvars : Stmt.execAll fns [.var "rem" (v "s" * v "OUT_CHANNELS" + v "c"), .var "j" (u 0)]
      (("s", .ofNat s) :: ("c", .ofNat c) :: globals) =
      some (("j", .ofNat 0) :: ("rem", .ofNat (s * channels + c)) :: ("s", .ofNat s) ::
        ("c", .ofNat c) :: globals, .next) := by
    simp [Stmt.execAll, Stmt.exec, Env.find?, hglobal]
  obtain ⟨i', haxes⟩ := @execAll_axisShares fns (("s", .ofNat s) :: ("c", .ofNat c) :: globals) _ _ 0
    hindex hpairs
  rw [hshares, Nat.zero_add] at haxes
  have hgive : Stmt.execAll fns [.give (.make (.vec 2 .u32) [v "j" / u own, v "j" % u own])]
      (("j", .ofNat position) :: ("rem", .ofNat i') :: ("s", .ofNat s) :: ("c", .ofNat c) :: globals) =
      some (("j", .ofNat position) :: ("rem", .ofNat i') :: ("s", .ofNat s) :: ("c", .ofNat c) ::
        globals, .done (pairValue (position / own, position % own))) := by
    refine execAll_cons_of_done fns ?_ []
    simp [Stmt.exec, Expr.eval, Env.find?, Value.binary_div_ofNat hposition hpos hown',
      Value.binary_rem_ofNat hposition hpos hown', make_pair]
  have hbody := (execAll_append_of_next fns hvars _).trans
    ((execAll_append_of_next fns haxes _).trans hgive)
  refine meaningOf_of_done rfl (Eq.trans ?_ hbody)
  unfold indexBody
  dsimp only
  rw [axisShares_eq hlength, hown, List.append_assoc]
  rfl

section Index

variable {operand output : Layout} {s c : Nat}

/-- **An index function gives what the host reads.** -/
theorem Broadcasts.meaningOf_index (h : Broadcasts operand output) (hs : s < output.spatial)
    (hc : c < output.channels) (fns : Functions) {globals : Env}
    (hglobal : globals.find? "OUT_CHANNELS" = some (.ofNat output.channels)) :
    meaningOf fns globals elementParams (indexBody operand.shape output.shape) [.ofNat s, .ofNat c] =
      some (pairValue (pick operand output s c)) := by
  have hindex := (h.index_lt hs hc).trans h.elements_lt
  have hposition := (h.hostPosition_lt hs hc).trans h.operand_lt
  have hstrides : ∀ stride ∈ output.shape.strides, 0 < stride ∧ stride < 2 ^ 32 := by
    intro stride hstride
    obtain ⟨hpos, hle⟩ := Shape.strides_le h.output_pos stride hstride
    exact ⟨hpos, Nat.lt_of_le_of_lt hle h.elements_lt⟩
  exact meaningOf_indexBody fns hglobal hindex h.fits.1 hstrides hposition rfl
    h.operand_computed.channels.symm h.operand_computed.channels_pos h.operand_extents_lt.2

end Index

end Wgsl

end TexelFlow
