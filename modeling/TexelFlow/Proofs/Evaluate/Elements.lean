import TexelFlow.Evaluate.Run
import TexelFlow.Proofs.Operator.Infer
import TexelFlow.Proofs.Size

/-!
# Elements are read where they are

An operation reads its operands at computed positions. What inference accepted keeps these positions
inside the operands: broadcasting moves along axes that the operand has, a convolution meets its kernel
only inside the image, and a resize keeps to the border elements. All of this is about operands whose
elements fill their shapes exactly. Two things are left to ask: whether there is room for the result, and, of
a resize, whether its image has rows and columns where the result has some.

## Main statements

* `Pairwise.apply_eq_ok_iff`, `Convolution.apply_eq_ok_iff`, `Resize.apply_eq_ok_iff` — what they give.
* `Pairwise.exists_apply_iff`, `Convolution.exists_apply_iff`, `Resize.exists_apply_iff` — when there is a
  result.

## §1 — reading and room
## §2 — pairwise operations
## §3 — convolutions
## §4 — resizes
-/

namespace TexelFlow

/-! ## §1 — reading and room -/

namespace Values

variable {v : Values} {position : Nat}

/-- The elements fill the shape exactly, not only up to the size of a word. -/
def Filled (v : Values) : Prop := v.elements.size = v.shape.prod

theorem exists_read (h : position < v.elements.size) : ∃ x, v.read position = .ok x := by
  unfold read
  rw [dif_pos h]
  exact ⟨_, rfl⟩

/-- **The tensor of values** has their shape and elements. -/
theorem toTensor_eq_ok_iff {t : Tensor} :
    v.toTensor = .ok t ↔ t.shape = v.shape ∧ t.data = .float32 v.elements.toList := by
  constructor
  · unfold toTensor
    intro h
    split at h
    · cases h
    · split at h
      · cases h
        exact ⟨rfl, rfl⟩
      · cases h
  · rintro ⟨hshape, hdata⟩
    have hfilled : v.shape.counted = .ok v.elements.toList.length := by
      rw [← hshape, t.filled, hdata]
      rfl
    obtain ⟨shape, data, filled⟩ := t
    obtain rfl : shape = v.shape := hshape
    obtain rfl : data = .float32 v.elements.toList := hdata
    unfold toTensor
    split
    · rename_i h
      rw [hfilled] at h
      cases h
    · rename_i expected h
      obtain rfl := Except.ok.inj (hfilled.symm.trans h)
      exact dif_pos rfl

/-- Values that fill a counted shape make a tensor. -/
theorem exists_toTensor (hcounted : v.shape.Counted) (h : v.Filled) : ∃ t, v.toTensor = .ok t := by
  have hfilled : v.shape.counted = .ok v.elements.toList.length := by
    rw [hcounted.counted, Array.length_toList, h]
  exact ⟨⟨v.shape, .float32 v.elements.toList, hfilled⟩, toTensor_eq_ok_iff.mpr ⟨rfl, rfl⟩⟩

end Values

/-- There is room for the elements of an image: words hold its area, and the bytes of all elements can be
addressed. -/
def Image.HasRoom (image : Image) : Prop :=
  image.height * image.width < Size.modulus ∧
    image.height * image.width * image.channels * elementRoom ≤ Size.addressable

/-- **Elements of an image that room is asked for** give what follows exactly where there is room. -/
theorem Image.reserve_eq_ok_iff {α : Type} {height width channels : Nat} {x : Outcome α} {a : α} :
    (Size.mul height width >>= fun area => Size.mul area channels >>= fun count =>
      Size.reserve count elementRoom >>= fun _ => x) = .ok a ↔
      Image.HasRoom ⟨height, width, channels⟩ ∧ x = .ok a := by
  unfold HasRoom
  constructor
  · intro h
    obtain ⟨area, harea, h⟩ := Outcome.bind_eq_ok_iff.mp h
    obtain ⟨hlt, rfl⟩ := Size.mul_eq_ok_iff.mp harea
    obtain ⟨count, hcount, h⟩ := Outcome.bind_eq_ok_iff.mp h
    obtain ⟨-, rfl⟩ := Size.mul_eq_ok_iff.mp hcount
    obtain ⟨_, hroom, h⟩ := Outcome.bind_eq_ok_iff.mp h
    exact ⟨⟨hlt, Size.reserve_eq_ok_iff.mp hroom⟩, h⟩
  · rintro ⟨⟨hlt, hroom⟩, h⟩
    have hcount : height * width * channels < Size.modulus := by
      dsimp only at hroom
      unfold elementRoom Size.addressable at hroom
      unfold Size.modulus
      omega
    rw [Outcome.bind_of_eq_ok (Size.mul_eq_ok_iff.mpr ⟨hlt, rfl⟩),
      Outcome.bind_of_eq_ok (Size.mul_eq_ok_iff.mpr ⟨hcount, rfl⟩),
      Outcome.bind_of_eq_ok (Size.reserve_eq_ok_iff.mpr hroom)]
    exact h

/-- Room for the elements of an image is room for those of a shape that it stands in. -/
theorem Image.hasRoom_iff {node : String} {shape : Shape} {image : Image} (h : ofShape node shape = .ok image)
    {output : Image} (hheight : output.height < Size.modulus) :
    output.HasRoom ↔ (output.inPlaceOf shape).HasRoom := by
  have hcounted : Shape.Counted [output.height, output.width, output.channels] ↔
      output.height * output.width < Size.modulus ∧
        output.height * output.width * output.channels < Size.modulus := by
    rw [show [output.height, output.width, output.channels] =
      ([] ++ [output.height] ++ [output.width]) ++ [output.channels] from rfl]
    simp only [Shape.counted_concat_iff]
    simp [Shape.counted_nil, hheight]
  have hbehind : (output.inPlaceOf shape).Counted ↔
      Shape.Counted [output.height, output.width, output.channels] := by
    unfold inPlaceOf
    obtain ⟨batch, rfl | rfl, rfl⟩ := ofShape_eq_ok h
    · rfl
    · exact Shape.counted_one_cons_iff
  unfold HasRoom Shape.HasRoom
  rw [hbehind, hcounted, prod_inPlaceOf h]
  unfold Size.modulus elementRoom Size.addressable
  omega

/-! ## §2 — pairwise operations -/

namespace Pairwise

theorem length_coordinates (strides : List Nat) (position : Nat) :
    (coordinates strides position).length = strides.length := by
  induction strides generalizing position with
  | nil => rfl
  | cons stride rest ih => rw [coordinates, List.length_cons, ih, List.length_cons]

/-- **The coordinates of a position** are inside the shape. -/
theorem coordinates_lt {shape : Shape} {position : Nat} (h : position < shape.prod) :
    List.Forall₂ (· < ·) (coordinates shape.strides position) shape := by
  induction shape generalizing position with
  | nil => exact .nil
  | cons d rest ih =>
    rw [List.prod_cons] at h
    have hrest : 0 < rest.prod := Nat.pos_of_mul_pos_left (Nat.zero_lt_of_lt h)
    rw [Shape.strides, coordinates, Shape.count_eq_prod]
    refine .cons ?_ (ih (Nat.mod_lt _ hrest))
    exact Nat.div_lt_of_lt_mul (by rwa [Nat.mul_comm] at h)

/-- Coordinates that are inside a shape along the axes with more than one element have a position
inside it. -/
theorem alignedPosition_lt {coords : List Nat} {dims : Shape}
    (h : List.Forall₂ (fun c d => d = 1 ∨ c < d) coords dims) :
    alignedPosition coords dims < dims.prod := by
  induction h with
  | nil =>
    unfold alignedPosition
    exact Nat.one_pos
  | @cons c d coords dims hcd _ ih =>
    rw [alignedPosition, List.prod_cons, Shape.count_eq_prod]
    rcases hcd with rfl | hcd
    · rw [if_pos rfl, Nat.zero_add, Nat.one_mul]
      exact ih
    · split
      · rw [Nat.zero_add]
        exact ih.trans_le (Nat.le_mul_of_pos_left _ (Nat.zero_lt_of_lt hcd))
      · exact Size.mul_add_lt hcd ih

/-- What holds between extents and those of a longer shape carries coordinates over. -/
theorem forall₂_of_fits {coords : List Nat} {dims shape : Shape}
    (hcoords : List.Forall₂ (· < ·) coords shape)
    (hdims : List.Forall₂ (fun d e => d = e ∨ d = 1) dims shape) :
    List.Forall₂ (fun c d => d = 1 ∨ c < d) coords dims := by
  induction hcoords generalizing dims with
  | nil =>
    cases hdims
    exact .nil
  | cons hc _ ih =>
    obtain _ | ⟨hd, hdims⟩ := hdims
    refine .cons ?_ (ih hdims)
    omega

/-- **An operand that fits is read inside it.** -/
theorem operandPosition_lt {coords : List Nat} {a shape : Shape} (hfits : a.Fits shape)
    (hcoords : List.Forall₂ (· < ·) coords shape) : operandPosition coords a < a.prod := by
  unfold operandPosition
  rw [hcoords.length_eq]
  exact alignedPosition_lt (forall₂_of_fits (List.forall₂_drop _ hcoords) hfits.2)

/-- An operand of the shape of the output is read at the position itself. -/
theorem operandPosition_self {shape : Shape} {position : Nat} (h : position < shape.prod) :
    operandPosition (coordinates shape.strides position) shape = position := by
  unfold operandPosition
  rw [length_coordinates, Shape.length_strides, Nat.sub_self, List.drop_zero]
  induction shape generalizing position with
  | nil =>
    rw [List.prod_nil] at h
    show 0 = position
    omega
  | cons d rest ih =>
    rw [List.prod_cons] at h
    have hrest : 0 < rest.prod := Nat.pos_of_mul_pos_left (Nat.zero_lt_of_lt h)
    rw [Shape.strides, coordinates, alignedPosition, Shape.count_eq_prod, ih (Nat.mod_lt _ hrest)]
    split
    · rename_i hone
      rw [hone, Nat.one_mul] at h
      rw [Nat.zero_add, Nat.mod_eq_of_lt h]
    · exact Size.div_mul_add_mod position rest.prod

/-- What a pairwise operation counts: words hold the strides of result and operands, and there is room for the
elements of the result. -/
structure Countable (shape a b : Shape) : Prop where
  /-- Words hold all strides. -/
  strided : ∀ s ∈ [shape, a, b], s.Strided
  /-- There is room for the result. -/
  room : shape.HasRoom

/-- Where a result has elements, room for them is all that it takes. -/
theorem countable_iff_of_pos {a b shape : Shape} (ha : a.Fits shape) (hb : b.Fits shape)
    (hpos : 0 < shape.prod) : Countable shape a b ↔ shape.HasRoom := by
  refine ⟨Countable.room, fun hroom => ⟨?_, hroom⟩⟩
  have hlt := hroom.1.prod_lt
  obtain ⟨hapos, hale⟩ := ha.prod_le hpos
  obtain ⟨hbpos, hble⟩ := hb.prod_le hpos
  simp only [List.forall_mem_cons]
  exact ⟨Shape.strided_of_prod_pos hpos hlt, Shape.strided_of_prod_pos hapos (hale.trans_lt hlt),
    Shape.strided_of_prod_pos hbpos (hble.trans_lt hlt), fun _ h => absurd h List.not_mem_nil⟩

variable {op : Binary32 → Binary32 → Binary32} {a b v : Values} {shape : Shape}

/-- **What a pairwise operation gives**: the shape its operands are broadcast to, with an element for
every position, where all of it is counted. -/
theorem apply_eq_ok_iff : apply op a b = .ok v ↔ a.shape.broadcast b.shape = .ok v.shape ∧
    Countable v.shape a.shape b.shape ∧
    (List.range v.shape.prod).mapM (element op v.shape a b) = .ok v.elements.toList := by
  unfold apply
  constructor
  · intro h
    obtain ⟨shape, hshape, h⟩ := Outcome.bind_eq_ok_iff.mp h
    obtain ⟨strides, hstrides, h⟩ := Outcome.bind_eq_ok_iff.mp h
    obtain ⟨hroom, h⟩ := Shape.reserve_eq_ok_iff.mp h
    obtain ⟨elements, helements, h⟩ := Outcome.bind_eq_ok_iff.mp h
    obtain rfl := Outcome.pure_eq_ok_iff.mp h
    exact ⟨Outcome.mapError_eq_ok_iff.mp hshape, ⟨Shape.exists_strided_iff.mp ⟨_, hstrides⟩, hroom⟩, helements⟩
  · rintro ⟨hshape, hcountable, helements⟩
    obtain ⟨strides, hstrides⟩ := Shape.exists_strided_iff.mpr hcountable.strided
    rw [hshape]
    refine Outcome.bind_eq_ok_iff.mpr ⟨_, rfl, Outcome.bind_eq_ok_iff.mpr ⟨_, hstrides, ?_⟩⟩
    exact Shape.reserve_eq_ok_iff.mpr ⟨hcountable.room, Outcome.bind_eq_ok_iff.mpr ⟨_, helements, rfl⟩⟩

/-- **A pairwise operation has a result** on operands that go together exactly where all of it is counted. -/
theorem exists_apply_iff (hshape : a.shape.broadcast b.shape = .ok shape) (ha : a.Filled) (hb : b.Filled) :
    (∃ v, apply op a b = .ok v) ↔ Countable shape a.shape b.shape := by
  constructor
  · rintro ⟨v, hv⟩
    obtain ⟨hshape', hcountable, -⟩ := apply_eq_ok_iff.mp hv
    obtain rfl := Except.ok.inj (hshape.symm.trans hshape')
    exact hcountable
  · intro hcountable
    obtain ⟨hafits, hbfits⟩ := Shape.broadcast_eq_ok hshape
    have helements : ∃ elements, (List.range shape.prod).mapM (element op shape a b) = .ok elements := by
      refine Outcome.exists_mapM_eq_ok fun position hposition => ?_
      have hcoords := coordinates_lt (List.mem_range.mp hposition)
      obtain ⟨x, hx⟩ := a.exists_read (by rw [ha]; exact operandPosition_lt hafits hcoords)
      obtain ⟨y, hy⟩ := b.exists_read (by rw [hb]; exact operandPosition_lt hbfits hcoords)
      unfold element
      dsimp only
      rw [hx, hy]
      exact ⟨_, rfl⟩
    obtain ⟨elements, helements⟩ := helements
    exact ⟨⟨shape, elements.toArray⟩, apply_eq_ok_iff.mpr ⟨hshape, hcountable, helements⟩⟩

theorem filled_of_apply (h : apply op a b = .ok v) : v.Filled := by
  have hlength := Outcome.length_of_mapM (apply_eq_ok_iff.mp h).2.2
  rwa [List.length_range] at hlength

end Pairwise

/-! ## §3 — convolutions -/

namespace Convolution

/-- The kernel meets the image inside both. -/
theorem lt_of_mem_taps {output stride pad kernel input k i : Nat}
    (h : (k, i) ∈ taps output stride pad kernel input) : k < kernel ∧ i < input := by
  unfold taps at h
  obtain ⟨k', hk', h⟩ := List.mem_filterMap.mp h
  dsimp only at h
  split at h
  · cases h
  · split at h
    · cases h
    · obtain ⟨rfl, rfl⟩ := Prod.mk.inj (Option.some.inj h)
      exact ⟨List.mem_range.mp hk', by omega⟩

/-- Products of elements that are there can be added up. -/
theorem exists_accumulate {input kernel : Values} {products : List (Nat × Nat)}
    (h : ∀ p ∈ products, p.1 < input.elements.size ∧ p.2 < kernel.elements.size) (first : Binary32) :
    ∃ x, accumulate input kernel first products = .ok x := by
  unfold accumulate
  induction products generalizing first with
  | nil => exact ⟨first, rfl⟩
  | cons p products ih =>
    obtain ⟨hinput, hkernel⟩ := h p List.mem_cons_self
    obtain ⟨x, hx⟩ := input.exists_read hinput
    obtain ⟨y, hy⟩ := kernel.exists_read hkernel
    obtain ⟨z, hz⟩ := ih (fun p' hp' => h p' (List.mem_cons_of_mem _ hp')) (first + x * y)
    refine ⟨z, ?_⟩
    rw [List.foldlM_cons]
    refine Outcome.bind_eq_ok_iff.mpr ⟨first + x * y, ?_, hz⟩
    dsimp only
    rw [hx, hy]
    rfl

variable {g : Geometry} {depthwise : Bool} {kernelOut : Nat}

/-- **The pairs of a place are inside input and kernel.** Where channels are treated by themselves, an
output channel belongs to the input channel that its multiplier divides out. -/
theorem pairsAt_lt (hmultiplier : g.multiplier = if depthwise then kernelOut else 1)
    (houtC : g.outC = if depthwise then g.inC * kernelOut else kernelOut) {co ky iy kx ix : Nat}
    (hco : co < g.outC) (hky : ky < g.kernelH) (hiy : iy < g.inH) (hkx : kx < g.kernelW)
    (hix : ix < g.inW) {p : Nat × Nat} (hp : p ∈ pairsAt g depthwise co ky iy kx ix) :
    p.1 < g.inH * g.inW * g.inC ∧ p.2 < g.kernelH * g.kernelW * g.inC * kernelOut := by
  have hpixel : iy * g.inW + ix < g.inH * g.inW := Size.mul_add_lt hiy hix
  have htap : ky * g.kernelW + kx < g.kernelH * g.kernelW := Size.mul_add_lt hky hkx
  unfold pairsAt at hp
  dsimp only at hp
  cases depthwise with
  | true =>
    rw [if_pos rfl] at hmultiplier houtC hp
    obtain rfl := List.mem_singleton.mp hp
    rw [houtC] at hco
    have hchannel : co / g.multiplier < g.inC := by
      rw [hmultiplier]
      exact Nat.div_lt_of_lt_mul (by rwa [Nat.mul_comm] at hco)
    refine ⟨Size.mul_add_lt hpixel hchannel, ?_⟩
    rw [houtC, Nat.mul_assoc]
    exact Size.mul_add_lt htap hco
  | false =>
    rw [if_neg Bool.false_ne_true] at houtC hp
    obtain ⟨ci, hci, rfl⟩ := List.mem_map.mp hp
    rw [houtC] at hco
    have hci := List.mem_range.mp hci
    refine ⟨Size.mul_add_lt hpixel hci, ?_⟩
    rw [houtC]
    exact Size.mul_add_lt (Size.mul_add_lt htap hci) hco

theorem prod_kernel (kernelH kernelW inC kernelOut : Nat) :
    List.prod [kernelH, kernelW, inC, kernelOut] = kernelH * kernelW * inC * kernelOut := by
  simp [Nat.mul_assoc]

/-- **All pairs of an element are inside input and kernel.** -/
theorem pairs_lt {node : String} {p : Params} {input kernel : Shape}
    (hg : Geometry.resolve node p input kernel depthwise = .ok g)
    {oy ox co : Nat} (hco : co < g.outC) {pair : Nat × Nat} (hp : pair ∈ pairs g depthwise oy ox co) :
    pair.1 < input.prod ∧ pair.2 < kernel.prod := by
  obtain ⟨himage, kernelOut, rfl, houtC, hmultiplier⟩ := Geometry.resolve_eq_ok hg
  unfold pairs at hp
  obtain ⟨⟨ky, iy⟩, hy, hp⟩ := List.mem_flatMap.mp hp
  obtain ⟨⟨kx, ix⟩, hx, hp⟩ := List.mem_flatMap.mp hp
  obtain ⟨hky, hiy⟩ := lt_of_mem_taps hy
  obtain ⟨hkx, hix⟩ := lt_of_mem_taps hx
  rw [Image.prod_of_ofShape himage, prod_kernel]
  exact pairsAt_lt hmultiplier (outputChannels_eq houtC) hco hky hiy hkx hix hp

variable {n : Node} {p : Params} {input kernel v : Values} {bias : Option Values}

/-- The image that a geometry makes. -/
def Geometry.output (g : Geometry) : Image := ⟨g.outH, g.outW, g.outC⟩

/-- **What a convolution gives**: an element for each point of its geometry, in the shape that this gives
to the input, where there is room for them. -/
theorem apply_eq_ok_iff : apply n input kernel bias = .ok v ↔ ∃ p g rows, Params.ofNode n = .ok p ∧
    Geometry.resolve n.name p input.shape kernel.shape n.op.isDepthwise = .ok g ∧ g.output.HasRoom ∧
    Outcome.grid (element p g n.op.isDepthwise input kernel bias) (List.range g.outH)
      (List.range g.outW) (List.range g.outC) = .ok rows ∧
    v = ⟨g.outputShape input.shape, rows.flatten.flatten.toArray⟩ := by
  unfold apply
  constructor
  · intro h
    obtain ⟨p, hp, h⟩ := Outcome.bind_eq_ok_iff.mp h
    obtain ⟨g, hg, h⟩ := Outcome.bind_eq_ok_iff.mp h
    obtain ⟨hroom, h⟩ := Image.reserve_eq_ok_iff.mp h
    obtain ⟨rows, hrows, h⟩ := Outcome.bind_eq_ok_iff.mp h
    exact ⟨p, g, rows, hp, hg, hroom, hrows, (Outcome.pure_eq_ok_iff.mp h).symm⟩
  · rintro ⟨p, g, rows, hp, hg, hroom, hrows, rfl⟩
    refine Outcome.bind_eq_ok_iff.mpr ⟨p, hp, Outcome.bind_eq_ok_iff.mpr ⟨g, hg, ?_⟩⟩
    exact Image.reserve_eq_ok_iff.mpr ⟨hroom, Outcome.bind_eq_ok_iff.mpr ⟨rows, hrows, rfl⟩⟩

/-- **A convolution has a result** on operands with a geometry, and a bias for each output channel, exactly
where there is room for it. -/
theorem exists_apply_iff (hp : Params.ofNode n = .ok p)
    (hg : Geometry.resolve n.name p input.shape kernel.shape n.op.isDepthwise = .ok g)
    (hinput : input.Filled) (hkernel : kernel.Filled) (hbias : ∀ b ∈ bias, b.elements.size = g.outC) :
    (∃ v, apply n input kernel bias = .ok v) ↔ g.output.HasRoom := by
  constructor
  · rintro ⟨v, hv⟩
    obtain ⟨p', g', rows, hp', hg', hroom, -⟩ := apply_eq_ok_iff.mp hv
    obtain rfl := Except.ok.inj (hp.symm.trans hp')
    obtain rfl := Except.ok.inj (hg.symm.trans hg')
    exact hroom
  intro hroom
  have helement : ∀ oy ox, ∀ co < g.outC,
      ∃ x, element p g n.op.isDepthwise input kernel bias oy ox co = .ok x := by
    intro oy ox co hco
    have hstart : ∃ first, start bias co = .ok first := by
      cases bias with
      | none => exact ⟨_, rfl⟩
      | some b => exact b.exists_read (by rw [hbias b rfl]; exact hco)
    obtain ⟨first, hstart⟩ := hstart
    have hpairs : ∀ pair ∈ pairs g n.op.isDepthwise oy ox co,
        pair.1 < input.elements.size ∧ pair.2 < kernel.elements.size := by
      intro pair hpair
      rw [hinput, hkernel]
      exact pairs_lt hg hco hpair
    obtain ⟨x, hx⟩ := exists_accumulate hpairs first
    exact ⟨_, Outcome.bind_eq_ok_iff.mpr ⟨first, hstart, Outcome.bind_eq_ok_iff.mpr ⟨x, hx, rfl⟩⟩⟩
  obtain ⟨rows, hrows⟩ : ∃ rows, Outcome.grid (element p g n.op.isDepthwise input kernel bias)
      (List.range g.outH) (List.range g.outW) (List.range g.outC) = .ok rows :=
    Outcome.exists_grid_eq_ok fun oy _ ox _ co hco => helement oy ox co (List.mem_range.mp hco)
  exact ⟨_, apply_eq_ok_iff.mpr ⟨p, g, rows, hp, hg, hroom, hrows, rfl⟩⟩

theorem filled_of_apply (h : apply n input kernel bias = .ok v) : v.Filled := by
  obtain ⟨p, g, rows, -, hg, -, hrows, rfl⟩ := apply_eq_ok_iff.mp h
  have hlength := Outcome.length_of_grid hrows
  simp only [List.length_range] at hlength
  obtain ⟨himage, -⟩ := Geometry.resolve_eq_ok hg
  unfold Values.Filled Geometry.outputShape
  rw [Image.prod_inPlaceOf himage]
  exact hlength

end Convolution

/-! ## §4 — resizes -/

namespace Resize

variable {n : Node} {p : Params} {input : Values} {size : Option Tensor} {image : Image}

/-- The sides of a place on an axis that has elements. -/
def sidesAt (place : Binary32) (extent : Nat) : Sides where
  low := min (place.floor.max .zero).toSize (extent - 1)
  high := min (place.ceil.max .zero).toSize (extent - 1)
  fraction := place - place.floor

theorem sides_of_pos {place : Binary32} {extent : Nat} (h : 0 < extent) :
    sides place extent = .ok (sidesAt place extent) := by
  unfold sides
  rw [Size.sub_of_le h]
  rfl

theorem sides_eq_ok_iff {place : Binary32} {extent : Nat} {s : Sides} :
    sides place extent = .ok s ↔ 0 < extent ∧ s = sidesAt place extent := by
  rcases Nat.eq_zero_or_pos extent with rfl | h
  · exact iff_of_false nofun fun h => absurd h.1 (lt_irrefl 0)
  · rw [sides_of_pos h, and_iff_right h, Except.ok.injEq, eq_comm]

/-- Both sides of a place stay on an axis that has an element. -/
theorem sidesAt_lt {place : Binary32} {extent : Nat} (h : 0 < extent) :
    (sidesAt place extent).low < extent ∧ (sidesAt place extent).high < extent := by
  unfold sidesAt
  dsimp only
  omega

/-- The sides of the place of a row of the output. -/
def Params.rowSides (p : Params) (image : Image) (row : Nat) : Sides :=
  sidesAt (p.place (p.step image.height p.outH) row) image.height

/-- The sides of the place of a column of the output. -/
def Params.columnSides (p : Params) (image : Image) (column : Nat) : Sides :=
  sidesAt (p.place (p.step image.width p.outW) column) image.width

/-- The image that a resize makes. -/
def Params.output (p : Params) (image : Image) : Image := ⟨p.outH, p.outW, image.channels⟩

/-- Rows and columns are made of rows and columns: where there are some to make, the image has some. -/
structure Sourced (source output : Image) : Prop where
  /-- Rows are made of rows. -/
  rows : 0 < output.height → 0 < source.height
  /-- Columns of a row are made of columns. -/
  columns : 0 < output.height → 0 < output.width → 0 < source.width

/-- An element between four places inside the image can be mixed. -/
theorem exists_element (hfilled : input.elements.size = image.height * image.width * image.channels)
    {y x : Sides} (hy : y.low < image.height ∧ y.high < image.height)
    (hx : x.low < image.width ∧ x.high < image.width) {c : Nat} (hc : c < image.channels) :
    ∃ e, element input image y x c = .ok e := by
  have htexel : ∀ row < image.height, ∀ column < image.width,
      ∃ e, input.read ((row * image.width + column) * image.channels + c) = .ok e := by
    intro row hrow column hcolumn
    refine input.exists_read ?_
    rw [hfilled]
    exact Size.mul_add_lt (Size.mul_add_lt hrow hcolumn) hc
  obtain ⟨e₁, h₁⟩ := htexel _ hy.1 _ hx.1
  obtain ⟨e₂, h₂⟩ := htexel _ hy.1 _ hx.2
  obtain ⟨e₃, h₃⟩ := htexel _ hy.2 _ hx.1
  obtain ⟨e₄, h₄⟩ := htexel _ hy.2 _ hx.2
  unfold element
  dsimp only
  rw [h₁, h₂, h₃, h₄]
  exact ⟨_, rfl⟩

/-- The element of the result at a point. -/
def pointElement (p : Params) (input : Values) (image : Image) (row column channel : Nat) : Outcome Binary32 :=
  element input image (p.rowSides image row) (p.columnSides image column) channel

/-- **The points of a resize** have elements exactly where rows and columns are made of rows and columns and
all elements can be mixed. -/
theorem rows_eq_ok_iff {rows : List (List (List Binary32))} :
    ((List.range p.outH).mapM fun oy => do
      let y ← sides (p.place (p.step image.height p.outH) oy) image.height
      (List.range p.outW).mapM fun ox => do
        let x ← sides (p.place (p.step image.width p.outW) ox) image.width
        (List.range image.channels).mapM fun c => element input image y x c) = .ok rows ↔
      Sourced image (p.output image) ∧ Outcome.grid (pointElement p input image) (List.range p.outH)
        (List.range p.outW) (List.range image.channels) = .ok rows := by
  have hsame : Sourced image (p.output image) →
      ((List.range p.outH).mapM fun oy => do
        let y ← sides (p.place (p.step image.height p.outH) oy) image.height
        (List.range p.outW).mapM fun ox => do
          let x ← sides (p.place (p.step image.width p.outW) ox) image.width
          (List.range image.channels).mapM fun c => element input image y x c) =
        Outcome.grid (pointElement p input image) (List.range p.outH) (List.range p.outW)
          (List.range image.channels) := by
    intro hsourced
    refine Outcome.mapM_congr fun oy hoy => ?_
    have hrow : 0 < p.outH := Nat.zero_lt_of_lt (List.mem_range.mp hoy)
    rw [sides_of_pos (hsourced.rows hrow), Outcome.bind_of_eq_ok rfl]
    refine Outcome.mapM_congr fun ox hox => ?_
    have hcolumn : 0 < p.outW := Nat.zero_lt_of_lt (List.mem_range.mp hox)
    rw [sides_of_pos (hsourced.columns hrow hcolumn), Outcome.bind_of_eq_ok rfl]
    rfl
  constructor
  · intro h
    -- the first row has sides, and so has the first column of it
    have hsourced : Sourced image (p.output image) := by
      refine ⟨fun hrow => ?_, fun hrow hcolumn => ?_⟩
      · obtain ⟨_, -, h⟩ := Outcome.exists_result_of_mem h (List.mem_range.mpr hrow)
        obtain ⟨y, hy, -⟩ := Outcome.bind_eq_ok_iff.mp h
        exact (sides_eq_ok_iff.mp hy).1
      · obtain ⟨_, -, h⟩ := Outcome.exists_result_of_mem h (List.mem_range.mpr hrow)
        obtain ⟨y, -, h⟩ := Outcome.bind_eq_ok_iff.mp h
        obtain ⟨_, -, h⟩ := Outcome.exists_result_of_mem h (List.mem_range.mpr hcolumn)
        obtain ⟨x, hx, -⟩ := Outcome.bind_eq_ok_iff.mp h
        exact (sides_eq_ok_iff.mp hx).1
    exact ⟨hsourced, (hsame hsourced).symm.trans h⟩
  · rintro ⟨hsourced, h⟩
    exact (hsame hsourced).trans h

/-- **What a resize gives**: an element for each point of the output, in the shape that its parameters give to
the input, where there is room for them and rows and columns are made of rows and columns. -/
theorem apply_eq_ok_iff {v : Values} : apply n input size = .ok v ↔ ∃ p image rows,
    Params.resolve n input.shape size = .ok p ∧ Image.ofShape n.name input.shape = .ok image ∧
    (p.output image).HasRoom ∧ Sourced image (p.output image) ∧
    Outcome.grid (pointElement p input image) (List.range p.outH) (List.range p.outW)
      (List.range image.channels) = .ok rows ∧
    v = ⟨p.outputShape input.shape, rows.flatten.flatten.toArray⟩ := by
  unfold apply
  constructor
  · intro h
    obtain ⟨p, hp, h⟩ := Outcome.bind_eq_ok_iff.mp h
    obtain ⟨image, himage, h⟩ := Outcome.bind_eq_ok_iff.mp h
    obtain ⟨hroom, h⟩ := Image.reserve_eq_ok_iff.mp h
    obtain ⟨rows, hrows, h⟩ := Outcome.bind_eq_ok_iff.mp h
    obtain ⟨hsourced, hrows⟩ := rows_eq_ok_iff.mp hrows
    exact ⟨p, image, rows, hp, himage, hroom, hsourced, hrows, (Outcome.pure_eq_ok_iff.mp h).symm⟩
  · rintro ⟨p, image, rows, hp, himage, hroom, hsourced, hrows, rfl⟩
    refine Outcome.bind_eq_ok_iff.mpr ⟨p, hp, Outcome.bind_eq_ok_iff.mpr ⟨image, himage, ?_⟩⟩
    refine Image.reserve_eq_ok_iff.mpr ⟨hroom, Outcome.bind_eq_ok_iff.mpr ⟨rows, ?_, rfl⟩⟩
    exact rows_eq_ok_iff.mpr ⟨hsourced, hrows⟩

theorem filled_of_apply {v : Values} (h : apply n input size = .ok v) : v.Filled := by
  obtain ⟨p, image, rows, -, himage, -, -, hrows, rfl⟩ := apply_eq_ok_iff.mp h
  have hlength := Outcome.length_of_grid hrows
  simp only [List.length_range] at hlength
  unfold Values.Filled
  rw [Params.prod_outputShape himage]
  exact hlength

/-- **A resize has a result** exactly where there is room for it, and rows and columns are made of rows and
columns. -/
theorem exists_apply_iff (hp : Params.resolve n input.shape size = .ok p)
    (himage : Image.ofShape n.name input.shape = .ok image) (hfilled : input.Filled) :
    (∃ v, apply n input size = .ok v) ↔ (p.output image).HasRoom ∧ Sourced image (p.output image) := by
  have hsize : input.elements.size = image.height * image.width * image.channels := by
    rw [← Image.prod_of_ofShape himage]
    exact hfilled
  constructor
  · rintro ⟨v, hv⟩
    obtain ⟨p', image', rows, hp', himage', hroom, hsourced, -⟩ := apply_eq_ok_iff.mp hv
    obtain rfl := Except.ok.inj (hp.symm.trans hp')
    obtain rfl := Except.ok.inj (himage.symm.trans himage')
    exact ⟨hroom, hsourced⟩
  · rintro ⟨hroom, hsourced⟩
    obtain ⟨rows, hrows⟩ : ∃ rows, Outcome.grid (pointElement p input image) (List.range p.outH)
        (List.range p.outW) (List.range image.channels) = .ok rows := by
      refine Outcome.exists_grid_eq_ok fun oy hy ox hx c hc => ?_
      have hrow : 0 < p.outH := Nat.zero_lt_of_lt (List.mem_range.mp hy)
      have hcolumn : 0 < p.outW := Nat.zero_lt_of_lt (List.mem_range.mp hx)
      exact exists_element hsize (sidesAt_lt (hsourced.rows hrow)) (sidesAt_lt (hsourced.columns hrow hcolumn))
        (List.mem_range.mp hc)
    exact ⟨_, apply_eq_ok_iff.mpr ⟨p, image, rows, hp, himage, hroom, hsourced, hrows, rfl⟩⟩

end Resize

end TexelFlow
