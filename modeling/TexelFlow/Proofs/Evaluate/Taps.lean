import TexelFlow.Proofs.Evaluate.RowMajor

/-!
# Taps of a convolution

An element of a convolution is a sum over taps: a row, a column and an input channel of the kernel, with the
place of the image that they meet. The places of an element begin before the image, by the near border, so
they are integers, and the taps that count are those whose place lies inside. Where channels are treated by
themselves, an output channel has one input channel only.

The evaluator walks along one axis after the other, leaves out what meets no place, and multiplies elements
at positions that it computes. Here its walk is compared with the list of all taps in lexicographic order,
and its positions with indices of image and kernel.

## Main statements

* `mem_taps_iff`, `landing_eq_none_iff` — where a kernel element meets the image.
* `pairs_eq` — what is multiplied for an element are the taps that meet the image, in their order.
* `element_sums` — what is added up is what the indices of these taps read.
* `apply_sums` — every element of a convolution.
* `widened_not_applied` — a convolution whose result no memory has room for.

## §1 — places
## §2 — taps
## §3 — sums
## §4 — results
-/

namespace TexelFlow

namespace Convolution

/-! ## §1 — places -/

/-- The place where a kernel element meets the image along one axis, if it does. -/
def landing (output stride pad k input : Nat) : Option Nat :=
  if output * stride + k < pad then none
  else if input ≤ output * stride + k - pad then none
  else some (output * stride + k - pad)

section Landing

variable {output stride pad k input place kernel : Nat}

theorem landing_eq_some_iff :
    landing output stride pad k input = some place ↔ output * stride + k = place + pad ∧ place < input := by
  unfold landing
  split
  · simp only [reduceCtorEq, false_iff]
    omega
  · split
    · simp only [reduceCtorEq, false_iff]
      omega
    · rw [Option.some.injEq]
      omega

/-- A kernel element that meets no place lies before the image or behind it. -/
theorem landing_eq_none_iff : landing output stride pad k input = none ↔
    ((output * stride + k : Nat) : Int) - pad < 0 ∨ (input : Int) ≤ (output * stride + k : Nat) - pad := by
  unfold landing
  split
  · simp only [true_iff]
    omega
  · split
    · simp only [true_iff]
      omega
    · simp only [reduceCtorEq, false_iff]
      omega

theorem taps_eq (output stride pad kernel input : Nat) : taps output stride pad kernel input =
    (List.range kernel).filterMap fun k => (landing output stride pad k input).map (k, ·) := by
  unfold taps
  refine List.filterMap_congr fun k _ => ?_
  unfold landing
  dsimp only
  split
  · rfl
  · split
    · rfl
    · rfl

/-- The kernel elements of the host are those that meet the image. -/
theorem mem_taps_iff : (k, place) ∈ taps output stride pad kernel input ↔
    k < kernel ∧ landing output stride pad k input = some place := by
  rw [taps_eq, List.mem_filterMap]
  constructor
  · rintro ⟨k', hk', heq⟩
    obtain ⟨place', hplace, heq⟩ := Option.map_eq_some_iff.mp heq
    obtain ⟨rfl, rfl⟩ := Prod.mk.inj heq
    exact ⟨List.mem_range.mp hk', hplace⟩
  · rintro ⟨hk, hplace⟩
    exact ⟨k, List.mem_range.mpr hk, by rw [hplace]; rfl⟩

/-- The place of the image that a kernel element would meet along one axis; there may be none there. -/
def placeOf (output stride pad k : Nat) : Int := ((output * stride + k : Nat) : Int) - pad

theorem placeOf_of_landing (h : landing output stride pad k input = some place) :
    placeOf output stride pad k = place ∧ place < input := by
  obtain ⟨hreach, hlt⟩ := landing_eq_some_iff.mp h
  unfold placeOf
  omega

theorem not_inside_of_landing (h : landing output stride pad k input = none) :
    ¬ (0 ≤ placeOf output stride pad k ∧ placeOf output stride pad k < input) := by
  have houtside := landing_eq_none_iff.mp h
  unfold placeOf
  omega

/-- A walk over the taps of an axis is a walk over the kernel that leaves out what meets no place. -/
theorem flatMap_taps {α : Type} (output stride pad kernel input : Nat) (f : Nat → Nat → List α) :
    (taps output stride pad kernel input).flatMap (fun t => f t.1 t.2) =
      (List.range kernel).flatMap fun k => (landing output stride pad k input).toList.flatMap (f k) := by
  rw [taps_eq]
  induction List.range kernel with
  | nil => rfl
  | cons k rest ih =>
    rw [List.filterMap_cons, List.flatMap_cons, ← ih]
    cases landing output stride pad k input with
    | none => rfl
    | some place =>
      rw [Option.map_some, List.flatMap_cons, Option.toList_some, List.flatMap_singleton]

end Landing

/-! ## §2 — taps -/

/-- A tap of a kernel. -/
structure Tap where
  /-- Row of the kernel. -/
  row : Nat
  /-- Column of the kernel. -/
  column : Nat
  /-- Input channel. -/
  channel : Nat
  deriving DecidableEq

namespace Geometry

variable (g : Geometry) (depthwise : Bool)

/-- All taps of a kernel, in lexicographic order. -/
def allTaps : List Tap :=
  (List.range g.kernelH).flatMap fun row =>
    (List.range g.kernelW).flatMap fun column =>
      (List.range g.inC).map fun channel => ⟨row, column, channel⟩

/-- The row of the image that a tap meets, for a row of the result. -/
def rowOf (oy : Nat) (t : Tap) : Int := placeOf oy g.strideH g.padTop t.row

/-- The column of the image that a tap meets, for a column of the result. -/
def columnOf (ox : Nat) (t : Tap) : Int := placeOf ox g.strideW g.padLeft t.column

/-- **A tap meets the image** for an element of the result. -/
structure Meets (oy ox co : Nat) (t : Tap) : Prop where
  /-- Its row is one of the image. -/
  row : 0 ≤ g.rowOf oy t ∧ g.rowOf oy t < g.inH
  /-- Its column is one of the image. -/
  column : 0 ≤ g.columnOf ox t ∧ g.columnOf ox t < g.inW
  /-- Where channels are treated by themselves, its channel is the one of the output channel. -/
  channel : depthwise = true → t.channel = co / g.multiplier

instance (oy ox co : Nat) (t : Tap) : Decidable (g.Meets depthwise oy ox co t) :=
  decidable_of_iff
    ((0 ≤ g.rowOf oy t ∧ g.rowOf oy t < g.inH) ∧ (0 ≤ g.columnOf ox t ∧ g.columnOf ox t < g.inW) ∧
      (depthwise = true → t.channel = co / g.multiplier))
    ⟨fun h => ⟨h.1, h.2.1, h.2.2⟩, fun h => ⟨h.row, h.column, h.channel⟩⟩

/-- The taps of an element, in lexicographic order. -/
def meeting (oy ox co : Nat) : List Tap := g.allTaps.filter (g.Meets depthwise oy ox co)

/-- The kernel's own channel of an output channel. -/
def kernelChannel (co : Nat) : Nat := if depthwise then co % g.multiplier else co

/-- The positions in an image and in a kernel with some number of own channels that a tap stands for. -/
def pairOf (kernelOut oy ox co : Nat) (t : Tap) : Nat × Nat :=
  (((g.rowOf oy t).toNat * g.inW + (g.columnOf ox t).toNat) * g.inC + t.channel,
    ((t.row * g.kernelW + t.column) * g.inC + t.channel) * kernelOut + g.kernelChannel depthwise co)

variable {g depthwise} {kernelOut oy ox co : Nat} {t : Tap}

theorem mem_allTaps_iff :
    t ∈ g.allTaps ↔ t.row < g.kernelH ∧ t.column < g.kernelW ∧ t.channel < g.inC := by
  simp only [allTaps, List.mem_flatMap, List.mem_map, List.mem_range]
  constructor
  · rintro ⟨row, hrow, column, hcolumn, channel, hchannel, rfl⟩
    exact ⟨hrow, hcolumn, hchannel⟩
  · rintro ⟨hrow, hcolumn, hchannel⟩
    exact ⟨t.row, hrow, t.column, hcolumn, t.channel, hchannel, rfl⟩

theorem mem_meeting_iff : t ∈ g.meeting depthwise oy ox co ↔
    t ∈ g.allTaps ∧ g.Meets depthwise oy ox co t := by
  simp [meeting]

end Geometry

/-- A kernel of channels that are treated by themselves has as many elements for a tap as there are
channels of the result. -/
theorem depthwise_index (tap inC kernelOut co : Nat) :
    (tap * inC + co / kernelOut) * kernelOut + co % kernelOut = tap * (inC * kernelOut) + co := by
  have hindex : (tap * inC + co / kernelOut) * kernelOut + co % kernelOut =
      tap * (inC * kernelOut) + (co / kernelOut * kernelOut + co % kernelOut) := by ring
  rw [hindex, Size.div_mul_add_mod]

/-- One number out of a range. -/
theorem filter_range_eq {q n : Nat} (h : q < n) : (List.range n).filter (· = q) = [q] := by
  rw [List.filter_eq, List.count_range, if_pos h]
  rfl

section Pairs

variable {g : Geometry} {depthwise : Bool} {kernelOut oy ox co ky iy kx ix : Nat}

/-- Where row and column of a tap are in the image, what counts is its channel. -/
theorem meets_iff_of_landing {t : Tap} (hrow : landing oy g.strideH g.padTop t.row g.inH = some iy)
    (hcolumn : landing ox g.strideW g.padLeft t.column g.inW = some ix) :
    g.Meets depthwise oy ox co t ↔ (depthwise = true → t.channel = co / g.multiplier) := by
  obtain ⟨hy, hiy⟩ := placeOf_of_landing hrow
  obtain ⟨hx, hix⟩ := placeOf_of_landing hcolumn
  refine ⟨fun h => h.channel, fun h => ⟨?row, ?column, h⟩⟩
  case row =>
    unfold Geometry.rowOf
    omega
  case column =>
    unfold Geometry.columnOf
    omega

/-- At a place of the image, the taps that count are those of all channels, or of one of them. -/
theorem filter_meets (hmultiplier : g.multiplier = if depthwise then kernelOut else 1)
    (houtC : g.outC = if depthwise then g.inC * kernelOut else kernelOut) (hco : co < g.outC)
    (hrow : landing oy g.strideH g.padTop ky g.inH = some iy)
    (hcolumn : landing ox g.strideW g.padLeft kx g.inW = some ix) :
    ((List.range g.inC).map fun channel => (⟨ky, kx, channel⟩ : Tap)).filter (g.Meets depthwise oy ox co) =
      if depthwise then [⟨ky, kx, co / g.multiplier⟩]
      else (List.range g.inC).map fun channel => ⟨ky, kx, channel⟩ := by
  have hmeets : ∀ channel, g.Meets depthwise oy ox co ⟨ky, kx, channel⟩ ↔
      (depthwise = true → channel = co / g.multiplier) := by
    intro channel
    exact meets_iff_of_landing hrow hcolumn
  rw [List.filter_map]
  cases depthwise with
  | true =>
    rw [if_pos rfl] at hmultiplier houtC
    have hchannel : co / g.multiplier < g.inC := by
      rw [hmultiplier]
      exact Nat.div_lt_of_lt_mul (by rwa [houtC, Nat.mul_comm] at hco)
    have hone : (List.range g.inC).filter
        ((fun t => decide (g.Meets true oy ox co t)) ∘ fun channel => (⟨ky, kx, channel⟩ : Tap)) =
        [co / g.multiplier] := by
      rw [← filter_range_eq hchannel]
      refine List.filter_congr fun channel _ => ?_
      simp [hmeets]
    rw [hone, List.map_singleton, if_pos rfl]
  | false =>
    rw [List.filter_eq_self.mpr, if_neg Bool.false_ne_true]
    intro channel _
    simp [hmeets]

/-- The taps that count at a place stand for its pairs. -/
theorem map_pairOf_place (hmultiplier : g.multiplier = if depthwise then kernelOut else 1)
    (houtC : g.outC = if depthwise then g.inC * kernelOut else kernelOut)
    (hrow : landing oy g.strideH g.padTop ky g.inH = some iy)
    (hcolumn : landing ox g.strideW g.padLeft kx g.inW = some ix) :
    (if depthwise then [⟨ky, kx, co / g.multiplier⟩]
      else (List.range g.inC).map fun channel => (⟨ky, kx, channel⟩ : Tap)).map
        (g.pairOf depthwise kernelOut oy ox co) = pairsAt g depthwise co ky iy kx ix := by
  have hpair : ∀ channel, g.pairOf depthwise kernelOut oy ox co ⟨ky, kx, channel⟩ =
      ((iy * g.inW + ix) * g.inC + channel,
        ((ky * g.kernelW + kx) * g.inC + channel) * kernelOut + g.kernelChannel depthwise co) := by
    intro channel
    unfold Geometry.pairOf Geometry.rowOf Geometry.columnOf
    rw [(placeOf_of_landing hrow).1, (placeOf_of_landing hcolumn).1, Int.toNat_natCast, Int.toNat_natCast]
  unfold Geometry.kernelChannel at hpair
  unfold pairsAt
  dsimp only
  cases depthwise with
  | true =>
    rw [if_pos rfl] at hmultiplier houtC ⊢
    rw [if_pos rfl, List.map_singleton, hpair, if_pos rfl, hmultiplier, depthwise_index, houtC]
  | false =>
    rw [if_neg Bool.false_ne_true] at houtC ⊢
    rw [if_neg Bool.false_ne_true, List.map_map, houtC]
    refine List.map_congr_left fun channel _ => ?_
    rw [Function.comp_apply, hpair, if_neg Bool.false_ne_true]

/-- A list that depends on a place, empty where there is none. -/
theorem eq_flatMap_toList {α : Type} {place : Option Nat} {l : List α} {f : Nat → List α}
    (hnone : place = none → l = []) (hsome : ∀ x, place = some x → l = f x) :
    l = place.toList.flatMap f := by
  cases place with
  | none => exact hnone rfl
  | some x =>
    rw [Option.toList_some, List.flatMap_singleton]
    exact hsome x rfl

/-- **What is multiplied for an element** are the taps that meet the image, in lexicographic order. -/
theorem pairs_eq (hmultiplier : g.multiplier = if depthwise then kernelOut else 1)
    (houtC : g.outC = if depthwise then g.inC * kernelOut else kernelOut) (hco : co < g.outC) :
    pairs g depthwise oy ox co =
      (g.meeting depthwise oy ox co).map (g.pairOf depthwise kernelOut oy ox co) := by
  unfold pairs Geometry.meeting Geometry.allTaps
  rw [flatMap_taps oy g.strideH g.padTop g.kernelH g.inH fun ky iy =>
    (taps ox g.strideW g.padLeft g.kernelW g.inW).flatMap fun t =>
      pairsAt g depthwise co ky iy t.1 t.2]
  rw [List.filter_flatMap, List.map_flatMap]
  refine List.flatMap_congr fun ky _ => (eq_flatMap_toList (fun hrow => ?_) fun iy hrow => ?_).symm
  · -- no tap of the row meets the image
    rw [List.filter_eq_nil_iff.mpr, List.map_nil]
    intro t ht hmeets
    obtain ⟨kx, -, ht⟩ := List.mem_flatMap.mp ht
    obtain ⟨channel, -, rfl⟩ := List.mem_map.mp ht
    exact not_inside_of_landing hrow (of_decide_eq_true hmeets).row
  rw [flatMap_taps, List.filter_flatMap, List.map_flatMap]
  refine List.flatMap_congr fun kx _ => eq_flatMap_toList (fun hcolumn => ?_) fun ix hcolumn => ?_
  · rw [List.filter_eq_nil_iff.mpr, List.map_nil]
    intro t ht hmeets
    obtain ⟨channel, -, rfl⟩ := List.mem_map.mp ht
    exact not_inside_of_landing hcolumn (of_decide_eq_true hmeets).column
  · rw [filter_meets hmultiplier houtC hco hrow hcolumn]
    exact map_pairOf_place hmultiplier houtC hrow hcolumn

end Pairs

end Convolution

/-! ## §3 — sums -/

namespace Image

variable {node : String} {shape : Shape} {image : Image} {y x c : Nat}

/-- The index of an element of an image, behind that of a batch. -/
def index (shape : Shape) (y x c : Nat) : List Nat := List.replicate (shape.length - 3) 0 ++ [y, x, c]

/-- Where the element of an image stands. -/
theorem position?_index (h : ofShape node shape = .ok image) (hy : y < image.height)
    (hx : x < image.width) (hc : c < image.channels) :
    shape.position? (index shape y x c) = some ((y * image.width + x) * image.channels + c) := by
  obtain ⟨batch, rfl | rfl, rfl⟩ := ofShape_eq_ok h
  · exact Shape.position?_image hy hx hc
  · exact (Shape.position?_ones 1).trans (Shape.position?_image hy hx hc)

end Image

namespace Convolution

/-- The first summand of an output channel: its bias, or nothing. -/
def firstSummand (bias : Option Values) (co : Nat) : Option Binary32 :=
  match bias with
  | some b => b.elements[co]?
  | none => some .zero

/-- The product that a tap contributes: an element of the image and one of the kernel, read by their
indices. -/
def Geometry.product (g : Geometry) (depthwise : Bool) (input kernel : Values) (oy ox co : Nat)
    (t : Tap) : Option Binary32 := do
  let x ← input.at? (Image.index input.shape (g.rowOf oy t).toNat (g.columnOf ox t).toNat t.channel)
  let y ← kernel.at? [t.row, t.column, t.channel, g.kernelChannel depthwise co]
  return x * y

/-- **The sum of an element**: the products of its taps, added from the left to a first summand. -/
def Geometry.summed (g : Geometry) (depthwise : Bool) (input kernel : Values) (oy ox co : Nat)
    (first : Binary32) : Option Binary32 :=
  (g.meeting depthwise oy ox co).foldlM
    (fun sum t => (g.product depthwise input kernel oy ox co t).map (sum + ·)) first

variable {input kernel : Values} {bias : Option Values} {first sum : Binary32}

theorem accumulate_cons_eq_ok {pair : Nat × Nat} {products : List (Nat × Nat)}
    (h : accumulate input kernel first (pair :: products) = .ok sum) :
    ∃ x y, input.elements[pair.1]? = some x ∧ kernel.elements[pair.2]? = some y ∧
      accumulate input kernel (first + x * y) products = .ok sum := by
  unfold accumulate at h
  rw [List.foldlM_cons] at h
  obtain ⟨next, hnext, h⟩ := Outcome.bind_eq_ok_iff.mp h
  obtain ⟨x, hx, hnext⟩ := Outcome.bind_eq_ok_iff.mp hnext
  obtain ⟨y, hy, hnext⟩ := Outcome.bind_eq_ok_iff.mp hnext
  obtain rfl := Outcome.pure_eq_ok_iff.mp hnext
  exact ⟨x, y, Values.read_eq_ok_iff.mp hx, Values.read_eq_ok_iff.mp hy, h⟩

/-- **What is added up** at positions is what reading at indices adds up. -/
theorem foldlM_of_accumulate {α : Type} {ts : List α} {pair : α → Nat × Nat}
    {product : α → Option Binary32}
    (h : accumulate input kernel first (ts.map pair) = .ok sum)
    (hproduct : ∀ t ∈ ts, ∀ x y, input.elements[(pair t).1]? = some x →
      kernel.elements[(pair t).2]? = some y → product t = some (x * y)) :
    ts.foldlM (fun sum t => (product t).map (sum + ·)) first = some sum := by
  induction ts generalizing first with
  | nil =>
    obtain rfl : first = sum := Except.ok.inj h
    rfl
  | cons t ts ih =>
    obtain ⟨x, y, hx, hy, h⟩ := accumulate_cons_eq_ok h
    rw [List.foldlM_cons, hproduct t List.mem_cons_self x y hx hy]
    exact ih h fun t' ht' => hproduct t' (List.mem_cons_of_mem _ ht')

theorem firstSummand_of_start {co : Nat} (h : start bias co = .ok first) :
    firstSummand bias co = some first := by
  cases bias with
  | none => exact congrArg some (Except.ok.inj h)
  | some b => exact Values.read_eq_ok_iff.mp h

/-- Where a kernel's element stands. -/
theorem position?_kernel {kernelH kernelW inC kernelOut ky kx ci c : Nat} (hky : ky < kernelH)
    (hkx : kx < kernelW) (hci : ci < inC) (hc : c < kernelOut) :
    Shape.position? [kernelH, kernelW, inC, kernelOut] [ky, kx, ci, c] =
      some (((ky * kernelW + kx) * inC + ci) * kernelOut + c) := by
  simp only [Shape.position?, hky, hkx, hci, hc, if_true, Option.map_some, List.prod_cons, List.prod_nil]
  congr 1
  ring

section Resolved

variable {node : String} {p : Params} {g : Geometry} {depthwise : Bool} {kernelOut oy ox co : Nat}

/-- The product of a tap is that of the elements at its positions. -/
theorem Geometry.product_eq
    (hg : resolve node p input.shape kernel.shape depthwise = .ok g)
    (hkernel : kernel.shape = [g.kernelH, g.kernelW, g.inC, kernelOut]) (hco : co < g.outC) {t : Tap}
    (ht : t ∈ g.meeting depthwise oy ox co) {x y : Binary32}
    (hx : input.elements[(g.pairOf depthwise kernelOut oy ox co t).1]? = some x)
    (hy : kernel.elements[(g.pairOf depthwise kernelOut oy ox co t).2]? = some y) :
    g.product depthwise input kernel oy ox co t = some (x * y) := by
  obtain ⟨himage, kernelOut', hkernel', houtC, hmultiplier⟩ := resolve_eq_ok hg
  obtain rfl : kernelOut = kernelOut' := by simpa [hkernel] using hkernel'
  have houtC := outputChannels_eq houtC
  obtain ⟨hall, hrow, hcolumn, -⟩ := mem_meeting_iff.mp ht
  obtain ⟨hky, hkx, hchannel⟩ := mem_allTaps_iff.mp hall
  have hown : g.kernelChannel depthwise co < kernelOut := by
    unfold kernelChannel
    cases depthwise with
    | true =>
      rw [if_pos rfl] at houtC hmultiplier ⊢
      rw [hmultiplier]
      refine Nat.mod_lt _ (Nat.pos_of_ne_zero ?_)
      rintro rfl
      rw [houtC, Nat.mul_zero] at hco
      exact Nat.not_lt_zero _ hco
    | false =>
      rw [if_neg Bool.false_ne_true] at houtC ⊢
      rwa [← houtC]
  have hinput := Image.position?_index himage (y := (g.rowOf oy t).toNat) (x := (g.columnOf ox t).toNat)
    (c := t.channel) (by dsimp only; omega) (by dsimp only; omega) hchannel
  have hposition := position?_kernel hky hkx hchannel hown
  rw [← hkernel] at hposition
  unfold product
  rw [Values.at?_eq hinput, Values.at?_eq hposition]
  unfold pairOf at hx hy
  rw [hx, hy]
  rfl

/-- **An element of a convolution** is the sum of its taps, activated. -/
theorem element_sums (hg : Geometry.resolve node p input.shape kernel.shape depthwise = .ok g)
    (hco : co < g.outC) {z : Binary32}
    (h : element p g depthwise input kernel bias oy ox co = .ok z) :
    ∃ first sum, firstSummand bias co = some first ∧
      g.summed depthwise input kernel oy ox co first = some sum ∧ z = p.activation.apply sum := by
  obtain ⟨first, hfirst, h⟩ := Outcome.bind_eq_ok_iff.mp h
  obtain ⟨sum, hsum, h⟩ := Outcome.bind_eq_ok_iff.mp h
  obtain ⟨-, kernelOut, hshape, houtC, hmultiplier⟩ := Geometry.resolve_eq_ok hg
  rw [pairs_eq hmultiplier (outputChannels_eq houtC) hco] at hsum
  refine ⟨first, sum, firstSummand_of_start hfirst, ?_, (Outcome.pure_eq_ok_iff.mp h).symm⟩
  exact foldlM_of_accumulate hsum fun t ht x y hx hy => Geometry.product_eq hg hshape hco ht hx hy

end Resolved

/-! ## §4 — results -/

/-- **A result sums over taps**: it has the shape of the geometry, and each of its elements is, activated, the
sum of the products over exactly the taps that meet the image, from the bias on, in lexicographic order. -/
structure Sums (v input kernel : Values) (bias : Option Values) (depthwise : Bool) (p : Params)
    (g : Geometry) : Prop where
  /-- It has the shape that the geometry gives to the input. -/
  shape : v.shape = g.outputShape input.shape
  /-- Its elements fill the shape. -/
  filled : v.Filled
  /-- Its elements are sums. -/
  elements : ∀ oy < g.outH, ∀ ox < g.outW, ∀ co < g.outC, ∃ first sum, firstSummand bias co = some first ∧
    g.summed depthwise input kernel oy ox co first = some sum ∧
    v.at? (Image.index v.shape oy ox co) = some (p.activation.apply sum)

/-- **A convolution sums over taps.** Where there is a geometry, input and kernel fill their shapes and there
is a bias for each output channel or none, there is a result exactly where there is room for it, and the
result sums over taps. -/
theorem apply_sums {n : Node} {p : Params} {g : Geometry} (hp : Params.ofNode n = .ok p)
    (hg : Geometry.resolve n.name p input.shape kernel.shape n.op.isDepthwise = .ok g)
    (hinput : input.Filled) (hkernel : kernel.Filled) (hbias : ∀ b ∈ bias, b.elements.size = g.outC) :
    ((∃ v, apply n input kernel bias = .ok v) ↔ g.output.HasRoom) ∧
    ∀ v, apply n input kernel bias = .ok v → Sums v input kernel bias n.op.isDepthwise p g := by
  refine ⟨exists_apply_iff hp hg hinput hkernel hbias, fun v hv => ?_⟩
  have hfilled := filled_of_apply hv
  obtain ⟨p', g', rows, hp', hg', -, hrows, rfl⟩ := apply_eq_ok_iff.mp hv
  obtain rfl := Except.ok.inj (hp.symm.trans hp')
  obtain rfl := Except.ok.inj (hg.symm.trans hg')
  refine ⟨rfl, hfilled, fun oy hoy ox hox co hco => ?_⟩
  obtain ⟨z, hz, helement⟩ := Outcome.getElem?_of_grid hrows hoy hox hco
  obtain ⟨first, sum, hfirst, hsum, rfl⟩ := element_sums hg hco helement
  refine ⟨first, sum, hfirst, hsum, ?_⟩
  have himage := Image.ofShape_inPlaceOf (Geometry.resolve_eq_ok hg).1 ⟨g.outH, g.outW, g.outC⟩
  rw [Values.at?_eq (Image.position?_index himage hoy hox hco)]
  simpa using hz

/-- A convolution in steps of one that may reach over the border. -/
def stepwise (op : Operator) : Node where
  name := "stepwise"
  op := op
  inputs := []
  attributes := .ofList [("strides", .number ⟨0x3ff0000000000000⟩), ("padding", .string "same")]
  weights := []

theorem stepwise_params (op : Operator) : Params.ofNode (stepwise op) = .ok ⟨1, 1, .same, .linear⟩ := by
  have hstrides : readStrides (stepwise op) = .ok (1, 1) := rfl
  have hpadding : readPadding (stepwise op) = .ok .same := Padding.parse_same "stepwise"
  have hactivation : readActivation (stepwise op) = .ok .linear := rfl
  unfold Params.ofNode
  rw [hstrides, hpadding, hactivation]
  rfl

/-- Two rows and columns of one channel. -/
def square : Values := ⟨[2, 2, 1], #[.zero, .zero, .zero, .half]⟩

/-- A kernel of two rows and columns. -/
def doubler : Values := ⟨[2, 2, 1, 2], #[.one, .six, .one, .one, .one, .one, .one, .one]⟩

/-- A bias of two channels. -/
def offsets : Values := ⟨[2], #[.zero, .one]⟩

/-- Each channel is given twice, over the lower and the right border too. Of the last element's taps only the
first one meets the image. -/
theorem doubled_sums : ∃ v, apply (stepwise .fusedDepthwise) square doubler (some offsets) = .ok v ∧
    v.shape = [2, 2, 2] ∧ v.Filled ∧ v.at? [1, 1, 1] = some (.one + .half * .six) := by
  let g : Geometry := ⟨2, 2, 1, 2, 2, 2, 2, 2, 1, 1, 0, 0, 2⟩
  have hg : Geometry.resolve "stepwise" ⟨1, 1, .same, .linear⟩ square.shape doubler.shape true = .ok g := rfl
  have hbias : ∀ b ∈ some offsets, b.elements.size = g.outC := by
    intro b hb
    obtain rfl := Option.some.inj hb
    rfl
  obtain ⟨hexists, hsums⟩ := apply_sums (n := stepwise .fusedDepthwise) (stepwise_params _) hg rfl rfl hbias
  obtain ⟨v, hv⟩ := hexists.mpr ⟨by decide, by decide⟩
  obtain ⟨hshape, hfilled, helements⟩ := hsums v hv
  refine ⟨v, hv, hshape, hfilled, ?_⟩
  obtain ⟨first, sum, hfirst, hsum, hat⟩ := helements 1 (by decide) 1 (by decide) 1 (by decide)
  have hmeeting : g.meeting true 1 1 1 = [⟨0, 0, 0⟩] := by decide
  obtain rfl : .one = first := Option.some.inj hfirst
  unfold Geometry.summed at hsum
  rw [show (stepwise .fusedDepthwise).op.isDepthwise = true from rfl, hmeeting] at hsum
  obtain rfl : .one + .half * .six = sum := Option.some.inj hsum
  rw [hshape] at hat
  exact hat

/-- A place without channels. -/
def blank : Values := ⟨[1, 1, 0], #[]⟩

/-- A kernel without elements that makes two to the sixty-second channels of no channel. -/
def widener : Values := ⟨[1, 1, 0, 4611686018427387904], #[]⟩

/-- **No room is left for the result** of a convolution that makes too many channels of nothing: each of them
would be an empty sum. -/
theorem widened_not_applied : blank.Filled ∧ widener.Filled ∧
    Params.ofNode (stepwise .conv) = .ok ⟨1, 1, .same, .linear⟩ ∧
    Geometry.resolve "stepwise" ⟨1, 1, .same, .linear⟩ blank.shape widener.shape false =
      .ok ⟨1, 1, 0, 1, 1, 1, 1, 4611686018427387904, 1, 1, 0, 0, 1⟩ ∧
    apply (stepwise .conv) blank widener none = .error (.breach .capacity) := by
  have hparams := stepwise_params .conv
  refine ⟨rfl, rfl, hparams, rfl, ?_⟩
  unfold apply
  rw [hparams]
  rfl

end Convolution

end TexelFlow
