import TexelFlow.Proofs.Evaluate.Taps
import TexelFlow.Proofs.Shader.Texture

/-!
# The products of a convolution

The host names the factors of its products by their row-major indices, a shader by position and channel.
Here the products of the host are listed by position and channel, axis by axis and test by test, so that
the loops of a shader can be compared with them.

## Main statements

* `map_elements_factors` — the factors, by their indices, are the pairs of the host.
* `accumulate_pairs` — what the host adds up, by the values of the factors.

## §1 — factors
## §2 — sums
-/

namespace TexelFlow.Convolution

open Wgsl (Factors)

/-! ## §1 — factors -/

/-- The factors of the products where the kernel element `ky, kx` meets the image at `iy, ix`, for the
output channel `co`. -/
def factorsAt (g : Geometry) (depthwise : Bool) (co ky iy kx ix : Nat) : List Factors :=
  let pixel := iy * g.inW + ix
  let tap := ky * g.kernelW + kx
  if depthwise then
    [((pixel, co / g.multiplier), (tap * g.inC + co / g.multiplier, co % g.multiplier))]
  else (List.range g.inC).map fun ci => ((pixel, ci), (tap * g.inC + ci, co))

/-- The factors of all products for one element of the result, in their order. -/
def factors (g : Geometry) (depthwise : Bool) (oy ox co : Nat) : List Factors :=
  (List.range g.kernelH).flatMap fun ky =>
    (landing oy g.strideH g.padTop ky g.inH).toList.flatMap fun iy =>
      (List.range g.kernelW).flatMap fun kx =>
        (landing ox g.strideW g.padLeft kx g.inW).toList.flatMap fun ix =>
          factorsAt g depthwise co ky iy kx ix

/-- The row-major indices of factors, by the channels of their tensors. -/
def elements (channels kernelChannels : Nat) (p : Factors) : Nat × Nat :=
  (p.1.1 * channels + p.1.2, p.2.1 * kernelChannels + p.2.2)

section Factors

variable {g : Geometry} {depthwise : Bool} {kernelOut oy ox co : Nat}

/-- The factors of a place are its pairs. The kernel of channels that are treated by themselves has as
many elements for a tap as there are channels of the result. -/
theorem map_elements_factorsAt (hmultiplier : g.multiplier = if depthwise then kernelOut else 1)
    (houtC : g.outC = if depthwise then g.inC * kernelOut else kernelOut) (co ky iy kx ix : Nat) :
    (factorsAt g depthwise co ky iy kx ix).map (elements g.inC kernelOut) =
      pairsAt g depthwise co ky iy kx ix := by
  unfold factorsAt pairsAt elements
  dsimp only
  cases depthwise with
  | true =>
    rw [if_pos rfl] at hmultiplier houtC
    rw [if_pos rfl, if_pos rfl, List.map_singleton, hmultiplier, houtC]
    dsimp only
    rw [depthwise_index]
  | false =>
    rw [if_neg Bool.false_ne_true] at houtC
    rw [if_neg Bool.false_ne_true, if_neg Bool.false_ne_true, List.map_map, houtC]
    rfl

/-- **The factors, by their indices, are the pairs of the host**, in their order. -/
theorem map_elements_factors (hmultiplier : g.multiplier = if depthwise then kernelOut else 1)
    (houtC : g.outC = if depthwise then g.inC * kernelOut else kernelOut) :
    (factors g depthwise oy ox co).map (elements g.inC kernelOut) = pairs g depthwise oy ox co := by
  unfold factors pairs
  rw [flatMap_taps oy g.strideH g.padTop g.kernelH g.inH fun ky iy =>
    (taps ox g.strideW g.padLeft g.kernelW g.inW).flatMap fun t =>
      pairsAt g depthwise co ky iy t.1 t.2]
  simp only [List.map_flatMap, map_elements_factorsAt hmultiplier houtC, flatMap_taps]

/-- The channels of factors are channels of their tensors. -/
theorem factors_channel_lt (hmultiplier : g.multiplier = if depthwise then kernelOut else 1)
    (houtC : g.outC = if depthwise then g.inC * kernelOut else kernelOut) (hco : co < g.outC)
    {p : Factors} (hp : p ∈ factors g depthwise oy ox co) : p.1.2 < g.inC ∧ p.2.2 < kernelOut := by
  unfold factors at hp
  obtain ⟨ky, -, hp⟩ := List.mem_flatMap.mp hp
  obtain ⟨iy, -, hp⟩ := List.mem_flatMap.mp hp
  obtain ⟨kx, -, hp⟩ := List.mem_flatMap.mp hp
  obtain ⟨ix, -, hp⟩ := List.mem_flatMap.mp hp
  unfold factorsAt at hp
  dsimp only at hp
  cases depthwise with
  | true =>
    rw [if_pos rfl] at hmultiplier houtC hp
    obtain rfl := List.mem_singleton.mp hp
    rw [houtC, Nat.mul_comm] at hco
    rw [hmultiplier]
    exact ⟨Nat.div_lt_of_lt_mul hco, Nat.mod_lt _ (Nat.pos_of_mul_pos_right (Nat.zero_lt_of_lt hco))⟩
  | false =>
    rw [if_neg Bool.false_ne_true] at houtC hp
    obtain ⟨ci, hci, rfl⟩ := List.mem_map.mp hp
    exact ⟨List.mem_range.mp hci, houtC ▸ hco⟩

end Factors

/-! ## §2 — sums -/

/-- What the host adds up, where all of it is there. -/
theorem accumulate_eq {input kernel : Values} {products : List (Nat × Nat)}
    (h : ∀ p ∈ products, p.1 < input.elements.size ∧ p.2 < kernel.elements.size) (first : Binary32) :
    accumulate input kernel first products = .ok (products.foldl (fun sum p =>
      sum + input.elements.getD p.1 .zero * kernel.elements.getD p.2 .zero) first) := by
  have hread : ∀ (values : Values) (i : Nat), i < values.elements.size →
      values.read i = .ok (values.elements.getD i .zero) := by
    intro values i hi
    unfold Values.read
    rw [dif_pos hi, Array.getD_eq_getD_getElem?, Array.getElem?_eq_getElem hi, Option.getD_some]
  unfold accumulate
  induction products generalizing first with
  | nil => rfl
  | cons p products ih =>
    obtain ⟨hinput, hkernel⟩ := h p List.mem_cons_self
    rw [List.foldlM_cons, List.foldl_cons]
    dsimp only
    rw [hread input p.1 hinput, hread kernel p.2 hkernel]
    exact ih (fun p' hp' => h p' (List.mem_cons_of_mem _ hp')) _

/-- **The sum of the host**, by the elements of packed tensors. -/
theorem accumulate_pairs {g : Geometry} {depthwise : Bool} {oy ox co : Nat} {input kernel : Layout}
    {xs ws : List Binary32} {shape shape' : Shape} (hchannels : input.channels = g.inC)
    (hmultiplier : g.multiplier = if depthwise then kernel.channels else 1)
    (houtC : g.outC = if depthwise then g.inC * kernel.channels else kernel.channels)
    (hco : co < g.outC)
    (h : ∀ p ∈ pairs g depthwise oy ox co, p.1 < xs.length ∧ p.2 < ws.length) (first : Binary32) :
    accumulate ⟨shape, xs.toArray⟩ ⟨shape', ws.toArray⟩ first (pairs g depthwise oy ox co) =
      .ok ((factors g depthwise oy ox co).foldl (fun sum p =>
        sum + Wgsl.padded input xs p.1.1 p.1.2 * Wgsl.padded kernel ws p.2.1 p.2.2) first) := by
  rw [accumulate_eq (by simpa using h), ← map_elements_factors hmultiplier houtC, List.foldl_map]
  refine congrArg Except.ok (List.foldl_ext _ _ _ fun sum p hp => ?_)
  obtain ⟨hx, hw⟩ := factors_channel_lt hmultiplier houtC hco hp
  unfold Wgsl.padded Layout.element elements
  rw [if_pos (by rwa [hchannels]), if_pos hw, hchannels]
  simp

end TexelFlow.Convolution
