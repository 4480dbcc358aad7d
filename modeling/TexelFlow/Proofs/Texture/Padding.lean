import TexelFlow.Proofs.Texture.Pack

/-!
# Padding and places

Whether channels are counted up to a multiple of four changes no width, no height, no slice and no group. It
changes the number of elements by which render targets are chosen, and the layers of a slice are rounded up to
render targets. So padding moves the texels of a tensor exactly when both countings choose numbers of
targets that round its groups up differently; then a slice has another number of layers, and the tensor
may even fit under one counting alone. Or the elements are too many for a word once padding is counted with
them; then the tensor fits under the other counting alone.

## Main statements

* `alike_of_layersPerSlice_eq` — padding changes nothing where it is counted and leaves the layers of a slice
  as they are.
* `alike_iff` — and nowhere else.
-/

namespace TexelFlow.Layout

variable {name : String} {d : Descriptor} {limits : Limits} {breakpoints : List Breakpoint}

/-- Two layouts put every tensor to the same places of equal textures. -/
structure SamePlaces (l l' : Layout) : Prop where
  /-- Rows have equally many texels. -/
  width : l.width = l'.width
  /-- Layers have equally many rows. -/
  height : l.height = l'.height
  /-- There are equally many slices. -/
  slices : l.slices = l'.slices
  /-- There are equally many layers. -/
  layers : l.layers = l'.layers
  /-- Values are packed alike. -/
  packed : ∀ values, l.pack values = l'.pack values

/-- Two attempts at a layout go alike: both fail, or both succeed with the same places. -/
inductive Alike : Outcome Layout → Outcome Layout → Prop
  /-- Both fail. -/
  | failed {e e' : Error} : Alike (.error e) (.error e')
  /-- Both succeed. -/
  | placed {l l' : Layout} (h : l.SamePlaces l') : Alike (.ok l) (.ok l')

/-- Where one of two attempts that go alike succeeds, both do. -/
theorem Alike.exists_ok {x x' : Outcome Layout} (h : Alike x x') {l : Layout}
    (hl : x = .ok l ∨ x' = .ok l) : ∃ l₁ l₂, x = .ok l₁ ∧ x' = .ok l₂ ∧ l₁.SamePlaces l₂ := by
  cases h with
  | failed => rcases hl with hl | hl <;> cases hl
  | placed h => exact ⟨_, _, rfl, rfl, h⟩

/-- Two attempts of which none succeeds go alike. -/
theorem alike_of_forall_ne {x x' : Outcome Layout} (h : ∀ l, x ≠ .ok l) (h' : ∀ l, x' ≠ .ok l) :
    Alike x x' := by
  cases x with
  | ok l => exact absurd rfl (h l)
  | error e =>
    cases x' with
    | ok l => exact absurd rfl (h' l)
    | error e' => exact .failed

/-- What is packed does not depend on how channels are counted or how many layers a draw writes. -/
theorem pack_with (l : Layout) (paddedChannels renderTargets : Nat) (values : List Binary32) :
    { l with paddedChannels, renderTargets }.pack values = l.pack values := by
  unfold pack
  simp only [writeFrom_eq]
  rfl

/-- Layouts of one shape with equally many layers in a slice have the same places. -/
theorem samePlaces_laidOut {options options' : Options}
    (h : layersPerSliceOf d.shape options = layersPerSliceOf d.shape options') :
    (laidOut d.shape limits options).SamePlaces (laidOut d.shape limits options') := by
  have hwith : laidOut d.shape limits options' = { laidOut d.shape limits options with
      paddedChannels := paddedChannelsOf d.shape options', renderTargets := targetsOf d.shape options' } := by
    unfold laidOut
    rw [h]
  rw [hwith]
  constructor
  case width => rfl
  case height => rfl
  case slices => rfl
  case layers => rfl
  case packed => exact fun values => (pack_with _ _ _ values).symm

/-- Where padding is counted, a tensor is laid out with it exactly when it is laid out without. -/
theorem laid_iff (hpadded : spatialOf d.shape * paddedChannelsOf d.shape ⟨true, breakpoints⟩ < Size.modulus) :
    ∀ padded, Laid d limits ⟨padded, breakpoints⟩ ↔ Laid d limits ⟨true, breakpoints⟩
  | true => Iff.rfl
  | false => by
    constructor
    · exact fun h => { h with padded_lt := hpadded }
    · refine fun h => { h with padded_lt := lt_of_le_of_lt (Nat.mul_le_mul_left _ ?_) hpadded }
      exact le_paddedChannelsOf d.shape ⟨true, breakpoints⟩

/-- **Padding changes nothing where it is counted and leaves the layers of a slice as they are.** -/
theorem alike_of_layersPerSlice_eq
    (hpadded : spatialOf d.shape * paddedChannelsOf d.shape ⟨true, breakpoints⟩ < Size.modulus)
    (h : layersPerSliceOf d.shape ⟨true, breakpoints⟩ = layersPerSliceOf d.shape ⟨false, breakpoints⟩) :
    Alike (compute name d limits ⟨true, breakpoints⟩) (compute name d limits ⟨false, breakpoints⟩) := by
  have hsame : (laidOut d.shape limits ⟨true, breakpoints⟩).SamePlaces
      (laidOut d.shape limits ⟨false, breakpoints⟩) := samePlaces_laidOut h
  by_cases hfits : ∃ l, compute name d limits ⟨true, breakpoints⟩ = .ok l
  · obtain ⟨l, hl⟩ := hfits
    obtain ⟨hlaid, hfew, rfl⟩ := compute_eq_ok_iff.mp hl
    have hplain := (laid_iff hpadded false).mpr hlaid
    rw [hl, compute_eq_ok_iff.mpr ⟨hplain, hsame.layers ▸ hfew, rfl⟩]
    exact .placed hsame
  · refine alike_of_forall_ne (fun l hl => hfits ⟨l, hl⟩) fun l hl => ?_
    obtain ⟨hplain, hfew, -⟩ := compute_eq_ok_iff.mp hl
    exact hfits ⟨_, compute_eq_ok_iff.mpr ⟨(laid_iff hpadded false).mp hplain, hsame.layers ▸ hfew, rfl⟩⟩

/-- **Padding changes nothing** exactly when a tensor that fits has elements that a word counts with their
padding, and both countings of channels round its groups up to the same number of layers. -/
theorem alike_iff :
    Alike (compute name d limits ⟨true, breakpoints⟩) (compute name d limits ⟨false, breakpoints⟩) ↔
      ((∃ padded l, compute name d limits ⟨padded, breakpoints⟩ = .ok l) →
        spatialOf d.shape * paddedChannelsOf d.shape ⟨true, breakpoints⟩ < Size.modulus ∧
        layersPerSliceOf d.shape ⟨true, breakpoints⟩ = layersPerSliceOf d.shape ⟨false, breakpoints⟩) := by
  constructor
  · rintro halike ⟨padded, l, hl⟩
    obtain ⟨l₁, l₂, h₁, h₂, hsame⟩ := halike.exists_ok (l := l) <| by
      cases padded with
      | true => exact .inl hl
      | false => exact .inr hl
    obtain ⟨hlaid, -, rfl⟩ := compute_eq_ok_iff.mp h₁
    obtain ⟨-, -, rfl⟩ := compute_eq_ok_iff.mp h₂
    refine ⟨hlaid.padded_lt, ?_⟩
    -- the layers of both are those of the same slices, of which there are some
    have hslices : 0 < slicesOf (spatialOf d.shape) limits := Size.divCeil_pos hlaid.area_pos hlaid.spatial_pos
    exact Nat.eq_of_mul_eq_mul_left hslices hsame.layers
  · intro hround
    by_cases hfits : ∃ padded l, compute name d limits ⟨padded, breakpoints⟩ = .ok l
    · obtain ⟨hpadded, hlayers⟩ := hround hfits
      exact alike_of_layersPerSlice_eq hpadded hlayers
    · exact alike_of_forall_ne (fun l hl => hfits ⟨true, l, hl⟩) fun l hl => hfits ⟨false, l, hl⟩

/-- Two groups are written by two targets at a time when their padding is counted, and else one by one:
two layers either way. -/
theorem even_alike :
    targetsOf [3, 5] ⟨true, [⟨20, 2⟩]⟩ = 2 ∧ targetsOf [3, 5] ⟨false, [⟨20, 2⟩]⟩ = 1 ∧
    Alike (compute "t" ⟨[3, 5], .float32⟩ ⟨64, 64, 2⟩ ⟨true, [⟨20, 2⟩]⟩)
      (compute "t" ⟨[3, 5], .float32⟩ ⟨64, 64, 2⟩ ⟨false, [⟨20, 2⟩]⟩) :=
  ⟨by decide, by decide, alike_iff.mpr fun _ => ⟨by decide, by decide⟩⟩

/-- Three groups are written by two targets at a time when their padding is counted, and need a fourth
layer, which the limit does not allow. -/
theorem odd_not_alike :
    compute "t" ⟨[9], .float32⟩ ⟨64, 64, 3⟩ ⟨true, [⟨10, 2⟩]⟩ =
      .error (.limit (.layers "t" [9] 4 1 4 3)) ∧
    (compute "t" ⟨[9], .float32⟩ ⟨64, 64, 3⟩ ⟨false, [⟨10, 2⟩]⟩).map (·.layers) = .ok 3 ∧
    ¬ Alike (compute "t" ⟨[9], .float32⟩ ⟨64, 64, 3⟩ ⟨true, [⟨10, 2⟩]⟩)
      (compute "t" ⟨[9], .float32⟩ ⟨64, 64, 3⟩ ⟨false, [⟨10, 2⟩]⟩) := by
  have hpadded : compute "t" ⟨[9], .float32⟩ ⟨64, 64, 3⟩ ⟨true, [⟨10, 2⟩]⟩ =
      .error (.limit (.layers "t" [9] 4 1 4 3)) := by cbv
  have hplain : (compute "t" ⟨[9], .float32⟩ ⟨64, 64, 3⟩ ⟨false, [⟨10, 2⟩]⟩).map (·.layers) = .ok 3 := by
    cbv
  refine ⟨hpadded, hplain, fun h => ?_⟩
  rw [hpadded] at h
  cases hx : compute "t" ⟨[9], .float32⟩ ⟨64, 64, 3⟩ ⟨false, [⟨10, 2⟩]⟩ with
  | error e =>
    rw [hx] at hplain
    cases hplain
  | ok l =>
    rw [hx] at h
    cases h

end TexelFlow.Layout
