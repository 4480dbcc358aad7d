import TexelFlow.Proofs.Shader.Compiled
import TexelFlow.Proofs.Texture.Layout

/-!
# Compiled graphs fit their device

The extents of a texture are bounded from four places: by the canvas, by the largest viewport, by the
device, and by the render targets that the breakpoints ask for, to which layers are rounded up. Width,
height, targets and layers of a compiled graph keep to all of these bounds whatever its shapes are,
because each of them is compared after it was rounded, and no product is formed on the way that a word does
not hold. One product is formed only later and asked for by nobody before: the words of a texture, unused
lanes included. There are enough of them for all elements, but a word may not hold their number.

## Main statements

* `Layout.within_of_compute` — a layout keeps to the bounds of options and device.
* `Layout.measured_iff` — the words of its texture are counted exactly when a word holds their number.
* `Compiled.fits_of_ofGraph` — a compiled graph fits its device.

## §1 — render targets
## §2 — layouts within bounds
## §3 — compiled graphs
## §4 — two targets on a small device
## §5 — more words than a word counts
-/

namespace TexelFlow

/-! ## §1 — render targets -/

/-- Options that are valid on a device ask for no more render targets than it has. -/
theorem EngineOptions.targets_le_of_validate {o : EngineOptions} {limits : DeviceLimits}
    (h : o.validate limits = .ok ()) : ∀ b ∈ o.breakpoints, b.targets ≤ limits.maxTargets := by
  intro b hb
  unfold validate fault? at h
  split at h
  · cases h
  · rename_i hfault
    split at hfault
    · cases hfault
    · have hnone := List.findSome?_eq_none_iff.mp hfault b hb
      unfold Layout.Breakpoint.fault? at hnone
      split at hnone
      · cases hnone
      · split at hnone
        · cases hnone
        · omega

/-- The number of render targets for an output is that of a breakpoint, or one. -/
theorem Layout.Options.targetsFor_le {options : Options} {most : Nat} (hmost : 0 < most)
    (h : ∀ b ∈ options.breakpoints, b.targets ≤ most) (count : Nat) :
    options.targetsFor count ≤ most := by
  unfold targetsFor
  split
  · rename_i b hb
    exact h b (List.mem_reverse.mp (List.mem_of_find?_eq_some hb))
  · exact hmost

/-- A device with an attachment that has room for a texel has room for all of its render targets. -/
theorem DeviceLimits.ofDevice_maxTargets_le {dimension layers attachments bytes : Nat}
    (hattachments : 0 < attachments) (hbytes : texelBytes ≤ bytes) :
    (ofDevice dimension layers attachments bytes).maxTargets ≤ attachments ∧
      texelBytes * (ofDevice dimension layers attachments bytes).maxTargets ≤ bytes := by
  unfold ofDevice
  dsimp only
  have hone : 0 < bytes / texelBytes := Nat.div_pos hbytes (by decide)
  have hfloor : texelBytes * (bytes / texelBytes) ≤ bytes := Nat.mul_div_le _ _
  have hle : max 1 (min attachments (bytes / texelBytes)) ≤ bytes / texelBytes := by omega
  exact ⟨by omega, (Nat.mul_le_mul_left _ hle).trans hfloor⟩

namespace Layout

/-! ## §2 — layouts within bounds -/

/-- A layout keeps to the bounds of options and device. -/
structure Within (l : Layout) (o : EngineOptions) (limits : DeviceLimits) : Prop where
  /-- A row has texels. -/
  width_pos : 1 ≤ l.width
  /-- Rows fit on the canvas, the viewport and the device. -/
  width_le : l.width ≤ min o.canvasWidth (min o.viewportMaxSize limits.maxDimension)
  /-- There are rows. -/
  height_pos : 1 ≤ l.height
  /-- They fit on the canvas, the viewport and the device. -/
  height_le : l.height ≤ min o.canvasHeight (min o.viewportMaxSize limits.maxDimension)
  /-- There are the fewest slices that have room for all positions. -/
  slices : IsLeast {n | l.spatial ≤ l.width * l.height * n} l.slices
  /-- A draw writes some layer. -/
  targets_pos : 1 ≤ l.renderTargets
  /-- A draw writes no more layers than the device can, and no more than there are groups. -/
  targets_le : l.renderTargets ≤ min limits.maxTargets l.channelGroups
  /-- The layers of a slice are the fewest that make whole draws and have room for all groups. -/
  perSlice : IsLeast {n | l.renderTargets ∣ n ∧ l.channelGroups ≤ n} l.layersPerSlice
  /-- The layers are those of all slices. -/
  layers : l.layers = l.slices * l.layersPerSlice
  /-- The device has the layers. -/
  layers_le : l.layers ≤ limits.maxLayers
  /-- The elements are those of all positions and channels. -/
  elements : l.elementCount = l.spatial * l.channels
  /-- There are words for all of them, also when channels are counted up. -/
  room : l.paddedCount ≤ l.floats

/-- The words of a texture are counted, and are enough for all elements, also when channels are counted
up. -/
def Measured (l : Layout) : Prop := ∃ capacity, l.capacity = .ok capacity ∧ l.paddedCount ≤ capacity

variable {name : String} {d : Descriptor} {o : EngineOptions} {limits : DeviceLimits} {l : Layout}

/-- Channels are counted up to those of whole groups at most. -/
theorem paddedChannels_le {bounds : Limits} {options : Options}
    (h : compute name d bounds options = .ok l) : l.paddedChannels ≤ l.channelGroups * lanes := by
  obtain ⟨-, -, rfl⟩ := compute_eq_ok_iff.mp h
  show paddedChannelsOf d.shape options ≤ groupsOf d.shape * lanes
  unfold paddedChannelsOf
  split
  · exact Nat.le_refl _
  · exact Size.le_divCeil_mul (by decide)

/-- **There are words for all elements**, also when channels are counted up. -/
theorem paddedCount_le_floats {bounds : Limits} {options : Options}
    (h : compute name d bounds options = .ok l) : l.paddedCount ≤ l.floats := by
  have hcomputed := compute_eq_ok h
  have hslices : l.spatial ≤ l.slices * (l.width * l.height) := by
    rw [hcomputed.slices]
    exact Size.le_divCeil_mul hcomputed.area_pos
  calc l.paddedCount
      ≤ l.slices * (l.width * l.height) * (l.layersPerSlice * lanes) :=
        Nat.mul_le_mul hslices
          ((paddedChannels_le h).trans (Nat.mul_le_mul_right _ hcomputed.exact.groups_le))
    _ = l.floats := by unfold floats; ring

/-- **A layout keeps to the bounds** of options that are valid on a device. -/
theorem within_of_compute (hvalid : o.validate limits = .ok ()) (htargets : 0 < limits.maxTargets)
    (h : compute name d (o.layoutLimits limits) o.layoutOptions = .ok l) : l.Within o limits := by
  have hcomputed := compute_eq_ok h
  obtain ⟨hwidth, hheight, hlayers⟩ := compute_le h
  constructor
  case width_pos => exact Nat.pos_of_mul_pos_right hcomputed.area_pos
  case width_le => exact hwidth
  case height_pos => exact Nat.pos_of_mul_pos_left hcomputed.area_pos
  case height_le => exact hheight
  case slices =>
    rw [hcomputed.slices]
    exact Size.isLeast_divCeil hcomputed.area_pos
  case targets_pos => exact hcomputed.targets_pos
  case targets_le =>
    refine le_min ?_ hcomputed.targets_le
    -- what a breakpoint asks for was checked, and one target is there without any
    have hasked : ∀ count, o.layoutOptions.targetsFor count ≤ limits.maxTargets :=
      Options.targetsFor_le htargets (EngineOptions.targets_le_of_validate hvalid)
    obtain ⟨-, -, rfl⟩ := compute_eq_ok_iff.mp h
    show targetsOf d.shape o.layoutOptions ≤ limits.maxTargets
    unfold targetsOf
    exact max_le ((min_le_left _ _).trans (hasked _)) htargets
  case perSlice =>
    rw [hcomputed.rounded]
    exact Size.isLeast_divCeil_mul hcomputed.targets_pos
  case layers => exact hcomputed.layers
  case layers_le => exact hlayers
  case elements => exact hcomputed.count
  case room => exact paddedCount_le_floats h

/-- **The words of a texture are counted** exactly when a word holds their number, and then they are
enough. -/
theorem measured_iff {bounds : Limits} {options : Options} (h : compute name d bounds options = .ok l) :
    l.Measured ↔ l.floats < Size.modulus := by
  have hexact := (compute_eq_ok h).exact
  constructor
  · rintro ⟨capacity, hcapacity, -⟩
    exact (hexact.capacity_eq_ok_iff.mp hcapacity).1
  · exact fun hfloats =>
      ⟨l.floats, hexact.capacity_eq_ok_iff.mpr ⟨hfloats, rfl⟩, paddedCount_le_floats h⟩

end Layout

/-! ## §3 — compiled graphs -/

/-- A program is compiled for the layout of its output. -/
theorem Program.renderTargets_of_compile [Wgsl.Validator] {cache cache' : ShaderCache} {n : Node}
    {inputs : List TextureInput} {size : Option Tensor} {output : Layout} {p : Program}
    (h : compile cache n inputs size output = (.ok p, cache')) :
    p.renderTargets = output.renderTargets := by
  obtain ⟨k, found, hk, -, rfl⟩ := exists_fetch_of_compile h
  obtain ⟨pass, -, -, rfl⟩ := key_eq_ok hk
  rfl

namespace Schedule

variable [Wgsl.Validator] {s : Schedule} {layouts : Named Layout} {cache cache' : ShaderCache} {n : Node}
  {p : Program}

/-- A program attaches as many targets as the layout of its node has. -/
theorem renderTargets_of_programOf (h : s.programOf layouts cache n = .ok (p, cache')) :
    ∃ l, layouts.find? n.name = some l ∧ p.renderTargets = l.renderTargets := by
  obtain ⟨inputs, output, -, houtput, hcompile⟩ := exists_compile_of_programOf h
  refine ⟨output, ?_, Program.renderTargets_of_compile hcompile⟩
  unfold textureLayout at houtput
  split at houtput
  · rename_i l hl
    rw [hl, Except.ok.inj houtput]
  · cases houtput

theorem renderTargets_of_programsFrom {nodes : List Node} {programs : List Program}
    (h : s.programsFrom layouts cache nodes = .ok programs) :
    ∀ p ∈ programs, ∃ name l, layouts.find? name = some l ∧ p.renderTargets = l.renderTargets := by
  induction nodes generalizing cache programs with
  | nil =>
    rw [programsFrom] at h
    cases h
    exact fun p hp => absurd hp List.not_mem_nil
  | cons n rest ih =>
    rw [programsFrom] at h
    obtain ⟨⟨p, cache'⟩, hp, h⟩ := Outcome.bind_eq_ok_iff.mp h
    obtain ⟨programs', hprograms, h⟩ := Outcome.bind_eq_ok_iff.mp h
    obtain rfl := Outcome.pure_eq_ok_iff.mp h
    intro q hq
    rcases List.mem_cons.mp hq with rfl | hq
    · exact ⟨n.name, renderTargets_of_programOf hp⟩
    · exact ih hprograms q hq

end Schedule

namespace Compiled

/-- A compiled graph fits the device it was compiled for. -/
structure Fits (c : Compiled) (o : EngineOptions) (limits : DeviceLimits) : Prop where
  /-- Layouts keep to the bounds of options and device. -/
  within : ∀ name l, c.layouts.find? name = some l → l.Within o limits
  /-- The words of their textures are counted exactly when a word holds their number. -/
  measured : ∀ name l, c.layouts.find? name = some l → (l.Measured ↔ l.floats < Size.modulus)
  /-- No program attaches more targets than the device can. -/
  attached : ∀ p ∈ c.programs, p.renderTargets ≤ limits.maxTargets
  /-- Where the device counts attachments and bytes, and has some for one target, they suffice. -/
  budget : ∀ dimension layers attachments bytes,
    limits = .ofDevice dimension layers attachments bytes → 0 < attachments →
    DeviceLimits.texelBytes ≤ bytes → ∀ p ∈ c.programs,
      p.renderTargets ≤ attachments ∧ DeviceLimits.texelBytes * p.renderTargets ≤ bytes

variable [Wgsl.Validator] {g : Graph} {o : EngineOptions} {limits : DeviceLimits} {r : CompileRequest}
  {c : Compiled}

/-- A graph is compiled with options that are valid on the device. -/
theorem validate_of_ofGraph (h : ofGraph g o limits r = .ok c) : o.validate limits = .ok () := by
  unfold ofGraph at h
  obtain ⟨_, hvalid, -⟩ := Outcome.bind_eq_ok_iff.mp h
  exact hvalid

/-- **A compiled graph fits** its device. -/
theorem fits_of_ofGraph (htargets : 0 < limits.maxTargets) (h : ofGraph g o limits r = .ok c) :
    c.Fits o limits := by
  obtain ⟨-, hlayouts, hprograms⟩ := ofGraph_eq_ok h
  have hvalid := validate_of_ofGraph h
  have hwithin : ∀ name l, c.layouts.find? name = some l → l.Within o limits := by
    intro name l hl
    obtain ⟨d, -, hd⟩ := Schedule.exists_compute_of_layouts hlayouts hl
    exact Layout.within_of_compute hvalid htargets hd
  have hattached : ∀ p ∈ c.programs, p.renderTargets ≤ limits.maxTargets := by
    intro p hp
    obtain ⟨name, l, hl, hequal⟩ := Schedule.renderTargets_of_programsFrom hprograms p hp
    rw [hequal]
    exact (hwithin name l hl).targets_le.trans (min_le_left _ _)
  constructor
  case within => exact hwithin
  case measured =>
    intro name l hl
    obtain ⟨d, -, hd⟩ := Schedule.exists_compute_of_layouts hlayouts hl
    exact Layout.measured_iff hd
  case attached => exact hattached
  case budget =>
    rintro dimension layers attachments bytes rfl hattachments hbytes p hp
    obtain ⟨hcount, hroom⟩ : _ ∧ _ := DeviceLimits.ofDevice_maxTargets_le hattachments hbytes
    exact ⟨(hattached p hp).trans hcount,
      (Nat.mul_le_mul_left _ (hattached p hp)).trans hroom⟩

end Compiled

namespace Graph

open scoped CommandLine

/-! ## §4 — two targets on a small device -/

/-- An input and its rectification. -/
def rectifiedNodes : List Node :=
  [⟨"x", .placeholder, [], .empty, []⟩, ⟨"y", .relu, [.first "x"], .empty, []⟩]

/-- The graph of the rectification. -/
def rectified : Graph where
  nodes := rectifiedNodes
  constants := .empty
  signature := none
  named := by decide
  distinct := by decide
  wired := by decide
  given := by decide

/-- The schedule of the rectification. -/
def rectifiedSchedule : Schedule where
  nodes := rectifiedNodes
  descriptors := .ofList [("x", ⟨[2, 2, 9], .float32⟩), ("y", ⟨[2, 2, 9], .float32⟩)]
  inputs := [⟨"x", "x", .float32, none, [2, 2, 9]⟩]
  outputs := [⟨"y", "y"⟩]
  constants := .empty
  batch := .kept

/-- What is asked of the rectification. -/
def rectifiedRequest : CompileRequest := ⟨["y"], .ofList [("x", [2, 2, 9])]⟩

/-- Two render targets for outputs from forty elements on. -/
def rectifiedOptions : EngineOptions := { breakpoints := [⟨40, 2⟩] }

/-- A device with eight attachments and bytes for two. -/
def rectifiedLimits : DeviceLimits := .ofDevice 64 64 8 40

theorem rectified_schedule : rectified.schedule
    ⟨rectifiedRequest.outputs, rectifiedOptions.batch, rectifiedRequest.shapes, none⟩ =
    .ok rectifiedSchedule := by
  have hnodes : rectified.neededNodes [⟨0, by decide⟩, ⟨1, by decide⟩] rectifiedSchedule.outputs =
      rectifiedSchedule.nodes := by cbv
  exact schedule_of_stages (by cbv) (by cbv) hnodes (by decide +kernel) (by cbv) (by decide +kernel)
    rfl rfl

theorem rectified_compiles :
    (Compiled.ofGraph rectified rectifiedOptions rectifiedLimits rectifiedRequest).map
      (fun c => (c.programs.map (·.renderTargets), c.layouts.entries.map (·.2.layers))) =
      .ok ([2], [4, 4]) := by
  have hvalid : rectifiedOptions.validate rectifiedLimits = .ok () := by decide
  unfold Compiled.ofGraph
  rw [Outcome.bind_of_eq_ok hvalid, Outcome.bind_of_eq_ok rectified_schedule]
  decide +kernel

/-- The rectification has three groups of channels; it is written in two draws, to four layers, with the
two targets that the bytes of the device suffice for. -/
theorem rectified_fits : ∃ c,
    Compiled.ofGraph rectified rectifiedOptions rectifiedLimits rectifiedRequest = .ok c ∧
    c.programs.map (·.renderTargets) = [2] ∧ c.layouts.entries.map (·.2.layers) = [4, 4] ∧
    c.Fits rectifiedOptions rectifiedLimits := by
  cases h : Compiled.ofGraph rectified rectifiedOptions rectifiedLimits rectifiedRequest with
  | error e =>
    have hok := rectified_compiles
    rw [h] at hok
    cases hok
  | ok c =>
    have hok := rectified_compiles
    rw [h] at hok
    obtain ⟨hprograms, hlayers⟩ := Prod.mk.inj (Except.ok.inj hok)
    exact ⟨c, rfl, hprograms, hlayers, Compiled.fits_of_ofGraph (by decide) h⟩

/-! ## §5 — more words than a word counts -/

/-- An input and nothing else. -/
def lone : Graph where
  nodes := [⟨"x", .placeholder, [], .empty, []⟩]
  constants := .empty
  signature := none
  named := by decide
  distinct := by decide
  wired := by decide
  given := by decide

/-- The schedule of a very large input. -/
def vastSchedule : Schedule where
  nodes := lone.nodes
  descriptors := .ofList [("x", ⟨[4611686018427387903, 1], .float32⟩)]
  inputs := [⟨"x", "x", .float32, none, [4611686018427387903, 1]⟩]
  outputs := [⟨"x", "x"⟩]
  constants := .empty
  batch := .kept

/-- The shape of the input. -/
def vastRequest : CompileRequest := ⟨["x"], .ofList [("x", [4611686018427387903, 1])]⟩

/-- A very large canvas. -/
def vastOptions : EngineOptions :=
  { canvasWidth := 2147483648, canvasHeight := 2147483648, viewportMaxSize := 2147483648 }

/-- A device with room for it, and for one layer. -/
def vastLimits : DeviceLimits := ⟨2147483648, 1, 1⟩

/-- The layout of the input: one layer, and four lanes for every texel of it. -/
def vastLayout : Layout :=
  ⟨[4611686018427387903, 1], 4611686018427387903, 1, 4, 4611686018427387903, 1, 2147483648, 2147483648,
    1, 1, 1, 1⟩

theorem vast_schedule : lone.schedule
    ⟨vastRequest.outputs, vastOptions.batch, vastRequest.shapes, none⟩ = .ok vastSchedule := by
  have hnodes : lone.neededNodes [⟨0, by decide⟩] vastSchedule.outputs = vastSchedule.nodes := by cbv
  exact schedule_of_stages (by cbv) (by cbv) hnodes (by decide +kernel) (by cbv) (by decide +kernel)
    rfl rfl

/-- The input is laid out in one layer, and its elements are counted with their padding, but its texture
has as many words as a word has values, so they are not counted. -/
theorem vast_not_measured : ∃ c,
    Compiled.ofGraph lone vastOptions vastLimits vastRequest = .ok c ∧
    c.layouts.find? "x" = some vastLayout ∧ vastLayout.paddedCount < Size.modulus ∧
    vastLayout.capacity = .error (.breach .overflow) ∧ ¬ vastLayout.Measured := by
  have hvalid : vastOptions.validate vastLimits = .ok () := by decide
  have hlayouts : vastSchedule.layouts (vastOptions.layoutLimits vastLimits) vastOptions.layoutOptions =
      .ok (.ofList [("x", vastLayout)]) := by decide +kernel
  have hcapacity : vastLayout.capacity = .error (.breach .overflow) := by decide +kernel
  refine ⟨⟨vastSchedule, [], .ofList [("x", vastLayout)], vastOptions⟩, ?_, by decide, by decide,
    hcapacity, ?_⟩
  · unfold Compiled.ofGraph
    rw [Outcome.bind_of_eq_ok hvalid, Outcome.bind_of_eq_ok vast_schedule,
      Outcome.bind_of_eq_ok hlayouts]
    rfl
  · rintro ⟨capacity, h, -⟩
    rw [hcapacity] at h
    cases h

end Graph

end TexelFlow
