import TexelFlow.Proofs.Evaluate.Elements
import TexelFlow.Proofs.Evaluate.Meaning
import TexelFlow.Proofs.Operator.Infer
import TexelFlow.Proofs.Schedule.Described

/-!
# Values have the shapes that were inferred

Inference and evaluation read the parameters of an operation from the same attributes, and shapes from
the same places: descriptors on one side, values on the other. They part at one place only. The size of
a resize may be a tensor, and inference knows constants alone, where evaluation also reads what is bound
to a placeholder. Where the bound sizes are the inferred ones, every value has the shape that the
schedule says, and so has every output; where they are not, it need not.

## Main statements

* `Node.acts_of_infers`, `Node.Acts.shape_eq` — an operation does what was inferred.
* `evaluateNode_described`, `evaluateNodes_described` — the step and the run.
* `evaluate_described` — every output has the shape that the schedule says.
* `resized_not_described` — a bound size that inference does not see.

## §1 — operations
## §2 — evaluating a schedule
## §3 — outputs
## §4 — a size that is bound
-/

namespace TexelFlow

/-! ## §1 — operations -/

theorem Pairwise.apply_shape {op : Binary32 → Binary32 → Binary32} {a b v : Values}
    (h : apply op a b = .ok v) : a.shape.broadcast b.shape = .ok v.shape :=
  (apply_eq_ok_iff.mp h).1

theorem Convolution.apply_shape {n : Node} {input kernel v : Values} {bias : Option Values}
    (h : apply n input kernel bias = .ok v) :
    ∃ p g, Params.ofNode n = .ok p ∧
      Geometry.resolve n.name p input.shape kernel.shape n.op.isDepthwise = .ok g ∧
      v.shape = g.outputShape input.shape := by
  obtain ⟨p, g, rows, hp, hg, -, -, rfl⟩ := apply_eq_ok_iff.mp h
  exact ⟨p, g, hp, hg, rfl⟩

theorem Resize.apply_shape {n : Node} {input v : Values} {size : Option Tensor}
    (h : apply n input size = .ok v) :
    ∃ p, Params.resolve n input.shape size = .ok p ∧ v.shape = p.outputShape input.shape := by
  obtain ⟨p, image, rows, hp, -, -, -, -, rfl⟩ := apply_eq_ok_iff.mp h
  exact ⟨p, hp, rfl⟩

namespace Node

variable {n : Node} {data : String → Option Tensor}

theorem apply_pair (hop : n.op = .add ∨ n.op = .mul) :
    ∃ op, ∀ a b data, n.apply [a, b] data = Pairwise.apply op a b := by
  unfold apply
  rcases hop with hop | hop
  · rw [hop]
    exact ⟨_, fun _ _ _ => rfl⟩
  · rw [hop]
    exact ⟨_, fun _ _ _ => rfl⟩

theorem apply_relu (hop : n.op = .relu) (a : Values) : n.apply [a] data = .ok (rectify a) := by
  unfold apply
  rw [hop]
  rfl

theorem apply_convolution (hop : n.op.isConvolution) (input kernel : Values) (rest : List Values) :
    n.apply (input :: kernel :: rest) data = Convolution.apply n input kernel rest[0]? := by
  unfold apply
  cases h : n.op with
  | conv | fusedConv | depthwise | fusedDepthwise => rfl
  | placeholder | const | identity | add | mul | relu | resize | unsupported =>
    rw [h] at hop
    cases hop

theorem apply_resize (hop : n.op = .resize) (input : Values) (rest : List Values) :
    n.apply (input :: rest) data = Resize.apply n input (n.inputNames[1]?.bind data) := by
  unfold apply
  rw [hop]
  rfl

/-- Values beside descriptors have their shapes. -/
def HaveShapes (operands : List Values) (inputs : List Descriptor) : Prop :=
  List.Forall₂ (fun v d => v.shape = d.shape) operands inputs

/-- The size of a resize comes out of the data that evaluation reads as it came out of the constants
that inference knows. -/
def SizeKnown (n : Node) (data constants : String → Option Tensor) (input : Shape) : Prop :=
  Resize.Params.resolve n input (n.inputNames[1]?.bind data) =
    Resize.Params.resolve n input (n.inputNames[1]?.bind constants)

/-- **What a node does** with its operands, and the shape it makes of theirs: inference as it looks from
evaluation. -/
inductive Acts (n : Node) (data : String → Option Tensor) : List Values → Shape → Prop
  /-- It broadcasts two operands. -/
  | pair {x y : Values} {op : Binary32 → Binary32 → Binary32} {shape : Shape}
      (hop : n.op = .add ∨ n.op = .mul)
      (happly : n.apply [x, y] data = Pairwise.apply op x y)
      (hshape : x.shape.broadcast y.shape = .ok shape) : Acts n data [x, y] shape
  /-- It rectifies its operand. -/
  | alone {x : Values} (hop : n.op = .relu) (happly : n.apply [x] data = .ok (rectify x)) :
      Acts n data [x] x.shape
  /-- It slides a kernel over its operand, with a bias for each output channel. -/
  | convolution {x y : Values} {zs : List Values} {p : Convolution.Params} {g : Convolution.Geometry}
      (hop : n.op.isConvolution) (happly : n.apply (x :: y :: zs) data = Convolution.apply n x y zs[0]?)
      (hp : Convolution.Params.ofNode n = .ok p)
      (hg : Convolution.Geometry.resolve n.name p x.shape y.shape n.op.isDepthwise = .ok g)
      (hbias : ∀ z ∈ zs[0]?, z.shape.counted = .ok g.outC) :
      Acts n data (x :: y :: zs) (g.outputShape x.shape)
  /-- It resizes its operand. -/
  | resize {x : Values} {zs : List Values} {p : Resize.Params} (hop : n.op = .resize)
      (happly : n.apply (x :: zs) data = Resize.apply n x (n.inputNames[1]?.bind data))
      (hp : Resize.Params.resolve n x.shape (n.inputNames[1]?.bind data) = .ok p) :
      Acts n data (x :: zs) (p.outputShape x.shape)

theorem acts_resize {input : Descriptor} {second : Option Descriptor} {x : Values} {zs : List Values}
    {p : Resize.Params} {constants : String → Option Tensor} (hop : n.op = .resize)
    (hcount : (input :: second.toList).length = n.inputNames.length) (hx : x.shape = input.shape)
    (hsize : n.SizeKnown data constants input.shape)
    (hp : Resize.Params.resolve n input.shape (second.bind fun _ => n.inputNames[1]?.bind constants) =
      .ok p) : n.Acts data (x :: zs) (p.outputShape input.shape) := by
  -- without a second input there is no second name, and so no tensor that gives a size
  have hsecond : (second.bind fun _ => n.inputNames[1]?.bind constants) =
      n.inputNames[1]?.bind constants := by
    cases second with
    | some _ => rfl
    | none =>
      have hone : n.inputNames[1]? = none := List.getElem?_eq_none hcount.ge
      rw [hone]
      rfl
  unfold SizeKnown at hsize
  rw [hsecond, ← hsize] at hp
  rw [← hx] at hp ⊢
  exact .resize hop (apply_resize hop x zs) hp

/-- **What inference accepts, evaluation does**, on operands of the inferred shapes. -/
theorem acts_of_infers {operands : List Values} {inputs : List Descriptor} {d : Descriptor}
    {constants : String → Option Tensor}
    (hinfers : Operator.Infers n (fun i => n.inputNames[i]?.bind constants) inputs d)
    (hcount : inputs.length = n.inputNames.length) (hshapes : HaveShapes operands inputs)
    (hsize : n.op = .resize → ∀ input ∈ inputs.head?, n.SizeKnown data constants input.shape)
    (hid : n.op ≠ .identity) : n.Acts data operands d.shape := by
  cases hinfers with
  | @pair a b shape hop hshape =>
    obtain _ | ⟨ha, _ | ⟨hb, ⟨⟩⟩⟩ := hshapes
    rename_i x y
    obtain ⟨op, happly⟩ := apply_pair hop
    exact .pair hop (happly x y data) (by rw [ha, hb]; exact hshape)
  | alone hop =>
    obtain _ | ⟨ha, ⟨⟩⟩ := hshapes
    rename_i x
    have hrelu : n.op = .relu := hop.resolve_right hid
    rw [← ha]
    exact .alone hrelu (apply_relu hrelu x)
  | @convolution input kernel bias p g hop hp hg hbias =>
    obtain _ | ⟨hi, _ | ⟨hk, hrest⟩⟩ := hshapes
    rename_i x y zs
    rw [← hi, ← hk] at hg
    dsimp only
    rw [← hi]
    refine .convolution hop (apply_convolution hop x y zs) hp hg fun z hz => ?_
    -- a bias value stands beside a bias descriptor
    cases bias with
    | none =>
      cases hrest
      cases hz
    | some b =>
      obtain _ | ⟨hb, ⟨⟩⟩ := hrest
      obtain rfl := Option.some.inj hz
      rw [hb]
      exact hbias b rfl
  | resize second hop hp =>
    obtain _ | ⟨hi, hrest⟩ := hshapes
    exact acts_resize hop hcount hi (hsize hop _ rfl) hp

/-- **An operation keeps to what was inferred.** -/
theorem Acts.shape_eq {operands : List Values} {shape : Shape} {v : Values}
    (hacts : n.Acts data operands shape) (h : n.apply operands data = .ok v) : v.shape = shape := by
  cases hacts with
  | pair _ happly hshape =>
    rw [happly] at h
    exact (Except.ok.inj (hshape.symm.trans (Pairwise.apply_shape h))).symm
  | alone _ happly =>
    rw [happly] at h
    rw [← Except.ok.inj h]
    rfl
  | convolution _ happly hp hg _ =>
    rw [happly] at h
    obtain ⟨p', g', hp', hg', hshape⟩ := Convolution.apply_shape h
    obtain rfl := Except.ok.inj (hp.symm.trans hp')
    obtain rfl := Except.ok.inj (hg.symm.trans hg')
    exact hshape
  | resize _ happly hp =>
    rw [happly] at h
    obtain ⟨p', hp', hshape⟩ := Resize.apply_shape h
    obtain rfl := Except.ok.inj (hp.symm.trans hp')
    exact hshape

end Node

/-! ## §2 — evaluating a schedule -/

namespace Schedule

/-- The sizes of all scheduled resizes come out of what is bound as they came out of the constants. -/
def SizesKnown (s : Schedule) (bound : Tensors) : Prop :=
  ∀ n ∈ s.nodes, n.op = .resize → ∀ x d, n.inputNames[0]? = some x → s.descriptors.find? x = some d →
    n.SizeKnown (s.data? bound) s.constants.find? d.shape

/-- Sizes are known where no resize takes its size from an input. -/
theorem sizesKnown_of_inputs {s : Schedule} {given bound : Tensors} (hbind : s.bind given = .ok bound)
    (h : ∀ n ∈ s.nodes, n.op = .resize → ∀ x, n.inputNames[1]? = some x → ∀ i ∈ s.inputs, i.node ≠ x) :
    s.SizesKnown bound := by
  intro n hn hop _ d _ _
  unfold Node.SizeKnown
  cases hx : n.inputNames[1]? with
  | none => rfl
  | some x =>
    have hunbound : bound.find? x = none := by
      rw [Option.eq_none_iff_forall_ne_some]
      intro t ht
      obtain ⟨i, hi, hnode, -⟩ := (bind_eq_ok hbind).2 x t ht
      exact h n hn hop x hx i hi hnode
    have hdata : s.data? bound x = s.constants.find? x := by
      unfold data?
      rw [hunbound]
    rw [Option.bind_some, Option.bind_some, hdata]

/-- The values known so far have the shapes that the schedule says. -/
def Described (s : Schedule) (known : Named Values) : Prop :=
  ∀ name v, known.find? name = some v → ∃ d, s.descriptors.find? name = some d ∧ v.shape = d.shape

variable {s : Schedule} {known : Named Values}

theorem described_empty : s.Described .empty := by
  intro name v h
  rw [Named.find?_empty] at h
  cases h

theorem Described.insert (h : s.Described known) {name : String} {v : Values} {d : Descriptor}
    (hd : s.descriptors.find? name = some d) (hv : v.shape = d.shape) :
    s.Described (known.insert name v) := by
  intro key w hw
  rw [Named.find?_insert] at hw
  split at hw
  · rename_i hkey
    obtain rfl := Option.some.inj hw
    exact ⟨d, hkey ▸ hd, hv⟩
  · exact h key w hw

/-- What is known under names has the shapes that are said of these names. -/
theorem Described.haveShapes (h : s.Described known) {names : List String} {operands : List Values}
    {inputs : List Descriptor}
    (hoperands : List.Forall₂ (fun name v => known.find? name = some v) names operands)
    (hinputs : List.Forall₂ (fun name d => s.descriptors.find? name = some d) names inputs) :
    Node.HaveShapes operands inputs := by
  induction hoperands generalizing inputs with
  | nil =>
    cases hinputs
    exact .nil
  | cons hv _ ih =>
    obtain _ | ⟨hd, hinputs⟩ := hinputs
    obtain ⟨d, hfind, hshape⟩ := h _ _ hv
    obtain rfl := Option.some.inj (hfind.symm.trans hd)
    exact .cons hshape (ih hinputs)

theorem evaluateNode_eq_ok {bound : Tensors} {n : Node} {v : Values} (hop : n.op.isData = false)
    (h : s.evaluateNode bound known n = .ok v) :
    ∃ operands, List.Forall₂ (fun name v => known.find? name = some v) n.inputNames operands ∧
      n.apply operands (s.data? bound) = .ok v := by
  unfold evaluateNode at h
  rw [if_neg (by rw [hop]; decide)] at h
  obtain ⟨operands, hoperands, h⟩ := Outcome.bind_eq_ok_iff.mp h
  refine ⟨operands, (Outcome.mapM_eq_ok_iff.mp hoperands).imp fun name w hw => ?_, h⟩
  split at hw
  · rename_i w' hw'
    rw [hw', Except.ok.inj hw]
  · cases hw

end Schedule

theorem Values.ofTensor_shape {name : String} {t : Tensor} {v : Values}
    (h : Values.ofTensor name t = .ok v) : v.shape = t.shape := by
  unfold Values.ofTensor at h
  split at h
  · cases h
    rfl
  · cases h

namespace Graph

section Scheduled

variable {g : Graph} {r : Request} {s : Schedule} {given bound : Tensors}
  (hs : g.schedule r = .ok s) (hbind : s.bind given = .ok bound)

theorem sizeKnown_of_sizesKnown {s : Schedule} (hsizes : s.SizesKnown bound) {n : Node}
    (hn : n ∈ s.nodes) {inputs : List Descriptor}
    (hinputs : List.Forall₂ (fun name d => s.descriptors.find? name = some d) n.inputNames inputs)
    (hop : n.op = .resize) :
    ∀ input ∈ inputs.head?, n.SizeKnown (s.data? bound) s.constants.find? input.shape := by
  intro input hinput
  generalize hnames : n.inputNames = names at hinputs
  cases hinputs with
  | nil => cases hinput
  | cons hd _ =>
    obtain rfl := Option.some.inj hinput
    exact hsizes n hn hop _ _ (by rw [hnames]; rfl) hd

include hs in
/-- **What a scheduled operation does** with operands of their described shapes. -/
theorem scheduled_acts (hsizes : s.SizesKnown bound) {known : Named Values} (hknown : s.Described known)
    {n : Node} (hn : n ∈ s.nodes) (hop : n.op.isData = false) {operands : List Values}
    (hoperands : List.Forall₂ (fun name v => known.find? name = some v) n.inputNames operands) :
    ∃ d, s.descriptors.find? n.name = some d ∧ n.Acts (s.data? bound) operands d.shape := by
  obtain ⟨d, hfind, hdescribe⟩ := schedule_describes hs hn
  obtain ⟨inputs, hinputs, hinfer⟩ := infer_of_describeNode hop hdescribe
  exact ⟨d, hfind, Node.acts_of_infers (Operator.infers_of_infer hinfer) hinputs.length_eq.symm
    (hknown.haveShapes hoperands hinputs) (sizeKnown_of_sizesKnown hsizes hn hinputs)
    (op_ne_identity_of_scheduled hs hn)⟩

include hs hbind in
/-- **One step**: a scheduled node is evaluated to a value of its described shape. -/
theorem evaluateNode_described (hsizes : s.SizesKnown bound) {known : Named Values}
    (hknown : s.Described known) {n : Node} (hn : n ∈ s.nodes) {v : Values}
    (h : s.evaluateNode bound known n = .ok v) :
    ∃ d, s.descriptors.find? n.name = some d ∧ v.shape = d.shape := by
  by_cases hop : n.op.isData
  · obtain ⟨t, ht, hfind⟩ := data_described hs hbind hn hop
    unfold Schedule.evaluateNode at h
    rw [if_pos hop, ht] at h
    exact ⟨_, hfind, Values.ofTensor_shape h⟩
  · have hop : n.op.isData = false := by simpa using hop
    obtain ⟨operands, hoperands, happly⟩ := Schedule.evaluateNode_eq_ok hop h
    obtain ⟨d, hfind, hacts⟩ := scheduled_acts hs hsizes hknown hn hop hoperands
    exact ⟨d, hfind, hacts.shape_eq happly⟩

include hs hbind in
/-- **The run**: evaluating scheduled nodes in order keeps all values at their described shapes. -/
theorem evaluateNodes_described (hsizes : s.SizesKnown bound) {nodes : List Node}
    (hsub : ∀ n ∈ nodes, n ∈ s.nodes) {known known' : Named Values} (hknown : s.Described known)
    (hrun : s.evaluateNodes bound known nodes = .ok known') : s.Described known' := by
  -- a step needs the shapes of the values so far, not that its operands are among them
  induction nodes generalizing known with
  | nil =>
    rw [Schedule.evaluateNodes] at hrun
    cases hrun
    exact hknown
  | cons n rest ih =>
    rw [Schedule.evaluateNodes] at hrun
    obtain ⟨v, hv, hrun⟩ := Outcome.bind_eq_ok_iff.mp hrun
    obtain ⟨d, hfind, hshape⟩ :=
      evaluateNode_described hs hbind hsizes hknown (hsub n List.mem_cons_self) hv
    exact ih (fun m hm => hsub m (List.mem_cons_of_mem _ hm)) (hknown.insert hfind hshape) hrun

end Scheduled

/-! ## §3 — outputs -/

/-- The outputs are those of a schedule, each of the shape that is said of the node it names. -/
structure DescribesOutputs (s : Schedule) (out : Tensors) : Prop where
  /-- What is returned was asked for. -/
  asked : ∀ name t, out.find? name = some t → ∃ o ∈ s.outputs, o.name = name
  /-- What was asked for is returned in its described shape. -/
  shaped : ∀ o ∈ s.outputs, ∃ t d, out.find? o.name = some t ∧
    s.descriptors.find? o.node = some d ∧ t.shape = d.shape

/-- **Every output has the shape that the schedule says** of the node it names, where the bound sizes
of resizes are the inferred ones. -/
theorem evaluate_described {g : Graph} {r : Request} {s : Schedule} (hs : g.schedule r = .ok s)
    {given bound : Tensors} (hbind : s.bind given = .ok bound) (hsizes : s.SizesKnown bound)
    {out : Tensors} (he : s.evaluate bound = .ok out) : DescribesOutputs s out := by
  obtain ⟨-, -, houtputs, -⟩ := schedule_eq_ok hs
  have hresolved := resolveOutputs_eq_ok houtputs
  obtain ⟨known, entries, hknown, htaken, rfl⟩ := evaluate_eq_ok he
  have hdescribed : s.Described known :=
    evaluateNodes_described hs hbind hsizes (fun _ hn => hn) Schedule.described_empty hknown
  refine ⟨fun name t ht => ?_, fun o ho => ?_⟩
  · obtain ⟨o, ho, htake⟩ := Outcome.exists_of_mem_results htaken (Named.mem_of_find?_ofList ht)
    exact ⟨o, ho, (takeOutput_eq_ok_iff.mp htake).1⟩
  · obtain ⟨⟨name, t⟩, hmem, htake⟩ := Outcome.exists_result_of_mem htaken ho
    obtain ⟨rfl, v, hv, htensor⟩ := takeOutput_eq_ok_iff.mp htake
    obtain ⟨d, hfind, hshape⟩ := hdescribed _ v hv
    refine ⟨t, d, ?_, hfind, (Values.toTensor_eq_ok_iff.mp htensor).1.trans hshape⟩
    exact (Named.find?_ofList_eq_some_iff (taken_agree hresolved htaken)).mpr hmem

/-! ## §4 — a size that is bound -/

/-- A resize whose size is an input, beside a scale that inference falls back on. -/
def resizedNodes : List Node :=
  [⟨"x", .placeholder, [], .ofList [("shape", .numbers [.one, .one, .one])], []⟩,
   ⟨"s", .placeholder, [], .ofList [("shape", .numbers [⟨0x4000000000000000⟩])], []⟩,
   ⟨"r", .resize, [.first "x", .first "s"], .ofList [("scale", .numbers [.one, .one])], []⟩]

/-- The graph of the resize. -/
def resized : Graph where
  nodes := resizedNodes
  constants := .empty
  signature := none
  named := by decide
  distinct := by decide
  wired := by decide
  given := by decide

theorem resized_built : resized.Built := .assembled resizedNodes .empty none (by cbv)

/-- The resize is asked for; its inputs have the shapes they declare. -/
def resizedRequest : Request := ⟨["r"], .kept, .empty, none⟩

/-- The schedule of the resize: by its scale, one element for one. -/
def resizedSchedule : Schedule where
  nodes := [resizedNodes[1], resizedNodes[0], resizedNodes[2]]
  descriptors := .ofList
    [("s", ⟨[2], .float32⟩), ("x", ⟨[1, 1, 1], .float32⟩), ("r", ⟨[1, 1, 1], .float32⟩)]
  inputs := [⟨"s", "s", .float32, some [2], [2]⟩,
    ⟨"x", "x", .float32, some [1, 1, 1], [1, 1, 1]⟩]
  outputs := [⟨"r", "r"⟩]
  constants := .empty
  batch := .kept

theorem resized_schedule : resized.schedule resizedRequest = .ok resizedSchedule := by
  have hneeded : resized.dependencies.ancestors
      (resizedSchedule.outputs.filterMap fun o => resized.place? o.node) =
      [⟨1, by decide⟩, ⟨0, by decide⟩, ⟨2, by decide⟩] := by cbv
  have hnodes : resized.neededNodes [⟨1, by decide⟩, ⟨0, by decide⟩, ⟨2, by decide⟩]
      resizedSchedule.outputs = resizedSchedule.nodes := by
    unfold neededNodes keptVertices
    rw [hneeded]
    cbv
  exact schedule_of_stages (by cbv) (by cbv) hnodes (by decide +kernel) (by cbv)
    (by decide +kernel) rfl rfl

/-- One element, and a size of one row and so many columns. -/
def resizedGiven (columns : Binary32) : Tensors :=
  .ofList [("x", ⟨[1, 1, 1], .float32 [⟨0x40a00000⟩], by decide⟩),
    ("s", ⟨[2], .float32 [.one, columns], by cbv⟩)]

theorem resized_bind (columns : Binary32) :
    resizedSchedule.bind (resizedGiven columns) = .ok (resizedGiven columns) := by cbv

/-- What the resize gives for one column. -/
def resizedOutputs : Tensors := .ofList [("r", ⟨[1, 1, 1], .float32 [⟨0x40a00000⟩], rfl⟩)]

theorem resized_evaluate : resizedSchedule.evaluate (resizedGiven .one) = .ok resizedOutputs := by
  decide +kernel

theorem resized_sizesKnown : resizedSchedule.SizesKnown (resizedGiven .one) := by
  intro n hn hop x d hx hd
  have hr : n = resizedNodes[2] := by
    rcases List.mem_cons.mp hn with rfl | hn
    · cases hop
    rcases List.mem_cons.mp hn with rfl | hn
    · cases hop
    exact List.mem_singleton.mp hn
  subst hr
  obtain rfl : "x" = x := Option.some.inj hx
  obtain rfl : (⟨[1, 1, 1], .float32⟩ : Descriptor) = d := Option.some.inj hd
  unfold Node.SizeKnown
  decide +kernel

/-- With a bound size of one column, which is the inferred one, the output has its described shape. -/
theorem resized_described : resized.Built ∧ resized.schedule resizedRequest = .ok resizedSchedule ∧
    resizedSchedule.bind (resizedGiven .one) = .ok (resizedGiven .one) ∧
    resizedSchedule.SizesKnown (resizedGiven .one) ∧
    resizedSchedule.evaluate (resizedGiven .one) = .ok resizedOutputs ∧
    DescribesOutputs resizedSchedule resizedOutputs :=
  ⟨resized_built, resized_schedule, resized_bind _, resized_sizesKnown, resized_evaluate,
    evaluate_described resized_schedule (resized_bind _) resized_sizesKnown resized_evaluate⟩

/-- What the resize gives for two columns. -/
def widenedOutputs : Tensors :=
  .ofList [("r", ⟨[1, 2, 1], .float32 [⟨0x40a00000⟩, ⟨0x40a00000⟩], rfl⟩)]

/-- With a bound size of two columns it has not: the schedule says one column. -/
theorem resized_not_described : resized.Built ∧
    resized.schedule resizedRequest = .ok resizedSchedule ∧
    resizedSchedule.bind (resizedGiven ⟨0x40000000⟩) = .ok (resizedGiven ⟨0x40000000⟩) ∧
    resizedSchedule.evaluate (resizedGiven ⟨0x40000000⟩) = .ok widenedOutputs ∧
    ¬ DescribesOutputs resizedSchedule widenedOutputs := by
  refine ⟨resized_built, resized_schedule, resized_bind _, by decide +kernel, fun h => ?_⟩
  obtain ⟨t, d, ht, hd, hshape⟩ := h.shaped ⟨"r", "r"⟩ (by decide)
  obtain rfl : (⟨[1, 2, 1], .float32 [⟨0x40a00000⟩, ⟨0x40a00000⟩], rfl⟩ : Tensor) = t :=
    Option.some.inj ht
  obtain rfl : (⟨[1, 1, 1], .float32⟩ : Descriptor) = d := Option.some.inj hd
  exact absurd hshape (by decide)

end Graph

end TexelFlow
