import TexelFlow.Proofs.Evaluate.Elements
import TexelFlow.Proofs.Evaluate.Shape
import TexelFlow.Proofs.Operator.Positive

/-!
# Where evaluation does not go wrong

A schedule that was made and bound is evaluated without a fault, if there is room for the results, and but for
its resizes. What is known after each step is that the nodes so far all have values, that these have their
described shapes, and that their elements fill them and are counted; from this the next node finds its
operands, reads them inside their bounds, and fills its own shape. A resize is accepted for an image without
rows, of which it can make no row: evaluation succeeds exactly where no scheduled resize is asked to, and
where words hold what is counted on the way.

## Main statements

* `Node.Acts.exists_apply_iff` — an operation on operands that fill their shapes.
* `exists_evaluateNode_iff`, `exists_evaluateNodes_iff` — the step and the run.
* `exists_evaluate_iff` — a bound schedule is evaluated exactly where its nodes are fed.
* `hollow_not_evaluated` — a resize that is not.

## §1 — operations
## §2 — evaluating a schedule
## §3 — outputs
## §4 — an image without rows
-/

namespace TexelFlow

/-! ## §1 — operations -/

/-- Values that fill a shape whose elements are counted. -/
structure Values.Whole (v : Values) : Prop where
  /-- The elements fill the shape. -/
  filled : v.Filled
  /-- They are counted. -/
  counted : v.shape.Counted

namespace Convolution

variable {n : Node} {node : String} {p : Params} {g : Geometry} {input kernel v : Values} {bias : Option Values}

/-- Room for the image that a geometry makes is room for its shape. -/
theorem Geometry.hasRoom_iff {shape kernelShape : Shape} {depthwise : Bool}
    (hg : resolve node p shape kernelShape depthwise = .ok g) (hshape : shape.Counted) :
    g.output.HasRoom ↔ (g.outputShape shape).HasRoom := by
  have himage := (resolve_eq_ok hg).1
  have hheight : g.outH < Size.modulus :=
    out_lt_of_axis (Image.height_lt himage hshape) (axes_of_resolve hg).1
  exact Image.hasRoom_iff himage hheight

theorem whole_of_apply (h : apply n input kernel bias = .ok v) (hinput : input.shape.Counted) : v.Whole := by
  refine ⟨filled_of_apply h, ?_⟩
  obtain ⟨p, g, rows, -, hg, hroom, -, rfl⟩ := apply_eq_ok_iff.mp h
  exact ((Geometry.hasRoom_iff hg hinput).mp hroom).1

end Convolution

namespace Resize

variable {n : Node} {p : Params} {input v : Values} {size : Option Tensor} {image : Image}

theorem Params.outputShape_eq {node : String} {shape : Shape} (h : Image.ofShape node shape = .ok image)
    (p : Params) : p.outputShape shape = (p.output image).inPlaceOf shape := by
  unfold outputShape
  obtain ⟨batch, rfl | rfl, rfl⟩ := Image.ofShape_eq_ok h
  · rfl
  · rfl

/-- Room for the image that a resize makes is room for its shape. -/
theorem Params.hasRoom_iff {shape : Shape} (hp : resolve n shape size = .ok p)
    (himage : Image.ofShape n.name shape = .ok image) :
    (p.output image).HasRoom ↔ (p.outputShape shape).HasRoom := by
  rw [outputShape_eq himage]
  exact Image.hasRoom_iff himage (outH_lt hp)

theorem whole_of_apply (h : apply n input size = .ok v) : v.Whole := by
  refine ⟨filled_of_apply h, ?_⟩
  obtain ⟨p, image, rows, hp, himage, hroom, -, -, rfl⟩ := apply_eq_ok_iff.mp h
  exact ((Params.hasRoom_iff hp himage).mp hroom).1

end Resize

namespace Node

variable {n : Node} {data : String → Option Tensor} {operands : List Values} {shape : Shape}

/-- What an operation gives is whole, where its operands are. -/
theorem Acts.whole (hacts : n.Acts data operands shape) (hoperands : ∀ v ∈ operands, v.Whole) {v : Values}
    (h : n.apply operands data = .ok v) : v.Whole := by
  cases hacts with
  | pair _ happly _ =>
    rw [happly] at h
    exact ⟨Pairwise.filled_of_apply h, (Pairwise.apply_eq_ok_iff.mp h).2.1.room.1⟩
  | @alone x _ happly =>
    rw [happly] at h
    obtain rfl := Except.ok.inj h
    obtain ⟨hfilled, hcounted⟩ := hoperands x List.mem_cons_self
    refine ⟨?_, hcounted⟩
    unfold Values.Filled rectify
    rw [Array.size_map]
    exact hfilled
  | @convolution x y zs p g _ happly _ _ _ =>
    rw [happly] at h
    exact Convolution.whole_of_apply h (hoperands x List.mem_cons_self).counted
  | resize _ happly _ =>
    rw [happly] at h
    exact Resize.whole_of_apply h

/-- **What a node needs** besides operands that go together: words for what it counts, and room. -/
structure Fed (n : Node) (operands : List Shape) (shape : Shape) : Prop where
  /-- Words hold the strides of a sum or a product, and of its operands. -/
  strided : n.op = .add ∨ n.op = .mul → ∀ s ∈ shape :: operands, s.Strided
  /-- There is room for what is computed, unless it is as large as an operand anyway. -/
  room : n.op.isData = false → n.op ≠ .relu → shape.HasRoom
  /-- A resize makes rows and columns of rows and columns. -/
  sourced : n.op = .resize → ∀ x ∈ operands.head?, ∀ source output, Image.ofShape n.name x = .ok source →
    Image.ofShape n.name shape = .ok output → Resize.Sourced source output

/-- What is given needs nothing. -/
theorem fed_of_isData (h : n.op.isData) (operands : List Shape) (shape : Shape) : n.Fed operands shape where
  strided := by
    rintro (hop | hop)
    · rw [hop] at h
      cases h
    · rw [hop] at h
      cases h
  room := fun hop => absurd h (by rw [hop]; decide)
  sourced := by
    intro hop
    rw [hop] at h
    cases h

/-- What is neither a sum nor a product nor a resize needs room at most. -/
theorem fed_iff_of_op {inputs : List Shape} (hadd : n.op ≠ .add) (hmul : n.op ≠ .mul)
    (hresize : n.op ≠ .resize) :
    n.Fed inputs shape ↔ (n.op.isData = false → n.op ≠ .relu → shape.HasRoom) :=
  ⟨Fed.room, fun hroom => ⟨fun hop => absurd hop (not_or.mpr ⟨hadd, hmul⟩), hroom,
    fun hop => absurd hop hresize⟩⟩

/-- **An operation has a result** on operands that are whole exactly where it is fed. -/
theorem Acts.exists_apply_iff (hacts : n.Acts data operands shape) (hoperands : ∀ v ∈ operands, v.Whole) :
    (∃ v, n.apply operands data = .ok v) ↔ n.Fed (operands.map Values.shape) shape := by
  cases hacts with
  | @pair x y op _ hop happly hshape =>
    rw [happly, Pairwise.exists_apply_iff hshape (hoperands x (by simp)).filled
      (hoperands y (by simp)).filled]
    have hresize : n.op ≠ .resize := by rcases hop with hop | hop <;> simp [hop]
    have hdata : n.op.isData = false := by rcases hop with hop | hop <;> simp [hop, Operator.isData]
    have hrelu : n.op ≠ .relu := by rcases hop with hop | hop <;> simp [hop]
    constructor
    · intro hcountable
      exact ⟨fun _ => hcountable.strided, fun _ _ => hcountable.room, fun hop => absurd hop hresize⟩
    · intro hfed
      exact ⟨hfed.strided hop, hfed.room hdata hrelu⟩
  | alone hop happly =>
    refine iff_of_true ⟨_, happly⟩ ?_
    rw [fed_iff_of_op (by simp [hop]) (by simp [hop]) (by simp [hop])]
    exact fun _ hrelu => absurd hop hrelu
  | @convolution x y zs p g hop happly hp hg hbias =>
    have hz : ∀ z ∈ zs[0]?, z.elements.size = g.outC := by
      intro z hz
      have hmem : z ∈ x :: y :: zs :=
        List.mem_cons_of_mem _ (List.mem_cons_of_mem _ (List.mem_of_getElem? hz))
      exact (hoperands z hmem).filled.trans (Shape.prod_of_counted (hbias z hz))
    rw [happly, Convolution.exists_apply_iff hp hg (hoperands x (by simp)).filled
      (hoperands y (by simp)).filled hz, Convolution.Geometry.hasRoom_iff hg (hoperands x (by simp)).counted]
    have hdata : n.op.isData = false := by
      cases h : n.op <;> rw [h] at hop <;> first | rfl | cases hop
    rw [fed_iff_of_op (by rintro h; simp [h, Operator.isConvolution] at hop)
      (by rintro h; simp [h, Operator.isConvolution] at hop)
      (by rintro h; simp [h, Operator.isConvolution] at hop)]
    have hrelu : n.op ≠ .relu := by
      rintro h
      simp [h, Operator.isConvolution] at hop
    exact ⟨fun hroom _ _ => hroom, fun hroom => hroom hdata hrelu⟩
  | @resize x zs p hop happly hp =>
    obtain ⟨image, himage⟩ := Resize.Params.resolve_eq_ok hp
    rw [happly, Resize.exists_apply_iff hp himage (hoperands x (by simp)).filled,
      Resize.Params.hasRoom_iff hp himage]
    have hdata : n.op.isData = false := by simp [hop, Operator.isData]
    have houtput : Image.ofShape n.name (p.outputShape x.shape) = .ok (p.output image) := by
      rw [Resize.Params.outputShape_eq himage]
      exact Image.ofShape_inPlaceOf himage _
    constructor
    · rintro ⟨hroom, hsourced⟩
      refine ⟨by simp [hop], fun _ _ => hroom, fun _ s hs source output hsource hout => ?_⟩
      obtain rfl := Option.some.inj hs
      obtain rfl := Except.ok.inj (himage.symm.trans hsource)
      obtain rfl := Except.ok.inj (houtput.symm.trans hout)
      exact hsourced
    · intro hfed
      exact ⟨hfed.room hdata (by simp [hop]), hfed.sourced hop x.shape rfl image _ himage houtput⟩

end Node

/-! ## §2 — evaluating a schedule -/

namespace Schedule

/-- The exact number of elements of every scheduled node fits a word. -/
def Sized (s : Schedule) : Prop :=
  ∀ name d, s.descriptors.find? name = some d → d.shape.prod < Size.modulus

/-- Inputs and constants are numeric. -/
def Numeric (s : Schedule) : Prop :=
  (∀ i ∈ s.inputs, i.dtype.isNumeric) ∧ ∀ name t, s.constants.find? name = some t → t.dtype.isNumeric

/-- A node is fed, by the shapes that the schedule says. -/
def FedAt (s : Schedule) (n : Node) : Prop :=
  ∀ inputs d, List.Forall₂ (fun name i => s.descriptors.find? name = some i) n.inputNames inputs →
    s.descriptors.find? n.name = some d → n.Fed (inputs.map Descriptor.shape) d.shape

/-- All scheduled nodes are fed. -/
def Fed (s : Schedule) : Prop := ∀ n ∈ s.nodes, s.FedAt n

/-- What is known once some nodes are evaluated: all of them have values, every value has its described
shape, and is whole. -/
structure Knows (s : Schedule) (before : List Node) (known : Named Values) : Prop where
  /-- Every node so far has a value. -/
  complete : ∀ name ∈ before.map (·.name), ∃ v, known.find? name = some v
  /-- Values have their described shapes. -/
  described : s.Described known
  /-- Values are whole. -/
  whole : ∀ name v, known.find? name = some v → v.Whole

variable {s : Schedule} {known : Named Values} {before : List Node} {n : Node} {bound : Tensors}

theorem knows_empty : s.Knows [] .empty where
  complete := fun name h => absurd h List.not_mem_nil
  described := described_empty
  whole := by
    intro name v h
    rw [Named.find?_empty] at h
    cases h

theorem Knows.insert (h : s.Knows before known) {v : Values} {d : Descriptor}
    (hd : s.descriptors.find? n.name = some d) (hshape : v.shape = d.shape) (hv : v.Whole) :
    s.Knows (before ++ [n]) (known.insert n.name v) where
  complete := by
    intro name hname
    rw [Named.find?_insert]
    split
    · exact ⟨v, rfl⟩
    · rename_i hne
      rw [List.map_append, List.mem_append] at hname
      rcases hname with hname | hname
      · exact h.complete name hname
      · exact absurd (List.mem_singleton.mp hname).symm hne
  described := h.described.insert hd hshape
  whole := by
    intro key w hw
    rw [Named.find?_insert] at hw
    split at hw
    · obtain rfl := Option.some.inj hw
      exact hv
    · exact h.whole key w hw

/-- Names that are known have their values. -/
theorem exists_operands {names : List String} (h : ∀ name ∈ names, ∃ v, known.find? name = some v) :
    ∃ operands, List.Forall₂ (fun name v => known.find? name = some v) names operands := by
  induction names with
  | nil => exact ⟨[], .nil⟩
  | cons name names ih =>
    obtain ⟨v, hv⟩ := h name List.mem_cons_self
    obtain ⟨operands, hoperands⟩ := ih fun name' hname' => h name' (List.mem_cons_of_mem _ hname')
    exact ⟨v :: operands, .cons hv hoperands⟩

theorem evaluateNode_eq (hop : n.op.isData = false) {operands : List Values}
    (h : List.Forall₂ (fun name v => known.find? name = some v) n.inputNames operands) :
    s.evaluateNode bound known n = n.apply operands (s.data? bound) := by
  unfold evaluateNode
  rw [if_neg (by rw [hop]; decide)]
  refine Outcome.bind_of_eq_ok (Outcome.mapM_eq_ok_iff.mpr (h.imp fun name v hv => ?_)) _
  rw [hv]

theorem exists_name_of_operand {names : List String} {operands : List Values}
    (h : List.Forall₂ (fun name v => known.find? name = some v) names operands) {v : Values}
    (hv : v ∈ operands) : ∃ name, known.find? name = some v := by
  induction h with
  | nil => exact absurd hv List.not_mem_nil
  | cons hname _ ih =>
    rcases List.mem_cons.mp hv with rfl | hv
    · exact ⟨_, hname⟩
    · exact ih hv

/-- Names of values that have described shapes have descriptors. -/
theorem exists_inputs (h : s.Described known) {names : List String} {operands : List Values}
    (hoperands : List.Forall₂ (fun name v => known.find? name = some v) names operands) :
    ∃ inputs, List.Forall₂ (fun name i => s.descriptors.find? name = some i) names inputs := by
  induction hoperands with
  | nil => exact ⟨[], .nil⟩
  | cons hv _ ih =>
    obtain ⟨inputs, hinputs⟩ := ih
    obtain ⟨d, hd, -⟩ := h _ _ hv
    exact ⟨d :: inputs, .cons hd hinputs⟩

/-- Being fed is about the values of the inputs. -/
theorem Knows.fedAt_iff (h : s.Knows before known) {operands : List Values}
    (hoperands : List.Forall₂ (fun name v => known.find? name = some v) n.inputNames operands)
    {d : Descriptor} (hd : s.descriptors.find? n.name = some d) :
    s.FedAt n ↔ n.Fed (operands.map Values.shape) d.shape := by
  have hsame : ∀ inputs, List.Forall₂ (fun name i => s.descriptors.find? name = some i) n.inputNames inputs →
      operands.map Values.shape = inputs.map Descriptor.shape := by
    intro inputs hinputs
    rw [← List.forall₂_eq_eq_eq, List.forall₂_map_left_iff, List.forall₂_map_right_iff]
    exact h.described.haveShapes hoperands hinputs
  constructor
  · intro hfed
    obtain ⟨inputs, hinputs⟩ := exists_inputs h.described hoperands
    rw [hsame inputs hinputs]
    exact hfed inputs d hinputs hd
  · intro hfed inputs d' hinputs hd'
    obtain rfl := Option.some.inj (hd.symm.trans hd')
    rwa [← hsame inputs hinputs]

end Schedule

theorem Values.exists_ofTensor {name : String} {t : Tensor} (h : t.dtype.isNumeric) :
    ∃ v, Values.ofTensor name t = .ok v := by
  unfold Values.ofTensor Tensor.widened
  unfold Tensor.dtype at h
  cases hdata : t.data with
  | float32 | int32 | bool => exact ⟨_, rfl⟩
  | string =>
    rw [hdata] at h
    cases h

/-- The values of a tensor are whole. -/
theorem Values.whole_ofTensor {name : String} {t : Tensor} {v : Values} (h : Values.ofTensor name t = .ok v) :
    v.Whole := by
  unfold Values.ofTensor at h
  split at h
  · rename_i elements hwidened
    obtain rfl := Except.ok.inj h
    have hlength : elements.length = t.data.length := by
      unfold Tensor.widened at hwidened
      cases hdata : t.data with
      | float32 | int32 | bool =>
        rw [hdata] at hwidened
        obtain rfl := Option.some.inj hwidened
        simp [TensorData.length]
      | string =>
        rw [hdata] at hwidened
        cases hwidened
    refine ⟨?_, Shape.counted_of_eq_ok t.filled⟩
    unfold Filled
    rw [List.size_toArray, hlength, Shape.prod_of_counted t.filled]
  · cases h

namespace Graph

section Scheduled

variable {g : Graph} {r : Request} {s : Schedule} {given bound : Tensors} (hb : g.Built)
  (hs : g.schedule r = .ok s) (hbind : s.bind given = .ok bound)

include hbind in
/-- What is bound to an input, and what is constant, is numeric. -/
theorem numeric_of_data? (hnumeric : s.Numeric) {name : String} {t : Tensor}
    (h : s.data? bound name = some t) : t.dtype.isNumeric := by
  unfold Schedule.data? at h
  split at h
  · rename_i u hu
    obtain rfl := Option.some.inj h
    obtain ⟨i, hi, -, -, hdtype⟩ := (Schedule.bind_eq_ok hbind).2 name _ hu
    rw [hdtype]
    exact hnumeric.1 i hi
  · exact hnumeric.2 name t h

variable {before : List Node} {known : Named Values} {n : Node}

include hb hs in
theorem exists_known_operands {after : List Node} (hsplit : s.nodes = before ++ n :: after)
    (hknows : s.Knows before known) :
    ∃ operands, List.Forall₂ (fun name v => known.find? name = some v) n.inputNames operands := by
  exact Schedule.exists_operands fun name hname =>
    hknows.complete name (scheduledNodes_behind hb hs hsplit hname)

include hb hs hbind in
/-- **A step has a result** exactly where its node is fed. -/
theorem exists_evaluateNode_iff (hnumeric : s.Numeric)
    (hsizes : s.SizesKnown bound) {after : List Node} (hsplit : s.nodes = before ++ n :: after)
    (hknows : s.Knows before known) :
    (∃ v, s.evaluateNode bound known n = .ok v) ↔ s.FedAt n := by
  have hn : n ∈ s.nodes := by
    rw [hsplit]
    exact List.mem_append_right _ List.mem_cons_self
  by_cases hop : n.op.isData
  · obtain ⟨t, ht, -⟩ := data_described hs hbind hn hop
    have hresult : ∃ v, s.evaluateNode bound known n = .ok v := by
      unfold Schedule.evaluateNode
      rw [if_pos hop, ht]
      exact Values.exists_ofTensor (numeric_of_data? hbind hnumeric ht)
    exact iff_of_true hresult fun inputs d _ _ => Node.fed_of_isData hop _ _
  · have hop : n.op.isData = false := by simpa using hop
    obtain ⟨operands, hoperands⟩ := exists_known_operands hb hs hsplit hknows
    obtain ⟨d, hfind, hacts⟩ := scheduled_acts hs hsizes hknows.described hn hop hoperands
    rw [Schedule.evaluateNode_eq hop hoperands, hknows.fedAt_iff hoperands hfind]
    refine hacts.exists_apply_iff fun v hv => ?_
    obtain ⟨name, hname⟩ := Schedule.exists_name_of_operand hoperands hv
    exact hknows.whole name v hname

include hs hbind in
/-- After a step the node is known besides. -/
theorem knows_of_evaluateNode (hsizes : s.SizesKnown bound) (hn : n ∈ s.nodes)
    (hknows : s.Knows before known) {v : Values} (h : s.evaluateNode bound known n = .ok v) :
    s.Knows (before ++ [n]) (known.insert n.name v) := by
  obtain ⟨d, hfind, hshape⟩ := evaluateNode_described hs hbind hsizes hknows.described hn h
  refine hknows.insert hfind hshape ?_
  by_cases hop : n.op.isData
  · obtain ⟨t, ht, -⟩ := data_described hs hbind hn hop
    unfold Schedule.evaluateNode at h
    rw [if_pos hop, ht] at h
    exact Values.whole_ofTensor h
  · have hop : n.op.isData = false := by simpa using hop
    obtain ⟨operands, hoperands, happly⟩ := Schedule.evaluateNode_eq_ok hop h
    obtain ⟨d', hfind', hacts⟩ := scheduled_acts hs hsizes hknows.described hn hop hoperands
    refine hacts.whole (fun w hw => ?_) happly
    obtain ⟨name, hname⟩ := Schedule.exists_name_of_operand hoperands hw
    exact hknows.whole name w hname

include hs hbind in
/-- After a run all its nodes are known. -/
theorem knows_of_evaluateNodes (hsizes : s.SizesKnown bound) {after : List Node}
    (hsplit : s.nodes = before ++ after) (hknows : s.Knows before known) {known' : Named Values}
    (h : s.evaluateNodes bound known after = .ok known') : s.Knows s.nodes known' := by
  induction after generalizing before known with
  | nil =>
    rw [Schedule.evaluateNodes] at h
    cases h
    rw [hsplit, List.append_nil]
    exact hknows
  | cons n after ih =>
    have hn : n ∈ s.nodes := by
      rw [hsplit]
      exact List.mem_append_right _ List.mem_cons_self
    rw [Schedule.evaluateNodes] at h
    obtain ⟨v, hv, h⟩ := Outcome.bind_eq_ok_iff.mp h
    exact ih (by rw [hsplit, List.append_assoc]; rfl)
      (knows_of_evaluateNode hs hbind hsizes hn hknows hv) h

include hb hs hbind in
/-- **The run has a result** exactly where all nodes on its way are fed. -/
theorem exists_evaluateNodes_iff (hnumeric : s.Numeric)
    (hsizes : s.SizesKnown bound) {after : List Node} (hsplit : s.nodes = before ++ after)
    (hknows : s.Knows before known) :
    (∃ known', s.evaluateNodes bound known after = .ok known') ↔ ∀ n ∈ after, s.FedAt n := by
  -- what is known of the nodes before carries the induction: with it each step is fed or faulty
  induction after generalizing before known with
  | nil =>
    rw [Schedule.evaluateNodes]
    exact iff_of_true ⟨known, rfl⟩ fun n hn => absurd hn List.not_mem_nil
  | cons n after ih =>
    have hn : n ∈ s.nodes := by
      rw [hsplit]
      exact List.mem_append_right _ List.mem_cons_self
    have hstep := exists_evaluateNode_iff hb hs hbind hnumeric hsizes hsplit hknows
    have hrest : ∀ v, s.evaluateNode bound known n = .ok v →
        ((∃ known', s.evaluateNodes bound (known.insert n.name v) after = .ok known') ↔
          ∀ n ∈ after, s.FedAt n) :=
      fun v hv => ih (by rw [hsplit, List.append_assoc]; rfl)
        (knows_of_evaluateNode hs hbind hsizes hn hknows hv)
    rw [Schedule.evaluateNodes, List.forall_mem_cons]
    constructor
    · rintro ⟨known', h⟩
      obtain ⟨v, hv, h⟩ := Outcome.bind_eq_ok_iff.mp h
      exact ⟨hstep.mp ⟨v, hv⟩, (hrest v hv).mp ⟨known', h⟩⟩
    · rintro ⟨hfed, hafter⟩
      obtain ⟨v, hv⟩ := hstep.mpr hfed
      obtain ⟨known', h⟩ := (hrest v hv).mpr hafter
      exact ⟨known', Outcome.bind_eq_ok_iff.mpr ⟨v, hv, h⟩⟩

end Scheduled

/-! ## §3 — outputs -/

/-- **A bound schedule is evaluated without a fault**, where its data are numeric and the bound sizes of
resizes are the inferred ones, exactly when all its nodes are fed. -/
theorem exists_evaluate_iff {g : Graph} (hb : g.Built) {r : Request} {s : Schedule}
    (hs : g.schedule r = .ok s) {given bound : Tensors} (hbind : s.bind given = .ok bound)
    (hnumeric : s.Numeric) (hsizes : s.SizesKnown bound) :
    (∃ out, s.evaluate bound = .ok out) ↔ s.Fed := by
  have hstart : s.nodes = [] ++ s.nodes := rfl
  have hrun := exists_evaluateNodes_iff hb hs hbind hnumeric hsizes hstart Schedule.knows_empty
  unfold Schedule.Fed
  rw [← hrun]
  constructor
  · rintro ⟨out, hout⟩
    obtain ⟨known, -, hknown, -, -⟩ := evaluate_eq_ok hout
    exact ⟨known, hknown⟩
  · rintro ⟨known, hknown⟩
    have hknows := knows_of_evaluateNodes hs hbind hsizes hstart Schedule.knows_empty hknown
    -- every output is that of a scheduled node, whose value fills a counted shape
    obtain ⟨entries, hentries⟩ :
        ∃ entries, s.outputs.mapM (Schedule.takeOutput known) = .ok entries := by
      refine Outcome.exists_mapM_eq_ok fun o ho => ?_
      obtain ⟨v, hv⟩ := hknows.complete _ (output_mem_scheduledNames hb hs ho)
      obtain ⟨hfilled, hcounted⟩ := hknows.whole _ v hv
      obtain ⟨t, ht⟩ := Values.exists_toTensor hcounted hfilled
      exact ⟨(o.name, t), takeOutput_eq_ok_iff.mpr ⟨rfl, v, hv, ht⟩⟩
    refine ⟨.ofList entries, Outcome.bind_eq_ok_iff.mpr ⟨known, hknown, ?_⟩⟩
    exact Outcome.bind_eq_ok_iff.mpr ⟨entries, hentries, rfl⟩

theorem resized_numeric : resizedSchedule.Numeric := by
  refine ⟨by decide, fun name t h => ?_⟩
  have hnone : resizedSchedule.constants.find? name = none := Named.find?_empty name
  rw [hnone] at h
  cases h

/-- A resize of one element to one element is evaluated, and so it is fed. -/
theorem resized_fed : resized.Built ∧ resized.schedule resizedRequest = .ok resizedSchedule ∧
    resizedSchedule.bind (resizedGiven .one) = .ok (resizedGiven .one) ∧
    resizedSchedule.Numeric ∧ resizedSchedule.SizesKnown (resizedGiven .one) ∧
    resizedSchedule.evaluate (resizedGiven .one) = .ok resizedOutputs ∧ resizedSchedule.Fed :=
  ⟨resized_built, resized_schedule, resized_bind _, resized_numeric, resized_sizesKnown, resized_evaluate,
    (exists_evaluate_iff resized_built resized_schedule (resized_bind _) resized_numeric
      resized_sizesKnown).mp ⟨_, resized_evaluate⟩⟩

/-! ## §4 — an image without rows -/

/-- An image without rows that is resized to one element, and a product that has none. -/
def hollowNodes : List Node :=
  [⟨"x", .placeholder, [], .ofList [("shape", .numbers [.zero, .one, .one])], []⟩,
   ⟨"k", .const, [], .empty, []⟩,
   ⟨"r", .resize, [.first "x"], .ofList [("size", .numbers [.one, .one])], []⟩,
   ⟨"y", .mul, [.first "r", .first "k"], .empty, ["k"]⟩]

/-- The other factor, without elements. -/
def hollowConstants : Tensors := .ofList [("k", ⟨[0], .float32 [], rfl⟩)]

/-- The graph of the product. -/
def hollow : Graph where
  nodes := hollowNodes
  constants := hollowConstants
  signature := none
  named := by decide
  distinct := by decide
  wired := by decide
  given := by decide

theorem hollow_built : hollow.Built := .assembled hollowNodes hollowConstants none (by cbv)

/-- The product is asked for. -/
def hollowRequest : Request := ⟨["y"], .kept, .empty, none⟩

/-- The schedule of the product, which has no elements. -/
def hollowSchedule : Schedule where
  nodes := [hollowNodes[1], hollowNodes[0], hollowNodes[2], hollowNodes[3]]
  descriptors := .ofList [("k", ⟨[0], .float32⟩), ("x", ⟨[0, 1, 1], .float32⟩),
    ("r", ⟨[1, 1, 1], .float32⟩), ("y", ⟨[1, 1, 0], .float32⟩)]
  inputs := [⟨"x", "x", .float32, some [0, 1, 1], [0, 1, 1]⟩]
  outputs := [⟨"y", "y"⟩]
  constants := hollowConstants
  batch := .kept

theorem hollow_schedule : hollow.schedule hollowRequest = .ok hollowSchedule := by
  have hneeded : hollow.dependencies.ancestors
      (hollowSchedule.outputs.filterMap fun o => hollow.place? o.node) =
      [⟨1, by decide⟩, ⟨0, by decide⟩, ⟨2, by decide⟩, ⟨3, by decide⟩] := by cbv
  have hnodes : hollow.neededNodes [⟨1, by decide⟩, ⟨0, by decide⟩, ⟨2, by decide⟩, ⟨3, by decide⟩]
      hollowSchedule.outputs = hollowSchedule.nodes := by
    unfold neededNodes keptVertices
    rw [hneeded]
    cbv
  exact schedule_of_stages (by cbv) (by cbv) hnodes (by decide +kernel) (by cbv)
    (by decide +kernel) rfl rfl

/-- The image without rows. -/
def hollowGiven : Tensors := .ofList [("x", ⟨[0, 1, 1], .float32 [], rfl⟩)]

theorem hollow_bind : hollowSchedule.bind hollowGiven = .ok hollowGiven := by cbv

theorem hollow_sized : hollowSchedule.Sized := by
  intro name d h
  have hall : ∀ e ∈ hollowSchedule.descriptors.entries, e.2.shape.prod < Size.modulus := by decide
  exact hall (name, d) (Named.mem_entries_iff.mpr h)

theorem hollow_numeric : hollowSchedule.Numeric := by
  refine ⟨by decide, fun name t h => ?_⟩
  have hall : ∀ e ∈ hollowConstants.entries, e.2.dtype.isNumeric := by decide
  exact hall (name, t) (Named.mem_entries_iff.mpr h)

theorem hollow_sizesKnown : hollowSchedule.SizesKnown hollowGiven := by
  refine Schedule.sizesKnown_of_inputs hollow_bind fun n hn hop x hx => ?_
  have hone : ∀ m ∈ hollowSchedule.nodes, m.op = .resize → m.inputNames[1]? = none := by decide
  rw [hone n hn hop] at hx
  cases hx

/-- The resize in front of the product looks for the last row of none, though no size is bound and the output has
no elements. -/
theorem hollow_not_evaluated : hollow.Built ∧ hollow.schedule hollowRequest = .ok hollowSchedule ∧
    hollowSchedule.bind hollowGiven = .ok hollowGiven ∧ hollowSchedule.Sized ∧
    hollowSchedule.Numeric ∧ hollowSchedule.SizesKnown hollowGiven ∧
    hollowSchedule.evaluate hollowGiven = .error (.breach .underflow) :=
  ⟨hollow_built, hollow_schedule, hollow_bind, hollow_sized, hollow_numeric, hollow_sizesKnown,
    by decide +kernel⟩

end Graph

end TexelFlow
