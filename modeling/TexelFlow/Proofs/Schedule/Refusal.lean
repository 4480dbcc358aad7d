import TexelFlow.Proofs.Graph.Reference
import TexelFlow.Proofs.Schedule.Described

/-!
# What scheduling refuses

An error is plain when it says what is wrong with what was given, cycles apart, or that a size is too large
for a word: another breach is not plain, nor is a texture without a layout, which is nothing that anybody
gives. Every stage of scheduling but the ordering of the nodes fails with plain errors only, so a schedule
that is refused for a cycle was refused by the ordering, and a breach comes of a size alone.

## Main statements

* `Operator.infer_plain` — inference fails with plain errors only.
* `Graph.schedule_eq_error` — a schedule is refused for a cycle or with a plain error.

## §1 — plain errors
## §2 — operations
## §3 — inputs and outputs
## §4 — schedules
-/

namespace TexelFlow

/-! ## §1 — plain errors -/

/-- An error that is no cycle, no texture without a layout, and no breach but for a size that is too large. -/
def Error.isPlain : Error → Bool
  | .breach .overflow => true
  | .breach _ => false
  | .graph (.cycle _) => false
  | .graph (.noLayout _) => false
  | _ => true

namespace Outcome

variable {α β : Type}

/-- Where an outcome is an error, it is a plain one. -/
def Plain (x : Outcome α) : Prop := ∀ e, x = .error e → e.isPlain

theorem plain_ok (a : α) : Plain (.ok a : Outcome α) := by
  intro e h
  cases h

theorem plain_pure (a : α) : Plain (pure a : Outcome α) := plain_ok a

theorem plain_error {e : Error} (h : e.isPlain) : Plain (.error e : Outcome α) := by
  intro e' h'
  cases h'
  exact h

theorem plain_throw {e : Error} (h : e.isPlain) : Plain (throw e : Outcome α) := plain_error h

/-- Two steps, the second of which needs to be plain on results of the first only. -/
theorem Plain.bind {x : Outcome α} {f : α → Outcome β} (hx : Plain x)
    (hf : ∀ a, x = .ok a → Plain (f a)) : Plain (x >>= f) := by
  intro e h
  rcases bind_eq_error_iff.mp h with h | ⟨a, ha, h⟩
  · exact hx e h
  · exact hf a ha e h

theorem plain_check {c : Prop} [Decidable c] {e : Error} {f : α → Outcome β} {x : Outcome β}
    (he : e.isPlain) (hx : ¬ c → Plain x) : Plain (if c then throw e >>= f else x) := by
  intro e' h
  rcases check_eq_error_iff.mp h with ⟨-, rfl⟩ | ⟨hc, h⟩
  · exact he
  · exact hx hc e' h

theorem plain_mapM {f : α → Outcome β} {xs : List α} (h : ∀ x ∈ xs, Plain (f x)) :
    Plain (xs.mapM f) := by
  intro e he
  obtain ⟨x, hx, hfx⟩ := exists_of_mapM_eq_error he
  exact h x hx e hfx

theorem plain_fit (n : Nat) : Plain (Size.fit n) := by
  intro e he
  obtain ⟨-, rfl⟩ := Size.fit_eq_error_iff.mp he
  rfl

theorem plain_counted (shape : Shape) : Plain shape.counted := by
  intro e he
  obtain ⟨-, rfl⟩ := Shape.counted_eq_error_iff.mp he
  rfl

/-- A fault that is read as a plain error. -/
theorem plain_mapError {ε : Type} {x : Except ε α} {f : ε → Error} (h : ∀ fault, (f fault).isPlain) :
    Plain (x.mapError f) := by
  intro e he
  cases x with
  | ok a => cases he
  | error fault =>
    cases he
    exact h fault

end Outcome

open Outcome

/-! ## §2 — operations -/

theorem Node.required_plain (n : Node) (key : String) : Plain (n.required key) := by
  unfold Node.required
  split
  · exact plain_ok _
  · exact plain_error rfl

theorem Image.ofShape_plain (node : String) (shape : Shape) : Plain (Image.ofShape node shape) := by
  unfold Image.ofShape
  split
  · exact plain_ok _
  · split
    · exact plain_ok _
    · exact plain_error rfl
  · exact plain_error rfl

namespace Convolution

theorem readStrides_plain (n : Node) : Plain (readStrides n) := by
  unfold readStrides
  dsimp only
  refine (n.required_plain _).bind fun a _ => ?_
  split
  · exact plain_error rfl
  · split
    · exact plain_error rfl
    · split
      · exact plain_error rfl
      · exact plain_pure _

theorem readPadding_plain (n : Node) : Plain (readPadding n) := by
  unfold readPadding
  refine (n.required_plain _).bind fun a _ => ?_
  split
  · exact plain_error rfl
  · unfold Padding.parse
    split
    · exact plain_ok _
    · exact plain_ok _
    · exact plain_error rfl

theorem readActivation_plain (n : Node) : Plain (readActivation n) := by
  unfold readActivation
  split
  · unfold Activation.parse
    dsimp only
    split
    · exact plain_ok _
    · exact plain_error rfl
  · exact plain_ok _

theorem Params.ofNode_plain (n : Node) : Plain (Params.ofNode n) := by
  unfold Params.ofNode
  refine (readStrides_plain n).bind fun strides _ => ?_
  refine (readPadding_plain n).bind fun padding _ => ?_
  refine (readActivation_plain n).bind fun activation _ => ?_
  split
  · exact plain_throw rfl
  · exact plain_pure _

theorem axis_plain (node : String) (input kernel stride : Nat) (padding : Padding) :
    Plain (axis node input kernel stride padding) := by
  unfold axis
  split
  · exact plain_error rfl
  · split
    · exact (plain_fit _).bind fun steps _ => (plain_fit _).bind fun reach _ => plain_pure _
    · split
      · exact plain_error rfl
      · exact (plain_fit _).bind fun starts _ => plain_pure _

theorem outputChannels_plain (depthwise : Bool) (channels kernelOut : Nat) :
    Plain (outputChannels depthwise channels kernelOut) := by
  unfold outputChannels
  split
  · exact plain_fit _
  · exact plain_ok _

theorem Geometry.resolve_plain (node : String) (p : Params) (input kernel : Shape) (depthwise : Bool) :
    Plain (Geometry.resolve node p input kernel depthwise) := by
  unfold Geometry.resolve
  refine (Image.ofShape_plain _ _).bind fun image _ => ?_
  split
  · refine plain_check rfl fun _ => ?_
    refine (axis_plain _ _ _ _ _).bind fun rows _ => (axis_plain _ _ _ _ _).bind fun columns _ => ?_
    exact (outputChannels_plain _ _ _).bind fun outC _ => plain_pure _
  · exact plain_throw rfl

end Convolution

theorem Resize.Params.resolve_plain (n : Node) (input : Shape) (size : Option Tensor) :
    Plain (Resize.Params.resolve n input size) := by
  unfold Resize.Params.resolve
  dsimp only
  refine (Image.ofShape_plain _ _).bind fun image _ => ?_
  refine Plain.bind ?_ fun dims _ => ?_
  · unfold Resize.targetSize Resize.scaled
    dsimp only
    repeat' split
    all_goals first | exact plain_ok _ | exact plain_error rfl
  · split
    · split
      · exact plain_error rfl
      · exact plain_pure _
    · exact plain_error rfl

namespace Operator

theorem inferConvolution_plain (n : Node) (input kernel : Descriptor) (bias : Option Descriptor) :
    Plain (inferConvolution n input kernel bias) := by
  unfold inferConvolution
  refine (Convolution.Params.ofNode_plain n).bind fun p _ => ?_
  refine (Convolution.Geometry.resolve_plain _ _ _ _ _).bind fun g _ => ?_
  split
  · refine (plain_counted _).bind fun count _ => ?_
    split
    · exact plain_throw rfl
    · exact plain_pure _
  · exact plain_pure _

/-- **Inference fails with plain errors only.** -/
theorem infer_plain (n : Node) (inputs : List Descriptor) (constant : Nat → Option Tensor) :
    Plain (infer n inputs constant) := by
  unfold infer
  dsimp only
  split
  case h_1 | h_2 =>
    split
    · exact (plain_mapError fun _ => rfl).bind fun _ _ => plain_pure _
    · exact plain_error rfl
  case h_3 | h_4 =>
    split
    · exact plain_ok _
    · exact plain_error rfl
  case h_5 | h_6 | h_7 | h_8 =>
    split
    · split
      · exact plain_error rfl
      · exact inferConvolution_plain _ _ _ _
    · exact inferConvolution_plain _ _ _ _
    · exact plain_error rfl
  case h_9 =>
    split
    · exact (Resize.Params.resolve_plain _ _ _).bind fun _ _ => plain_pure _
    · exact (Resize.Params.resolve_plain _ _ _).bind fun _ _ => plain_pure _
    · exact plain_error rfl
  all_goals exact plain_error rfl

end Operator

/-! ## §3 — inputs and outputs -/

theorem Reference.parse_plain (text : String) : Plain (Reference.parse text) := by
  intro e he
  rcases parse_eq_error_iff.mp he with ⟨-, rfl⟩ | ⟨-, rfl⟩
  · rfl
  · rfl

theorem plain_of_input {α : Type} {x : Outcome α}
    (h : ∀ e, x = .error e → ∃ fault, e = .input fault) : Plain x := by
  intro e he
  obtain ⟨fault, rfl⟩ := h e he
  rfl

theorem InputSpec.pick_plain (i : InputSpec) (given : Tensors) : Plain (i.pick given) := by
  unfold InputSpec.pick
  split
  · exact plain_ok _
  · exact plain_error rfl

namespace Graph

variable {g : Graph}

theorem resolveOutputs_plain (wanted : List String) : Plain (g.resolveOutputs wanted) := by
  unfold resolveOutputs
  refine plain_check rfl fun _ => plain_mapM fun name _ => ?_
  unfold resolveOutput
  exact (Reference.parse_plain _).bind fun _ _ => plain_check rfl fun _ => plain_pure _

theorem declareInput_plain (batch : Batch) (n : Node) : Plain (g.declareInput batch n) := by
  unfold declareInput
  dsimp only
  split
  · exact (plain_ok _).bind fun _ _ => plain_pure _
  · refine Plain.bind ?_ fun _ _ => (plain_ok _).bind fun _ _ => plain_pure _
    unfold readType
    split
    all_goals first | exact plain_ok _ | exact plain_error rfl

theorem concreteShape_plain (i : InputSpec) (batch : Batch) : Plain (concreteShape i batch) := by
  have extents : ∀ (declared : List Int) (axis : Nat), Plain (concreteExtents i batch axis declared) := by
    intro declared
    induction declared with
    | nil => exact fun axis => plain_ok _
    | cons extent rest ih =>
      intro axis
      unfold concreteExtents
      refine Plain.bind ?_ fun _ _ => (ih _).bind fun _ _ => plain_pure _
      unfold concreteExtent
      split
      · exact plain_ok _
      · split
        · exact plain_ok _
        · exact plain_error rfl
  unfold concreteShape
  split
  · exact plain_error rfl
  · exact extents _ _

theorem inputSpec_plain (r : Request) (n : Node) : Plain (g.inputSpec r n) := by
  unfold inputSpec
  refine (declareInput_plain _ _).bind fun i _ => Plain.bind ?_ fun _ _ => plain_pure _
  unfold inputShape
  split
  · refine (i.pick_plain _).bind fun t _ => ?_
    exact (plain_of_input fun _ => InputSpec.prepare_eq_error).bind fun _ _ => plain_pure _
  · split
    · refine (plain_of_input fun _ => InputSpec.strip_eq_error).bind fun shape _ => ?_
      exact (plain_of_input fun _ => InputSpec.checkDeclared_eq_error).bind fun _ _ => plain_pure _
    · exact concreteShape_plain _ _

/-! ## §4 — schedules -/

/-- A node whose tensor is there, if it is a constant, is described or refused with a plain error. -/
theorem describeNode_plain {inputs : List InputSpec} {constants : Tensors} {known : Named Descriptor}
    {n : Node} (hconst : n.op = .const → ∃ t, constants.find? n.name = some t) :
    Plain (describeNode inputs constants known n) := by
  unfold describeNode
  split
  · split
    · exact plain_ok _
    · exact plain_error rfl
  · rename_i hop
    obtain ⟨t, ht⟩ := hconst hop
    rw [ht]
    exact plain_ok _
  · refine (plain_mapM fun name _ => ?_).bind fun operands _ => Operator.infer_plain _ _ _
    split
    · exact plain_ok _
    · exact plain_error rfl

theorem describeNodes_plain {inputs : List InputSpec} {constants : Tensors} {nodes : List Node}
    (hconst : ∀ n ∈ nodes, n.op = .const → ∃ t, constants.find? n.name = some t)
    (known : Named Descriptor) : Plain (describeNodes inputs constants known nodes) := by
  induction nodes generalizing known with
  | nil => exact plain_ok _
  | cons n rest ih =>
    unfold describeNodes
    refine (describeNode_plain (hconst n List.mem_cons_self)).bind fun d _ => ?_
    exact ih (fun m hm => hconst m (List.mem_cons_of_mem _ hm)) _

/-- **A schedule is refused** for a cycle, by the ordering of the nodes, or with a plain error. -/
theorem schedule_eq_error {r : Request} {e : Error} (h : g.schedule r = .error e) :
    g.ordered = .error e ∨ e.isPlain := by
  unfold schedule at h
  rcases bind_eq_error_iff.mp h with h | ⟨order, -, h⟩
  · exact .inl h
  refine .inr (Plain.bind (resolveOutputs_plain r.outputs) (fun outputs _ => ?_) e h)
  dsimp only
  refine (plain_mapM fun n _ => inputSpec_plain r n).bind fun inputs _ => ?_
  refine (describeNodes_plain (fun n hn => exists_constant_of_needed hn) _).bind fun _ _ => ?_
  split
  · exact (plain_of_input fun _ => Schedule.bind_eq_error).bind fun _ _ => plain_pure _
  · exact plain_pure _

theorem ordered_eq_error {e : Error} (h : g.ordered = .error e) :
    ∃ v, g.dependencies.order = .error v ∧ e = .graph (.cycle (g.nodeAt v).name) := by
  unfold ordered at h
  split at h
  · cases h
  · rename_i v hv
    cases h
    exact ⟨v, hv, rfl⟩

end Graph

end TexelFlow
