import TexelFlow.Proofs.Operator.Join

/-!
# Operands in another order

Sums and products take two operands of which neither comes first, and broadcasting treats both alike. What
does not is the type of the result, which is that of the first operand for every operation. So the shape of
a result, and whether there is one, follows from the shapes of the operands, whatever their types are and in
whichever order two of them are added or multiplied.

## Main statements

* `infer_map_shape` — the shape of a result, and every fault, follows from the shapes of the operands.
* `dtype_of_infer` — the type of a result is that of the first operand.
* `infer_exchange` — what exchanging two operands makes of a result.
-/

namespace TexelFlow

namespace Operator

variable {n n' : Node} {constant constant' : Nat → Option Tensor} {inputs inputs' : List Descriptor}
  {a b d : Descriptor}

/-- Whether an operation takes two operands of which neither comes first. -/
def isPairwise : Operator → Bool
  | .add => true
  | .mul => true
  | _ => false

theorem isPairwise_iff {op : Operator} : op.isPairwise ↔ op = .add ∨ op = .mul := by
  cases op <;> simp [isPairwise]

/-- The shape of a convolution follows from the shapes of its operands. -/
theorem inferConvolution_map_shape {i i' k k' : Descriptor} {bias bias' : Option Descriptor}
    (hi : i.shape = i'.shape) (hk : k.shape = k'.shape)
    (hbias : bias.map Descriptor.shape = bias'.map Descriptor.shape) :
    (inferConvolution n i k bias).map Descriptor.shape =
      (inferConvolution n i' k' bias').map Descriptor.shape := by
  unfold inferConvolution
  rw [hi, hk]
  refine Outcome.map_bind_congr fun p => Outcome.map_bind_congr fun g => ?_
  cases bias with
  | none =>
    obtain rfl := Option.map_eq_none_iff.mp hbias.symm
    rfl
  | some b =>
    obtain ⟨b', rfl, hb⟩ := Option.map_eq_some_iff.mp hbias.symm
    dsimp only
    rw [hb]
    refine Outcome.map_bind_congr fun count => ?_
    split
    · rfl
    · rfl

/-- **The shape of a result**, and every fault, follows from the shapes of the operands. -/
theorem infer_map_shape (n : Node) (constant : Nat → Option Tensor)
    (h : List.Forall₂ (fun d d' => d.shape = d'.shape) inputs inputs') :
    (infer n inputs constant).map Descriptor.shape = (infer n inputs' constant).map Descriptor.shape := by
  unfold infer
  dsimp only
  rw [h.length_eq]
  -- no operation looks at more than three operands one by one
  rcases h with _ | ⟨hfirst, _ | ⟨hsecond, _ | ⟨hthird, _ | ⟨-, -⟩⟩⟩⟩
  · split <;> rfl
  · split
    case h_3 | h_4 => exact congrArg Except.ok hfirst
    case h_9 =>
      dsimp only
      rw [hfirst]
      exact Outcome.map_bind_congr fun p => rfl
    all_goals rfl
  · split
    case h_1 | h_2 =>
      dsimp only
      rw [hfirst, hsecond]
      exact Outcome.map_bind_congr fun shape => rfl
    case h_5 | h_6 | h_7 | h_8 =>
      dsimp only
      split
      · rfl
      · exact inferConvolution_map_shape hfirst hsecond rfl
    case h_9 =>
      dsimp only
      rw [hfirst]
      exact Outcome.map_bind_congr fun p => rfl
    all_goals rfl
  · split
    case h_5 | h_6 | h_7 | h_8 =>
      exact inferConvolution_map_shape hfirst hsecond (congrArg some hthird)
    all_goals rfl
  · split <;> rfl

/-- **The type of a result** is that of the first operand. -/
theorem dtype_of_infer (h : infer n inputs constant = .ok d) :
    inputs.head?.map Descriptor.dtype = some d.dtype := by
  have hinfers := infers_of_infer h
  cases hinfers with
  | pair => rfl
  | alone => rfl
  | convolution => rfl
  | resize => rfl

/-- **Operands of the same shapes** give a result of the same shape. -/
theorem exists_infer_of_shapes (hinputs : List.Forall₂ (fun d d' => d.shape = d'.shape) inputs inputs')
    (h : infer n inputs constant = .ok d) : ∃ d', infer n inputs' constant = .ok d' ∧ d'.shape = d.shape := by
  have hmap := infer_map_shape n constant hinputs
  rw [h] at hmap
  cases h' : infer n inputs' constant with
  | error e =>
    rw [h'] at hmap
    cases hmap
  | ok d' =>
    rw [h'] at hmap
    exact ⟨d', rfl, (Except.ok.inj hmap).symm⟩

/-- What a pairwise operation makes of two operands. -/
theorem infer_pair_iff (hop : n.op.isPairwise) : infer n [a, b] constant = .ok d ↔
    a.shape.broadcast b.shape = .ok d.shape ∧ d.dtype = a.dtype := by
  have hinfer : infer n [a, b] constant =
      (pairShape n.name a.shape b.shape).bind fun shape => .ok ⟨shape, a.dtype⟩ := by
    unfold infer
    rcases isPairwise_iff.mp hop with hop | hop
    · rw [hop]
      rfl
    · rw [hop]
      rfl
  rw [hinfer]
  unfold pairShape
  cases a.shape.broadcast b.shape with
  | error fault => exact iff_of_false nofun (by rintro ⟨h, -⟩; cases h)
  | ok shape =>
    obtain ⟨result, dtype⟩ := d
    simp [Except.mapError, Except.bind, eq_comm]

/-- **Exchanging two operands** keeps the shape of the result, whose type is then that of the other one. -/
theorem infer_exchange (hop : n.op.isPairwise) (hop' : n'.op = n.op) (h : infer n [a, b] constant = .ok d) :
    infer n' [b, a] constant' = .ok ⟨d.shape, b.dtype⟩ := by
  obtain ⟨hshape, -⟩ := (infer_pair_iff hop).mp h
  exact (infer_pair_iff (hop' ▸ hop)).mpr ⟨Shape.broadcast_comm.mp hshape, rfl⟩

end Operator

end TexelFlow
