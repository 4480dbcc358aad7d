import TexelFlow.Proofs.Evaluate.Elements
import TexelFlow.Proofs.Evaluate.Shape
import TexelFlow.Proofs.Operator.Rank
import TexelFlow.Proofs.Schedule.Feeding

/-!
# The leading axis does not count

Inputs can be taken with their leading axis or without it. This module compares the two runs of one
graph on one set of tensors. Stripping leaves all elements where they are, so the runs start from
tensors that differ in leading extents of one alone, and no operation lets such extents reach its
elements: broadcasting reads an operand at the same position whatever stands in front, images are read
off the last three extents, and kernels and biases come from the same places. The runs need not fail
alike; where both have a result, it is the same one.

## Main statements

* `Pairwise.operandPosition_padded` — positions do not depend on the rank they are computed at.
* `Node.apply_alike` — every operation gives alike values for alike operands.
* `Graph.evaluateNodes_alike` — so does every run over the nodes of a schedule.
* `Graph.evaluate_stripped` — the outputs with and without the leading axis.

## §1 — alike tensors
## §2 — operations
## §3 — what is bound
## §4 — two runs
## §5 — a sum with its leading axis and without it
-/

namespace TexelFlow

/-! ## §1 — alike tensors -/

/-- The same elements, in shapes that differ at most by extents of one in front. -/
structure Tensor.Alike (t u : Tensor) : Prop where
  /-- They have the same elements. -/
  data : t.data = u.data
  /-- Without the extents of one in front, their shapes are the same. -/
  core : t.shape.core = u.shape.core

/-- The same for values. -/
structure Values.Alike (v w : Values) : Prop where
  /-- They have the same elements. -/
  elements : v.elements = w.elements
  /-- Without the extents of one in front, their shapes are the same. -/
  core : v.shape.core = w.shape.core

theorem Tensor.Alike.refl (t : Tensor) : t.Alike t := ⟨rfl, rfl⟩

theorem Tensor.Alike.widened {t u : Tensor} (h : t.Alike u) : t.widened = u.widened :=
  congrArg TensorData.widened h.data

namespace Values

variable {v w : Values} {t u : Tensor}

theorem Alike.read_eq (h : v.Alike w) : v.read = w.read := by
  obtain ⟨shape, elements⟩ := v
  obtain ⟨shape', elements'⟩ := w
  obtain rfl : elements = elements' := h.elements
  rfl

theorem alike_of_ofTensor {name : String} (hv : ofTensor name t = .ok v) (hw : ofTensor name u = .ok w)
    (h : t.Alike u) : v.Alike w := by
  unfold ofTensor at hv hw
  rw [h.widened] at hv
  cases hwidened : u.widened with
  | none => simp [hwidened] at hw
  | some elements =>
    rw [hwidened] at hv hw
    obtain rfl := Except.ok.inj hv
    obtain rfl := Except.ok.inj hw
    exact ⟨rfl, h.core⟩

theorem alike_of_toTensor (ht : v.toTensor = .ok t) (hu : w.toTensor = .ok u) (h : v.Alike w) :
    t.Alike u := by
  obtain ⟨hshape, hdata⟩ := toTensor_eq_ok_iff.mp ht
  obtain ⟨hshape', hdata'⟩ := toTensor_eq_ok_iff.mp hu
  exact ⟨by rw [hdata, hdata', h.elements], by rw [hshape, hshape', h.core]⟩

end Values

/-! ## §2 — operations -/

namespace Pairwise

variable {op : Binary32 → Binary32 → Binary32} {a b v a' b' v' : Values} {shape dims : Shape}
  {coords : List Nat} {position rank : Nat}

/-- Along a leading extent of one there is one coordinate, and it does not move. -/
theorem alignedPosition_one_cons (c : Nat) :
    alignedPosition (c :: coords) (1 :: dims) = alignedPosition coords dims := by
  rw [alignedPosition, if_pos rfl, Nat.zero_add]

theorem operandPosition_eq (h : dims.length ≤ coords.length) :
    operandPosition coords dims = alignedPosition coords (dims.padded coords.length) := by
  unfold operandPosition
  induction coords with
  | nil =>
    obtain rfl := List.length_eq_zero_iff.mp (Nat.le_zero.mp h)
    rfl
  | cons c coords ih =>
    rw [List.length_cons] at h ⊢
    by_cases hfull : dims.length = coords.length + 1
    · rw [← hfull, Nat.sub_self, List.drop_zero, Shape.padded_length]
    · have hle : dims.length ≤ coords.length := by omega
      rw [Nat.succ_sub hle, List.drop_succ_cons, Shape.padded_succ hle, alignedPosition_one_cons]
      exact ih hle

/-- **An operand is read at one position** at whatever rank it is computed. -/
theorem operandPosition_padded (hdims : dims.length ≤ shape.length) (hrank : shape.length ≤ rank)
    (hposition : position < shape.prod) :
    operandPosition (coordinates shape.strides position) dims =
      alignedPosition (coordinates (shape.padded rank).strides position) (dims.padded rank) := by
  have hlength : (coordinates shape.strides position).length = shape.length := by
    rw [length_coordinates, Shape.length_strides]
  induction rank, hrank using Nat.le_induction with
  | base => rw [operandPosition_eq (by omega), hlength, Shape.padded_length]
  | succ rank hrank ih =>
    have hinside : position % (shape.padded rank).count = position := by
      rw [Shape.count_eq_prod, Shape.prod_padded]
      exact Nat.mod_eq_of_lt hposition
    rw [ih, Shape.padded_succ hrank, Shape.padded_succ (by omega), Shape.strides, coordinates,
      alignedPosition_one_cons, hinside]

theorem apply_alike (h : apply op a b = .ok v) (h' : apply op a' b' = .ok v') (ha : a.Alike a')
    (hb : b.Alike b') : v.Alike v' := by
  have hshape := apply_shape h
  have hshape' := apply_shape h'
  have hcore : v.shape.core = v'.shape.core := Shape.broadcast_core hshape hshape' ha.core hb.core
  have hcount : v.shape.prod = v'.shape.prod := by rw [← Shape.prod_core, hcore, Shape.prod_core]
  have hlength := Shape.length_of_broadcast hshape
  have hlength' := Shape.length_of_broadcast hshape'
  let rank := max v.shape.length v'.shape.length
  have hpadded : v.shape.padded rank = v'.shape.padded rank :=
    Shape.padded_eq_padded hcore (by omega) (by omega)
  -- both results read their operands at the positions of the common rank
  have hoperand : ∀ {x x' : Values}, x.Alike x' → x.shape.length ≤ v.shape.length →
      x'.shape.length ≤ v'.shape.length → ∀ position < v.shape.prod,
      x.read (operandPosition (coordinates v.shape.strides position) x.shape) =
        x'.read (operandPosition (coordinates v'.shape.strides position) x'.shape) := by
    intro x x' hx hle hle' position hposition
    have hxpadded : x.shape.padded rank = x'.shape.padded rank :=
      Shape.padded_eq_padded hx.core (by omega) (by omega)
    rw [operandPosition_padded hle (show v.shape.length ≤ rank by omega) hposition,
      operandPosition_padded hle' (show v'.shape.length ≤ rank by omega) (hcount ▸ hposition), hpadded,
      hxpadded, hx.read_eq]
  have helements : ∀ position ∈ List.range v.shape.prod,
      element op v.shape a b position = element op v'.shape a' b' position := by
    intro position hposition
    have hposition := List.mem_range.mp hposition
    unfold element
    dsimp only
    rw [hoperand ha (by omega) (by omega) position hposition,
      hoperand hb (by omega) (by omega) position hposition]
  have hall := (apply_eq_ok_iff.mp h).2.2
  rw [Outcome.mapM_congr helements, hcount, (apply_eq_ok_iff.mp h').2.2] at hall
  exact ⟨Array.toList_inj.mp (Except.ok.inj hall).symm, hcore⟩

end Pairwise

namespace Convolution

variable {n : Node} {input kernel v input' kernel' v' : Values} {bias bias' : Option Values}

/-- The elements of a convolution depend on its geometry and on the elements of its operands. -/
theorem element_congr {p : Params} {g : Geometry} {depthwise : Bool} (hinput : input.Alike input')
    (hkernel : kernel.Alike kernel') (hbias : Option.Rel Values.Alike bias bias') :
    element p g depthwise input kernel bias = element p g depthwise input' kernel' bias' := by
  have hstart : start bias = start bias' := by
    cases hbias with
    | none => rfl
    | some hb =>
      funext co
      exact congrFun hb.read_eq co
  funext oy ox co
  unfold element accumulate
  rw [hstart, hinput.read_eq, hkernel.read_eq]

theorem apply_alike (h : apply n input kernel bias = .ok v) (h' : apply n input' kernel' bias' = .ok v')
    (hinput : input.Alike input') (hkernel : kernel.Alike kernel')
    (hbias : Option.Rel Values.Alike bias bias') : v.Alike v' := by
  obtain ⟨p, g, rows, hp, hg, -, hrows, rfl⟩ := apply_eq_ok_iff.mp h
  obtain ⟨p', g', rows', hp', hg', -, hrows', rfl⟩ := apply_eq_ok_iff.mp h'
  obtain rfl := Except.ok.inj (hp.symm.trans hp')
  -- both see the same image and the same kernel, so they have one geometry
  obtain ⟨himage, kernelOut, hshape, -⟩ := Geometry.resolve_eq_ok hg
  obtain ⟨himage', kernelOut', hshape', -⟩ := Geometry.resolve_eq_ok hg'
  have hsame : kernel.shape = kernel'.shape := by
    have hpadded : kernel.shape.padded 4 = kernel'.shape.padded 4 :=
      Shape.padded_eq_padded hkernel.core (by simp [hshape]) (by simp [hshape'])
    rw [hshape, hshape'] at hpadded ⊢
    exact hpadded
  have himages : Image.ofShape n.name input.shape = Image.ofShape n.name input'.shape := by
    rw [himage, himage', Image.eq_of_core himage himage' hinput.core]
  obtain rfl : g = g' := by
    unfold Geometry.resolve at hg hg'
    rw [himages, hsame] at hg
    exact Except.ok.inj (hg.symm.trans hg')
  rw [element_congr hinput hkernel hbias, hrows'] at hrows
  obtain rfl := Except.ok.inj hrows
  refine ⟨rfl, ?_⟩
  show (g.outputShape input.shape).core = (g.outputShape input'.shape).core
  unfold Geometry.outputShape
  rw [Image.core_inPlaceOf himage, Image.core_inPlaceOf himage']

end Convolution

namespace Resize

variable {n : Node} {input v input' v' : Values} {size size' : Option Tensor} {image : Image}

theorem apply_alike (h : apply n input size = .ok v) (h' : apply n input' size' = .ok v')
    (hinput : input.Alike input') (hsize : Option.Rel Tensor.Alike size size') : v.Alike v' := by
  obtain ⟨p, image, rows, hp, himage, -, -, hrows, rfl⟩ := apply_eq_ok_iff.mp h
  obtain ⟨p', image', rows', hp', himage', -, -, hrows', rfl⟩ := apply_eq_ok_iff.mp h'
  obtain rfl := Image.eq_of_core himage himage' hinput.core
  obtain rfl : p = p' := by
    have htarget : targetSize n image size = targetSize n image size' := by
      unfold targetSize
      cases hsize with
      | none => rfl
      | some ht => simp only [ht.widened]
    unfold Params.resolve at hp hp'
    rw [himage, Outcome.bind_of_eq_ok rfl, htarget] at hp
    rw [himage', Outcome.bind_of_eq_ok rfl] at hp'
    exact Except.ok.inj (hp.symm.trans hp')
  have helement : pointElement p input image = pointElement p input' image := by
    unfold pointElement element
    rw [hinput.read_eq]
  rw [helement, hrows'] at hrows
  obtain rfl := Except.ok.inj hrows
  refine ⟨rfl, ?_⟩
  show (p.outputShape input.shape).core = (p.outputShape input'.shape).core
  rw [Params.core_outputShape himage, Params.core_outputShape himage']

end Resize

namespace Node

variable {n : Node} {operands operands' : List Values} {data data' : String → Option Tensor}
  {v v' : Values}

theorem rectify_alike (h : v.Alike v') : (rectify v).Alike (rectify v') :=
  ⟨congrArg (Array.map fun x : Binary32 => x.max .zero) h.elements, h.core⟩

theorem getElem?_alike (h : List.Forall₂ Values.Alike operands operands') (i : Nat) :
    Option.Rel Values.Alike operands[i]? operands'[i]? := by
  induction h generalizing i with
  | nil => exact .none
  | cons hv _ ih =>
    cases i with
    | zero => exact .some hv
    | succ i => exact ih i

theorem operand_alike (h : List.Forall₂ Values.Alike operands operands') {i : Nat}
    (hv : operand operands i = .ok v) (hv' : operand operands' i = .ok v') : v.Alike v' := by
  unfold operand at hv hv'
  have hi := getElem?_alike h i
  cases hx : operands[i]? with
  | none => simp [hx] at hv
  | some x =>
    cases hx' : operands'[i]? with
    | none => simp [hx'] at hv'
    | some x' =>
      rw [hx] at hv hi
      rw [hx'] at hv' hi
      obtain rfl := Except.ok.inj hv
      obtain rfl := Except.ok.inj hv'
      cases hi with
      | some hxx => exact hxx

theorem apply_of_length_ne_two (hop : n.op = .add ∨ n.op = .mul) (h : operands.length ≠ 2) :
    n.apply operands data = .error (.graph (.pairExpected n.name operands.length)) := by
  rcases operands with _ | ⟨a, _ | ⟨b, _ | ⟨c, rest⟩⟩⟩
  case cons.cons.nil => exact absurd rfl h
  all_goals
    unfold apply
    rcases hop with hop | hop
    · rw [hop]
    · rw [hop]

/-- A pairwise operation that has a result has two operands. -/
theorem exists_pair_of_apply (hop : n.op = .add ∨ n.op = .mul) :
    ∃ op, ∀ {operands data v}, n.apply operands data = .ok v →
      ∃ a b, operands = [a, b] ∧ Pairwise.apply op a b = .ok v := by
  obtain ⟨op, happly⟩ := apply_pair hop
  refine ⟨op, fun {operands data v} h => ?_⟩
  by_cases hlength : operands.length = 2
  · obtain ⟨a, b, rfl⟩ := List.length_eq_two.mp hlength
    exact ⟨a, b, rfl, (happly a b data).symm.trans h⟩
  · rw [apply_of_length_ne_two hop hlength] at h
    cases h

/-- **Operations give alike values for alike operands**, one lemma for each kind of operation. -/
theorem apply_alike (h : n.apply operands data = .ok v) (h' : n.apply operands' data' = .ok v')
    (hoperands : List.Forall₂ Values.Alike operands operands')
    (hdata : ∀ name, Option.Rel Tensor.Alike (data name) (data' name)) : v.Alike v' := by
  have convolution : ∀ {v v' : Values},
      (do Convolution.apply n (← operand operands 0) (← operand operands 1) operands[2]?) = .ok v →
      (do Convolution.apply n (← operand operands' 0) (← operand operands' 1) operands'[2]?) = .ok v' →
      v.Alike v' := by
    intro v v' hv hv'
    obtain ⟨input, hinput, hv⟩ := Outcome.bind_eq_ok_iff.mp hv
    obtain ⟨input', hinput', hv'⟩ := Outcome.bind_eq_ok_iff.mp hv'
    obtain ⟨kernel, hkernel, hv⟩ := Outcome.bind_eq_ok_iff.mp hv
    obtain ⟨kernel', hkernel', hv'⟩ := Outcome.bind_eq_ok_iff.mp hv'
    exact Convolution.apply_alike hv hv' (operand_alike hoperands hinput hinput')
      (operand_alike hoperands hkernel hkernel') (getElem?_alike hoperands 2)
  cases hop : n.op with
  | add | mul =>
    obtain ⟨op, hpair⟩ := exists_pair_of_apply (by simp [hop] : n.op = .add ∨ n.op = .mul)
    obtain ⟨a, b, rfl, hv⟩ := hpair h
    obtain ⟨a', b', rfl, hv'⟩ := hpair h'
    obtain _ | ⟨ha, _ | ⟨hb, -⟩⟩ := hoperands
    exact Pairwise.apply_alike hv hv' ha hb
  | conv | fusedConv | depthwise | fusedDepthwise =>
    simp only [apply, hop] at h h'
    exact convolution h h'
  | relu =>
    simp only [apply, hop] at h h'
    obtain ⟨x, hx, h⟩ := Outcome.bind_eq_ok_iff.mp h
    obtain ⟨x', hx', h'⟩ := Outcome.bind_eq_ok_iff.mp h'
    obtain rfl := Outcome.pure_eq_ok_iff.mp h
    obtain rfl := Outcome.pure_eq_ok_iff.mp h'
    exact rectify_alike (operand_alike hoperands hx hx')
  | resize =>
    simp only [apply, hop] at h h'
    obtain ⟨x, hx, h⟩ := Outcome.bind_eq_ok_iff.mp h
    obtain ⟨x', hx', h'⟩ := Outcome.bind_eq_ok_iff.mp h'
    refine Resize.apply_alike h h' (operand_alike hoperands hx hx') ?_
    cases n.inputNames[1]? with
    | none => exact .none
    | some name => exact hdata name
  | placeholder | const | identity | unsupported =>
    simp [apply, hop] at h

end Node

/-! ## §3 — what is bound -/

namespace InputSpec

variable {i i' : InputSpec} {batch : Batch} {given : Tensors} {t u u' : Tensor}

/-- **A tensor with its leading axis and without it** is prepared alike. -/
theorem alike_of_prepare (h : i.prepare .kept t = .ok u) (h' : i'.prepare .stripped t = .ok u') :
    u.Alike u' := by
  obtain ⟨hdata, hshape⟩ := data_of_prepare h
  obtain ⟨hdata', hshape'⟩ := data_of_prepare h'
  refine ⟨hdata.trans hdata'.symm, ?_⟩
  rw [← Except.ok.inj hshape]
  unfold strip at hshape'
  split at hshape'
  · cases ‹Batch.stripped = .kept›
  · rename_i rest hone
    rw [hone, Shape.core_one_cons, Except.ok.inj hshape']
  · cases hshape'

theorem key?_congr (hname : i.name = i'.name) (hnode : i.node = i'.node) :
    i.key? given = i'.key? given := by
  unfold key?
  rw [hname, hnode]

end InputSpec

namespace Graph

variable {g : Graph} {r r' : Request} {s s' : Schedule} {given bound bound' : Tensors}

/-- What the outputs need does not depend on the inputs. -/
theorem needed_eq (hs : g.schedule r = .ok s) (hs' : g.schedule r' = .ok s')
    (houtputs : r.outputs = r'.outputs) :
    s.nodes = s'.nodes ∧ s.outputs = s'.outputs ∧ s.constants = s'.constants := by
  obtain ⟨order, horder, hout, hnodes, -, hconstants, -⟩ := exists_stages hs
  obtain ⟨order', horder', hout', hnodes', -, hconstants', -⟩ := exists_stages hs'
  obtain rfl := Except.ok.inj (horder.symm.trans horder')
  rw [houtputs] at hout
  have hsame : s.outputs = s'.outputs := Except.ok.inj (hout.symm.trans hout')
  have hneeded : s.nodes = s'.nodes := by rw [hnodes, hnodes', hsame]
  exact ⟨hneeded, hsame, by rw [hconstants, hconstants', hneeded]⟩

/-- An input of one schedule is an input of any other schedule with the same nodes, by the same names. -/
theorem exists_input_of_nodes_eq (hs : g.schedule r = .ok s) (hs' : g.schedule r' = .ok s')
    (hnodes : s.nodes = s'.nodes) {i : InputSpec} (hi : i ∈ s.inputs) :
    ∃ i' ∈ s'.inputs, i.name = i'.name ∧ i.node = i'.node := by
  obtain ⟨n, hn, hspec⟩ := exists_inputSpec_of_mem hs hi
  rw [hnodes] at hn
  obtain ⟨-, -, -, -, hinputs', -⟩ := schedule_eq_ok hs'
  obtain ⟨i', hi', hspec'⟩ := Outcome.exists_result_of_mem hinputs' hn
  refine ⟨i', hi', ?_, ?_⟩
  · rw [inputSpec_name hspec, inputSpec_name hspec']
  · rw [inputSpec_node hspec, inputSpec_node hspec']

section Runs

variable (hs : g.schedule r = .ok s) (hs' : g.schedule r' = .ok s')
  (hnodes : s.nodes = s'.nodes) (hbind : s.bind given = .ok bound) (hbind' : s'.bind given = .ok bound')

include hs hs' hnodes hbind hbind' in
theorem bound_of_bound {name : String} {u : Tensor} (hu : bound.find? name = some u) :
    ∃ i ∈ s.inputs, ∃ i' ∈ s'.inputs, ∃ t u', i.prepare s.batch t = .ok u ∧
      i'.prepare s'.batch t = .ok u' ∧ bound'.find? name = some u' := by
  obtain ⟨i, hi, rfl⟩ := exists_input_of_bound hbind hu
  obtain ⟨i', hi', hname, hnode⟩ := exists_input_of_nodes_eq hs hs' hnodes hi
  obtain ⟨key, t, v, hkey, ht, hv, hfind⟩ := prepared_of_bind hs hbind hi
  obtain ⟨key', t', u', hkey', ht', hu', hfind'⟩ := prepared_of_bind hs' hbind' hi'
  obtain rfl := Option.some.inj (hfind.symm.trans hu)
  rw [InputSpec.key?_congr hname hnode, hkey'] at hkey
  obtain rfl := Option.some.inj hkey
  obtain rfl := Option.some.inj (ht.symm.trans ht')
  exact ⟨i, hi, i', hi', t, u', hv, hu', hnode ▸ hfind'⟩

include hs hs' hnodes hbind hbind' in
/-- **The data of both runs are alike.** -/
theorem data?_alike (hconstants : s.constants = s'.constants) (hkept : s.batch = .kept)
    (hstripped : s'.batch = .stripped) (name : String) :
    Option.Rel Tensor.Alike (s.data? bound name) (s'.data? bound' name) := by
  unfold Schedule.data?
  cases hu : bound.find? name with
  | some u =>
    obtain ⟨i, -, i', -, t, u', hprepare, hprepare', hu'⟩ :=
      bound_of_bound hs hs' hnodes hbind hbind' hu
    rw [hkept] at hprepare
    rw [hstripped] at hprepare'
    rw [hu']
    exact .some (InputSpec.alike_of_prepare hprepare hprepare')
  | none =>
    cases hu' : bound'.find? name with
    | some u' =>
      obtain ⟨-, -, -, -, -, u, -, -, hu''⟩ :=
        bound_of_bound hs' hs hnodes.symm hbind' hbind hu'
      rw [hu] at hu''
      cases hu''
    | none =>
      rw [hconstants]
      cases s'.constants.find? name with
      | none => exact .none
      | some t => exact .some (.refl t)

end Runs

end Graph

/-! ## §4 — two runs -/

namespace Schedule

variable {s s' : Schedule} {bound bound' : Tensors} {known known' : Named Values}

/-- Values of one name are alike. -/
def KnowAlike (known known' : Named Values) : Prop :=
  ∀ name v v', known.find? name = some v → known'.find? name = some v' → v.Alike v'

theorem KnowAlike.insert (h : KnowAlike known known') {v v' : Values} (hv : v.Alike v')
    (name : String) : KnowAlike (known.insert name v) (known'.insert name v') := by
  intro key w w' hw hw'
  rw [Named.find?_insert] at hw hw'
  by_cases hname : name = key
  · rw [if_pos hname] at hw hw'
    obtain rfl := Option.some.inj hw
    obtain rfl := Option.some.inj hw'
    exact hv
  · rw [if_neg hname] at hw hw'
    exact h key w w' hw hw'

theorem KnowAlike.operands (h : KnowAlike known known') {names : List String}
    {operands operands' : List Values}
    (ho : List.Forall₂ (fun name v => known.find? name = some v) names operands)
    (ho' : List.Forall₂ (fun name v => known'.find? name = some v) names operands') :
    List.Forall₂ Values.Alike operands operands' := by
  induction ho generalizing operands' with
  | nil =>
    cases ho'
    exact .nil
  | cons hv _ ih =>
    cases ho' with
    | cons hv' hrest => exact .cons (h _ _ _ hv hv') (ih hrest)

variable (hdata : ∀ name, Option.Rel Tensor.Alike (s.data? bound name) (s'.data? bound' name))

include hdata in
/-- One step of both runs. -/
theorem evaluateNode_alike (hknown : KnowAlike known known') {n : Node} {v v' : Values}
    (h : s.evaluateNode bound known n = .ok v) (h' : s'.evaluateNode bound' known' n = .ok v') :
    v.Alike v' := by
  cases hop : n.op.isData with
  | true =>
    unfold evaluateNode at h h'
    rw [if_pos hop] at h h'
    have hname := hdata n.name
    cases ht : s.data? bound n.name with
    | none => simp [ht] at h
    | some t =>
      cases ht' : s'.data? bound' n.name with
      | none => simp [ht'] at h'
      | some t' =>
        rw [ht] at h hname
        rw [ht'] at h' hname
        cases hname with
        | some halike => exact Values.alike_of_ofTensor h h' halike
  | false =>
    obtain ⟨operands, hoperands, happly⟩ := evaluateNode_eq_ok hop h
    obtain ⟨operands', hoperands', happly'⟩ := evaluateNode_eq_ok hop h'
    exact Node.apply_alike happly happly' (hknown.operands hoperands hoperands') hdata

include hdata in
/-- **Both runs over the nodes** know alike values all the way. -/
theorem evaluateNodes_alike {nodes : List Node} (hknown : KnowAlike known known')
    {last last' : Named Values} (h : s.evaluateNodes bound known nodes = .ok last)
    (h' : s'.evaluateNodes bound' known' nodes = .ok last') : KnowAlike last last' := by
  induction nodes generalizing known known' with
  | nil =>
    cases h
    cases h'
    exact hknown
  | cons n rest ih =>
    rw [evaluateNodes] at h h'
    obtain ⟨v, hv, h⟩ := Outcome.bind_eq_ok_iff.mp h
    obtain ⟨v', hv', h'⟩ := Outcome.bind_eq_ok_iff.mp h'
    exact ih (hknown.insert (evaluateNode_alike hdata hknown hv hv') n.name) h h'

/-- What is taken from both runs has the same names, and alike tensors under them. -/
theorem takeOutput_alike (hknown : KnowAlike known known') {outputs : List OutputSpec}
    {entries entries' : List (String × Tensor)}
    (h : outputs.mapM (takeOutput known) = .ok entries)
    (h' : outputs.mapM (takeOutput known') = .ok entries') :
    List.Forall₂ (fun e e' => e.1 = e'.1 ∧ e.2.Alike e'.2) entries entries' := by
  induction outputs generalizing entries entries' with
  | nil =>
    obtain rfl := List.forall₂_nil_left_iff.mp (Outcome.mapM_eq_ok_iff.mp h)
    obtain rfl := List.forall₂_nil_left_iff.mp (Outcome.mapM_eq_ok_iff.mp h')
    exact .nil
  | cons o outputs ih =>
    rw [List.mapM_cons] at h h'
    obtain ⟨⟨name, t⟩, he, h⟩ := Outcome.bind_eq_ok_iff.mp h
    obtain ⟨⟨name', t'⟩, he', h'⟩ := Outcome.bind_eq_ok_iff.mp h'
    obtain ⟨rest, hrest, h⟩ := Outcome.bind_eq_ok_iff.mp h
    obtain ⟨rest', hrest', h'⟩ := Outcome.bind_eq_ok_iff.mp h'
    obtain rfl := Outcome.pure_eq_ok_iff.mp h
    obtain rfl := Outcome.pure_eq_ok_iff.mp h'
    refine .cons ?_ (ih hrest hrest')
    obtain ⟨hname, v, hv, ht⟩ := Graph.takeOutput_eq_ok_iff.mp he
    obtain ⟨hname', v', hv', ht'⟩ := Graph.takeOutput_eq_ok_iff.mp he'
    exact ⟨hname.symm.trans hname', Values.alike_of_toTensor ht ht' (hknown _ _ _ hv hv')⟩

end Schedule

/-- Outputs of the same names, alike under each of them. -/
structure Tensors.Alike (out out' : Tensors) : Prop where
  /-- They have the same names. -/
  names : ∀ name, out.contains name = out'.contains name
  /-- Tensors of one name are alike. -/
  tensors : ∀ name t t', out.find? name = some t → out'.find? name = some t' → t.Alike t'

theorem Named.lookup_alike {entries entries' : List (String × Tensor)}
    (h : List.Forall₂ (fun e e' => e.1 = e'.1 ∧ e.2.Alike e'.2) entries entries') (name : String) :
    Option.Rel Tensor.Alike (lookup name entries) (lookup name entries') := by
  induction h with
  | nil => exact .none
  | @cons e e' _ _ he _ ih =>
    obtain ⟨key, t⟩ := e
    obtain ⟨key', t'⟩ := e'
    obtain ⟨rfl, ht⟩ := he
    by_cases hkey : key = name
    · simpa [lookup, hkey] using Option.Rel.some ht
    · simpa [lookup, hkey] using ih

theorem Tensors.alike_of_entries {entries entries' : List (String × Tensor)}
    (h : List.Forall₂ (fun e e' => e.1 = e'.1 ∧ e.2.Alike e'.2) entries entries') :
    Tensors.Alike (.ofList entries) (.ofList entries') := by
  have hfind : ∀ name, Option.Rel Tensor.Alike ((Named.ofList entries).find? name)
      ((Named.ofList entries').find? name) := by
    intro name
    rw [Named.find?_ofList, Named.find?_ofList]
    exact Named.lookup_alike (List.forall₂_reverse_iff.mpr h) name
  constructor
  case names =>
    intro name
    unfold Named.contains
    have hname := hfind name
    generalize (Named.ofList entries).find? name = t at hname ⊢
    generalize (Named.ofList entries').find? name = t' at hname ⊢
    cases hname with
    | none => rfl
    | some _ => rfl
  case tensors =>
    intro name t t' ht ht'
    have hname := hfind name
    rw [ht, ht'] at hname
    cases hname with
    | some halike => exact halike

namespace Graph

variable {g : Graph} {wanted : List String} {shapes shapes' : Named Shape} {s s' : Schedule}
  {given bound bound' out out' : Tensors}

/-- **The leading axis does not count.** Where one graph is scheduled for the same outputs and tensors,
once keeping the leading axis of the inputs and once stripping it, and both schedules are evaluated on
what they bind, the outputs have the same names, the same elements, and shapes that differ at most by
extents of one in front. -/
theorem evaluate_stripped (hs : g.schedule ⟨wanted, .kept, shapes, some given⟩ = .ok s)
    (hs' : g.schedule ⟨wanted, .stripped, shapes', some given⟩ = .ok s')
    (hbind : s.bind given = .ok bound) (hbind' : s'.bind given = .ok bound')
    (he : s.evaluate bound = .ok out) (he' : s'.evaluate bound' = .ok out') :
    Tensors.Alike out out' := by
  obtain ⟨hnodes, houtputs, hconstants⟩ := needed_eq hs hs' rfl
  obtain ⟨-, -, -, -, -, -, -, hkept⟩ := exists_stages hs
  obtain ⟨-, -, -, -, -, -, -, hstripped⟩ := exists_stages hs'
  have hdata := data?_alike hs hs' hnodes hbind hbind' hconstants hkept hstripped
  obtain ⟨known, entries, hknown, htaken, rfl⟩ := evaluate_eq_ok he
  obtain ⟨known', entries', hknown', htaken', rfl⟩ := evaluate_eq_ok he'
  rw [← hnodes] at hknown'
  rw [← houtputs] at htaken'
  have hempty : Schedule.KnowAlike .empty .empty := by
    intro name v v' hv
    cases hv
  have hlast := Schedule.evaluateNodes_alike hdata hempty hknown hknown'
  exact Tensors.alike_of_entries (Schedule.takeOutput_alike hlast htaken htaken')

/-! ## §5 — a sum with its leading axis and without it -/

/-- Two elements behind a leading axis. -/
def batchedGiven : Tensors := .ofList [("x", ⟨[1, 2], .float32 [.zero, .one], by decide⟩)]

/-- The sum is asked for, for these elements. -/
def batchedRequest (batch : Batch) : Request := ⟨["out"], batch, .empty, some batchedGiven⟩

/-- The schedule of the sum, for an input of some shape. -/
def batchedSchedule (batch : Batch) (shape : Shape) : Schedule where
  nodes := summedSchedule.nodes
  descriptors := .ofList
    [("ones", ⟨[2], .float32⟩), ("x", ⟨shape, .float32⟩), ("sum", ⟨shape, .float32⟩)]
  inputs := [⟨"x", "x", .float32, none, shape⟩]
  outputs := summedSchedule.outputs
  constants := summedConstants
  batch := batch

/-- All but the inputs and what follows from them is as it was. -/
theorem batched_schedule {batch : Batch} {shape : Shape}
    (hinputs : (summedSchedule.nodes.filter (·.op = .placeholder)).mapM
      (summed.inputSpec (batchedRequest batch)) = .ok (batchedSchedule batch shape).inputs)
    (hdescribe : describeNodes (batchedSchedule batch shape).inputs summedConstants .empty
      summedSchedule.nodes = .ok (batchedSchedule batch shape).descriptors)
    (hbind : ∃ bound, (batchedSchedule batch shape).bind batchedGiven = .ok bound) :
    summed.schedule (batchedRequest batch) = .ok (batchedSchedule batch shape) := by
  obtain ⟨order, horder, -, hnodes, -, hconstants, -⟩ := exists_stages summed_schedule
  refine schedule_of_stages_given horder (by cbv) hnodes.symm hinputs hconstants.symm hdescribe rfl ?_
  intro given hgiven
  obtain rfl := Option.some.inj hgiven
  exact hbind

/-- The elements of the sum. -/
def batchedOutputs (shape : Shape) (h : shape.counted = .ok 2) : Tensors :=
  .ofList [("out", ⟨shape, .float32 [.one, ⟨0x40000000⟩], h⟩)]

/-- Both runs of the sum, and what they have in common. -/
theorem batched_alike :
    summed.schedule (batchedRequest .kept) = .ok (batchedSchedule .kept [1, 2]) ∧
    summed.schedule (batchedRequest .stripped) = .ok (batchedSchedule .stripped [2]) ∧
    (batchedSchedule .kept [1, 2]).bind batchedGiven = .ok batchedGiven ∧
    (batchedSchedule .stripped [2]).bind batchedGiven = .ok summedGiven ∧
    (batchedSchedule .kept [1, 2]).evaluate batchedGiven = .ok (batchedOutputs [1, 2] rfl) ∧
    (batchedSchedule .stripped [2]).evaluate summedGiven = .ok (batchedOutputs [2] rfl) ∧
    Tensors.Alike (batchedOutputs [1, 2] rfl) (batchedOutputs [2] rfl) := by
  have hbind : (batchedSchedule .kept [1, 2]).bind batchedGiven = .ok batchedGiven := by cbv
  have hbind' : (batchedSchedule .stripped [2]).bind batchedGiven = .ok summedGiven := by cbv
  have hs : summed.schedule (batchedRequest .kept) = .ok (batchedSchedule .kept [1, 2]) :=
    batched_schedule (by cbv) (by cbv) ⟨_, hbind⟩
  have hs' : summed.schedule (batchedRequest .stripped) = .ok (batchedSchedule .stripped [2]) :=
    batched_schedule (by cbv) (by cbv) ⟨_, hbind'⟩
  have he : (batchedSchedule .kept [1, 2]).evaluate batchedGiven =
      .ok (batchedOutputs [1, 2] rfl) := by decide +kernel
  have he' : (batchedSchedule .stripped [2]).evaluate summedGiven =
      .ok (batchedOutputs [2] rfl) := by decide +kernel
  exact ⟨hs, hs', hbind, hbind', he, he', evaluate_stripped hs hs' hbind hbind' he he'⟩

end Graph

end TexelFlow
