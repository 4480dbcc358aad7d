import TexelFlow.Proofs.Device.Fit
import TexelFlow.Proofs.Operator.Infer
import TexelFlow.Proofs.Schedule.Refusal

/-!
# Compilation stays in its domain

The passes behind inference take for granted what inference found out: they read the first and second
input of a node, cut the list of inputs that are textures, subtract the rank of an operand from that of
the result and look constants, places and layouts up by name. None of this is asked for again. It is
justified here by what an earlier pass refused, for graphs of which nothing is known but that their inputs
are nodes and that their constants have tensors.

What is left are sizes: a number that no word holds is an error of its own, and the only one that is not an
error of the user.

## Main statements

* `Layout.compute_plain` — laying a tensor out fails with plain errors only.
* `Node.supplied_of_infers` — a node that inference accepts has the inputs its program reads.
* `Compiled.inDomain` — whatever is compiled, nothing is applied outside its domain.

## §1 — layouts
## §2 — the inputs of a node
## §3 — programs
## §4 — compiling
-/

namespace TexelFlow

open Outcome

/-! ## §1 — layouts -/

namespace Layout

variable {d : Descriptor} {limits : Limits} {options : Options}

theorem extent_plain {wanted most : Nat} (hmost : 0 < most) : Plain (extent wanted most) := by
  unfold extent Size.clamp
  rw [if_neg (by omega)]
  exact plain_ok _

theorem countChannels_plain (channels : Nat) : Plain (countChannels options channels) := by
  unfold countChannels
  split
  · exact plain_fit _
  · exact plain_ok _

/-- **Laying a tensor out** fails with plain errors only, where textures have an extent at all. -/
theorem compute_plain {name : String} (hwidth : 0 < limits.maxWidth) (hheight : 0 < limits.maxHeight) :
    Plain (compute name d limits options) := by
  unfold compute
  refine plain_check rfl fun _ => (plain_counted _).bind fun spatial _ => plain_check rfl fun _ => ?_
  refine (countChannels_plain _).bind fun channels _ => ?_
  refine (extent_plain hwidth).bind fun width _ => (extent_plain hheight).bind fun height _ => ?_
  refine (plain_fit _).bind fun area _ => (plain_fit _).bind fun padded _ => ?_
  refine (plain_fit _).bind fun perSlice _ => (plain_fit _).bind fun layers _ => plain_check rfl fun _ => ?_
  exact (plain_counted _).bind fun count _ => plain_pure _

end Layout

/-- Valid options leave textures an extent on a device that has one. -/
theorem EngineOptions.layoutLimits_pos {o : EngineOptions} {limits : DeviceLimits}
    (hlimits : 0 < limits.maxDimension) (hvalid : o.validate limits = .ok ()) :
    0 < (o.layoutLimits limits).maxWidth ∧ 0 < (o.layoutLimits limits).maxHeight := by
  unfold validate fault? at hvalid
  split at hvalid
  · cases hvalid
  · rename_i hfault
    split at hfault
    · cases hfault
    · unfold layoutLimits
      dsimp only
      omega

namespace Schedule

variable {s : Schedule} {limits : Layout.Limits} {options : Layout.Options} {layouts : Named Layout}

theorem layouts_plain (hwidth : 0 < limits.maxWidth) (hheight : 0 < limits.maxHeight) :
    Plain (s.layouts limits options) := by
  have one : ∀ name, Plain (s.layoutOf limits options name) := by
    intro name
    unfold layoutOf
    split
    · exact Layout.compute_plain hwidth hheight
    · exact plain_error rfl
  have all : ∀ names known, Plain (s.layoutsFrom limits options known names) := by
    intro names
    induction names with
    | nil => exact fun known => plain_ok _
    | cons name rest ih =>
      intro known
      rw [layoutsFrom]
      split
      · exact ih known
      · exact (one name).bind fun l _ => ih _
  exact all _ _

end Schedule

/-! ## §2 — the inputs of a node -/

/-- Number of inputs of a node that are bound as textures, counted from the first. -/
def Node.boundCount (n : Node) : Nat := if n.op = .resize then 1 else n.inputs.length

/-- The textures of a node are its first inputs. -/
theorem Node.boundInputs_eq (n : Node) : n.boundInputs = n.inputNames.take n.boundCount := by
  unfold boundInputs boundCount
  split
  · rfl
  · rw [List.take_of_length_le]
    rw [inputNames, List.length_map]

/-- **A node is supplied** when it has the inputs that its program reads without asking. -/
structure Node.Supplied (n : Node) : Prop where
  /-- It has all inputs that are bound as textures. -/
  bound : n.boundCount ≤ n.inputs.length
  /-- A pairwise operation has two of them. -/
  pair : n.op = .add ∨ n.op = .mul → n.boundInputs.length = 2
  /-- A convolution has an image and a kernel. -/
  kernel : n.op.isConvolution → 2 ≤ n.boundInputs.length
  /-- A resize has an image. -/
  image : n.op = .resize → n.boundInputs.length = 1

/-- **A node that inference accepts is supplied.** -/
theorem Node.supplied_of_infers {n : Node} {constant : Nat → Option Tensor} {operands : List Descriptor}
    {d : Descriptor} (hinfers : Operator.Infers n constant operands d)
    (hlength : n.inputs.length = operands.length) : n.Supplied := by
  have htextures : n.boundInputs.length = min n.boundCount n.inputs.length := by
    rw [boundInputs_eq, List.length_take, inputNames, List.length_map]
  have hother : n.op ≠ .resize → n.boundCount = n.inputs.length := fun h => if_neg h
  cases hinfers with
  | pair hop =>
    have hne : n.op ≠ .resize := by rcases hop with hop | hop <;> simp [hop]
    rw [hother hne, Nat.min_self, hlength] at htextures
    refine ⟨(hother hne).le, fun _ => htextures, fun _ => htextures.ge, fun h => absurd h hne⟩
  | alone hop =>
    have hne : n.op ≠ .resize := by rcases hop with hop | hop <;> simp [hop]
    refine ⟨(hother hne).le, fun h => ?_, fun h => ?_, fun h => absurd h hne⟩
    · rcases hop with hop | hop <;> simp [hop] at h
    · rcases hop with hop | hop <;> simp [hop, Operator.isConvolution] at h
  | convolution hop =>
    have hne : n.op ≠ .resize := by
      intro h
      simp [h, Operator.isConvolution] at hop
    rw [hother hne, Nat.min_self, hlength] at htextures
    refine ⟨(hother hne).le, fun h => ?_, fun _ => ?_, fun h => absurd h hne⟩
    · rcases h with h | h <;> simp [h, Operator.isConvolution] at hop
    · rw [htextures, List.length_cons, List.length_cons]
      omega
  | resize second hop =>
    have hcount : n.boundCount = 1 := if_pos hop
    rw [List.length_cons] at hlength
    refine ⟨by omega, fun h => ?_, fun h => ?_, fun _ => by omega⟩
    · rcases h with h | h <;> simp [h] at hop
    · simp [hop, Operator.isConvolution] at h

namespace Graph

variable {g : Graph} {r : Request} {s : Schedule}

/-- What inference accepted of an operation of a schedule. -/
theorem exists_infers_of_operation (hs : g.schedule r = .ok s) {n : Node} (hn : n ∈ s.operations) :
    ∃ operands d constant, s.descriptors.find? n.name = some d ∧
      List.Forall₂ (fun name o => s.descriptors.find? name = some o) n.inputNames operands ∧
      Operator.Infers n constant operands d := by
  obtain ⟨hn, hop⟩ := List.mem_filter.mp hn
  obtain ⟨d, hd, hdescribe⟩ := schedule_describes hs hn
  obtain ⟨operands, hoperands, hinfer⟩ := infer_of_describeNode (by simpa using hop) hdescribe
  exact ⟨operands, d, _, hd, hoperands, Operator.infers_of_infer hinfer⟩

/-- What a node reads is among its described operands. -/
theorem exists_operand_of_described {known : Named Descriptor} {names : List String}
    {operands : List Descriptor}
    (h : List.Forall₂ (fun name o => known.find? name = some o) names operands) {name : String}
    (hname : name ∈ names) : ∃ o ∈ operands, known.find? name = some o := by
  induction h with
  | nil => exact absurd hname List.not_mem_nil
  | cons hhead _ ih =>
    rcases List.mem_cons.mp hname with rfl | hname
    · exact ⟨_, List.mem_cons_self, hhead⟩
    · obtain ⟨o, ho, hfind⟩ := ih hname
      exact ⟨o, List.mem_cons_of_mem _ ho, hfind⟩

/-- The operations of a schedule are supplied. -/
theorem supplied_of_schedule (hs : g.schedule r = .ok s) {n : Node} (hn : n ∈ s.operations) :
    n.Supplied := by
  obtain ⟨operands, d, constant, -, hoperands, hinfers⟩ := exists_infers_of_operation hs hn
  refine Node.supplied_of_infers hinfers ?_
  rw [← hoperands.length_eq, Node.inputNames, List.length_map]

end Graph

/-! ## §3 — programs -/

namespace Pass

variable {n : Node} {inputs : List Layout} {size : Option Tensor}

theorem input_plain {i : Nat} (h : i < inputs.length) : Plain (input inputs i) := by
  unfold input
  rw [List.getElem?_eq_getElem h]
  exact plain_ok _

theorem resolveConvolution_plain (h : 2 ≤ inputs.length) : Plain (resolveConvolution n inputs) := by
  unfold resolveConvolution
  refine (Convolution.Params.ofNode_plain n).bind fun p _ => ?_
  refine (input_plain (by omega)).bind fun image _ => (input_plain (by omega)).bind fun kernel _ => ?_
  exact (Convolution.Geometry.resolve_plain _ _ _ _ _).bind fun _ _ => plain_pure _

theorem resolveResize_plain (h : 1 ≤ inputs.length) : Plain (resolveResize n inputs size) := by
  unfold resolveResize
  refine (input_plain h).bind fun layout _ => (Resize.Params.resolve_plain _ _ _).bind fun p _ => ?_
  exact (Image.ofShape_plain _ _).bind fun _ _ => plain_pure _

/-- Where the inputs that are read are there, a pass is resolved or refused with a plain error. -/
theorem resolve_plain (hkernel : n.op.isConvolution → 2 ≤ inputs.length)
    (himage : n.op = .resize → 1 ≤ inputs.length) : Plain (resolve n inputs size) := by
  unfold resolve
  split
  case h_4 hop | h_5 hop | h_6 hop | h_7 hop =>
    exact resolveConvolution_plain (hkernel (by simp [hop, Operator.isConvolution]))
  case h_8 hop => exact resolveResize_plain (himage hop)
  case h_9 => exact plain_error rfl
  all_goals exact plain_ok _

theorem mem_of_input {i : Nat} {l : Layout} (h : input inputs i = .ok l) : l ∈ inputs := by
  unfold input at h
  split at h
  · rename_i l' hl
    obtain rfl := Except.ok.inj h
    exact List.mem_of_getElem? hl
  · cases h

/-- Only a pairwise operation has a pairwise pass. -/
theorem op_of_pairwise (h : resolve n inputs size = .ok .pairwise) : n.op = .add ∨ n.op = .mul := by
  unfold resolve at h
  split at h
  case h_1 hop => exact .inl hop
  case h_2 hop => exact .inr hop
  case h_4 | h_5 | h_6 | h_7 =>
    unfold resolveConvolution at h
    obtain ⟨_, -, h⟩ := bind_eq_ok_iff.mp h
    obtain ⟨_, -, h⟩ := bind_eq_ok_iff.mp h
    obtain ⟨_, -, h⟩ := bind_eq_ok_iff.mp h
    obtain ⟨_, -, h⟩ := bind_eq_ok_iff.mp h
    cases h
  case h_8 =>
    unfold resolveResize at h
    obtain ⟨_, -, h⟩ := bind_eq_ok_iff.mp h
    obtain ⟨_, -, h⟩ := bind_eq_ok_iff.mp h
    obtain ⟨_, -, h⟩ := bind_eq_ok_iff.mp h
    cases h
  all_goals cases h

end Pass

/-- **A key is ready** for its shader: there is a texture for each role, and an operand of a pairwise
operation has no more axes than the result. -/
structure ShaderKey.Ready (key : ShaderKey) : Prop where
  /-- There is a texture for each role. -/
  roles : key.pass.roles.length = key.inputs.length
  /-- Operands have no more axes than the result. -/
  ranks : key.pass = .pairwise → ∀ l ∈ key.inputs, l.shape.length ≤ key.output.shape.length

theorem Wgsl.checkIndex_plain {operand output : Shape} (h : operand.length ≤ output.length) :
    Plain (checkIndex operand output) := by
  unfold checkIndex
  refine (plain_mapM fun shape _ => plain_mapM fun stride _ => plain_fit stride).bind fun _ _ => ?_
  rw [Size.sub_of_le h]
  exact (plain_ok _).bind fun _ _ => plain_pure _

/-- A key that is ready has a shader, unless a stride is too large for a word. -/
theorem ShaderKey.Ready.shader_plain {key : ShaderKey} (h : key.Ready) :
    Plain (Wgsl.shader key.op key.pass key.inputs key.output) := by
  unfold Wgsl.shader
  refine Plain.bind ?_ fun _ _ => plain_pure _
  unfold Wgsl.body
  split
  · rename_i hpass
    have hroles : 2 = key.inputs.length := by
      rw [← h.roles, hpass]
      rfl
    refine (Pass.input_plain (by omega)).bind fun lhs hlhs => ?_
    refine (Pass.input_plain (by omega)).bind fun rhs hrhs => ?_
    dsimp only
    split
    · refine (Wgsl.checkIndex_plain (h.ranks hpass lhs (Pass.mem_of_input hlhs))).bind fun _ _ => ?_
      exact (Wgsl.checkIndex_plain (h.ranks hpass rhs (Pass.mem_of_input hrhs))).bind fun _ _ => plain_pure _
    · exact plain_pure _
  all_goals exact plain_ok _

theorem ShaderCache.fetch_plain [Wgsl.Validator] {cache : ShaderCache} {key : ShaderKey} {node : String}
    (h : key.Ready) : Plain (cache.fetch key node).1 := by
  have hbuild : Plain (key.build node) := by
    unfold ShaderKey.build
    refine h.shader_plain.bind fun shader _ => ?_
    split
    · exact plain_pure _
    · exact plain_throw rfl
  unfold fetch
  split
  · exact plain_ok _
  · split
    · exact plain_ok _
    · rename_i e he
      exact plain_error (hbuild e he)

/-- A program is compiled or refused with a plain error, where its node has the textures it reads. -/
theorem Program.compile_plain [Wgsl.Validator] {cache : ShaderCache} {n : Node} {inputs : List TextureInput}
    {size : Option Tensor} {output : Layout} (hkernel : n.op.isConvolution → 2 ≤ inputs.length)
    (himage : n.op = .resize → 1 ≤ inputs.length)
    (hranks : n.op = .add ∨ n.op = .mul → ∀ l ∈ inputs.map (·.layout), l.shape.length ≤ output.shape.length) :
    Plain (compile cache n inputs size output).1 := by
  have hlength : (inputs.map (·.layout)).length = inputs.length := List.length_map _
  have hkey : Plain (key n inputs size output) := by
    unfold key
    refine Plain.bind ?_ fun pass _ => plain_check rfl fun _ => plain_pure _
    exact Pass.resolve_plain (fun h => hlength ▸ hkernel h) fun h => hlength ▸ himage h
  unfold compile
  split
  · rename_i e he
    exact plain_error (hkey e he)
  · rename_i k hk
    -- the roles were counted when the key was made
    have hready : k.Ready := by
      obtain ⟨pass, hpass, hroles, rfl⟩ := key_eq_ok hk
      exact ⟨hroles.trans hlength.symm, fun h => hranks (Pass.op_of_pairwise (hpass.trans (congrArg _ h)))⟩
    have hfetch : Plain (cache.fetch k n.name).1 := ShaderCache.fetch_plain hready
    split
    · rename_i e _ he
      rw [he] at hfetch
      exact plain_error (hfetch e rfl)
    · exact plain_ok _

namespace Schedule

variable {s : Schedule} {limits : Layout.Limits} {options : Layout.Options} {layouts : Named Layout}
  {n : Node}

/-- An operation and the textures it reads have layouts. -/
theorem laid_out (h : s.layouts limits options = .ok layouts) (hn : n ∈ s.operations) :
    (∃ l, layouts.find? n.name = some l) ∧ ∀ name ∈ n.boundInputs, ∃ l, layouts.find? name = some l := by
  obtain ⟨hcontains, -⟩ := layouts_eq_ok h
  have found : ∀ name ∈ s.textureNodes, ∃ l, layouts.find? name = some l := fun name hname =>
    Option.isSome_iff_exists.mp ((hcontains name).mpr hname)
  refine ⟨found _ (mem_textureNodes_iff.mpr ?_), fun name hname => ?_⟩
  · exact .inr (.inr (.inl (List.mem_map_of_mem hn)))
  · exact found _ (mem_textureNodes_iff.mpr (.inl ⟨n, hn, hname⟩))

theorem textureLayout_eq_ok_iff {name : String} {l : Layout} :
    textureLayout layouts name = .ok l ↔ layouts.find? name = some l := by
  unfold textureLayout
  cases layouts.find? name with
  | none => simp
  | some l' => simp

/-- The program of a supplied node whose textures are laid out is compiled or refused with a plain
error. -/
theorem programOf_plain [Wgsl.Validator] {cache : ShaderCache} (hsupplied : n.Supplied)
    (houtput : ∃ l, layouts.find? n.name = some l)
    (hinputs : ∀ name ∈ n.boundInputs, ∃ l, layouts.find? name = some l)
    (hranks : n.op = .add ∨ n.op = .mul → ∀ name ∈ n.boundInputs, ∀ operand output,
      layouts.find? name = some operand → layouts.find? n.name = some output →
      operand.shape.length ≤ output.shape.length) :
    Plain (s.programOf layouts cache n) := by
  obtain ⟨inputs, htextures⟩ : ∃ inputs, s.textureInputs layouts n = .ok inputs := by
    refine exists_mapM_eq_ok fun name hname => ?_
    obtain ⟨l, hl⟩ := hinputs name hname
    exact ⟨_, bind_eq_ok_iff.mpr ⟨l, textureLayout_eq_ok_iff.mpr hl, rfl⟩⟩
  obtain ⟨output, houtput⟩ := houtput
  have hlayout : textureLayout layouts n.name = .ok output := textureLayout_eq_ok_iff.mpr houtput
  have hlength : inputs.length = n.boundInputs.length := length_of_mapM htextures
  have hcompile : Plain (Program.compile cache n inputs (s.constantSize n) output).1 := by
    refine Program.compile_plain (fun h => ?_) (fun h => ?_) fun hop l hl => ?_
    · exact hlength ▸ hsupplied.kernel h
    · exact hlength ▸ (hsupplied.image h).ge
    · obtain ⟨input, hinput, rfl⟩ := List.mem_map.mp hl
      obtain ⟨name, hname, htexture⟩ := exists_of_mem_results htextures hinput
      obtain ⟨l, htextureLayout, htexture⟩ := bind_eq_ok_iff.mp htexture
      obtain rfl := pure_eq_ok_iff.mp htexture
      exact hranks hop name hname l output (textureLayout_eq_ok_iff.mp htextureLayout) houtput
  unfold programOf
  rw [bind_of_eq_ok htextures, bind_of_eq_ok hlayout]
  exact hcompile.bind fun _ _ => plain_pure _

theorem programsFrom_plain [Wgsl.Validator] {nodes : List Node}
    (h : ∀ n ∈ nodes, ∀ cache, Plain (s.programOf layouts cache n)) (cache : ShaderCache) :
    Plain (s.programsFrom layouts cache nodes) := by
  induction nodes generalizing cache with
  | nil => exact plain_ok _
  | cons n rest ih =>
    rw [programsFrom]
    refine (h n List.mem_cons_self cache).bind fun result _ => ?_
    exact (ih (fun m hm => h m (List.mem_cons_of_mem _ hm)) _).bind fun _ _ => plain_pure _

end Schedule

/-! ## §4 — compiling -/

/-- The extents along an axis are subtracted only where there is something to subtract from. -/
theorem Convolution.axis_eq_ok {node : String} {input kernel stride out pad : Nat} {padding : Padding}
    (h : axis node input kernel stride padding = .ok (out, pad)) :
    (padding = .same → 1 ≤ out) ∧ (padding = .valid → kernel ≤ input) := by
  unfold axis at h
  split at h
  · cases h
  · rename_i hpos
    cases padding with
    | same =>
      obtain ⟨_, -, h⟩ := bind_eq_ok_iff.mp h
      obtain ⟨_, -, h⟩ := bind_eq_ok_iff.mp h
      obtain ⟨rfl, -⟩ := Prod.mk.inj (pure_eq_ok_iff.mp h)
      exact ⟨fun _ => Size.divCeil_pos (by omega) (by omega), by simp⟩
    | valid =>
      dsimp only at h
      split at h
      · cases h
      · exact ⟨by simp, fun _ => by omega⟩

/-- The operands of a pairwise operation have no higher rank than the result. -/
theorem Operator.rank_le_of_infers {n : Node} {constant : Nat → Option Tensor} {operands : List Descriptor}
    {d : Descriptor} (hop : n.op = .add ∨ n.op = .mul) (h : Infers n constant operands d) :
    ∀ a ∈ operands, a.shape.length ≤ d.shape.length := by
  cases h with
  | pair _ hbroadcast =>
    obtain ⟨hleft, hright⟩ := Shape.broadcast_eq_ok hbroadcast
    intro a ha
    rcases List.mem_pair.mp ha with rfl | rfl
    · exact hleft.1
    · exact hright.1
  | alone hop' => rcases hop with hop | hop <;> rcases hop' with hop' | hop' <;> simp [hop] at hop'
  | convolution hop' => rcases hop with hop | hop <;> simp [hop, isConvolution] at hop'
  | resize second hop' => rcases hop with hop | hop <;> simp [hop] at hop'

theorem Image.three_le_of_ofShape {node : String} {shape : Shape} {image : Image}
    (h : ofShape node shape = .ok image) : 3 ≤ shape.length := by
  obtain ⟨batch, -, rfl⟩ := ofShape_eq_ok h
  rw [List.length_append]
  simp

namespace Graph

variable {g : Graph}

/-- Following identities from a node arrives at a node. -/
theorem exists_vertex_of_follow (steps : Nat) {name : String}
    (h : ∃ v : Fin g.nodes.length, (g.nodeAt v).name = name) :
    ∃ v : Fin g.nodes.length, (g.nodeAt v).name = g.follow steps name := by
  induction steps generalizing name with
  | zero => exact h
  | succ steps ih =>
    rw [follow]
    split
    · exact h
    · rename_i n hn
      split
      · split
        · exact h
        · rename_i r inputs hinputs
          refine ih (exists_vertex_of_input (node?_eq_some_iff.mp hn).1 ?_)
          rw [Node.inputNames, hinputs]
          exact List.mem_cons_self
      · exact h

/-- The node of an output is a node of the graph. -/
theorem exists_vertex_of_output {wanted : List String} {outputs : List OutputSpec}
    (h : g.resolveOutputs wanted = .ok outputs) {output : OutputSpec} (houtput : output ∈ outputs) :
    ∃ v : Fin g.nodes.length, (g.nodeAt v).name = output.node := by
  obtain ⟨name, -, hresolve⟩ := exists_of_mem_results (resolveOutputs_eq_ok h) houtput
  obtain ⟨-, reference, n, -, hn, -, hnode⟩ := resolveOutput_eq_ok hresolve
  obtain ⟨v, rfl⟩ := exists_nodeAt hn
  rw [hnode]
  exact exists_vertex_of_follow _ ⟨v, rfl⟩

/-- An operand of a pairwise operation has no higher rank in its texture than the result in its own. -/
theorem rank_le_of_layouts {r : Request} {s : Schedule} (hs : g.schedule r = .ok s)
    {limits : Layout.Limits} {options : Layout.Options} {layouts : Named Layout}
    (hlayouts : s.layouts limits options = .ok layouts) {n : Node} (hn : n ∈ s.operations)
    (hop : n.op = .add ∨ n.op = .mul) {name : String} (hname : name ∈ n.inputNames)
    {operand output : Layout} (hoperand : layouts.find? name = some operand)
    (houtput : layouts.find? n.name = some output) : operand.shape.length ≤ output.shape.length := by
  obtain ⟨operands, d, constant, hd, hdescribed, hinfers⟩ := exists_infers_of_operation hs hn
  obtain ⟨-, hshaped⟩ := Schedule.layouts_eq_ok hlayouts
  obtain ⟨d', hd', houtputShape⟩ := hshaped _ _ houtput
  obtain ⟨a, ha, hoperandShape⟩ := hshaped _ _ hoperand
  obtain rfl : d = d' := Option.some.inj (hd.symm.trans hd')
  have hmem : a ∈ operands := by
    obtain ⟨a', ha', hname⟩ := exists_operand_of_described hdescribed hname
    rwa [Option.some.inj (ha.symm.trans hname)]
  rw [houtputShape, hoperandShape]
  exact Operator.rank_le_of_infers hop hinfers a hmem

end Graph

/-- **A compilation stays in its domain**: what its passes index is there, what they subtract from is
large enough, and the result is a compiled graph or an error of the user. -/
structure Compiled.InDomain [Wgsl.Validator] (g : Graph) (o : EngineOptions) (limits : DeviceLimits)
    (r : CompileRequest) : Prop where
  /-- As long as words hold all sizes no operation is applied outside its domain, and no texture is without
  a layout. -/
  total : ∀ e, ofGraph g o limits r = .error e →
    (∀ breach, e = .breach breach → breach = .overflow) ∧ ∀ name, e ≠ .graph (.noLayout name)
  /-- Every node has a vertex, and so has all that it reads. -/
  placed : ∀ n ∈ g.nodes, (g.place? n.name).isSome ∧ ∀ name ∈ n.inputNames, (g.place? name).isSome
  /-- The nodes of the outputs have vertices. -/
  rooted : ∀ outputs, g.resolveOutputs r.outputs = .ok outputs →
    ∀ output ∈ outputs, (g.place? output.node).isSome
  /-- The needed constant nodes have their tensors. -/
  given : ∀ order outputs, ∀ n ∈ g.neededNodes order outputs, n.op = .const →
    (g.constants.find? n.name).isSome
  /-- Along an axis the output has an extent to take one from, and a kernel that stays inside is no
  larger than the image. -/
  extents : ∀ node input kernel stride padding out pad,
    Convolution.axis node input kernel stride padding = .ok (out, pad) →
    (padding = .same → 1 ≤ out) ∧ (padding = .valid → kernel ≤ input)
  /-- The image of a convolution has rows, columns and channels to be replaced. -/
  convolved : ∀ node p input kernel depthwise geometry,
    Convolution.Geometry.resolve node p input kernel depthwise = .ok geometry → 3 ≤ input.length
  /-- So has the image of a resize. -/
  resized : ∀ n input size p, Resize.Params.resolve n input size = .ok p → 3 ≤ input.length
  /-- Every operation has the inputs that its program reads. -/
  supplied : ∀ s, g.schedule ⟨r.outputs, o.batch, r.shapes, none⟩ = .ok s → ∀ n ∈ s.operations, n.Supplied
  /-- Every operation and all that its program reads have layouts, and every layout has texels and render
  targets to divide by. -/
  laid : ∀ s, g.schedule ⟨r.outputs, o.batch, r.shapes, none⟩ = .ok s →
    ∀ layouts, s.layouts (o.layoutLimits limits) o.layoutOptions = .ok layouts →
    (∀ n ∈ s.operations, (layouts.find? n.name).isSome ∧
      ∀ name ∈ n.boundInputs, (layouts.find? name).isSome) ∧
    ∀ name l, layouts.find? name = some l → 0 < l.texelsPerLayer ∧ 0 < l.renderTargets
  /-- An operand of a pairwise operation has no higher rank than the result, and an extent and a stride
  on every axis that they share. -/
  aligned : ∀ s, g.schedule ⟨r.outputs, o.batch, r.shapes, none⟩ = .ok s →
    ∀ layouts, s.layouts (o.layoutLimits limits) o.layoutOptions = .ok layouts →
    ∀ n ∈ s.operations, n.op = .add ∨ n.op = .mul → ∀ name ∈ n.inputNames, ∀ operand output,
    layouts.find? name = some operand → layouts.find? n.name = some output →
      operand.shape.length ≤ output.shape.length ∧ ∀ axis < output.shape.length,
        output.shape.length - operand.shape.length ≤ axis →
        axis - (output.shape.length - operand.shape.length) < operand.shape.length ∧
        axis - (output.shape.length - operand.shape.length) < operand.shape.strides.length

namespace Compiled

variable [Wgsl.Validator] {g : Graph} {o : EngineOptions} {limits : DeviceLimits} {r : CompileRequest}

/-- A compilation fails for a cycle or with a plain error. -/
theorem plain_of_ofGraph (hlimits : 0 < limits.maxDimension) {e : Error} (h : ofGraph g o limits r = .error e) :
    (∃ name, e = .graph (.cycle name)) ∨ e.isPlain := by
  unfold ofGraph at h
  rcases bind_eq_error_iff.mp h with h | ⟨_, hvalid, h⟩
  · refine .inr ?_
    unfold EngineOptions.validate at h
    split at h
    · cases h
      rfl
    · cases h
  rcases bind_eq_error_iff.mp h with h | ⟨s, hs, h⟩
  · refine (Graph.schedule_eq_error h).imp_left fun h => ?_
    obtain ⟨v, -, rfl⟩ := Graph.ordered_eq_error h
    exact ⟨_, rfl⟩
  refine .inr (Plain.bind ?_ (fun layouts hlayouts => ?_) e h)
  · obtain ⟨hwidth, hheight⟩ := EngineOptions.layoutLimits_pos hlimits hvalid
    exact Schedule.layouts_plain hwidth hheight
  · refine (Schedule.programsFrom_plain (fun n hn cache => ?_) _).bind fun _ _ => plain_pure _
    obtain ⟨houtput, hinputs⟩ := Schedule.laid_out hlayouts hn
    refine Schedule.programOf_plain (Graph.supplied_of_schedule hs hn) houtput hinputs
      fun hop name hname operand output hoperand houtput => ?_
    exact Graph.rank_le_of_layouts hs hlayouts hn hop (Node.mem_inputNames_of_boundInputs hname) hoperand
      houtput

/-- **Compilation stays in its domain**, for every graph and every validator, on every device with textures at
all. -/
theorem inDomain (hlimits : 0 < limits.maxDimension) : InDomain g o limits r := by
  have hplace : ∀ name, (∃ v : Fin g.nodes.length, (g.nodeAt v).name = name) →
      (g.place? name).isSome := by
    rintro name ⟨v, hv⟩
    rw [Graph.place?_eq_some_iff.mpr hv]
    rfl
  constructor
  case total =>
    intro e h
    rcases plain_of_ofGraph hlimits h with ⟨name, rfl⟩ | h
    · exact ⟨by simp, by simp⟩
    · refine ⟨?_, ?_⟩
      · rintro breach rfl
        cases breach with
        | overflow => rfl
        | _ => cases h
      · rintro name rfl
        cases h
  case placed =>
    intro n hn
    exact ⟨hplace _ (Graph.exists_nodeAt hn |>.imp fun v hv => by rw [hv]),
      fun name hname => hplace _ (Graph.exists_vertex_of_input hn hname)⟩
  case rooted =>
    intro outputs houtputs output houtput
    exact hplace _ (Graph.exists_vertex_of_output houtputs houtput)
  case given =>
    intro order outputs n hn hop
    obtain ⟨v, -, rfl⟩ := Graph.mem_neededNodes_iff.mp hn
    exact g.given (g.nodeAt v) (Graph.nodeAt_mem v) hop
  case extents => exact fun node input kernel stride padding out pad h => Convolution.axis_eq_ok h
  case convolved =>
    intro node p input kernel depthwise geometry h
    exact Image.three_le_of_ofShape (Convolution.Geometry.resolve_eq_ok h).1
  case resized =>
    intro n input size p h
    obtain ⟨image, himage⟩ := Resize.Params.resolve_eq_ok h
    exact Image.three_le_of_ofShape himage
  case supplied => exact fun s hs n hn => Graph.supplied_of_schedule hs hn
  case laid =>
    intro s hs layouts hlayouts
    refine ⟨fun n hn => ?_, fun name l hl => ?_⟩
    · obtain ⟨houtput, hinputs⟩ := Schedule.laid_out hlayouts hn
      exact ⟨Option.isSome_iff_exists.mpr houtput,
        fun name hname => Option.isSome_iff_exists.mpr (hinputs name hname)⟩
    · obtain ⟨d, -, hd⟩ := Schedule.exists_compute_of_layouts hlayouts hl
      have hcomputed := Layout.compute_eq_ok hd
      exact ⟨hcomputed.area_pos, hcomputed.targets_pos⟩
  case aligned =>
    intro s hs layouts hlayouts n hn hop name hname operand output hoperand houtput
    have hrank := Graph.rank_le_of_layouts hs hlayouts hn hop hname hoperand houtput
    rw [Shape.length_strides]
    exact ⟨hrank, fun axis _ _ => ⟨by omega, by omega⟩⟩

end Compiled

open scoped CommandLine in
/-- The resize in front of a sum is compiled, and everything it takes is in its domain. -/
theorem Compiled.enlarged_inDomain : 0 < Graph.enlargedLimits.maxDimension ∧
    (ofGraph Graph.enlarged {} Graph.enlargedLimits ⟨["y"], .empty⟩).isOk ∧
    InDomain Graph.enlarged {} Graph.enlargedLimits ⟨["y"], .empty⟩ :=
  ⟨by decide, Graph.enlarged_compiles, inDomain (by decide)⟩

end TexelFlow
