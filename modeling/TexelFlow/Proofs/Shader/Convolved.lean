import TexelFlow.Proofs.Shader.Convolution

/-!
# The shader of a convolution

The shader declares its textures with their load functions, then the constants of the geometry and of the
result, then the function that computes, and the stages last. Here it is taken apart: the names it gives
its constants, the functions that stand where the body is, and the body itself, so that what is shown
about each of them holds in the shader. A bias may be there or not.

## Main statements

* `shader_convolution` — the parts of the shader.
* `declared` — its constants are those of the geometry.
* `reads_input`, `reads_kernel`, `reads_bias` — its functions load from its textures.
* `functions_compute_convolution`, `increases_convolution` — what it computes is what its body computes.

## §1 — the shader
## §2 — what it loads
## §3 — what it computes
-/

namespace TexelFlow.Wgsl

open TexelFlow.Convolution (Geometry)

/-! ## §1 — the shader -/

/-- The textures that a convolution reads. -/
structure Operands where
  /-- The image. -/
  input : Texture
  /-- The kernel. -/
  kernel : Texture
  /-- The bias, if there is one. -/
  bias : Option Texture

namespace Operands

/-- The textures in the order of their slots. -/
def textures (t : Operands) : List Texture := t.input :: t.kernel :: t.bias.toList

/-- Their layouts. -/
def layouts (t : Operands) : List Layout := t.textures.map (·.layout)

/-- The declarations of the bias. -/
def biasDecls (t : Operands) : List Decl :=
  match t.bias with
  | some b => textureInput 3 "bias" b.layout
  | none => []

end Operands

/-- What stands in front of the textures of a shader. -/
def header (op : Operator) : List Decl := .remark (op.name ++ " program") :: drawParams

/-- What stands in front of the body of a convolution. -/
def convolutionFront (op : Operator) (g : Geometry) (t : Operands) (output : Layout) : List Decl :=
  header op ++ (textureInput 1 "input" t.input.layout ++ (textureInput 2 "kernel" t.kernel.layout ++
    (t.biasDecls ++ (convolutionConstants g ++ outputConstants output))))

/-- The shader of a convolution. -/
def convolutionShader (op : Operator) (g : Geometry) (a : Activation) (depthwise : Bool) (t : Operands)
    (output : Layout) : Shader :=
  convolutionFront op g t output ++ .function none "compute" groupParams (result vec4)
    (convolution a depthwise t.bias.isSome) :: stages output

section Shader

variable {op : Operator} {g : Geometry} {a : Activation} {depthwise : Bool} {t : Operands} {output : Layout}

theorem shader_convolution : shader op (.convolution g a depthwise t.bias.isSome) t.layouts output =
    .ok (convolutionShader op g a depthwise t output) := by
  obtain ⟨input, kernel, bias⟩ := t
  cases bias with
  | none | some b =>
    show Except.ok _ = _
    refine congrArg Except.ok ?_
    simp only [convolutionShader, convolutionFront, header, outputConstants, stages, List.append_assoc,
      List.cons_append, List.nil_append]
    rfl

/-- The names that a texture brings along, and their values. -/
def textureGlobals (slot : Nat) (role upper : String) (l : Layout) : Env :=
  [(role ++ "_tex", .scalar (.texture slot)), (upper ++ "_TEX_W", .ofNat l.width),
   (upper ++ "_TEX_H", .ofNat l.height), (upper ++ "_LPS", .ofNat l.layersPerSlice),
   (upper ++ "_SPATIAL", .ofNat l.spatial), (upper ++ "_CHANNELS", .ofNat l.channels),
   (upper ++ "_GROUPS", .ofNat l.channelGroups)]

theorem globals_textureInput (slot : Nat) (role : String) (l : Layout) :
    (textureInput slot role l).filterMap Decl.global? =
      textureGlobals slot role (role.map Char.toUpper) l := rfl

theorem upper_input : "input".map Char.toUpper = "INPUT" := by decide +kernel

theorem upper_kernel : "kernel".map Char.toUpper = "KERNEL" := by decide +kernel

theorem upper_bias : "bias".map Char.toUpper = "BIAS" := by decide +kernel

/-- The constants of a convolution. -/
def geometryGlobals (g : Geometry) : Env :=
  [("IN_H", .ofNat g.inH), ("IN_W", .ofNat g.inW), ("IN_C", .ofNat g.inC), ("KERNEL_H", .ofNat g.kernelH),
   ("KERNEL_W", .ofNat g.kernelW), ("OUT_X", .ofNat g.outW), ("STRIDE_H", .ofNat g.strideH),
   ("STRIDE_W", .ofNat g.strideW), ("PAD_TOP", .ofInt g.padTop), ("PAD_LEFT", .ofInt g.padLeft),
   ("MULTIPLIER", .ofNat g.multiplier)]

theorem globals_convolutionConstants (g : Geometry) :
    (convolutionConstants g).filterMap Decl.global? = geometryGlobals g := rfl

/-- The names of the bias. -/
def Operands.biasGlobals (t : Operands) : Env :=
  match t.bias with
  | some b => textureGlobals 3 "bias" "BIAS" b.layout
  | none => []

theorem globals_convolutionShader : (convolutionShader op g a depthwise t output).globals =
    textureGlobals 1 "input" "INPUT" t.input.layout ++
      (textureGlobals 2 "kernel" "KERNEL" t.kernel.layout ++ (t.biasGlobals ++ (geometryGlobals g ++
        [("OUT_TEX_W", .ofNat output.width), ("OUT_TEX_H", .ofNat output.height),
         ("OUT_LPS", .ofNat output.layersPerSlice), ("OUT_SPATIAL", .ofNat output.spatial),
         ("OUT_CHANNELS", .ofNat output.channels), ("OUT_GROUPS", .ofNat output.channelGroups)]))) := by
  have hbias : t.biasDecls.filterMap Decl.global? = t.biasGlobals := by
    unfold Operands.biasDecls Operands.biasGlobals
    cases t.bias with
    | none => rfl
    | some b =>
      dsimp only
      rw [globals_textureInput, upper_bias]
  unfold convolutionShader convolutionFront Shader.globals
  simp only [List.filterMap_append, globals_textureInput, globals_convolutionConstants, hbias, upper_input,
    upper_kernel, List.append_assoc]
  rfl

theorem declared (hgroups : output.channels = g.outC) :
    Declared (convolutionShader op g a depthwise t output).globals g t.input.layout.channelGroups := by
  rw [globals_convolutionShader]
  obtain ⟨input, kernel, bias⟩ := t
  cases bias with
  | none =>
    constructor
    all_goals simp [textureGlobals, geometryGlobals, Operands.biasGlobals, Env.find?, hgroups]
  | some b =>
    constructor
    all_goals simp [textureGlobals, geometryGlobals, Operands.biasGlobals, Env.find?, hgroups]

/-! ## §2 — what it loads -/

variable {outside : Outside}

/-- What is known in front of the shader. -/
def Operands.given (t : Operands) (outside : Outside) : Functions := fun f =>
  (sampling t.textures outside f).or (builtin f)

theorem call_given {slot : Nat} {texture : Texture} (h : t.textures[slot - 1]? = some texture)
    (x y layer : Int32) (level : Value) :
    (t.given outside).call "textureLoad" [.scalar (.texture slot), .vector [.signed x, .signed y],
      .scalar (.signed layer), level] = some (.lanes (texture.fetch outside slot x y layer)) := by
  simp [Operands.given, sampling, Functions.call, textureLoad, h]

theorem bound_input : Bound (t.given outside) (convolutionShader op g a depthwise t output).globals outside
    "input" 1 t.input := by
  rw [globals_convolutionShader]
  constructor
  case fetch => exact call_given rfl
  case foreign => decide +kernel
  all_goals
    simp [upper_input, textureGlobals, Env.find?]

theorem bound_kernel : Bound (t.given outside) (convolutionShader op g a depthwise t output).globals outside
    "kernel" 2 t.kernel := by
  rw [globals_convolutionShader]
  constructor
  case fetch => exact call_given rfl
  case foreign => decide +kernel
  all_goals
    simp [upper_kernel, textureGlobals, Env.find?]

theorem bound_bias {b : Texture} (h : t.bias = some b) : Bound (t.given outside)
    (convolutionShader op g a depthwise t output).globals outside "bias" 3 b := by
  rw [globals_convolutionShader]
  constructor
  case fetch => exact call_given (by unfold Operands.textures; rw [h]; rfl)
  case foreign => decide +kernel
  all_goals
    simp [upper_bias, textureGlobals, Operands.biasGlobals, h, Env.find?]

/-- What is known where the body of a convolution stands. -/
def convolutionKnown (op : Operator) (g : Geometry) (a : Activation) (depthwise : Bool) (t : Operands)
    (output : Layout) (outside : Outside) : Functions :=
  (convolutionFront op g t output).foldl
    (define (convolutionShader op g a depthwise t output).globals) (t.given outside)

theorem functions_convolutionShader :
    (convolutionShader op g a depthwise t output).functions (sampling t.textures outside) =
      (.function none "compute" groupParams (result vec4) (convolution a depthwise t.bias.isSome) ::
        stages output).foldl (define (convolutionShader op g a depthwise t output).globals)
        (convolutionKnown op g a depthwise t output outside) :=
  List.foldl_append

theorem functionNames_header : (header op).filterMap Decl.functionName? = [] := rfl

theorem functionNames_textureInput (slot : Nat) (role : String) (l : Layout) :
    (textureInput slot role l).filterMap Decl.functionName? =
      ["load_" ++ role, "load_" ++ role ++ "_channel"] := rfl

theorem reads_input :
    Reads (convolutionKnown op g a depthwise t output outside) outside "input" 1 t.input := by
  refine bound_input.reads_of_split rfl rfl ?_ ?_
  · rw [functionNames_header]
    exact List.not_mem_nil
  · rw [functionNames_header]
    decide +kernel

theorem reads_kernel :
    Reads (convolutionKnown op g a depthwise t output outside) outside "kernel" 2 t.kernel := by
  have hsplit : convolutionFront op g t output = (header op ++ textureInput 1 "input" t.input.layout) ++
      (textureInput 2 "kernel" t.kernel.layout ++ (t.biasDecls ++ (convolutionConstants g ++
        outputConstants output))) := by
    rw [List.append_assoc]
    rfl
  have hnames : (header op ++ textureInput 1 "input" t.input.layout).filterMap Decl.functionName? =
      ["load_input", "load_input_channel"] := by
    rw [List.filterMap_append, functionNames_header, functionNames_textureInput]
    rfl
  unfold convolutionKnown
  rw [hsplit]
  refine bound_kernel.reads_of_split rfl rfl ?_ ?_
  · rw [hnames]
    decide +kernel
  · rw [hnames]
    decide +kernel

theorem reads_bias {b : Texture} (h : t.bias = some b) :
    Reads (convolutionKnown op g a depthwise t output outside) outside "bias" 3 b := by
  have hsplit : convolutionFront op g t output = (header op ++ (textureInput 1 "input" t.input.layout ++
      textureInput 2 "kernel" t.kernel.layout)) ++ (textureInput 3 "bias" b.layout ++
        (convolutionConstants g ++ outputConstants output)) := by
    unfold convolutionFront Operands.biasDecls
    rw [h]
    simp only [List.append_assoc]
  have hnames : (header op ++ (textureInput 1 "input" t.input.layout ++
      textureInput 2 "kernel" t.kernel.layout)).filterMap Decl.functionName? =
      ["load_input", "load_input_channel", "load_kernel", "load_kernel_channel"] := by
    rw [List.filterMap_append, List.filterMap_append, functionNames_header, functionNames_textureInput,
      functionNames_textureInput]
    rfl
  unfold convolutionKnown
  rw [hsplit]
  refine (bound_bias h).reads_of_split rfl rfl ?_ ?_
  · rw [hnames]
    decide +kernel
  · rw [hnames]
    decide +kernel

/-! ## §3 — what it computes -/

theorem compute_not_in_front :
    "compute" ∉ (convolutionFront op g t output).filterMap Decl.functionName? := by
  have hbias : t.biasDecls.filterMap Decl.functionName? ⊆ ["load_bias", "load_bias_channel"] := by
    unfold Operands.biasDecls
    cases t.bias with
    | none => exact List.nil_subset _
    | some b => exact List.Subset.refl _
  have hconstants : (convolutionConstants g ++ outputConstants output).filterMap Decl.functionName? = [] :=
    rfl
  unfold convolutionFront
  rw [List.filterMap_append, List.filterMap_append, List.filterMap_append, List.filterMap_append,
    functionNames_header, functionNames_textureInput, functionNames_textureInput, hconstants]
  simp only [List.nil_append, List.append_nil, List.mem_append, not_or]
  refine ⟨by decide +kernel, by decide +kernel, fun hmem => ?_⟩
  exact absurd (hbias hmem) (by decide +kernel)

theorem functions_compute_convolution :
    (convolutionShader op g a depthwise t output).functions (sampling t.textures outside) "compute" =
      some (meaningOf (convolutionKnown op g a depthwise t output outside)
        (convolutionShader op g a depthwise t output).globals groupParams
        (convolution a depthwise t.bias.isSome)) :=
  functions_of_split rfl compute_not_in_front none groupParams (result vec4) _

/-- What is known where the body stands is known of the whole shader. -/
theorem call_of_convolutionKnown {name : String} {args : List Value} {value : Value}
    (h : (convolutionKnown op g a depthwise t output outside).call name args = some value) :
    ((convolutionShader op g a depthwise t output).functions (sampling t.textures outside)).call name args =
      some value := by
  rw [functions_convolutionShader]
  exact call_foldl_define h _

/-- The functions that every shader can call are among those of a convolution. -/
theorem builtin_of_given {name : String} {meaning : Meaning} (h : t.given outside name = some meaning) :
    convolutionKnown op g a depthwise t output outside name = some meaning ∧
      (convolutionShader op g a depthwise t output).functions (sampling t.textures outside) name =
        some meaning := by
  have hknown : convolutionKnown op g a depthwise t output outside name = some meaning :=
    foldl_define_of_some h _
  rw [functions_convolutionShader]
  exact ⟨hknown, foldl_define_of_some hknown _⟩

theorem increases_convolution (args : List Value) :
    (convolutionShader op g a depthwise t output).increases (sampling t.textures outside) "compute" args =
      Stmt.increasesAll
        ((convolutionShader op g a depthwise t output).functions (sampling t.textures outside))
        (convolution a depthwise t.bias.isSome)
        ((groupParams.map (·.name)).zip args ++ (convolutionShader op g a depthwise t output).globals) := by
  have hbody : (convolutionShader op g a depthwise t output).findSome? (Decl.body? "compute") =
      some (groupParams, convolution a depthwise t.bias.isSome) :=
    findSome?_body_of_split compute_not_in_front none groupParams (result vec4) _
  unfold Shader.increases
  rw [hbody]

end Shader

end TexelFlow.Wgsl
