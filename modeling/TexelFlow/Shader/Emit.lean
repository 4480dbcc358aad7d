import TexelFlow.Shader.Pass
import TexelFlow.Shader.Syntax

/-!
# The shader of a pass

A shader draws a rectangle over the canvas and computes, for every texel and every layer attached, one
group of four channels at one spatial position. All extents stand in it as constants, so a shader is a
function of the operation, the pass and the layouts. Every texture it reads comes with two functions:
one loads a group of channels at a position, one a single channel.

## §1 — words
## §2 — textures
## §3 — bodies
## §4 — the shader
-/

namespace TexelFlow.Wgsl

/-! ## §1 — words -/

instance : Add Expr := ⟨.binary .add⟩
instance : Sub Expr := ⟨.binary .sub⟩
instance : Mul Expr := ⟨.binary .mul⟩
instance : Div Expr := ⟨.binary .div⟩
instance : Mod Expr := ⟨.binary .rem⟩

/-- A variable or constant. -/
def v (name : String) : Expr := .name name

/-- An unsigned number. -/
def u (n : Nat) : Expr := .unsigned n

/-- Below. -/
def below (a b : Expr) : Expr := .binary .lt a b

/-- Not below. -/
def atLeast (a b : Expr) : Expr := .binary .ge a b

/-- One or the other. -/
def either (a b : Expr) : Expr := .binary .or a b

/-- A sum or product in parentheses. -/
def paren (e : Expr) : Expr := .group e

/-- Vectors of four reals. -/
def vec4 : Kind := .vec 4 .f32

/-- The vector of four zeros. -/
def zero4 : Expr := .make vec4 [.real .zero]

/-- A number as another type. -/
def cast (kind : Kind) (e : Expr) : Expr := .make kind [e]

/-- A parameter of a function. -/
def param (name : String) (kind : Kind) : Param := ⟨none, name, kind⟩

/-- The result of a function. -/
def result (kind : Kind) : Param := ⟨none, "", kind⟩

/-- A function that is no stage of the pipeline. -/
def function (name : String) (params : List Param) (kind : Kind) (body : List Stmt) : Decl :=
  .function none name params (result kind) body

/-- An unsigned constant. -/
def constant (name : String) (n : Nat) : Decl := .const name .u32 (.unsigned n)

/-- A signed constant. -/
def signedConstant (name : String) (n : Nat) : Decl := .const name .i32 (.signed n)

/-- A real constant. -/
def realConstant (name : String) (x : Binary32) : Decl := .const name .f32 (.real x)

/-! ## §2 — textures -/

/-- The constants of a layout. -/
def layoutConstants (start : String) (l : Layout) : List Decl :=
  [constant (start ++ "_TEX_W") l.width, constant (start ++ "_TEX_H") l.height,
   constant (start ++ "_LPS") l.layersPerSlice, constant (start ++ "_SPATIAL") l.spatial,
   constant (start ++ "_CHANNELS") l.channels, constant (start ++ "_GROUPS") l.channelGroups]

/-- A constant of a role. -/
def roleConstant (role part : String) : Expr := v (role.map Char.toUpper ++ part)

/-- Load a group of channels at a position: the slice gives the run of layers, the group the layer in
it, the rest of the position the texel. -/
def loadGroup (role : String) : Decl :=
  let width := roleConstant role "_TEX_W"
  function ("load_" ++ role) [param "s" .u32, param "g" .u32] vec4
    [.bind "per_layer" (width * roleConstant role "_TEX_H"),
     .bind "local" (v "s" % v "per_layer"),
     .bind "layer" (paren (v "s" / v "per_layer") * roleConstant role "_LPS" + v "g"),
     .give (.call "textureLoad"
       [v (role ++ "_tex"),
        .make (.vec 2 .i32) [cast .i32 (v "local" % width), cast .i32 (v "local" / width)],
        cast .i32 (v "layer"), .signed 0])]

/-- Load one channel at a position. -/
def loadChannel (role : String) : Decl :=
  function ("load_" ++ role ++ "_channel") [param "s" .u32, param "c" .u32] .f32
    [.bind "texel" (.call ("load_" ++ role) [v "s", v "c" / u 4]),
     .give (.item (v "texel") (v "c" % u 4))]

/-- A texture that is read: its slot, its layout and its functions. -/
def textureInput (binding : Nat) (role : String) (l : Layout) : List Decl :=
  [.blank, .texture binding (role ++ "_tex")]
    ++ layoutConstants (role.map Char.toUpper) l
    ++ [.blank, loadGroup role, .blank, loadChannel role]

/-- The textures of a pass, from a slot on. -/
def textureInputs (binding : Nat) : List String → List Layout → List Decl
  | role :: roles, l :: layouts =>
    textureInput binding role l ++ textureInputs (binding + 1) roles layouts
  | _, _ => []

/-! ## §3 — bodies -/

/-- What an activation does to a vector. -/
def activate (a : Activation) (e : Expr) : Expr :=
  match a with
  | .linear => e
  | .relu => .call "max" [e, zero4]
  | .relu6 => .call "clamp" [e, zero4, .make vec4 [.real .six]]

/-- The stride of an operand along an axis of the output; zero where the operand has one element or no
axis at all. -/
def operandStride (operand output : Shape) (axis : Nat) : Nat :=
  let lead := output.length - operand.length
  if axis < lead then 0
  else
    match operand[axis - lead]?, operand.strides[axis - lead]? with
    | some extent, some stride => if extent = 1 then 0 else stride
    | _, _ => 0

/-- The statements that take one axis of the output off the remaining index and add its share to the
index of the operand. -/
def axisShare (outputStride operandStride : Nat) : List Stmt :=
  (if operandStride ≠ 0 then
    [.increase (v "j") (paren (v "rem" / u outputStride) * u operandStride)]
  else []) ++ [.assign (v "rem") (v "rem" % u outputStride)]

/-- The function from an element of the output to the element of an operand that broadcasting reads
there, both by position and channel. -/
def operandIndex (role : String) (operand output : Shape) : Decl :=
  let channels := operand.getLast?.getD 1
  function ("index_" ++ role) [param "s" .u32, param "c" .u32] (.vec 2 .u32) <|
    [.var "rem" (v "s" * v "OUT_CHANNELS" + v "c"), .var "j" (u 0)]
      ++ (output.strides.mapIdx fun axis stride =>
        axisShare stride (operandStride operand output axis)).flatten
      ++ [.give (.make (.vec 2 .u32) [v "j" / u channels, v "j" % u channels])]

/-- An operand has an index function if words hold the strides and it has no more axes than the output. -/
def checkIndex (operand output : Shape) : Outcome Unit := do
  let _ ← [output, operand].mapM Shape.strided
  let _ ← Size.sub output.length operand.length

/-- The operation between two operands. -/
def pairOp (op : Operator) : Op := if op = .mul then .mul else .add

/-- Declarations and body of a pairwise operation. Operands of the shape of the output are taken group
by group, any others channel by channel through their index functions. -/
def pairwise (op : Operator) (lhs rhs output : Layout) : List Decl × List Stmt :=
  if lhs.shape = output.shape ∧ rhs.shape = output.shape then
    ([], [.give (.binary (pairOp op) (.call "load_lhs" [v "s", v "g"]) (.call "load_rhs" [v "s", v "g"]))])
  else
    let part (role name : String) : Expr :=
      .call ("load_" ++ role ++ "_channel") [.member (v name) "x", .member (v name) "y"]
    ([operandIndex "lhs" lhs.shape output.shape, operandIndex "rhs" rhs.shape output.shape],
     [.var "result" zero4,
      .countTo "lane" (u 4)
        [.bind "c" (v "g" * u 4 + v "lane"),
         .onlyIf (below (v "c") (v "OUT_CHANNELS"))
           [.bind "a" (.call "index_lhs" [v "s", v "c"]),
            .bind "b" (.call "index_rhs" [v "s", v "c"]),
            .assign (.item (v "result") (v "lane")) (.binary (pairOp op) (part "lhs" "a") (part "rhs" "b"))]],
      .give (v "result")])

/-- The constants of a convolution. -/
def convolutionConstants (g : Convolution.Geometry) : List Decl :=
  [constant "IN_H" g.inH, constant "IN_W" g.inW, constant "IN_C" g.inC,
   constant "KERNEL_H" g.kernelH, constant "KERNEL_W" g.kernelW, constant "OUT_X" g.outW,
   constant "STRIDE_H" g.strideH, constant "STRIDE_W" g.strideW,
   signedConstant "PAD_TOP" g.padTop, signedConstant "PAD_LEFT" g.padLeft,
   constant "MULTIPLIER" g.multiplier]

/-- Add the products of one kernel element where every channel is treated by itself. -/
def accumulateDepthwise : List Stmt :=
  [.countTo "lane" (u 4)
    [.bind "co" (v "g" * u 4 + v "lane"),
     .onlyIf (below (v "co") (v "OUT_CHANNELS"))
       [.bind "ci" (v "co" / v "MULTIPLIER"),
        .increase (.item (v "acc") (v "lane"))
          (.broken .mul (.call "load_input_channel" [v "pixel", v "ci"])
            (.call "load_kernel_channel"
              [v "tap" * v "IN_C" + v "ci", v "co" % v "MULTIPLIER"]))]]]

/-- Add the products of one kernel element over all channels of the input. -/
def accumulateAll : List Stmt :=
  [.countTo "gi" (v "INPUT_GROUPS")
    [.bind "x" (.call "load_input" [v "pixel", v "gi"]),
     .countTo "lane" (u 4)
       [.bind "ci" (v "gi" * u 4 + v "lane"),
        .onlyIf (below (v "ci") (v "IN_C"))
          [.increase (v "acc")
            (.item (v "x") (v "lane")
              * .call "load_kernel" [v "tap" * v "IN_C" + v "ci", v "g"])]]]]

/-- Pass on to the next kernel element where one reaches over the border of the image. -/
def skipOutside (name extent : String) : Stmt :=
  .onlyIf (either (below (v name) (.signed 0)) (atLeast (v name) (cast .i32 (v extent)))) [.skip]

/-- The place of a kernel element along one axis of the image. -/
def reach (output stride kernel pad : String) : Expr :=
  cast .i32 (v output * v stride + v kernel) - v pad

/-- The body of a convolution. -/
def convolution (a : Activation) (depthwise hasBias : Bool) : List Stmt :=
  [.bind "oy" (v "s" / v "OUT_X"),
   .bind "ox" (v "s" % v "OUT_X"),
   .var "acc" (if hasBias then .call "load_bias" [u 0, v "g"] else zero4),
   .countTo "ky" (v "KERNEL_H")
     [.bind "iy" (reach "oy" "STRIDE_H" "ky" "PAD_TOP"),
      skipOutside "iy" "IN_H",
      .countTo "kx" (v "KERNEL_W") <|
        [.bind "ix" (reach "ox" "STRIDE_W" "kx" "PAD_LEFT"),
         skipOutside "ix" "IN_W",
         .bind "pixel" (cast .u32 (v "iy") * v "IN_W" + cast .u32 (v "ix")),
         .bind "tap" (v "ky" * v "KERNEL_W" + v "kx")]
          ++ if depthwise then accumulateDepthwise else accumulateAll],
   .give (activate a (v "acc"))]

/-- The constants and functions of a resize. -/
def resizeDecls (p : Resize.Params) (inH inW : Nat) : List Decl :=
  [constant "IN_H" inH, constant "IN_W" inW, constant "OUT_X" p.outW,
   realConstant "SCALE_H" (p.step inH p.outH), realConstant "SCALE_W" (p.step inW p.outW),
   realConstant "PIXEL_OFFSET" (if p.halfPixelCenters then .half else .zero),
   .blank,
   function "source_coord" [param "dst" .u32, param "scale" .f32] .f32
     [.give (paren (cast .f32 (v "dst") + v "PIXEL_OFFSET") * v "scale" - v "PIXEL_OFFSET")],
   .blank,
   function "clamp_index" [param "v" .f32, param "extent" .u32] .u32
     [.give (cast .u32 (.call "clamp"
       [v "v", .real .zero, cast .f32 (v "extent" - u 1)]))]]

/-- The body of a resize. -/
def resize : List Stmt :=
  let floor (name : String) : Expr := .call "floor" [v name]
  let index (rounding name extent : String) : Expr :=
    .call "clamp_index" [.call rounding [v name], v extent]
  let texel (row column : String) : Expr :=
    .call "load_input" [v row * v "IN_W" + v column, v "g"]
  let mix (a b part : String) : Expr := v a + paren (v b - v a) * v part
  [.bind "oy" (v "s" / v "OUT_X"),
   .bind "ox" (v "s" % v "OUT_X"),
   .bind "sy" (.call "source_coord" [v "oy", v "SCALE_H"]),
   .bind "sx" (.call "source_coord" [v "ox", v "SCALE_W"]),
   .bind "top" (index "floor" "sy" "IN_H"),
   .bind "bottom" (index "ceil" "sy" "IN_H"),
   .bind "left" (index "floor" "sx" "IN_W"),
   .bind "right" (index "ceil" "sx" "IN_W"),
   .bind "dy" (v "sy" - floor "sy"),
   .bind "dx" (v "sx" - floor "sx"),
   .bind "tl" (texel "top" "left"),
   .bind "tr" (texel "top" "right"),
   .bind "bl" (texel "bottom" "left"),
   .bind "br" (texel "bottom" "right"),
   .bind "upper" (mix "tl" "tr" "dx"),
   .bind "lower" (mix "bl" "br" "dx"),
   .give (mix "upper" "lower" "dy")]

/-- Declarations and body of a pass. -/
def body (op : Operator) (pass : Pass) (inputs : List Layout) (output : Layout) :
    Outcome (List Decl × List Stmt) :=
  match pass with
  | .pairwise => do
    let lhs ← Pass.input inputs 0
    let rhs ← Pass.input inputs 1
    if lhs.shape ≠ output.shape ∨ rhs.shape ≠ output.shape then
      checkIndex lhs.shape output.shape
      checkIndex rhs.shape output.shape
    return pairwise op lhs rhs output
  | .relu => .ok ([], [.give (.call "max" [.call "load_input" [v "s", v "g"], zero4])])
  | .convolution g a depthwise hasBias =>
    .ok (convolutionConstants g, convolution a depthwise hasBias)
  | .resize p inH inW => .ok (resizeDecls p inH inW, resize)

/-! ## §4 — the shader -/

/-- What every draw is told: its slice and its first group. -/
def drawParams : List Decl :=
  [.blank,
   .record "DrawParams"
     [param "slice" .u32, param "group_offset" .u32, param "pad0" .u32, param "pad1" .u32],
   .blank,
   .block 0 "params" (.record "DrawParams")]

/-- The vertex stage: two triangles that cover the canvas. -/
def vertexStage : Decl :=
  let one : Expr := .real .one
  let minusOne : Expr := .real ⟨0xbf800000⟩
  let corner (x y : Expr) : Expr := .make (.vec 2 .f32) [x, y]
  .function (some "@vertex") "vs_main"
    [⟨some "@builtin(vertex_index)", "index", .u32⟩] ⟨some "@builtin(position)", "", vec4⟩
    [.var "corners" (.rows (.array (.vec 2 .f32) 6)
      [corner minusOne minusOne, corner one minusOne, corner minusOne one,
       corner minusOne one, corner one minusOne, corner one one]),
     .give (.make vec4 [.item (v "corners") (v "index"), .real .zero, one])]

/-- The outputs of the fragment stage, one for each render target. -/
def fragmentOutput (targets : Nat) : Decl :=
  .record "FragmentOutput" <| (List.range targets).map fun i =>
    ⟨some s!"@location({i})", s!"out{i}", vec4⟩

/-- The texel of a position and group: zero outside the tensor and in lanes without a channel. -/
def outputTexel : Decl :=
  let vec4u : Kind := .vec 4 .u32
  function "output_texel" [param "s" .u32, param "g" .u32] vec4
    [.onlyIf (either (atLeast (v "s") (v "OUT_SPATIAL")) (atLeast (v "g") (v "OUT_GROUPS")))
       [.give zero4],
     .bind "lanes" (.make vec4u [u 0, u 1, u 2, u 3] + .make vec4u [v "g" * u 4]),
     .give (.call "select"
       [zero4, .call "compute" [v "s", v "g"],
        below (v "lanes") (.make vec4u [v "OUT_CHANNELS"])])]

/-- The fragment stage: one texel for each render target. -/
def fragmentStage (targets : Nat) : Decl :=
  let params (part : String) : Expr := .member (v "params") part
  let coordinate (part : String) : Expr := cast .u32 (.member (v "position") part)
  .function (some "@fragment") "fs_main"
    [⟨some "@builtin(position)", "position", vec4⟩] (result (.record "FragmentOutput")) <|
    [.bind "x" (coordinate "x"),
     .bind "y" (coordinate "y"),
     .bind "s" (params "slice" * v "OUT_TEX_W" * v "OUT_TEX_H" + v "y" * v "OUT_TEX_W" + v "x"),
     .declare "out" (.record "FragmentOutput")]
      ++ ((List.range targets).map fun i =>
        .assign (.member (v "out") s!"out{i}")
          (.call "output_texel" [v "s", params "group_offset" + u i]))
      ++ [.give (v "out")]

/-- **The shader** of a pass. -/
def shader (op : Operator) (pass : Pass) (inputs : List Layout) (output : Layout) :
    Outcome Shader := do
  let (decls, statements) ← body op pass inputs output
  return [.remark (op.name ++ " program")] ++ drawParams
    ++ textureInputs 1 pass.roles inputs ++ decls
    ++ [.blank] ++ layoutConstants "OUT" output
    ++ [.blank, function "compute" [param "s" .u32, param "g" .u32] vec4 statements,
        .blank, vertexStage,
        .blank, fragmentOutput output.renderTargets,
        .blank, outputTexel,
        .blank, fragmentStage output.renderTargets]

end TexelFlow.Wgsl
