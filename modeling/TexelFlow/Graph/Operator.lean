/-!
# Operators and layer classes

The operations a graph can hold. A description names operations and layer classes by text; each name
is looked up once, and a name without a meaning is kept as it is, to be refused where a program for it
would be needed.
-/

namespace TexelFlow

/-- What a node of a graph does. -/
inductive Operator where
  /-- Takes an input of the run. -/
  | placeholder
  /-- Holds a weight. -/
  | const
  /-- Hands its input on. -/
  | identity
  /-- Adds two tensors. -/
  | add
  /-- Multiplies two tensors element by element. -/
  | mul
  /-- Replaces negative elements by zero. -/
  | relu
  /-- Convolution. -/
  | conv
  /-- Convolution with bias and activation. -/
  | fusedConv
  /-- Convolution of each channel by itself. -/
  | depthwise
  /-- Convolution of each channel by itself, with bias and activation. -/
  | fusedDepthwise
  /-- Bilinear resize. -/
  | resize
  /-- An operation without a program. -/
  | unsupported (name : String)
  deriving DecidableEq, Repr

namespace Operator

/-- The operation of a name in a graph description. -/
def ofName (name : String) : Operator :=
  match name with
  | "Placeholder" => .placeholder
  | "Const" => .const
  | "Identity" => .identity
  | "Add" => .add
  | "AddV2" => .add
  | "Mul" => .mul
  | "Relu" => .relu
  | "Conv2D" => .conv
  | "_FusedConv2D" => .fusedConv
  | "DepthwiseConv2D" => .depthwise
  | "DepthwiseConv2dNative" => .depthwise
  | "FusedDepthwiseConv2dNative" => .fusedDepthwise
  | "ResizeBilinear" => .resize
  | other => .unsupported other

/-- Name in messages. -/
def name : Operator → String
  | .placeholder => "Placeholder"
  | .const => "Const"
  | .identity => "Identity"
  | .add => "Add"
  | .mul => "Mul"
  | .relu => "Relu"
  | .conv => "Conv2D"
  | .fusedConv => "FusedConv2D"
  | .depthwise => "DepthwiseConv2D"
  | .fusedDepthwise => "FusedDepthwiseConv2D"
  | .resize => "ResizeBilinear"
  | .unsupported other => other

/-- Whether a node holds data and runs no program. -/
def isData : Operator → Bool
  | .placeholder => true
  | .const => true
  | _ => false

/-- Whether an operation is a convolution of any kind. -/
def isConvolution : Operator → Bool
  | .conv => true
  | .fusedConv => true
  | .depthwise => true
  | .fusedDepthwise => true
  | _ => false

/-- Whether a convolution treats each channel by itself. -/
def isDepthwise : Operator → Bool
  | .depthwise => true
  | .fusedDepthwise => true
  | _ => false

/-- Whether a convolution carries bias and activation. -/
def isFused : Operator → Bool
  | .fusedConv => true
  | .fusedDepthwise => true
  | _ => false

/-- Whether an operation has no program. -/
def isUnsupported : Operator → Bool
  | .unsupported _ => true
  | _ => false

end Operator

/-- The class of a layer. -/
inductive LayerClass where
  /-- Takes an input of the run. -/
  | input
  /-- Convolution. -/
  | conv
  /-- Convolution of each channel by itself. -/
  | depthwise
  /-- Replaces negative elements by zero. -/
  | relu
  /-- An activation named in the configuration. -/
  | activation
  /-- Adds two tensors. -/
  | add
  /-- Multiplies two tensors element by element. -/
  | multiply
  /-- Enlarges an image. -/
  | upSampling
  /-- A class without an operation. -/
  | unsupported (name : String)
  deriving DecidableEq, Repr

/-- The class of a name in a layer description. -/
def LayerClass.ofName (name : String) : LayerClass :=
  match name with
  | "InputLayer" => .input
  | "Conv2D" => .conv
  | "DepthwiseConv2D" => .depthwise
  | "ReLU" => .relu
  | "Activation" => .activation
  | "Add" => .add
  | "Multiply" => .multiply
  | "UpSampling2D" => .upSampling
  | other => .unsupported other

end TexelFlow
