import TexelFlow.Json.Value
import TexelFlow.Tensor.DataType
import TexelFlow.Text.Quoted

/-!
# Errors

An error is its cause, with the data its wording shows. Causes are grouped by what went wrong: the
graph, the inputs, the limits of a device, the order of operations, shapes, the model's files and
weights, host tensors. The wording of every cause is here and nowhere else.

A `Breach` is no error of the user: an operation was applied outside its domain. Where the library
promises that this cannot happen, the promise is that no result is a breach.

## §1 — causes
## §2 — wording
-/

namespace TexelFlow

/-! ## §1 — causes -/

/-- An operation was applied outside its domain. -/
inductive Breach where
  /-- A position past the end of a sequence. -/
  | indexOutOfRange
  /-- A range whose upper end is below its lower end. -/
  | emptyRange
  /-- A division by zero. -/
  | divisionByZero
  /-- A number that is too large for a word. -/
  | overflow
  /-- A number below zero. -/
  | underflow
  /-- Data that does not fill its shape. -/
  | unfilledShape
  /-- A name that should have been there. -/
  | missingName
  /-- A request for more memory than can be addressed. -/
  | capacity
  /-- A pipeline with more render targets than any pipeline has. -/
  | targets
  deriving DecidableEq, Repr

/-- What is wrong with a node reference. -/
inductive ReferenceFault where
  /-- The output index is no number. -/
  | index
  /-- There are more than three parts. -/
  | parts
  deriving DecidableEq, Repr

/-- What is wrong with an attribute. -/
inductive AttributeFault where
  /-- Strides that are no numbers. -/
  | stridesNotNumbers
  /-- Strides of another count than 1, 2 or 4. -/
  | stridesCount
  /-- A stride below one. -/
  | stridesNotPositive
  /-- A padding that is no text. -/
  | paddingNotText
  /-- A scale of another count than 1 or 2. -/
  | scaleCount
  /-- A size that is no height and width. -/
  | sizeCount
  /-- A size below one. -/
  | sizeNotPositive
  deriving DecidableEq, Repr

/-- What is wrong with a graph. -/
inductive GraphFault where
  /-- A node reference that cannot be read. -/
  | badReference (reference : String) (fault : ReferenceFault)
  /-- A node without a name. -/
  | emptyName
  /-- Two nodes of one name. -/
  | duplicateName (name : String)
  /-- An input that is no node. -/
  | unknownInput (node input : String)
  /-- A constant without a tensor. -/
  | constWithoutTensor (node : String)
  /-- A layer with more than a kernel and a bias. -/
  | tooManyWeights (layer : String) (count : Nat)
  /-- A layer that reads nothing. -/
  | layerWithoutInputs (layer layerClass : String)
  /-- A layer's weight that is not there. -/
  | weightNotLoaded (layer weight : String)
  /-- An input that reads another output than the first. -/
  | secondOutput (node : String) (index : Nat) (input : String)
  /-- An identity with another number of inputs than one. -/
  | identityInputs (node : String) (count : Nat)
  /-- Fused operations that are no texts. -/
  | fusedNotTexts (node : String)
  /-- Fused operations without a program. -/
  | unsupportedFused (node : String) (ops : List String)
  /-- An input layer without a shape. -/
  | layerWithoutShape (layer : String)
  /-- A padding without a meaning. -/
  | unsupportedPadding (node value : String)
  /-- An activation without a program. -/
  | unsupportedActivation (node value : String)
  /-- A required attribute that is missing. -/
  | missingAttribute (node kind key : String)
  /-- An attribute of the wrong form. -/
  | invalidAttribute (node key : String) (fault : AttributeFault)
  /-- A resize without a target size. -/
  | resizeWithoutSize (node : String)
  /-- A node with the wrong number of inputs. -/
  | inputCount (node kind : String) (least most got : Nat)
  /-- A data node whose shape is asked for as if it were computed. -/
  | dataNotInferred (node kind : String)
  /-- A pairwise operation on another number of operands than two. -/
  | pairExpected (node : String) (got : Nat)
  /-- A directed cycle. -/
  | cycle (node : String)
  /-- An input of a type without a meaning. -/
  | unsupportedInputType (node dtype : String)
  /-- An input without a declared shape. -/
  | undeclaredShape (input : String)
  /-- An input with an undeclared extent. -/
  | undeclaredExtent (input : String) (axis : Nat)
  /-- A placeholder without an input specification. -/
  | noInputSpec (node : String)
  /-- A node scheduled before one of its inputs. -/
  | scheduledEarly (node input : String)
  /-- A node evaluated before one of its inputs. -/
  | evaluatedEarly (node input : String)
  /-- An output that was not evaluated. -/
  | outputNotEvaluated (node : String)
  /-- A node without a descriptor. -/
  | noDescriptor (node : String)
  /-- A node without a texture layout. -/
  | noLayout (node : String)
  /-- A program with the wrong number of textures. -/
  | textureCount (node kind : String) (got expected : Nat)
  /-- Engine options that cannot be read. -/
  | invalidOptions (fault : Json.Fault)
  deriving DecidableEq

/-- What is wrong with inputs or requested outputs. -/
inductive InputFault where
  /-- Names that belong to no input. -/
  | unknownNames (names expected : List String)
  /-- An input that is not given. -/
  | missing (input : String)
  /-- An input without the leading extent of one that would be stripped. -/
  | noBatch (input : String) (shape : Shape)
  /-- An input of the wrong type. -/
  | dtype (input : String) (expected got : DataType)
  /-- An input of the wrong rank. -/
  | rank (input : String) (declared : List Int) (shape : Shape)
  /-- An input with a wrong extent. -/
  | extent (input : String) (axis : Nat) (expected : Int) (got : Nat)
  /-- An input of another shape than the one compiled for. -/
  | compiledShape (input : String) (expected got : Shape)
  /-- No output is asked for and none is declared. -/
  | noOutputs
  /-- An output that is no node. -/
  | unknownOutput (output node : String)
  /-- A node without a bound value. -/
  | unbound (node : String)
  /-- A tensor that is not numeric. -/
  | notNumeric (name : String)
  /-- The wrong number of values for a layout. -/
  | packCount (got : Nat) (shape : Shape) (expected : Nat)
  deriving DecidableEq

/-- What exceeds the limits of a device. -/
inductive LimitFault where
  /-- Strings in a texture. -/
  | strings (tensor : String)
  /-- A tensor without elements. -/
  | empty (tensor : String) (shape : Shape)
  /-- Too many array layers. -/
  | layers (tensor : String) (shape : Shape) (layers slices perSlice limit : Nat)
  /-- A canvas without room. -/
  | canvas (width height viewport : Nat)
  /-- A breakpoint without render targets. -/
  | noTargets (threshold : Nat)
  /-- A breakpoint with too many render targets. -/
  | tooManyTargets (threshold targets limit : Nat)
  deriving DecidableEq

/-- What has to come first. -/
inductive OrderFault where
  /-- A run is in progress. -/
  | running
  /-- The engine has failed and must compile again. -/
  | failed (action : String)
  /-- Nothing is compiled. -/
  | uncompiled (action : String)
  /-- The action does not apply to the state. -/
  | misplaced (action state : String)
  /-- There is no compiled graph. -/
  | noGraph
  /-- Inputs cannot be bound in this state. -/
  | cannotBind (state : String)
  /-- Nothing can be executed in this state. -/
  | cannotExecute (state : String)
  deriving DecidableEq

/-- What failed on the device. -/
inductive DeviceFault where
  /-- The read texels are fewer than the layout needs. -/
  | shortRead (got : Nat) (shape : Shape) (expected : Nat)
  /-- An output without a descriptor. -/
  | noDescriptor (output : String)
  /-- The device refused a step. -/
  | refused (step : String)
  deriving DecidableEq

/-- Why shapes do not go together. -/
inductive ShapeFault where
  /-- A batch of more than one image. -/
  | batch (node : String) (size : Nat)
  /-- A shape that is no image. -/
  | notImage (node : String) (shape : Shape)
  /-- A shape that is no kernel. -/
  | notKernel (node : String) (shape : Shape)
  /-- A kernel for another number of channels. -/
  | kernelChannels (node : String) (expected got : Nat)
  /-- An empty image or a zero stride. -/
  | emptyExtent (node : String)
  /-- A kernel larger than the image. -/
  | kernelExtent (node : String) (kernel input : Nat)
  /-- Extents that do not broadcast. -/
  | broadcast (a b : Shape) (axis left right : Nat)
  /-- A bias of the wrong length. -/
  | bias (node : String) (got expected : Nat)
  /-- A fault of the operands of a node. -/
  | atNode (node : String) (fault : ShapeFault)
  deriving DecidableEq

/-- What is wrong with a model description or its weights. -/
inductive ModelFault where
  /-- The declared format is not the one of the topology. -/
  | format (declared actual : String)
  /-- Two weights of one name. -/
  | duplicateWeight (name : String)
  /-- A string weight that is no UTF-8. -/
  | weightText (name reason : String)
  /-- A file that is no UTF-8. -/
  | fileText (path reason : String)
  deriving DecidableEq

/-- What is wrong with a quantization. -/
inductive QuantizationFault where
  /-- A type that cannot be quantized. -/
  | dtype (dtype : DataType)
  /-- Half precision for another type than float32. -/
  | halfPrecision (dtype : DataType)
  /-- No scale or no minimum. -/
  | parameters (storage : String)
  /-- Values that are not finite. -/
  | notFinite
  deriving DecidableEq

/-- What a file operation reports. -/
inductive FileFault where
  /-- There is no such file. -/
  | notFound
  /-- A directory stands where a file is asked for. -/
  | isDirectory
  /-- A file stands where a directory is asked for. -/
  | notDirectory
  /-- The file is no UTF-8. -/
  | notText
  /-- A path with the character that ends one. -/
  | endedName
  /-- A path, or a part of one, that is too long. -/
  | longName
  /-- Anything else. -/
  | other (reason : String)
  deriving DecidableEq

/-- What is wrong with a host tensor. -/
inductive TensorFault where
  /-- Data that does not fill its shape. -/
  | length (got : Nat) (shape : Shape) (expected : Nat)
  /-- Strings read back from a texture. -/
  | readStrings
  /-- A type that is not exchanged with a device. -/
  | notExchanged (dtype : DataType)
  /-- An array whose parts differ in length. -/
  | ragged (expected found : Nat)
  /-- Something else than a number or an array. -/
  | notNumeric (found : String)
  /-- Another element type than the one held. -/
  | elementType (held requested : DataType)
  /-- An input that is not numeric. -/
  | inputNotNumeric (input : String)
  /-- A weight that cannot be stored in a texture. -/
  | weightNotNumeric (weight : String) (dtype : DataType)
  deriving DecidableEq

/-- Why an operation of the library gave no result. -/
inductive Error where
  /-- The graph is malformed. -/
  | graph (fault : GraphFault)
  /-- Inputs or outputs disagree with the graph. -/
  | input (fault : InputFault)
  /-- An operation without a program. -/
  | unsupportedOp (node kind : String)
  /-- A limit of the device is exceeded. -/
  | limit (fault : LimitFault)
  /-- Something else has to come first. -/
  | order (fault : OrderFault)
  /-- The device failed. -/
  | device (fault : DeviceFault)
  /-- A generated program does not compile. -/
  | shader (node : String)
  /-- Shapes do not go together. -/
  | shape (fault : ShapeFault)
  /-- A file could not be read or written. -/
  | file (path : String) (fault : FileFault)
  /-- A model description could not be read. -/
  | json (fault : Json.Fault)
  /-- A model description is inconsistent. -/
  | model (fault : ModelFault)
  /-- A quantization cannot be applied. -/
  | quantization (weight : String) (fault : QuantizationFault)
  /-- The weight bytes end too early. -/
  | truncated (weight : String) (needed available : Nat)
  /-- Data that does not fill its shape. -/
  | mismatch (tensor : String) (shape : Shape) (expected actual : Nat)
  /-- No handler claims a location. -/
  | noHandler (url : String)
  /-- Several handlers claim a location. -/
  | ambiguousHandler (url : String) (count : Nat)
  /-- A handler that cannot save. -/
  | cannotSave
  /-- A host tensor is malformed. -/
  | tensor (fault : TensorFault)
  /-- An operation was applied outside its domain. -/
  | breach (breach : Breach)
  deriving DecidableEq

/-- Result of an operation that may fail. -/
abbrev Outcome (α : Type) := Except Error α

/-! ## §2 — wording -/

/-- Wording of a reference fault. -/
def ReferenceFault.message : ReferenceFault → String
  | .index => "output index is not an integer"
  | .parts => "too many ':' separators"

/-- Wording of an attribute fault. -/
def AttributeFault.message : AttributeFault → String
  | .stridesNotNumbers => "expected a list of numbers"
  | .stridesCount => "expected 1, 2 or 4 values"
  | .stridesNotPositive => "strides must be positive"
  | .paddingNotText => "expected a string"
  | .scaleCount => "expected 1 or 2 values"
  | .sizeCount => "expected [height, width]"
  | .sizeNotPositive => "target size must be positive"

/-- Wording of a graph fault. -/
def GraphFault.message : GraphFault → String
  | .badReference r f => s!"invalid node reference '{r}': {f.message}"
  | .emptyName => "node with an empty name"
  | .duplicateName n => s!"node name '{n}' is used more than once"
  | .unknownInput n i => s!"node '{n}' references unknown input '{i}'"
  | .constWithoutTensor n => s!"Const node '{n}' has no weight tensor"
  | .tooManyWeights l c =>
    s!"layer '{l}' has {c} weights, at most 2 (kernel and bias) are supported"
  | .layerWithoutInputs l c => s!"layer '{l}' ({c}) has no input nodes"
  | .weightNotLoaded l w => s!"layer '{l}' references weight '{w}' which was not loaded"
  | .secondOutput n i r => s!"node '{n}' reads output {i} of '{r}', which has a single output"
  | .identityInputs n c => s!"Identity node '{n}' has {c} inputs, expected 1"
  | .fusedNotTexts n => s!"node '{n}': fused_ops must be a list of strings"
  | .unsupportedFused n ops => s!"node '{n}': unsupported fused ops {Text.quotes ops}"
  | .layerWithoutShape l => s!"input layer '{l}' has no batch_input_shape"
  | .unsupportedPadding n v =>
    s!"node '{n}': unsupported padding '{v}', expected 'same' or 'valid'"
  | .unsupportedActivation n v => s!"node '{n}': unsupported activation '{v}'"
  | .missingAttribute n k a => s!"node '{n}' ({k}) is missing required attribute '{a}'"
  | .invalidAttribute n a f => s!"node '{n}': invalid attribute '{a}': {f.message}"
  | .resizeWithoutSize n =>
    s!"node '{n}' (ResizeBilinear) needs a 'size' attribute, a constant size input or a 'scale'"
  | .inputCount n k lo hi g => s!"node '{n}' ({k}) expects {lo}..={hi} inputs, got {g}"
  | .dataNotInferred n k => s!"node '{n}' ({k}) carries data; its shape is declared, not inferred"
  | .pairExpected n g => s!"node '{n}' expects 2 inputs, got {g}"
  | .cycle n => s!"graph contains a cycle through node '{n}'"
  | .unsupportedInputType n d => s!"placeholder '{n}' has unsupported dtype '{d}'"
  | .undeclaredShape i => s!"input '{i}' declares no shape; provide an input to compile against"
  | .undeclaredExtent i a =>
    s!"input '{i}' dimension {a} is unknown; provide an input to compile against"
  | .noInputSpec n => s!"placeholder '{n}' has no input spec"
  | .scheduledEarly n i => s!"node '{n}' is scheduled before its input '{i}'"
  | .evaluatedEarly n i => s!"node '{n}' evaluated before its input '{i}'"
  | .outputNotEvaluated n => s!"output node '{n}' was not evaluated"
  | .noDescriptor n => s!"node '{n}' has no inferred descriptor"
  | .noLayout n => s!"node '{n}' has no texture layout"
  | .textureCount n k g e => s!"node '{n}' ({k}) binds {g} textures, expected {e}"
  | .invalidOptions f => s!"invalid engine options: {f.message}"

/-- Wording of an input fault. -/
def InputFault.message : InputFault → String
  | .unknownNames names expected =>
    s!"unknown input names {Text.quotes names}, expected {Text.quotes expected}"
  | .missing i => s!"missing input '{i}'"
  | .noBatch i s =>
    s!"input '{i}': expected a leading batch dimension of 1 to strip, got shape {Text.numbers s}"
  | .dtype i e g => s!"input '{i}': expected dtype {e.name}, got {g.name}"
  | .rank i d s =>
    s!"input '{i}': expected rank {d.length} (shape {Text.integers d}), got shape {Text.numbers s}"
  | .extent i a e g => s!"input '{i}' dimension {a}: expected {e}, got {g}"
  | .compiledShape i e g =>
    s!"input '{i}': graph was compiled for shape {Text.numbers e}, got {Text.numbers g}"
  | .noOutputs => "no outputs requested and the graph declares none"
  | .unknownOutput o n =>
    s!"requested output '{o}' resolves to '{n}', which is not a node of the graph"
  | .unbound n => s!"no value bound for '{n}'"
  | .notNumeric n => s!"tensor '{n}' is not numeric"
  | .packCount g s e =>
    s!"cannot pack {g} values into a layout for shape {Text.numbers s} ({e} elements)"

/-- Wording of a limit fault. -/
def LimitFault.message : LimitFault → String
  | .strings t => s!"tensor '{t}' holds strings, which cannot be stored in textures"
  | .empty t s => s!"tensor '{t}' with shape {Text.numbers s} is empty"
  | .layers t s n slices each limit =>
    s!"tensor '{t}' with shape {Text.numbers s} needs {n} texture layers ({slices} slices × {each}), the device supports {limit}"
  | .canvas w h v =>
    s!"canvas {w}x{h} with viewport max size {v} leaves no room for textures"
  | .noTargets t => s!"render target breakpoint at {t} elements asks for zero render targets"
  | .tooManyTargets t n limit =>
    s!"render target breakpoint at {t} elements asks for {n} render targets, the device supports {limit}"

/-- Wording of an order fault. -/
def OrderFault.message : OrderFault → String
  | .running => "cannot recompile while a run is in progress"
  | .failed a => s!"engine failed; compile again before {a}"
  | .uncompiled a => s!"no graph compiled; call compile before {a}"
  | .misplaced a s => s!"cannot {a} while {s}"
  | .noGraph => "no graph compiled"
  | .cannotBind s => s!"cannot bind inputs while {s}"
  | .cannotExecute s => s!"cannot execute while {s}"

/-- Wording of a device fault. -/
def DeviceFault.message : DeviceFault → String
  | .shortRead g s e =>
    s!"readback of {g} floats is too short for shape {Text.numbers s}, expected {e}"
  | .noDescriptor o => s!"output '{o}' has no descriptor"
  | .refused step => s!"the device refused to {step}"

/-- Wording of a shape fault. A fault at a node shows the fault of its operands as a whole error. -/
def ShapeFault.message : ShapeFault → String
  | .batch n size => s!"node '{n}': batch size {size} is not supported, expected 1"
  | .notImage n s => s!"node '{n}': expected an HWC or NHWC image, got shape {Text.numbers s}"
  | .notKernel n s => s!"node '{n}': expected a 4D kernel, got shape {Text.numbers s}"
  | .kernelChannels n e g => s!"node '{n}': kernel expects {e} input channels, input has {g}"
  | .emptyExtent n => s!"node '{n}': empty spatial extent or zero stride"
  | .kernelExtent n k i =>
    s!"node '{n}': kernel extent {k} exceeds input extent {i} with valid padding"
  | .broadcast a b axis left right =>
    s!"cannot broadcast shapes {Text.numbers a} and {Text.numbers b}: dimension {axis} is {left} vs {right}"
  | .bias n g e => s!"node '{n}': bias has {g} values, expected {e}"
  | .atNode n f => s!"node '{n}': Shape error: {f.message}"

/-- Wording of a model fault. -/
def ModelFault.message : ModelFault → String
  | .format d a => s!"format is declared as {d} but the topology is a {a}"
  | .duplicateWeight n => s!"weight '{n}' appears more than once in the manifest"
  | .weightText n r => s!"string weight '{n}' is not UTF-8: {r}"
  | .fileText p r => s!"{p} is not valid UTF-8: {r}"

/-- Wording of a quantization fault. -/
def QuantizationFault.message : QuantizationFault → String
  | .dtype d => s!"{d.name} weights cannot be quantized"
  | .halfPrecision d => s!"float16 quantization requires float32 weights, got {d.name}"
  | .parameters s => s!"{s} quantization requires both scale and min"
  | .notFinite => "cannot quantize non-finite values"

/-- Wording of a file fault. -/
def FileFault.message : FileFault → String
  | .notFound => "No such file or directory (os error 2)"
  | .isDirectory => "Is a directory (os error 21)"
  | .notDirectory => "Not a directory (os error 20)"
  | .notText => "stream did not contain valid UTF-8"
  | .endedName => "file name contained an unexpected NUL byte"
  | .longName => "File name too long (os error 36)"
  | .other r => r

/-- Wording of a tensor fault. -/
def TensorFault.message : TensorFault → String
  | .length g s e => s!"data length {g} doesn't match shape {Text.numbers s} (expected {e})"
  | .readStrings => "string tensors cannot be read back from the GPU"
  | .notExchanged d => s!"{d.name} tensors cannot be exchanged with the GPU"
  | .ragged e f => s!"ragged array: expected {e} elements, found {f}"
  | .notNumeric f => s!"expected a number or an array, found {f}"
  | .elementType h r => s!"tensor holds {h.name}, requested {r.name}"
  | .inputNotNumeric i => s!"input '{i}' is not numeric"
  | .weightNotNumeric w d => s!"weight '{w}' of dtype {d.name} cannot be stored in a texture"

/-- Wording of an error. -/
def Error.message : Error → String
  | .graph f => s!"Graph build error: {f.message}"
  | .input f => s!"Input validation error: {f.message}"
  | .unsupportedOp n k => s!"Unsupported operation '{k}' at node '{n}'"
  | .limit f => s!"Resource limit exceeded: {f.message}"
  | .order f => s!"Precondition failed: {f.message}"
  | .device f => s!"GPU execution error: {f.message}"
  | .shader n => s!"Shader compilation error: node '{n}': a literal is out of range"
  | .shape f => s!"Shape error: {f.message}"
  | .file p f => s!"I/O error reading {p}: {f.message}"
  | .json f => s!"Malformed model JSON: {f.message}"
  | .model f => s!"Invalid model description: {f.message}"
  | .quantization w f => s!"Invalid quantization for weight '{w}': {f.message}"
  | .truncated w needed available =>
    s!"Weight '{w}' needs {needed} bytes but only {available} remain in the buffer"
  | .mismatch t s e a =>
    s!"Tensor '{t}' has {a} values but shape {Text.numbers s} needs {e}"
  | .noHandler u => s!"No IO handler registered for '{u}'"
  | .ambiguousHandler u c => s!"{c} IO handlers matched '{u}', expected exactly one"
  | .cannotSave => "Operation not supported by this handler: this handler cannot save models"
  | .tensor f => s!"Invalid tensor: {f.message}"
  | .breach _ => "an operation was applied outside its domain"

/-- The error behind an error, where there is one. -/
def Error.cause? : Error → Option String
  | .file _ f => some f.message
  | .json f => some f.message
  | _ => none

end TexelFlow
