import TexelFlow.CommandLine.Failure
import TexelFlow.Device.HostTensor
import TexelFlow.Shader.Compile

/-!
# Random inputs

For every input of a compiled graph that is not provided a tensor is drawn: reals from minus one up to
one, integers from zero up to ten. Where they come from is left to a source of random values; the same seed
draws the same tensors. Where the graph was compiled without a leading axis the tensor gets one of extent
one, as the graph takes it.

## §1 — drawing
## §2 — inputs
-/

namespace TexelFlow.CommandLine

/-! ## §1 — drawing -/

/-- A source of random values: each draw gives a value and the state behind it. -/
class RandomSource where
  /-- Where a source stands. -/
  State : Type
  /-- The state that a seed gives. -/
  seeded : UInt64 → State
  /-- Draw a real from minus one up to one. -/
  real : State → Binary32 × State
  /-- Draw an integer from zero up to ten. -/
  integer : State → Int32 × State

/-- So many draws, one behind the other. -/
def draws {σ α : Type} (draw : σ → α × σ) : Nat → σ → List α × σ
  | 0, s => ([], s)
  | count + 1, s =>
    let (value, s) := draw s
    let (values, s) := draws draw count s
    (value :: values, s)

namespace RandomSource

/-- How far a counter moves for each word. -/
def stride : UInt64 := 0x9e3779b97f4a7c15

/-- Scramble a counter. -/
def scramble (w : UInt64) : UInt64 :=
  let w := (w ^^^ (w >>> 30)) * 0xbf58476d1ce4e5b9
  let w := (w ^^^ (w >>> 27)) * 0x94d049bb133111eb
  w ^^^ (w >>> 31)

/-- Steps between zero and one. -/
def steps : Nat := 8388608

/-- A source that scrambles a counter. Its reals are multiples of the least step. -/
@[reducible] def scrambled : RandomSource where
  State := UInt64
  seeded s := s
  real s :=
    let k := (scramble (s + stride)).toNat % (2 * steps)
    (Binary32.ofInt ((k : Int) - steps) / Binary32.ofNat steps, s + stride)
  integer s := (Int32.ofNat ((scramble (s + stride)).toNat % 10), s + stride)

end RandomSource

/-! ## §2 — inputs -/

/-- Whether an input is among those that are provided. -/
def isProvided (provided : List (String × HostTensor)) (i : InputSpec) : Bool :=
  provided.any fun (name, _) => name = i.name || name = i.node

/-- The shape in which an input is given. -/
def givenShape (batch : Batch) (i : InputSpec) : Shape :=
  match batch with
  | .kept => i.shape
  | .stripped => 1 :: i.shape

variable [RandomSource]

open RandomSource (State seeded real integer)

/-- Draw elements of a type. -/
def drawData (s : State) (i : InputSpec) (count : Nat) : Attempt (HostData × State) :=
  match i.dtype with
  | .float32 =>
    let (values, s) := draws real count s
    .ok (.float32 values, s)
  | .int32 =>
    let (values, s) := draws integer count s
    .ok (.int32 values, s)
  | d => .error (.words s!"Cannot generate random values for input '{i.name}' of dtype {d.name}")

/-- Draw the tensors of inputs, one after the other. -/
def drawInputs (batch : Batch) (s : State) : List InputSpec → Attempt (List (String × HostTensor))
  | [] => .ok []
  | i :: rest => do
    let shape := givenShape batch i
    let count ← shape.counted.mapError Failure.ofError
    let (data, s) ← drawData s i count
    let t ← (HostTensor.make shape data).mapError Failure.ofError
    return (i.name, t) :: (← drawInputs batch s rest)

/-- **Draw** tensors for the inputs that are not provided. -/
def randomInputs (c : Compiled) (provided : List (String × HostTensor)) (seed : UInt64) :
    Attempt (List (String × HostTensor)) :=
  drawInputs c.schedule.batch (seeded seed) (c.schedule.inputs.filter fun i => !isProvided provided i)

end TexelFlow.CommandLine
