import TexelFlow.Error

/-!
# Activations

An activation is applied to every element an operation computes, in the same pass.
-/

namespace TexelFlow

/-- A function applied to every computed element. -/
inductive Activation where
  /-- The element itself. -/
  | linear
  /-- No less than zero. -/
  | relu
  /-- No less than zero and no more than six. -/
  | relu6
  deriving DecidableEq, Repr

namespace Activation

/-- Name in messages. -/
def name : Activation → String
  | .linear => "linear"
  | .relu => "relu"
  | .relu6 => "relu6"

/-- The activation of a name, in any case of its letters. -/
def ofName? (name : String) : Option Activation :=
  match name with
  | "" => some .linear
  | "linear" => some .linear
  | "none" => some .linear
  | "relu" => some .relu
  | "relu6" => some .relu6
  | _ => none

/-- The activation that an attribute of a node names. -/
def parse (node text : String) : Outcome Activation :=
  let lower := text.map Char.toLower
  match ofName? lower with
  | some a => .ok a
  | none => .error (.graph (.unsupportedActivation node lower))

/-- Apply an activation. What is not a number becomes zero under `relu` and stays so under `relu6`. -/
def apply : Activation → Binary32 → Binary32
  | .linear, x => x
  | .relu, x => x.max .zero
  | .relu6, x => x.clamp .zero .six

end Activation

end TexelFlow
