import TexelFlow.Binary.Basic

/-!
# Shader syntax

A shader is a list of declarations: constants, bound resources, records and functions. The tree holds
what the programs of this library need and no more. Grouping by parentheses is part of the tree, so
the text of a tree is read off it without a rule of precedence.

Whether a shader is accepted is for a validator to say (`Validator`), and nothing is assumed of it here.
-/

namespace TexelFlow.Wgsl

/-- The type of a value or a resource. -/
inductive Kind where
  /-- Unsigned 32-bit integers. -/
  | u32
  /-- Signed 32-bit integers. -/
  | i32
  /-- Binary32 words. -/
  | f32
  /-- Vectors of a scalar type. -/
  | vec (size : Nat) (item : Kind)
  /-- Arrays of known length. -/
  | array (item : Kind) (length : Nat)
  /-- Textures of several layers. -/
  | layers
  /-- A record. -/
  | record (name : String)
  deriving DecidableEq

/-- An operation between two operands. -/
inductive Op where
  /-- Sum. -/
  | add
  /-- Difference. -/
  | sub
  /-- Product. -/
  | mul
  /-- Quotient. -/
  | div
  /-- Remainder. -/
  | rem
  /-- Below. -/
  | lt
  /-- Not below. -/
  | ge
  /-- One or the other. -/
  | or
  deriving DecidableEq

/-- An expression. -/
inductive Expr where
  /-- A variable or a constant. -/
  | name (s : String)
  /-- An unsigned integer. -/
  | unsigned (n : Nat)
  /-- A signed integer. -/
  | signed (n : Nat)
  /-- A binary32 word. -/
  | real (x : Binary32)
  /-- An operation. -/
  | binary (op : Op) (a b : Expr)
  /-- An operation whose second operand stands on a line of its own. -/
  | broken (op : Op) (a b : Expr)
  /-- An expression in parentheses. -/
  | group (e : Expr)
  /-- A function of its arguments. -/
  | call (function : String) (args : List Expr)
  /-- A value of a type, made of its parts. -/
  | make (kind : Kind) (args : List Expr)
  /-- A value of a type, made of its parts, each on a line of its own. -/
  | rows (kind : Kind) (args : List Expr)
  /-- A part of a record or a vector. -/
  | member (e : Expr) (part : String)
  /-- An item of a vector or an array. -/
  | item (e i : Expr)

/-- A statement. -/
inductive Stmt where
  /-- Name a value. -/
  | bind (name : String) (value : Expr)
  /-- Declare a variable with its first value. -/
  | var (name : String) (value : Expr)
  /-- Declare a variable of a type. -/
  | declare (name : String) (kind : Kind)
  /-- Give a variable a value. -/
  | assign (target value : Expr)
  /-- Add a value to a variable. -/
  | increase (target value : Expr)
  /-- Count a variable up from zero as long as it is below a limit. -/
  | countTo (name : String) (limit : Expr) (body : List Stmt)
  /-- Do something if a condition holds. -/
  | onlyIf (condition : Expr) (body : List Stmt)
  /-- Go on with the next round of a loop. -/
  | skip
  /-- Give the result of a function. -/
  | give (value : Expr)

/-- A named value with a type, and what is said of it to the pipeline. -/
structure Param where
  /-- What the pipeline is told. -/
  note : Option String
  /-- Name. -/
  name : String
  /-- Type. -/
  kind : Kind

/-- A declaration. -/
inductive Decl where
  /-- A remark. -/
  | remark (text : String)
  /-- An empty line. -/
  | blank
  /-- A constant. -/
  | const (name : String) (kind : Kind) (value : Expr)
  /-- A texture bound to a slot. -/
  | texture (binding : Nat) (name : String)
  /-- A block of parameters bound to a slot. -/
  | block (binding : Nat) (name : String) (kind : Kind)
  /-- A record and its parts. -/
  | record (name : String) (parts : List Param)
  /-- A function. -/
  | function (stage : Option String) (name : String) (params : List Param) (result : Param)
      (body : List Stmt)

/-- A shader. -/
abbrev Shader := List Decl

/-- Largest unsigned number. -/
def largestUnsigned : Nat := 4294967295

/-- What decides whether a shader is accepted. -/
class Validator where
  /-- Whether a shader is accepted. -/
  accepts : Shader → Bool

end TexelFlow.Wgsl
