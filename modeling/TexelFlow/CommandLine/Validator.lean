import TexelFlow.Shader.Syntax

/-!
# The validator of the program

The program accepts a shader when every number in it fits the type it is written in, and so does every
product of its constants, and when no record is empty. The shaders of this library are well formed in all
other respects.
-/

namespace TexelFlow.Wgsl

/-- Largest signed number. -/
def largestSigned : Nat := 2147483647

/-- Unsigned numbers by the names of their constants. -/
abbrev Constants := List (String × Nat)

/-- The number of a constant. -/
def Constants.find? (name : String) : Constants → Option Nat
  | [] => none
  | (k, n) :: rest => if k = name then some n else Constants.find? name rest

/-- The unsigned number that an expression of constants alone stands for: a number, a constant, or a
product of these. -/
def Expr.known? (known : Constants) : Expr → Option Nat
  | .unsigned n => some n
  | .name s => known.find? s
  | .group e => e.known? known
  | .binary .mul a b =>
    match a.known? known, b.known? known with
    | some m, some n => some (m * n)
    | _, _ => none
  | _ => none

/-- Whether an unsigned number fits, if there is one. -/
def fitsUnsigned : Option Nat → Bool
  | some n => n ≤ largestUnsigned
  | none => true

mutual

/-- Whether every number of an expression fits its type, and every product of constants too, because
such a product is formed before the shader runs. -/
def Expr.fits (known : Constants) : Expr → Bool
  | .name _ => true
  | .unsigned n => n ≤ largestUnsigned
  | .signed n => n ≤ largestSigned
  | .real x => x.isFinite
  | .binary op a b =>
    a.fits known && b.fits known && fitsUnsigned (Expr.known? known (.binary op a b))
  | .broken _ a b => a.fits known && b.fits known
  | .group e => e.fits known
  | .call _ args => Expr.allFit known args
  | .make _ args => Expr.allFit known args
  | .rows _ args => Expr.allFit known args
  | .member e _ => e.fits known
  | .item e i => e.fits known && i.fits known

/-- Whether all numbers of some expressions fit. -/
def Expr.allFit (known : Constants) : List Expr → Bool
  | [] => true
  | e :: rest => e.fits known && Expr.allFit known rest

end

mutual

/-- Whether all numbers of a statement fit. -/
def Stmt.fits (known : Constants) : Stmt → Bool
  | .bind _ value => value.fits known
  | .var _ value => value.fits known
  | .declare _ _ => true
  | .assign target value => target.fits known && value.fits known
  | .increase target value => target.fits known && value.fits known
  | .countTo _ limit body => limit.fits known && Stmt.allFit known body
  | .onlyIf condition body => condition.fits known && Stmt.allFit known body
  | .skip => true
  | .give value => value.fits known

/-- Whether all numbers of some statements fit. -/
def Stmt.allFit (known : Constants) : List Stmt → Bool
  | [] => true
  | s :: rest => s.fits known && Stmt.allFit known rest

end

/-- Whether all numbers of a declaration fit; a record has some part. -/
def Decl.fits (known : Constants) : Decl → Bool
  | .const _ _ value => value.fits known
  | .record _ parts => !parts.isEmpty
  | .function _ _ _ _ body => Stmt.allFit known body
  | _ => true

/-- The unsigned constant that a declaration gives. -/
def Decl.constant? : Decl → Option (String × Nat)
  | .const name .u32 (.unsigned n) => some (name, n)
  | _ => none

/-- The unsigned constants of a shader. -/
def Shader.constants (s : Shader) : Constants := s.filterMap Decl.constant?

/-- Whether all numbers of a shader fit. -/
def Shader.fits (s : Shader) : Bool := s.all (Decl.fits s.constants)

end TexelFlow.Wgsl

namespace TexelFlow.CommandLine

/-- The program accepts shaders by their numbers. -/
scoped instance : Wgsl.Validator := ⟨Wgsl.Shader.fits⟩

end TexelFlow.CommandLine
