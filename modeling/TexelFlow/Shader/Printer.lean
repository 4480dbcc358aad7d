import TexelFlow.Shader.Syntax
import TexelFlow.Decimal.Shortest

/-!
# Shader text

The text of a shader has one declaration or statement a line, blocks indented by four blanks. Reals
are written by their shortest decimal and always show a fraction.
-/

namespace TexelFlow.Wgsl

/-- How reals are written. -/
def realStyle : Decimal.Style := ⟨-4, 16, false⟩

/-- Text of a type. -/
def Kind.text : Kind → String
  | .u32 => "u32"
  | .i32 => "i32"
  | .f32 => "f32"
  | .vec size item => s!"vec{size}<{item.text}>"
  | .array item length => s!"array<{item.text}, {length}>"
  | .layers => "texture_2d_array<f32>"
  | .record name => name

/-- Text of an operation. -/
def Op.text : Op → String
  | .add => "+"
  | .sub => "-"
  | .mul => "*"
  | .div => "/"
  | .rem => "%"
  | .lt => "<"
  | .ge => ">="
  | .or => "||"

/-- The blanks in front of a line. -/
def indent (level : Nat) : String := String.ofList (List.replicate (4 * level) ' ')

mutual

/-- Text of an expression in a line of some level. -/
def Expr.text (level : Nat) : Expr → String
  | .name s => s
  | .unsigned n => toString n ++ "u"
  | .signed n => toString n
  | .real x => realStyle.text32 x
  | .binary op a b => a.text level ++ " " ++ op.text ++ " " ++ b.text level
  | .broken op a b =>
    a.text level ++ "\n" ++ indent (level + 1) ++ op.text ++ " " ++ b.text (level + 1)
  | .group e => "(" ++ e.text level ++ ")"
  | .call function args => function ++ "(" ++ ", ".intercalate (Expr.texts level args) ++ ")"
  | .make kind args => kind.text ++ "(" ++ ", ".intercalate (Expr.texts level args) ++ ")"
  | .rows kind args =>
    kind.text ++ "(\n" ++ String.join ((Expr.texts (level + 1) args).map fun row =>
      indent (level + 1) ++ row ++ ",\n") ++ indent level ++ ")"
  | .member e part => e.text level ++ "." ++ part
  | .item e i => e.text level ++ "[" ++ i.text level ++ "]"

/-- Texts of expressions. -/
def Expr.texts (level : Nat) : List Expr → List String
  | [] => []
  | e :: rest => e.text level :: Expr.texts level rest

end

/-- One line at a level. -/
def line (level : Nat) (text : String) : String := indent level ++ text ++ "\n"

mutual

/-- Text of a statement at a level. -/
def Stmt.text (level : Nat) : Stmt → String
  | .bind name value => line level ("let " ++ name ++ " = " ++ value.text level ++ ";")
  | .var name value => line level ("var " ++ name ++ " = " ++ value.text level ++ ";")
  | .declare name kind => line level ("var " ++ name ++ ": " ++ kind.text ++ ";")
  | .assign target value =>
    line level (target.text level ++ " = " ++ value.text level ++ ";")
  | .increase target value =>
    line level (target.text level ++ " += " ++ value.text level ++ ";")
  | .countTo name limit body =>
    line level ("for (var " ++ name ++ " = 0u; " ++ name ++ " < " ++ limit.text level ++ "; "
      ++ name ++ "++) \x7b") ++ Stmt.texts (level + 1) body ++ line level "\x7d"
  | .onlyIf condition body =>
    line level ("if " ++ condition.text level ++ " \x7b") ++ Stmt.texts (level + 1) body
      ++ line level "\x7d"
  | .skip => line level "continue;"
  | .give value => line level ("return " ++ value.text level ++ ";")

/-- Text of statements at a level. -/
def Stmt.texts (level : Nat) : List Stmt → String
  | [] => ""
  | s :: rest => s.text level ++ Stmt.texts level rest

end

/-- What the pipeline is told of a value, in front of it. -/
def noteText : Option String → String
  | some a => a ++ " "
  | none => ""

/-- Text of a named value. -/
def Param.text (p : Param) : String := noteText p.note ++ p.name ++ ": " ++ p.kind.text

/-- Text of a slot. -/
def slotText (binding : Nat) : String := s!"@group(0) @binding({binding}) "

/-- Text of a declaration. -/
def Decl.text : Decl → String
  | .remark text => line 0 ("// " ++ text)
  | .blank => line 0 ""
  | .const name kind value =>
    line 0 ("const " ++ name ++ ": " ++ kind.text ++ " = " ++ value.text 0 ++ ";")
  | .texture binding name =>
    line 0 (slotText binding ++ "var " ++ name ++ ": " ++ Kind.layers.text ++ ";")
  | .block binding name kind =>
    line 0 (slotText binding ++ "var<uniform> " ++ name ++ ": " ++ kind.text ++ ";")
  | .record name parts =>
    line 0 ("struct " ++ name ++ " \x7b")
      ++ String.join (parts.map fun p => line 1 (p.text ++ ",")) ++ line 0 "\x7d"
  | .function stage name params result body =>
    (match stage with
      | some s => line 0 s
      | none => "")
      ++ line 0 ("fn " ++ name ++ "(" ++ ", ".intercalate (params.map Param.text) ++ ") -> "
        ++ noteText result.note ++ result.kind.text ++ " \x7b")
      ++ Stmt.texts 1 body ++ line 0 "\x7d"

/-- **Text** of a shader. -/
def Shader.text (s : Shader) : String := String.join (s.map Decl.text)

end TexelFlow.Wgsl
