import TexelFlow.Shader.Emit
import Mathlib.Algebra.Group.Nat.Defs

/-!
# What shaders compute

Here the syntax of shaders gets the meaning that a device has for it. Integers are words of 32 bits and
wrap around; a quotient by zero is its dividend and a remainder by zero is zero; reals are binary32 words.
An expression has a value among the variables and functions that are known, a statement changes the
variables and says where to go on, and a function is what its body gives. What is ill formed (an unknown
name, a part that is not there, an operand of another kind) has no value.

A function may be given from outside, and then stands in front of the one that the shader declares: this
is how programs are looked at without the textures they load from. Two simplifications fit the shaders of
this library and no others. Limits of loops are constants, so a limit is computed once; and functions are
declared before they are used. The stages of the pipeline, with their records and arrays, are left out.

## Main statements

* `functions_of_split` — a declared function means what its body gives, with what is declared before it.

## §1 — values
## §2 — expressions
## §3 — statements
## §4 — functions
-/

namespace TexelFlow.Wgsl

/-! ## §1 — values -/

/-- A single number or truth value. -/
inductive Scalar where
  /-- Unsigned words. -/
  | unsigned (n : UInt32)
  /-- Signed words. -/
  | signed (n : Int32)
  /-- Binary32 words. -/
  | real (x : Binary32)
  /-- Truth values. -/
  | truth (b : Bool)
  /-- Textures, by their slots. -/
  | texture (slot : Nat)
  deriving DecidableEq

/-- A value. -/
inductive Value where
  /-- A single one. -/
  | scalar (s : Scalar)
  /-- Several of them. -/
  | vector (items : List Scalar)
  deriving DecidableEq

/-- An unsigned number as a value. -/
def Value.ofNat (n : Nat) : Value := .scalar (.unsigned (.ofNat n))

/-- An operation on unsigned words. -/
def Op.onUnsigned (op : Op) (m n : UInt32) : Option Scalar :=
  match op with
  | .add => some (.unsigned (m + n))
  | .sub => some (.unsigned (m - n))
  | .mul => some (.unsigned (m * n))
  | .div => some (.unsigned (if n = 0 then m else m / n))
  | .rem => some (.unsigned (if n = 0 then 0 else m % n))
  | .lt => some (.truth (m < n))
  | .ge => some (.truth (n ≤ m))
  | .or => none

/-- An operation on signed words. -/
def Op.onSigned (op : Op) (m n : Int32) : Option Scalar :=
  match op with
  | .add => some (.signed (m + n))
  | .sub => some (.signed (m - n))
  | .mul => some (.signed (m * n))
  | .div => some (.signed (if n = 0 then m else m / n))
  | .rem => some (.signed (if n = 0 then 0 else m % n))
  | .lt => some (.truth (m < n))
  | .ge => some (.truth (n ≤ m))
  | .or => none

/-- An operation on reals; they are not compared. -/
def Op.onReals (op : Op) (x y : Binary32) : Option Scalar :=
  match op with
  | .add => some (.real (x + y))
  | .sub => some (.real (x - y))
  | .mul => some (.real (x * y))
  | .div => some (.real (x / y))
  | .rem | .lt | .ge | .or => none

/-- An operation on operands of one type. -/
def Scalar.binary (op : Op) : Scalar → Scalar → Option Scalar
  | .unsigned m, .unsigned n => op.onUnsigned m n
  | .signed m, .signed n => op.onSigned m n
  | .real x, .real y => op.onReals x y
  | .truth a, .truth b => if op = .or then some (.truth (a || b)) else none
  | _, _ => none

/-- A number as another type. -/
def Scalar.cast : Kind → Scalar → Option Scalar
  | .u32, .unsigned n => some (.unsigned n)
  | .u32, .signed n => some (.unsigned n.toUInt32)
  | .u32, .real x => some (.unsigned (.ofNat (x.toNatUpTo largestUnsigned)))
  | .i32, .unsigned n => some (.signed n.toInt32)
  | .i32, .signed n => some (.signed n)
  | .i32, .real x => some (.signed x.toInt32)
  | .f32, .unsigned n => some (.real (.ofNat n.toNat))
  | .f32, .signed n => some (.real (.ofInt n.toInt))
  | .f32, .real x => some (.real x)
  | _, _ => none

namespace Value

/-- Apply a function item by item; a single operand goes with every item of the other one. -/
def lift (f : Scalar → Scalar → Option Scalar) : Value → Value → Option Value
  | .scalar a, .scalar b => (f a b).map .scalar
  | .scalar a, .vector bs => (bs.mapM (f a)).map .vector
  | .vector as, .scalar b => (as.mapM fun a => f a b).map .vector
  | .vector as, .vector bs =>
    if as.length = bs.length then ((as.zip bs).mapM fun p => f p.1 p.2).map .vector else none

/-- An operation between two values. -/
def binary (op : Op) : Value → Value → Option Value := lift (Scalar.binary op)

/-- The single values of a value. -/
def items : Value → List Scalar
  | .scalar s => [s]
  | .vector items => items

/-- A value of a type, made of its parts. A vector of one part has it everywhere. -/
def make (kind : Kind) (parts : List Value) : Option Value :=
  match kind with
  | .vec size _ =>
    match parts.flatMap items with
    | [s] => some (.vector (List.replicate size s))
    | all => if all.length = size then some (.vector all) else none
  | kind =>
    match parts with
    | [.scalar s] => (s.cast kind).map .scalar
    | _ => none

/-- The first value of a variable that is declared without one. -/
def initial? : Kind → Option Value
  | .u32 => some (.scalar (.unsigned 0))
  | .i32 => some (.scalar (.signed 0))
  | .f32 => some (.scalar (.real .zero))
  | .vec size .f32 => some (.vector (List.replicate size (.real .zero)))
  | _ => none

/-- An item of a vector. -/
def item? : Value → Value → Option Value
  | .vector items, .scalar (.unsigned i) => items[i.toNat]?.map .scalar
  | _, _ => none

/-- A part of a vector by its letter. -/
def part? (part : String) : Value → Option Value
  | .vector items => (["x", "y", "z", "w"].idxOf? part).bind fun i => items[i]?.map .scalar
  | .scalar _ => none

/-- A function of two reals. -/
def onReals (f : Binary32 → Binary32 → Binary32) : Value → Value → Option Value :=
  lift fun
    | .real x, .real y => some (.real (f x y))
    | _, _ => none

/-- A function of one real. -/
def onReal (f : Binary32 → Binary32) : Value → Option Value
  | .scalar (.real x) => some (.scalar (.real (f x)))
  | _ => none

/-- The second of two items where a condition holds, the first elsewhere. -/
def selectItem : Scalar × Scalar × Scalar → Option Scalar
  | (no, yes, .truth condition) => some (if condition then yes else no)
  | _ => none

/-- The second of two vectors where a condition holds, the first elsewhere. -/
def select : Value → Value → Value → Option Value
  | .vector no, .vector yes, .vector conditions =>
    ((no.zip (yes.zip conditions)).mapM selectItem).map .vector
  | _, _, _ => none

section Words

variable {m n : Nat}

@[simp] theorem binary_add_ofNat : binary .add (ofNat m) (ofNat n) = some (ofNat (m + n)) := by
  unfold ofNat
  rw [UInt32.ofNat_add]
  rfl

@[simp] theorem binary_mul_ofNat : binary .mul (ofNat m) (ofNat n) = some (ofNat (m * n)) := by
  unfold ofNat
  rw [UInt32.ofNat_mul]
  rfl

theorem toNat_ofNat_of_lt (h : n < 2 ^ 32) : (UInt32.ofNat n).toNat = n := UInt32.toNat_ofNat_of_lt' h

theorem ofNat_ne_zero (hn : 0 < n) (h : n < 2 ^ 32) : UInt32.ofNat n ≠ 0 := by
  intro he
  have hzero := congrArg UInt32.toNat he
  rw [toNat_ofNat_of_lt h] at hzero
  exact absurd hzero (Nat.ne_of_gt hn)

/-- A quotient of numbers that fit is that of the words. -/
theorem binary_div_ofNat (hm : m < 2 ^ 32) (hn : 0 < n) (hn' : n < 2 ^ 32) :
    binary .div (ofNat m) (ofNat n) = some (ofNat (m / n)) := by
  unfold ofNat
  show some (Value.scalar (.unsigned (if UInt32.ofNat n = 0 then _ else _))) = _
  rw [if_neg (ofNat_ne_zero hn hn'), UInt32.ofNat_div hm hn']

theorem binary_rem_ofNat (hm : m < 2 ^ 32) (hn : 0 < n) (hn' : n < 2 ^ 32) :
    binary .rem (ofNat m) (ofNat n) = some (ofNat (m % n)) := by
  unfold ofNat
  show some (Value.scalar (.unsigned (if UInt32.ofNat n = 0 then _ else _))) = _
  rw [if_neg (ofNat_ne_zero hn hn'), UInt32.ofNat_mod hm hn']

theorem binary_lt_ofNat (hm : m < 2 ^ 32) (hn : n < 2 ^ 32) :
    binary .lt (ofNat m) (ofNat n) = some (.scalar (.truth (m < n))) := by
  show some (Value.scalar (.truth (decide (UInt32.ofNat m < UInt32.ofNat n)))) = _
  rw [decide_eq_decide.mpr (UInt32.ofNat_lt_iff_lt hm hn)]

theorem item?_ofNat {items : List Scalar} (h : n < 2 ^ 32) :
    (vector items).item? (ofNat n) = items[n]?.map .scalar := by
  show items[(UInt32.ofNat n).toNat]?.map Value.scalar = _
  rw [toNat_ofNat_of_lt h]

end Words

end Value

/-- Variables and their values, the innermost first. -/
abbrev Env := List (String × Value)

namespace Env

/-- The value of a variable. -/
def find? (name : String) : Env → Option Value
  | [] => none
  | (key, value) :: rest => if key = name then some value else find? name rest

/-- Give a variable another value. -/
def set (name : String) (value : Value) : Env → Option Env
  | [] => none
  | (key, old) :: rest =>
    if key = name then some ((key, value) :: rest) else (set name value rest).map ((key, old) :: ·)

end Env

/-! ## §2 — expressions -/

/-- What a function gives for its arguments. -/
abbrev Meaning := List Value → Option Value

/-- Functions by name. -/
abbrev Functions := String → Option Meaning

/-- What the function of a name gives for its arguments. -/
def Functions.call (fns : Functions) (name : String) (args : List Value) : Option Value :=
  (fns name).bind fun meaning => meaning args

mutual

/-- The value of an expression. -/
def Expr.eval (fns : Functions) (env : Env) : Expr → Option Value
  | .name s => env.find? s
  | .unsigned n => some (.ofNat n)
  | .signed n => some (.scalar (.signed (.ofInt n)))
  | .real x => some (.scalar (.real x))
  | .binary op a b => (a.eval fns env).bind fun x => (b.eval fns env).bind fun y => x.binary op y
  | .broken op a b => (a.eval fns env).bind fun x => (b.eval fns env).bind fun y => x.binary op y
  | .group e => e.eval fns env
  | .call f args => (Expr.evalAll fns env args).bind (fns.call f)
  | .make kind args => (Expr.evalAll fns env args).bind (Value.make kind)
  | .rows _ _ => none
  | .member e part => (e.eval fns env).bind (Value.part? part)
  | .item e i => (e.eval fns env).bind fun x => (i.eval fns env).bind x.item?

/-- The values of some expressions. -/
def Expr.evalAll (fns : Functions) (env : Env) : List Expr → Option (List Value)
  | [] => some []
  | e :: rest => (e.eval fns env).bind fun x => (Expr.evalAll fns env rest).map (x :: ·)

end

section Eval

variable (fns : Functions) (env : Env)

@[simp] theorem eval_v (name : String) : (v name).eval fns env = env.find? name := by
  unfold v
  rw [Expr.eval]

@[simp] theorem eval_u (n : Nat) : (u n).eval fns env = some (.ofNat n) := by
  unfold u
  rw [Expr.eval]

@[simp] theorem eval_signed (n : Nat) :
    (Expr.signed n).eval fns env = some (.scalar (.signed (.ofInt n))) := by
  rw [Expr.eval]

@[simp] theorem eval_paren (e : Expr) : (paren e).eval fns env = e.eval fns env := by
  unfold paren
  rw [Expr.eval]

@[simp] theorem eval_binary (op : Op) (a b : Expr) : (Expr.binary op a b).eval fns env =
    (a.eval fns env).bind fun x => (b.eval fns env).bind fun y => x.binary op y := by
  rw [Expr.eval]

@[simp] theorem eval_add (a b : Expr) : (a + b).eval fns env = (Expr.binary .add a b).eval fns env := rfl

@[simp] theorem eval_sub (a b : Expr) : (a - b).eval fns env = (Expr.binary .sub a b).eval fns env := rfl

@[simp] theorem eval_mul (a b : Expr) : (a * b).eval fns env = (Expr.binary .mul a b).eval fns env := rfl

@[simp] theorem eval_div (a b : Expr) : (a / b).eval fns env = (Expr.binary .div a b).eval fns env := rfl

@[simp] theorem eval_mod (a b : Expr) : (a % b).eval fns env = (Expr.binary .rem a b).eval fns env := rfl

@[simp] theorem eval_call (f : String) (args : List Expr) :
    (Expr.call f args).eval fns env = (Expr.evalAll fns env args).bind (fns.call f) := by
  rw [Expr.eval]

@[simp] theorem eval_make (kind : Kind) (args : List Expr) :
    (Expr.make kind args).eval fns env = (Expr.evalAll fns env args).bind (Value.make kind) := by
  rw [Expr.eval]

@[simp] theorem evalAll_nil : Expr.evalAll fns env [] = some [] := by
  rw [Expr.evalAll]

@[simp] theorem evalAll_cons (e : Expr) (rest : List Expr) : Expr.evalAll fns env (e :: rest) =
    (e.eval fns env).bind fun x => (Expr.evalAll fns env rest).map (x :: ·) := by
  rw [Expr.evalAll]

theorem eval_cast (kind : Kind) (e : Expr) : (cast kind e).eval fns env =
    (e.eval fns env).bind fun x => Value.make kind [x] := by
  unfold cast
  rw [eval_make, evalAll_cons, evalAll_nil]
  cases e.eval fns env with
  | none => rfl
  | some x => rfl

end Eval

/-! ## §3 — statements -/

/-- Where to go on after a statement. -/
inductive Flow where
  /-- With the next statement. -/
  | next
  /-- With the next round of the loop. -/
  | skip
  /-- Nowhere: the function has its result. -/
  | done (value : Value)
  deriving DecidableEq

/-- Give a variable, or an item of one, another value. -/
def Env.write (fns : Functions) (env : Env) (value : Value) : Expr → Option Env
  | .name s => env.set s value
  | .item (.name s) i =>
    match env.find? s, i.eval fns env, value with
    | some (.vector items), some (.scalar (.unsigned k)), .scalar x =>
      if k.toNat < items.length then env.set s (.vector (items.set k.toNat x)) else none
    | _, _, _ => none
  | _ => none

/-- The variables that stay when a block is left. -/
def Env.leave (outer inner : Env) : Env := inner.drop (inner.length - outer.length)

/-- Rounds of a loop, one for each number. -/
def rounds (round : Nat → Env → Option (Env × Flow)) : List Nat → Env → Option (Env × Flow)
  | [], env => some (env, .next)
  | i :: rest, env =>
    (round i env).bind fun
      | (env', .done value) => some (env', .done value)
      | (env', _) => rounds round rest env'

mutual

/-- What a statement does. -/
def Stmt.exec (fns : Functions) : Stmt → Env → Option (Env × Flow)
  | .bind name value, env => (value.eval fns env).map fun x => ((name, x) :: env, .next)
  | .var name value, env => (value.eval fns env).map fun x => ((name, x) :: env, .next)
  | .declare name kind, env => (Value.initial? kind).map fun x => ((name, x) :: env, .next)
  | .assign target value, env =>
    (value.eval fns env).bind fun x => (env.write fns x target).map (·, .next)
  | .increase target value, env =>
    (target.eval fns env).bind fun x => (value.eval fns env).bind fun y =>
      (x.binary .add y).bind fun z => (env.write fns z target).map (·, .next)
  | .countTo name limit body, env =>
    match limit.eval fns env with
    | some (.scalar (.unsigned n)) =>
      rounds (fun i env => (Stmt.execAll fns body ((name, .ofNat i) :: env)).map fun r =>
        (env.leave r.1, r.2)) (List.range n.toNat) env
    | _ => none
  | .onlyIf condition body, env =>
    match condition.eval fns env with
    | some (.scalar (.truth true)) =>
      (Stmt.execAll fns body env).map fun r => (env.leave r.1, r.2)
    | some (.scalar (.truth false)) => some (env, .next)
    | _ => none
  | .skip, env => some (env, .skip)
  | .give value, env => (value.eval fns env).map fun x => (env, .done x)

/-- What statements do one after the other, until one of them goes elsewhere. -/
def Stmt.execAll (fns : Functions) : List Stmt → Env → Option (Env × Flow)
  | [], env => some (env, .next)
  | s :: rest, env =>
    (s.exec fns env).bind fun
      | (env', .next) => Stmt.execAll fns rest env'
      | stopped => some stopped

end

/-- Leaving a block drops what it declared. -/
theorem Env.leave_append {outer inner : Env} (pushed : Env) (h : inner.length = outer.length) :
    Env.leave outer (pushed ++ inner) = inner := by
  unfold leave
  rw [List.length_append, h, Nat.add_sub_cancel]
  exact List.drop_left

section Exec

variable (fns : Functions)

@[simp] theorem execAll_nil (env : Env) : Stmt.execAll fns [] env = some (env, .next) := by
  rw [Stmt.execAll]

/-- A statement that goes on is followed by the rest. -/
theorem execAll_cons_of_next {s : Stmt} {env env' : Env} (h : s.exec fns env = some (env', .next))
    (rest : List Stmt) : Stmt.execAll fns (s :: rest) env = Stmt.execAll fns rest env' := by
  rw [Stmt.execAll, h]
  rfl

theorem execAll_cons_of_done {s : Stmt} {env env' : Env} {value : Value}
    (h : s.exec fns env = some (env', .done value)) (rest : List Stmt) :
    Stmt.execAll fns (s :: rest) env = some (env', .done value) := by
  rw [Stmt.execAll, h]
  rfl

/-- Statements that all go on are followed by the rest. -/
theorem execAll_append_of_next {stmts : List Stmt} {env env' : Env}
    (h : Stmt.execAll fns stmts env = some (env', .next)) (rest : List Stmt) :
    Stmt.execAll fns (stmts ++ rest) env = Stmt.execAll fns rest env' := by
  induction stmts generalizing env with
  | nil =>
    rw [execAll_nil] at h
    obtain ⟨rfl, -⟩ := Prod.mk.inj (Option.some.inj h)
    rfl
  | cons s stmts ih =>
    rw [Stmt.execAll] at h
    obtain ⟨⟨env₁, flow⟩, hs, h⟩ := Option.bind_eq_some_iff.mp h
    cases flow with
    | next =>
      rw [List.cons_append, execAll_cons_of_next fns hs]
      exact ih h
    | skip => cases h
    | done value => cases h

end Exec

/-! ## §4 — functions -/

/-- The functions that every shader can call. -/
def builtin : Functions := fun name =>
  match name with
  | "max" => some fun | [a, b] => a.onReals .max b | _ => none
  | "clamp" => some fun | [a, lo, hi] => (a.onReals .max lo).bind fun x => x.onReals .min hi | _ => none
  | "floor" => some fun | [a] => a.onReal .floor | _ => none
  | "ceil" => some fun | [a] => a.onReal .ceil | _ => none
  | "select" => some fun | [no, yes, condition] => no.select yes condition | _ => none
  | _ => none

/-- The value of a constant, which is a number, and of a texture. -/
def Decl.global? : Decl → Option (String × Value)
  | .const name _ value => (value.eval (fun _ => none) []).map (name, ·)
  | .texture slot name => some (name, .scalar (.texture slot))
  | _ => none

/-- The name of a constant or texture. -/
def Decl.globalName? (d : Decl) : Option String := d.global?.map Prod.fst

/-- The constants and textures of a shader. -/
def Shader.globals (s : Shader) : Env := s.filterMap Decl.global?

/-- What a body gives for the arguments of its function. -/
def meaningOf (fns : Functions) (globals : Env) (params : List Param) (body : List Stmt) : Meaning :=
  fun args =>
    if args.length = params.length then
      match Stmt.execAll fns body ((params.map (·.name)).zip args ++ globals) with
      | some (_, .done value) => some value
      | _ => none
    else none

/-- The name of a function. -/
def Decl.functionName? : Decl → Option String
  | .function _ name _ _ _ => some name
  | _ => none

/-- The functions behind a declaration; what has a meaning keeps it. -/
def define (globals : Env) (fns : Functions) : Decl → Functions
  | .function _ name params _ body => fun f =>
    if f = name ∧ fns f = none then some (meaningOf fns globals params body) else fns f
  | _ => fns

/-- **The functions of a shader**, behind those that are given. -/
def Shader.functions (given : Functions) (s : Shader) : Functions :=
  s.foldl (define s.globals) fun f => (given f).or (builtin f)

/-- A body that reaches a result gives it. -/
theorem meaningOf_of_done {fns : Functions} {globals env : Env} {params : List Param}
    {body : List Stmt} {args : List Value} {value : Value} (hargs : args.length = params.length)
    (h : Stmt.execAll fns body ((params.map (·.name)).zip args ++ globals) = some (env, .done value)) :
    meaningOf fns globals params body args = some value := by
  unfold meaningOf
  rw [if_pos hargs, h]

section Declared

variable {globals : Env} {fns : Functions} {name : String} {before after : List Decl}

theorem define_of_some {meaning : Meaning} (h : fns name = some meaning) (d : Decl) :
    define globals fns d name = some meaning := by
  unfold define
  split
  · rw [if_neg (by simp [h]), h]
  · exact h

/-- What has a meaning keeps it. -/
theorem foldl_define_of_some {meaning : Meaning} (h : fns name = some meaning) (decls : List Decl) :
    decls.foldl (define globals) fns name = some meaning := by
  induction decls generalizing fns with
  | nil => exact h
  | cons d decls ih => exact ih (define_of_some h d)

theorem call_foldl_define {args : List Value} {value : Value} (h : fns.call name args = some value)
    (decls : List Decl) : (decls.foldl (define globals) fns).call name args = some value := by
  obtain ⟨meaning, hmeaning, hvalue⟩ := Option.bind_eq_some_iff.mp h
  exact Option.bind_eq_some_iff.mpr ⟨meaning, foldl_define_of_some hmeaning decls, hvalue⟩

theorem foldl_define_of_none (h : fns name = none) (hbefore : name ∉ before.filterMap Decl.functionName?) :
    before.foldl (define globals) fns name = none := by
  induction before generalizing fns with
  | nil => exact h
  | cons d before ih =>
    rw [List.filterMap_cons] at hbefore
    cases d with
    | function stage name' params result body =>
      obtain ⟨hne, hbefore⟩ := not_or.mp (mt List.mem_cons.mpr hbefore)
      refine ih ?_ hbefore
      show (if name = name' ∧ fns name = none then _ else fns name) = none
      rw [if_neg fun hand => hne hand.1, h]
    | _ => exact ih h hbefore

/-- **A declared function** means what its body gives, with what is declared before it. -/
theorem functions_of_split (h : fns name = none) (hbefore : name ∉ before.filterMap Decl.functionName?)
    (stage : Option String) (params : List Param) (result : Param) (body : List Stmt) :
    (before ++ .function stage name params result body :: after).foldl (define globals) fns name =
      some (meaningOf (before.foldl (define globals) fns) globals params body) := by
  rw [List.foldl_append, List.foldl_cons]
  refine foldl_define_of_some ?_ after
  unfold define
  dsimp only
  rw [if_pos ⟨rfl, foldl_define_of_none h hbefore⟩]

/-- The value of a constant or texture that is declared first under its name. -/
theorem find?_globals_of_split {d : Decl} {value : Value} (hd : d.global? = some (name, value))
    (hbefore : name ∉ before.filterMap Decl.globalName?) :
    Env.find? name (Shader.globals (before ++ d :: after)) = some value := by
  unfold Shader.globals
  induction before with
  | nil =>
    rw [List.nil_append, List.filterMap_cons, hd]
    exact if_pos rfl
  | cons d' before ih =>
    rw [List.cons_append, List.filterMap_cons]
    rw [List.filterMap_cons, Decl.globalName?] at hbefore
    cases hd' : d'.global? with
    | none =>
      rw [hd'] at hbefore
      exact ih hbefore
    | some entry =>
      rw [hd'] at hbefore
      obtain ⟨hne, hbefore⟩ := not_or.mp (mt List.mem_cons.mpr hbefore)
      show Env.find? name ((entry.1, entry.2) :: _) = some value
      rw [Env.find?, if_neg (Ne.symm hne)]
      exact ih hbefore

end Declared

end TexelFlow.Wgsl
