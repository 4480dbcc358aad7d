import TexelFlow.Proofs.Shader.Semantics
import Mathlib.Algebra.Group.Int.Defs

/-!
# Loops that add up

A body that adds products up in loops does two things: it changes one variable, lane by lane, and it
decides which products are added and in which order. Both are kept apart here. The environments in which
a variable is increased are listed in their order (`Stmt.increases`), whatever is added there; and
statements that add (`Adds`) are described by the pairs of elements whose products they add to each lane.
A loop then adds what its rounds add, one after the other, also where a round is cut short.

## Main statements

* `Adds.countTo` — a loop adds what its rounds add.
* `Adds.increase`, `Adds.increaseLane` — one product for every lane, or for one lane.

## §1 — signed words
## §2 — lanes
## §3 — where variables are increased
## §4 — statements that add
-/

namespace TexelFlow.Wgsl

/-! ## §1 — signed words -/

namespace Value

/-- A signed number as a value. -/
def ofInt (z : Int) : Value := .scalar (.signed (.ofInt z))

section Signed

variable {n : Nat} {a b : Int}

theorem make_i32_ofNat : make .i32 [ofNat n] = some (ofInt n) := by
  show some (Value.scalar (.signed (UInt32.ofNat n).toInt32)) = _
  rw [UInt32.toInt32_ofNat', ← Int32.ofInt_eq_ofNat]
  rfl

theorem make_u32_ofInt : make .u32 [ofInt n] = some (ofNat n) := by
  show some (Value.scalar (.unsigned (Int32.ofInt n).toUInt32)) = _
  rw [Int32.ofInt_eq_ofNat, Int32.toUInt32_ofNat']
  rfl

theorem binary_sub_ofInt : binary .sub (ofInt a) (ofInt b) = some (ofInt (a - b)) := by
  unfold ofInt
  rw [Int32.ofInt_sub]
  rfl

/-- Signed numbers that fit are compared as they are. -/
theorem binary_lt_ofInt (ha : -2 ^ 31 ≤ a) (ha' : a < 2 ^ 31) (hb : -2 ^ 31 ≤ b) (hb' : b < 2 ^ 31) :
    binary .lt (ofInt a) (ofInt b) = some (.scalar (.truth (a < b))) := by
  have hiff : Int32.ofInt a < Int32.ofInt b ↔ a < b := by
    rw [Int32.lt_iff_toInt_lt, Int32.toInt_ofInt_of_le ha ha', Int32.toInt_ofInt_of_le hb hb']
  show some (Value.scalar (.truth (decide (Int32.ofInt a < Int32.ofInt b)))) = _
  rw [decide_eq_decide.mpr hiff]

theorem binary_ge_ofInt (ha : -2 ^ 31 ≤ a) (ha' : a < 2 ^ 31) (hb : -2 ^ 31 ≤ b) (hb' : b < 2 ^ 31) :
    binary .ge (ofInt a) (ofInt b) = some (.scalar (.truth (b ≤ a))) := by
  have hiff : Int32.ofInt b ≤ Int32.ofInt a ↔ b ≤ a := by
    rw [Int32.le_iff_toInt_le, Int32.toInt_ofInt_of_le ha ha', Int32.toInt_ofInt_of_le hb hb']
  show some (Value.scalar (.truth (decide (Int32.ofInt b ≤ Int32.ofInt a)))) = _
  rw [decide_eq_decide.mpr hiff]

end Signed

/-! ## §2 — lanes -/

/-- Four reals, one for each lane. -/
def lanes (f : Nat → Binary32) : Value := .vector ((List.range 4).map fun k => .real (f k))

section Lanes

variable {f h : Nat → Binary32} {k : Nat}

theorem lanes_congr (heq : ∀ k < 4, f k = h k) : lanes f = lanes h := by
  unfold lanes
  refine congrArg Value.vector (List.map_congr_left fun k hk => ?_)
  rw [heq k (List.mem_range.mp hk)]

theorem binary_add_lanes : binary .add (lanes f) (lanes h) = some (lanes fun k => f k + h k) := rfl

theorem binary_mul_lanes {x : Binary32} :
    binary .mul (.scalar (.real x)) (lanes f) = some (lanes fun k => x * f k) := rfl

theorem item?_lanes (hk : k < 4) : (lanes f).item? (ofNat k) = some (.scalar (.real (f k))) := by
  unfold lanes
  rw [item?_ofNat (by omega), List.getElem?_map, List.getElem?_range hk]
  rfl

/-- The lanes of a value are known. -/
theorem eq_of_lanes_eq (heq : lanes f = lanes h) (hk : k < 4) : f k = h k := by
  have hitem := congrArg (fun value => item? value (ofNat k)) heq
  rw [item?_lanes hk, item?_lanes hk] at hitem
  simpa using hitem

/-- A lane gets another item. -/
theorem set_lanes (hk : k < 4) (x : Binary32) :
    Value.vector (((List.range 4).map fun k => .real (f k)).set k (.real x)) =
      lanes fun j => if j = k then x else f j := by
  unfold lanes
  refine congrArg Value.vector (List.ext_getElem? fun j => ?_)
  by_cases hj : j < 4
  · rw [List.getElem?_set, List.getElem?_map, List.getElem?_map, List.getElem?_range hj]
    by_cases heq : k = j
    · subst heq
      simp [hk]
    · simp [heq, Ne.symm heq]
  · rw [List.getElem?_eq_none (by simp; omega), List.getElem?_eq_none (by simp; omega)]

end Lanes

end Value

/-! ## §3 — where variables are increased -/

/-- The environments of all rounds of a loop that are listed for each of them. -/
def inRounds (round : Nat → Env → Option (Env × Flow)) (listed : Nat → Env → List Env) :
    List Nat → Env → List Env
  | [], _ => []
  | i :: rest, env => listed i env ++
    match round i env with
    | none => []
    | some (_, .done _) => []
    | some (env', _) => inRounds round listed rest env'

/-- One round of a loop. -/
def roundOf (fns : Functions) (name : String) (body : List Stmt) (i : Nat) (env : Env) :
    Option (Env × Flow) :=
  (Stmt.execAll fns body ((name, .ofNat i) :: env)).map fun r => (env.leave r.1, r.2)

mutual

/-- The environments in which a statement increases a variable, in their order. -/
def Stmt.increases (fns : Functions) : Stmt → Env → List Env
  | .increase _ _, env => [env]
  | .countTo name limit body, env =>
    match limit.eval fns env with
    | some (.scalar (.unsigned n)) =>
      inRounds (roundOf fns name body) (fun i env => Stmt.increasesAll fns body ((name, .ofNat i) :: env))
        (List.range n.toNat) env
    | _ => []
  | .onlyIf condition body, env =>
    match condition.eval fns env with
    | some (.scalar (.truth true)) => Stmt.increasesAll fns body env
    | _ => []
  | _, _ => []

/-- The environments in which statements increase a variable, until one of them goes elsewhere. -/
def Stmt.increasesAll (fns : Functions) : List Stmt → Env → List Env
  | [], _ => []
  | s :: rest, env => s.increases fns env ++
    match s.exec fns env with
    | some (env', .next) => Stmt.increasesAll fns rest env'
    | _ => []

end

section Increases

variable (fns : Functions) (env : Env) (name : String) (e : Expr)

@[simp] theorem increases_bind : (Stmt.bind name e).increases fns env = [] := by
  rw [Stmt.increases]
  all_goals simp

@[simp] theorem increases_var : (Stmt.var name e).increases fns env = [] := by
  rw [Stmt.increases]
  all_goals simp

@[simp] theorem increases_skip : Stmt.skip.increases fns env = [] := by
  rw [Stmt.increases]
  all_goals simp

@[simp] theorem increases_give : (Stmt.give e).increases fns env = [] := by
  rw [Stmt.increases]
  all_goals simp

/-- A statement that goes on is followed by the rest. -/
theorem increasesAll_cons_of_next {s : Stmt} {env env' : Env} (h : s.exec fns env = some (env', .next))
    (rest : List Stmt) : Stmt.increasesAll fns (s :: rest) env =
      s.increases fns env ++ Stmt.increasesAll fns rest env' := by
  rw [Stmt.increasesAll, h]

/-- A statement that goes elsewhere is the last one. -/
theorem increasesAll_cons_of_stop {s : Stmt} {env env' : Env} {flow : Flow}
    (h : s.exec fns env = some (env', flow)) (hflow : flow ≠ .next) (rest : List Stmt) :
    Stmt.increasesAll fns (s :: rest) env = s.increases fns env := by
  rw [Stmt.increasesAll, h]
  cases flow with
  | next => exact absurd rfl hflow
  | skip | done value => exact List.append_nil _

end Increases

/-- Parameters and body of the function of a name. -/
def Decl.body? (name : String) : Decl → Option (List Param × List Stmt)
  | .function _ name' params _ body => if name' = name then some (params, body) else none
  | _ => none

/-- The environments in which a function of a shader increases a variable, in their order. -/
def Shader.increases (given : Functions) (s : Shader) (name : String) (args : List Value) : List Env :=
  match s.findSome? (Decl.body? name) with
  | some (params, body) =>
    Stmt.increasesAll (s.functions given) body ((params.map (·.name)).zip args ++ s.globals)
  | none => []

theorem findSome?_body_of_split {name : String} {before after : List Decl}
    (hbefore : name ∉ before.filterMap Decl.functionName?) (stage : Option String) (params : List Param)
    (result : Param) (body : List Stmt) :
    (before ++ .function stage name params result body :: after).findSome? (Decl.body? name) =
      some (params, body) := by
  have hnone : before.findSome? (Decl.body? name) = none := by
    rw [List.findSome?_eq_none_iff]
    intro d hd
    cases d with
    | function stage' name' params' result' body' =>
      refine if_neg fun heq => hbefore (List.mem_filterMap.mpr ⟨_, hd, ?_⟩)
      exact congrArg some heq
    | _ => rfl
  rw [List.findSome?_append, hnone, Option.none_or, List.findSome?_cons, Decl.body?, if_pos rfl]

theorem exec_countTo {fns : Functions} {name : String} {limit : Expr} {body : List Stmt} {env : Env}
    {n : Nat} (hn : n < 2 ^ 32) (hlimit : limit.eval fns env = some (.ofNat n)) :
    (Stmt.countTo name limit body).exec fns env = rounds (roundOf fns name body) (List.range n) env ∧
      (Stmt.countTo name limit body).increases fns env = inRounds (roundOf fns name body)
        (fun i env => Stmt.increasesAll fns body ((name, .ofNat i) :: env)) (List.range n) env := by
  rw [Stmt.exec, Stmt.increases, hlimit]
  unfold Value.ofNat
  dsimp only
  rw [Value.toNat_ofNat_of_lt hn]
  exact ⟨rfl, rfl⟩

section Blocks

variable {fns : Functions} {env : Env} {condition : Expr}

/-- A block whose condition does not hold changes nothing. -/
theorem exec_onlyIf_of_false (h : condition.eval fns env = some (.scalar (.truth false)))
    (body : List Stmt) : (Stmt.onlyIf condition body).exec fns env = some (env, .next) := by
  rw [Stmt.exec, h]

/-- A round that is passed over where a condition holds. -/
theorem exec_onlyIf_skip_of_true (h : condition.eval fns env = some (.scalar (.truth true))) :
    (Stmt.onlyIf condition [.skip]).exec fns env = some (env, .skip) := by
  rw [Stmt.exec, h]
  dsimp only
  rw [Stmt.execAll, Stmt.exec]
  exact congrArg (fun env => some (env, Flow.skip)) (Env.leave_append [] rfl)

end Blocks

/-! ## §4 — statements that add -/

/-- The position and channel of an element of one tensor and of one of another. -/
abbrev Factors := (Nat × Nat) × (Nat × Nat)

/-- Add products up, lane by lane. -/
def addAll (x w : Nat → Nat → Binary32) (f : Nat → Binary32) (added : Nat → List Factors) :
    Nat → Binary32 := fun k =>
  (added k).foldl (fun sum p => sum + x p.1.1 p.1.2 * w p.2.1 p.2.2) (f k)

/-- Variables among which one has four lanes that are added to. -/
def summing (inner outer : Env) (f : Nat → Binary32) : Env := inner ++ ("acc", .lanes f) :: outer

/-- Statements add products of elements of two tensors to the lanes. `fetched` tells the elements from the
environment in which a lane is increased. -/
structure Adds (fns : Functions) (fetched : Nat → Env → Option Factors) (x w : Nat → Nat → Binary32)
    (outer inner : Env) (stmts : List Stmt) (added : Nat → List Factors) : Prop where
  /-- What the statements do. They give no result. -/
  run : ∀ f, ∃ pushed flow, Stmt.execAll fns stmts (summing inner outer f) =
      some (pushed ++ summing inner outer (addAll x w f added), flow) ∧ ∀ value, flow ≠ .done value
  /-- The elements whose products they add. -/
  log : ∀ f, ∀ k < 4,
    (Stmt.increasesAll fns stmts (summing inner outer f)).filterMap (fetched k) = added k

section Adds

variable {fns : Functions} {fetched : Nat → Env → Option Factors} {x w : Nat → Nat → Binary32}
  {outer inner : Env} {stmts rest : List Stmt} {added : Nat → List Factors}

theorem addAll_nil (f : Nat → Binary32) : addAll x w f (fun _ => []) = f := rfl

theorem addAll_append (f : Nat → Binary32) (added added' : Nat → List Factors) :
    addAll x w (addAll x w f added) added' = addAll x w f fun k => added k ++ added' k := by
  unfold addAll
  simp only [List.foldl_append]

theorem length_summing (f f' : Nat → Binary32) :
    (summing inner outer f).length = (summing inner outer f').length := by
  unfold summing
  simp

@[simp] theorem find?_summing_cons (name key : String) (value : Value) (f : Nat → Binary32) :
    (summing ((key, value) :: inner) outer f).find? name =
      if key = name then some value else (summing inner outer f).find? name := rfl

@[simp] theorem find?_summing_nil (name : String) (f : Nat → Binary32) :
    (summing [] outer f).find? name = if "acc" = name then some (.lanes f) else outer.find? name := rfl

theorem find?_acc (hinner : "acc" ∉ inner.map Prod.fst) (f : Nat → Binary32) :
    (summing inner outer f).find? "acc" = some (.lanes f) := by
  unfold summing
  induction inner with
  | nil => exact if_pos rfl
  | cons entry inner ih =>
    rw [List.map_cons, List.mem_cons, not_or] at hinner
    rw [List.cons_append, Env.find?, if_neg (Ne.symm hinner.1)]
    exact ih hinner.2

theorem set_acc (hinner : "acc" ∉ inner.map Prod.fst) (f f' : Nat → Binary32) :
    (summing inner outer f).set "acc" (.lanes f') = some (summing inner outer f') := by
  unfold summing
  induction inner with
  | nil => exact if_pos rfl
  | cons entry inner ih =>
    rw [List.map_cons, List.mem_cons, not_or] at hinner
    rw [List.cons_append, Env.set, if_neg (Ne.symm hinner.1), ih hinner.2]
    rfl

/-- What is added counts for the four lanes alone. -/
theorem Adds.congr {added' : Nat → List Factors} (h : Adds fns fetched x w outer inner stmts added)
    (heq : ∀ k < 4, added k = added' k) : Adds fns fetched x w outer inner stmts added' where
  run f := by
    obtain ⟨pushed, flow, hrun, hflow⟩ := h.run f
    have hlanes : Value.lanes (addAll x w f added) = .lanes (addAll x w f added') := by
      refine Value.lanes_congr fun k hk => ?_
      unfold addAll
      rw [heq k hk]
    refine ⟨pushed, flow, ?_, hflow⟩
    rw [hrun]
    unfold summing
    rw [hlanes]
  log f k hk := by rw [h.log f k hk, heq k hk]

/-- Nothing adds nothing. -/
theorem Adds.nil : Adds fns fetched x w outer inner [] fun _ => [] where
  run f := ⟨[], .next, by rw [execAll_nil, addAll_nil]; rfl, fun value => by simp⟩
  log f k _ := by rw [Stmt.increasesAll]; rfl

/-- A name for a value adds nothing. -/
theorem Adds.bind {name : String} {e : Expr} {value : Value}
    (he : ∀ f, e.eval fns (summing inner outer f) = some value)
    (h : Adds fns fetched x w outer ((name, value) :: inner) rest added) :
    Adds fns fetched x w outer inner (.bind name e :: rest) added := by
  have hexec : ∀ f, (Stmt.bind name e).exec fns (summing inner outer f) =
      some (summing ((name, value) :: inner) outer f, .next) := by
    intro f
    rw [Stmt.exec, he f]
    rfl
  constructor
  case run =>
    intro f
    obtain ⟨pushed, flow, hrun, hflow⟩ := h.run f
    refine ⟨pushed ++ [(name, value)], flow, ?_, hflow⟩
    rw [execAll_cons_of_next fns (hexec f), hrun]
    unfold summing
    simp
  case log =>
    intro f k hk
    rw [increasesAll_cons_of_next fns (hexec f), increases_bind]
    exact h.log f k hk

/-- A block whose condition does not hold adds nothing. -/
theorem Adds.pass {condition : Expr} {body : List Stmt}
    (hcondition : ∀ f, condition.eval fns (summing inner outer f) = some (.scalar (.truth false)))
    (h : Adds fns fetched x w outer inner rest added) :
    Adds fns fetched x w outer inner (.onlyIf condition body :: rest) added := by
  have hexec : ∀ f, (Stmt.onlyIf condition body).exec fns (summing inner outer f) =
      some (summing inner outer f, .next) := fun f => exec_onlyIf_of_false (hcondition f) body
  constructor
  case run =>
    intro f
    rw [execAll_cons_of_next fns (hexec f)]
    exact h.run f
  case log =>
    intro f k hk
    rw [increasesAll_cons_of_next fns (hexec f), Stmt.increases, hcondition f]
    exact h.log f k hk

/-- Where the rest of a round is passed over, it adds nothing. -/
theorem Adds.skip {condition : Expr}
    (hcondition : ∀ f, condition.eval fns (summing inner outer f) = some (.scalar (.truth true))) :
    Adds fns fetched x w outer inner (.onlyIf condition [.skip] :: rest) fun _ => [] := by
  have hexec : ∀ f, (Stmt.onlyIf condition [.skip]).exec fns (summing inner outer f) =
      some (summing inner outer f, .skip) := fun f => exec_onlyIf_skip_of_true (hcondition f)
  have hquiet : ∀ env, Stmt.increasesAll fns [.skip] env = [] := by
    intro env
    rw [Stmt.increasesAll, increases_skip, Stmt.exec]
    rfl
  constructor
  case run =>
    exact fun f => ⟨[], .skip, by rw [Stmt.execAll, hexec f]; rfl, fun value => by simp⟩
  case log =>
    intro f k hk
    rw [increasesAll_cons_of_stop fns (hexec f) (by simp), Stmt.increases, hcondition f]
    dsimp only
    rw [hquiet, List.filterMap_nil]

/-- A block adds what its body adds where its condition holds, and nothing elsewhere. -/
theorem Adds.onlyIf {condition : Expr} {body : List Stmt} {c : Prop} [Decidable c]
    (hcondition : ∀ f, condition.eval fns (summing inner outer f) = some (.scalar (.truth c)))
    (h : c → Adds fns fetched x w outer inner body added) :
    Adds fns fetched x w outer inner [.onlyIf condition body] fun k => if c then added k else [] := by
  by_cases hc : c
  · simp only [hc, if_true]
    have hcondition : ∀ f, condition.eval fns (summing inner outer f) =
        some (.scalar (.truth true)) := by
      intro f
      rw [hcondition f, decide_eq_true hc]
    constructor
    case run =>
      intro f
      obtain ⟨pushed, flow, hrun, hflow⟩ := (h hc).run f
      have hexec : (Stmt.onlyIf condition body).exec fns (summing inner outer f) =
          some (summing inner outer (addAll x w f added), flow) := by
        rw [Stmt.exec, hcondition f]
        dsimp only
        rw [hrun, Option.map_some, Env.leave_append pushed (length_summing _ _)]
      refine ⟨[], flow, ?_, hflow⟩
      cases flow with
      | next => rw [execAll_cons_of_next fns hexec, execAll_nil]; rfl
      | skip => rw [Stmt.execAll, hexec]; rfl
      | done value => exact absurd rfl (hflow value)
    case log =>
      intro f k hk
      rw [Stmt.increasesAll, Stmt.increases, hcondition f]
      dsimp only
      rw [List.filterMap_append, (h hc).log f k hk]
      split
      · rw [Stmt.increasesAll, List.filterMap_nil, List.append_nil]
      · rw [List.filterMap_nil, List.append_nil]
  · simp only [hc, if_false]
    exact Adds.pass (fun f => by rw [hcondition f, decide_eq_false hc]) Adds.nil

/-- A round adds what its body adds, also when it is cut short. -/
theorem Adds.round {name : String} {body : List Stmt} {i : Nat}
    (h : Adds fns fetched x w outer ((name, .ofNat i) :: inner) body added) (f : Nat → Binary32) :
    ∃ flow, roundOf fns name body i (summing inner outer f) =
      some (summing inner outer (addAll x w f added), flow) ∧ ∀ value, flow ≠ .done value := by
  obtain ⟨pushed, flow, hrun, hflow⟩ := h.run f
  refine ⟨flow, ?_, hflow⟩
  have hbody : Stmt.execAll fns body ((name, .ofNat i) :: summing inner outer f) =
      some ((pushed ++ [(name, .ofNat i)]) ++ summing inner outer (addAll x w f added), flow) := by
    rw [List.append_assoc]
    exact hrun
  unfold roundOf
  rw [hbody, Option.map_some, Env.leave_append _ (length_summing _ _)]

/-- **Rounds add** what their bodies add, one after the other. -/
theorem Adds.rounds {name : String} {body : List Stmt} {is : List Nat} {added : Nat → Nat → List Factors}
    (h : ∀ i ∈ is, Adds fns fetched x w outer ((name, .ofNat i) :: inner) body (added i))
    (f : Nat → Binary32) :
    rounds (roundOf fns name body) is (summing inner outer f) =
        some (summing inner outer (addAll x w f fun k => is.flatMap fun i => added i k), .next) ∧
      ∀ k < 4, (inRounds (roundOf fns name body)
        (fun i env => Stmt.increasesAll fns body ((name, .ofNat i) :: env)) is
        (summing inner outer f)).filterMap (fetched k) = is.flatMap fun i => added i k := by
  induction is generalizing f with
  | nil => exact ⟨rfl, fun k _ => rfl⟩
  | cons i is ih =>
    have hi := h i List.mem_cons_self
    obtain ⟨flow, hround, hflow⟩ := hi.round f
    obtain ⟨hrest, hlog⟩ := ih (fun j hj => h j (List.mem_cons_of_mem _ hj)) (addAll x w f (added i))
    rw [addAll_append] at hrest
    rw [Wgsl.rounds, inRounds, hround]
    -- a round that is cut short is followed by the next one as well
    have hfirst : ∀ k < 4, (Stmt.increasesAll fns body
        ((name, .ofNat i) :: summing inner outer f)).filterMap (fetched k) = added i k := hi.log f
    cases flow with
    | done value => exact absurd rfl (hflow value)
    | next | skip =>
      refine ⟨hrest, fun k hk => ?_⟩
      rw [List.filterMap_append, hfirst k hk, List.flatMap_cons]
      exact congrArg _ (hlog k hk)

/-- **A loop adds** what its rounds add. -/
theorem Adds.exec_countTo {name : String} {limit : Expr} {body : List Stmt} {n : Nat}
    {added : Nat → Nat → List Factors} (hn : n < 2 ^ 32)
    (hlimit : ∀ f, limit.eval fns (summing inner outer f) = some (.ofNat n))
    (h : ∀ i < n, Adds fns fetched x w outer ((name, .ofNat i) :: inner) body (added i))
    (f : Nat → Binary32) :
    (Stmt.countTo name limit body).exec fns (summing inner outer f) =
        some (summing inner outer (addAll x w f fun k => (List.range n).flatMap fun i => added i k),
          .next) ∧
      ∀ k < 4, ((Stmt.countTo name limit body).increases fns (summing inner outer f)).filterMap
        (fetched k) = (List.range n).flatMap fun i => added i k := by
  rw [(Wgsl.exec_countTo hn (hlimit f)).1, (Wgsl.exec_countTo hn (hlimit f)).2]
  exact Adds.rounds (fun i hi => h i (List.mem_range.mp hi)) f

theorem Adds.countTo {name : String} {limit : Expr} {body : List Stmt} {n : Nat}
    {added : Nat → Nat → List Factors} (hn : n < 2 ^ 32)
    (hlimit : ∀ f, limit.eval fns (summing inner outer f) = some (.ofNat n))
    (h : ∀ i < n, Adds fns fetched x w outer ((name, .ofNat i) :: inner) body (added i)) :
    Adds fns fetched x w outer inner [.countTo name limit body] fun k =>
      (List.range n).flatMap fun i => added i k := by
  have hexec := Adds.exec_countTo hn hlimit h
  constructor
  case run =>
    exact fun f => ⟨[], .next, by rw [execAll_cons_of_next fns (hexec f).1, execAll_nil]; rfl,
      fun value => by simp⟩
  case log =>
    intro f k hk
    rw [increasesAll_cons_of_next fns (hexec f).1, Stmt.increasesAll, List.append_nil, (hexec f).2 k hk]

/-- **A product for every lane.** -/
theorem Adds.increase {e : Expr} {p : Nat → Factors} (hinner : "acc" ∉ inner.map Prod.fst)
    (he : ∀ f, e.eval fns (summing inner outer f) =
      some (.lanes fun k => x (p k).1.1 (p k).1.2 * w (p k).2.1 (p k).2.2))
    (hfetched : ∀ f, ∀ k < 4, fetched k (summing inner outer f) = some (p k)) :
    Adds fns fetched x w outer inner [.increase (v "acc") e] fun k => [p k] := by
  have hexec : ∀ f, (Stmt.increase (v "acc") e).exec fns (summing inner outer f) =
      some (summing inner outer (addAll x w f fun k => [p k]), .next) := by
    intro f
    rw [Stmt.exec, eval_v, find?_acc hinner, he f, Option.bind_some, Option.bind_some,
      Value.binary_add_lanes, Option.bind_some]
    show ((summing inner outer f).set "acc" _).map _ = _
    rw [set_acc hinner]
    rfl
  constructor
  case run =>
    exact fun f => ⟨[], .next, by rw [execAll_cons_of_next fns (hexec f), execAll_nil]; rfl,
      fun value => by simp⟩
  case log =>
    intro f k hk
    rw [increasesAll_cons_of_next fns (hexec f), Stmt.increases, Stmt.increasesAll, List.append_nil,
      List.filterMap_cons, hfetched f k hk]
    rfl

/-- **A product for one lane.** -/
theorem Adds.increaseLane {e : Expr} {p : Factors} {lane : Nat} (hlane : lane < 4)
    (hinner : "acc" ∉ inner.map Prod.fst)
    (hindex : ∀ f, (summing inner outer f).find? "lane" = some (.ofNat lane))
    (he : ∀ f, e.eval fns (summing inner outer f) =
      some (.scalar (.real (x p.1.1 p.1.2 * w p.2.1 p.2.2))))
    (hfetched : ∀ f, ∀ k < 4, fetched k (summing inner outer f) = if k = lane then some p else none) :
    Adds fns fetched x w outer inner [.increase (.item (v "acc") (v "lane")) e] fun k =>
      if k = lane then [p] else [] := by
  have hnat : (UInt32.ofNat lane).toNat = lane := Value.toNat_ofNat_of_lt (by omega)
  have hadded : ∀ f : Nat → Binary32, (fun k => if k = lane then
      f lane + x p.1.1 p.1.2 * w p.2.1 p.2.2 else f k) =
      addAll x w f fun k => if k = lane then [p] else [] := by
    intro f
    funext k
    unfold addAll
    dsimp only
    by_cases hk : k = lane
    · rw [if_pos hk, if_pos hk, hk]
      rfl
    · rw [if_neg hk, if_neg hk]
      rfl
  have hexec : ∀ f, (Stmt.increase (.item (v "acc") (v "lane")) e).exec fns (summing inner outer f) =
      some (summing inner outer (addAll x w f fun k => if k = lane then [p] else []), .next) := by
    intro f
    have htarget : (Expr.item (v "acc") (v "lane")).eval fns (summing inner outer f) =
        some (.scalar (.real (f lane))) := by
      rw [Expr.eval, eval_v, eval_v, find?_acc hinner, hindex f]
      exact Value.item?_lanes hlane
    have hwrite : ∀ y, Env.write fns (summing inner outer f) (.scalar (.real y))
        (.item (v "acc") (v "lane")) = (summing inner outer f).set "acc"
          (.vector (((List.range 4).map fun k => .real (f k)).set lane (.real y))) := by
      intro y
      simp [Env.write, v, Expr.eval, find?_acc hinner, hindex f, Value.lanes, Value.ofNat, hnat, hlane]
    rw [Stmt.exec, htarget, he f, Option.bind_some, Option.bind_some]
    show (Env.write fns _ _ _).map _ = _
    rw [hwrite, Value.set_lanes hlane, set_acc hinner, hadded]
    rfl
  constructor
  case run =>
    exact fun f => ⟨[], .next, by rw [execAll_cons_of_next fns (hexec f), execAll_nil]; rfl,
      fun value => by simp⟩
  case log =>
    intro f k hk
    rw [increasesAll_cons_of_next fns (hexec f), Stmt.increases, Stmt.increasesAll, List.append_nil,
      List.filterMap_cons, hfetched f k hk]
    by_cases heq : k = lane
    · rw [if_pos heq, if_pos heq]
      rfl
    · rw [if_neg heq, if_neg heq]
      rfl

end Adds

end TexelFlow.Wgsl
