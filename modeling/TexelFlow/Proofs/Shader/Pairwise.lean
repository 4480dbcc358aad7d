import TexelFlow.Proofs.Shader.Broadcast

/-!
# Programs of pairwise operations pick the operands of the host

The body of a pairwise operation takes groups of channels as they are where nothing is broadcast, and goes
through the lanes of a group elsewhere, asking the index functions for the elements of each channel. The
functions that load groups are left open here: whatever elements the textures hold, every lane that has a
channel gets what the operation makes of the two elements that the host reads for it.

## Main statements

* `meaningOf_groupBody`, `meaningOf_lanesBody` — what both bodies give.
* `shader_picks` — the elements that a shader loads, and what it makes of them.

## §1 — loads
## §2 — groups
## §3 — lanes
## §4 — the shader
## §5 — the elements that are picked
-/

namespace TexelFlow.Wgsl

/-! ## §1 — loads -/

/-- What loading a group of channels of a tensor gives. -/
def groupOf (element : Nat → Nat → Binary32) : Meaning
  | [.scalar (.unsigned s), .scalar (.unsigned g)] =>
    some (.vector ((List.range 4).map fun k => .real (element s.toNat (g.toNat * 4 + k))))
  | _ => none

/-- The functions that load groups from textures, of tensors whose elements are given by role, position
and channel. -/
def loading (element : String → Nat → Nat → Binary32) (roles : List String) : Functions := fun f =>
  (roles.find? fun role => "load_" ++ role = f).map fun role => groupOf (element role)

theorem groupOf_ofNat (element : Nat → Nat → Binary32) {s g : Nat} (hs : s < 2 ^ 32) (hg : g < 2 ^ 32) :
    groupOf element [.ofNat s, .ofNat g] =
      some (.vector ((List.range 4).map fun k => .real (element s (g * 4 + k)))) := by
  unfold Value.ofNat groupOf
  dsimp only
  rw [Value.toNat_ofNat_of_lt hs, Value.toNat_ofNat_of_lt hg]

/-- A channel is in its lane of its group. -/
theorem getElem?_lane {α : Type} (f : Nat → α) (c : Nat) :
    ((List.range 4).map fun k => f (c / 4 * 4 + k))[c % 4]? = some (f c) := by
  have hlane : c % 4 < 4 := Nat.mod_lt c (by decide)
  rw [List.getElem?_map, List.getElem?_range hlane, Option.map_some, Size.div_mul_add_mod]

/-- The body of the function that loads one channel. -/
def channelBody (role : String) : List Stmt :=
  [.bind "texel" (.call ("load_" ++ role) [v "s", v "c" / u 4]),
   .give (.item (v "texel") (v "c" % u 4))]

/-- A loaded channel is the item of its group. -/
theorem meaningOf_channelBody {fns : Functions} (globals : Env) {role : String} {item : Nat → Binary32}
    {s c : Nat} (hc : c < 2 ^ 32) (hcall : fns.call ("load_" ++ role) [.ofNat s, .ofNat (c / 4)] =
      some (.vector ((List.range 4).map fun k => .real (item k)))) :
    meaningOf fns globals elementParams (channelBody role) [.ofNat s, .ofNat c] =
      some (.scalar (.real (item (c % 4)))) := by
  have hitem : ((List.range 4).map fun k => Scalar.real (item k))[c % 4]? =
      some (.real (item (c % 4))) := by
    rw [List.getElem?_map, List.getElem?_range (Nat.mod_lt c (by decide)), Option.map_some]
  generalize (List.range 4).map (fun k => Scalar.real (item k)) = items at hcall hitem
  have hbind : (Stmt.bind "texel" (.call ("load_" ++ role) [v "s", v "c" / u 4])).exec fns
      (("s", .ofNat s) :: ("c", .ofNat c) :: globals) =
      some (("texel", .vector items) :: ("s", .ofNat s) :: ("c", .ofNat c) :: globals, .next) := by
    simp [Stmt.exec, Env.find?, Value.binary_div_ofNat hc (show 0 < 4 by decide), hcall]
  have hgive : (Stmt.give (.item (v "texel") (v "c" % u 4))).exec fns
      (("texel", .vector items) :: ("s", .ofNat s) :: ("c", .ofNat c) :: globals) =
      some (("texel", .vector items) :: ("s", .ofNat s) :: ("c", .ofNat c) :: globals,
        .done (.scalar (.real (item (c % 4))))) := by
    simp [Stmt.exec, Expr.eval, Env.find?, Value.binary_rem_ofNat hc (show 0 < 4 by decide),
      Value.item?_ofNat (show c % 4 < 2 ^ 32 by omega), hitem]
  exact meaningOf_of_done rfl ((execAll_cons_of_next fns hbind _).trans (execAll_cons_of_done fns hgive _))

/-! ## §2 — groups -/

/-- The function that a pairwise operation applies. -/
def pairFunction (op : Operator) : Binary32 → Binary32 → Binary32 :=
  if op = .mul then (· * ·) else (· + ·)

theorem onReals_pairOp (op : Operator) (x y : Binary32) :
    (pairOp op).onReals x y = some (.real (pairFunction op x y)) := by
  unfold pairOp pairFunction
  by_cases hop : op = .mul
  · rw [if_pos hop, if_pos hop]
    rfl
  · rw [if_neg hop, if_neg hop]
    rfl

/-- The parameters of functions of a position and a group. -/
def groupParams : List Param := [param "s" .u32, param "g" .u32]

/-- The body of a pairwise operation that is computed group by group. -/
def groupBody (op : Operator) : List Stmt :=
  [.give (.binary (pairOp op) (.call "load_lhs" [v "s", v "g"]) (.call "load_rhs" [v "s", v "g"]))]

/-- The operation between two groups. -/
theorem binary_groups (op : Operator) (f g : Nat → Binary32) (lanes : List Nat) :
    (Value.vector (lanes.map fun k => .real (f k))).binary (pairOp op)
        (.vector (lanes.map fun k => .real (g k))) =
      some (.vector (lanes.map fun k => .real (pairFunction op (f k) (g k)))) := by
  have hitems : ((lanes.map fun k => Scalar.real (f k)).zip (lanes.map fun k => Scalar.real (g k))).mapM
      (fun p => Scalar.binary (pairOp op) p.1 p.2) =
      some (lanes.map fun k => .real (pairFunction op (f k) (g k))) := by
    induction lanes with
    | nil => rfl
    | cons k lanes ih =>
      rw [List.map_cons, List.map_cons, List.zip_cons_cons, List.mapM_cons, ih, Scalar.binary,
        onReals_pairOp]
      rfl
  show (if _ = _ then _ else _) = _
  rw [if_pos (by rw [List.length_map, List.length_map]), hitems]
  rfl

/-- **A group of channels** where nothing is broadcast. -/
theorem meaningOf_groupBody (op : Operator) (globals : Env) {fns : Functions}
    {element : String → Nat → Nat → Binary32} (hlhs : fns "load_lhs" = some (groupOf (element "lhs")))
    (hrhs : fns "load_rhs" = some (groupOf (element "rhs"))) {s g : Nat} (hs : s < 2 ^ 32)
    (hg : g < 2 ^ 32) :
    meaningOf fns globals groupParams (groupBody op) [.ofNat s, .ofNat g] =
      some (.vector ((List.range 4).map fun k =>
        .real (pairFunction op (element "lhs" s (g * 4 + k)) (element "rhs" s (g * 4 + k))))) := by
  have hload : ∀ {f : String} {x : Nat → Nat → Binary32}, fns f = some (groupOf x) →
      (Expr.call f [v "s", v "g"]).eval fns (("s", .ofNat s) :: ("g", .ofNat g) :: globals) =
        some (.vector ((List.range 4).map fun k => .real (x s (g * 4 + k)))) := by
    intro f x hf
    have hcall : fns.call f [.ofNat s, .ofNat g] =
        some (.vector ((List.range 4).map fun k => .real (x s (g * 4 + k)))) := by
      unfold Functions.call
      rw [hf, Option.bind_some, groupOf_ofNat x hs hg]
    rw [← hcall]
    simp [Env.find?]
  have hgive : (Stmt.give (.binary (pairOp op) (.call "load_lhs" [v "s", v "g"])
      (.call "load_rhs" [v "s", v "g"]))).exec fns (("s", .ofNat s) :: ("g", .ofNat g) :: globals) =
      some (("s", .ofNat s) :: ("g", .ofNat g) :: globals, .done (.vector ((List.range 4).map fun k =>
        .real (pairFunction op (element "lhs" s (g * 4 + k)) (element "rhs" s (g * 4 + k)))))) := by
    rw [Stmt.exec, eval_binary, hload hlhs, hload hrhs, Option.bind_some, Option.bind_some, binary_groups]
    rfl
  exact meaningOf_of_done rfl (execAll_cons_of_done fns hgive [])

/-! ## §3 — lanes -/

/-- The items of a vector after a lane had its turn: it gets its item, if it has one. -/
def putItem (item? : Nat → Option Scalar) (items : List Scalar) (k : Nat) : List Scalar :=
  match item? k with
  | some x => items.set k x
  | none => items

section Items

variable (item? : Nat → Option Scalar) {items : List Scalar} {k lane : Nat}

theorem length_putItem : (putItem item? items k).length = items.length := by
  unfold putItem
  split
  · exact List.length_set
  · rfl

theorem getElem?_putItem_self (h : k < items.length) :
    (putItem item? items k)[k]? = (item? k).or items[k]? := by
  unfold putItem
  split
  · rename_i x hx
    rw [List.getElem?_set_self h, hx, Option.some_or]
  · rename_i hx
    rw [hx, Option.none_or]

theorem getElem?_putItem_of_ne (h : lane ≠ k) : (putItem item? items lane)[k]? = items[k]? := by
  unfold putItem
  split
  · exact List.getElem?_set_ne h
  · rfl

/-- A lane that had its turn has its item, if it has one; everything else is as it was. -/
theorem getElem?_foldl_putItem {lanes : List Nat} (hk : k < items.length) :
    (lanes.foldl (putItem item?) items)[k]? =
      if k ∈ lanes then (item? k).or items[k]? else items[k]? := by
  induction lanes generalizing items with
  | nil => rfl
  | cons lane lanes ih =>
    rw [List.foldl_cons, ih (by rwa [length_putItem])]
    by_cases heq : lane = k
    · -- a lane that has several turns gets the same item in each
      subst heq
      rw [getElem?_putItem_self item? hk, ← Option.or_assoc, Option.or_self, ite_self,
        if_pos List.mem_cons_self]
    · rw [getElem?_putItem_of_ne item? heq]
      simp [Ne.symm heq]

end Items

/-- What is done for one lane that has a channel. -/
def laneBlock (op : Operator) : List Stmt :=
  let part (role name : String) : Expr :=
    .call ("load_" ++ role ++ "_channel") [.member (v name) "x", .member (v name) "y"]
  [.bind "a" (.call "index_lhs" [v "s", v "c"]),
   .bind "b" (.call "index_rhs" [v "s", v "c"]),
   .assign (.item (v "result") (v "lane")) (.binary (pairOp op) (part "lhs" "a") (part "rhs" "b"))]

/-- What is done for one lane. -/
def laneBody (op : Operator) : List Stmt :=
  [.bind "c" (v "g" * u 4 + v "lane"),
   .onlyIf (below (v "c") (v "OUT_CHANNELS")) (laneBlock op)]

section Lanes

variable {fns : Functions} {globals : Env} {channels s g : Nat}
  {element : String → Nat → Nat → Binary32} {p q : Nat → Nat × Nat}

/-- What a shader of a pairwise operation knows where it computes lanes: the elements of the operands for
each channel, and how to load an element. -/
structure LaneFunctions (fns : Functions) (s channels : Nat) (element : String → Nat → Nat → Binary32)
    (p q : Nat → Nat × Nat) : Prop where
  lhsIndex : ∀ c < channels, fns.call "index_lhs" [.ofNat s, .ofNat c] = some (pairValue (p c))
  rhsIndex : ∀ c < channels, fns.call "index_rhs" [.ofNat s, .ofNat c] = some (pairValue (q c))
  lhsLoad : ∀ c < channels, fns.call "load_lhs_channel" [.ofNat (p c).1, .ofNat (p c).2] =
    some (.scalar (.real (element "lhs" (p c).1 (p c).2)))
  rhsLoad : ∀ c < channels, fns.call "load_rhs_channel" [.ofNat (q c).1, .ofNat (q c).2] =
    some (.scalar (.real (element "rhs" (q c).1 (q c).2)))

/-- The element of the result at a channel. -/
def laneValue (op : Operator) (element : String → Nat → Nat → Binary32) (p q : Nat → Nat × Nat)
    (c : Nat) : Scalar :=
  .real (pairFunction op (element "lhs" (p c).1 (p c).2) (element "rhs" (q c).1 (q c).2))

theorem part?_pairValue (p : Nat × Nat) : (pairValue p).part? "x" = some (.ofNat p.1) ∧
    (pairValue p).part? "y" = some (.ofNat p.2) := ⟨rfl, rfl⟩

/-- The block of a lane puts the element of its channel into the lane. -/
theorem execAll_laneBlock {op : Operator} (hfns : LaneFunctions fns s channels element p q)
    {env env' : Env} {c k : Nat} {items : List Scalar} (hs : env.find? "s" = some (.ofNat s))
    (hc : env.find? "c" = some (.ofNat c)) (hin : c < channels)
    (hlane : env.find? "lane" = some (.ofNat k)) (hk : k < 4)
    (hresult : env.find? "result" = some (.vector items)) (hitems : items.length = 4)
    (hset : env.set "result" (.vector (items.set k (laneValue op element p q c))) = some env') :
    Stmt.execAll fns (laneBlock op) env =
      some (("b", pairValue (q c)) :: ("a", pairValue (p c)) :: env', .next) := by
  have ha : (Stmt.bind "a" (.call "index_lhs" [v "s", v "c"])).exec fns env =
      some (("a", pairValue (p c)) :: env, .next) := by
    simp [Stmt.exec, hs, hc, hfns.lhsIndex c hin]
  have hb : (Stmt.bind "b" (.call "index_rhs" [v "s", v "c"])).exec fns (("a", pairValue (p c)) :: env) =
      some (("b", pairValue (q c)) :: ("a", pairValue (p c)) :: env, .next) := by
    simp [Stmt.exec, Env.find?, hs, hc, hfns.rhsIndex c hin]
  unfold laneBlock
  dsimp only
  rw [execAll_cons_of_next fns ha, execAll_cons_of_next fns hb]
  refine execAll_cons_of_next fns ?_ []
  have hload : ∀ (role name : String) (pair : Nat × Nat) (x : Binary32),
      Env.find? name (("b", pairValue (q c)) :: ("a", pairValue (p c)) :: env) = some (pairValue pair) →
      fns.call ("load_" ++ role ++ "_channel") [.ofNat pair.1, .ofNat pair.2] = some (.scalar (.real x)) →
      (Expr.call ("load_" ++ role ++ "_channel") [.member (v name) "x", .member (v name) "y"]).eval fns
        (("b", pairValue (q c)) :: ("a", pairValue (p c)) :: env) = some (.scalar (.real x)) := by
    intro role name pair x hname hcall
    simp [Expr.eval, hname, part?_pairValue, hcall]
  have hvalue : (Expr.binary (pairOp op)
      (.call ("load_" ++ "lhs" ++ "_channel") [.member (v "a") "x", .member (v "a") "y"])
      (.call ("load_" ++ "rhs" ++ "_channel") [.member (v "b") "x", .member (v "b") "y"])).eval fns
      (("b", pairValue (q c)) :: ("a", pairValue (p c)) :: env) =
      some (.scalar (laneValue op element p q c)) := by
    rw [eval_binary, hload "lhs" "a" (p c) _ rfl (hfns.lhsLoad c hin),
      hload "rhs" "b" (q c) _ rfl (hfns.rhsLoad c hin)]
    show (Scalar.binary (pairOp op) (.real _) (.real _)).map Value.scalar = _
    rw [Scalar.binary, onReals_pairOp]
    rfl
  have hwrite : Env.write fns (("b", pairValue (q c)) :: ("a", pairValue (p c)) :: env)
      (.scalar (laneValue op element p q c)) (.item (v "result") (v "lane")) =
      some (("b", pairValue (q c)) :: ("a", pairValue (p c)) :: env') := by
    have hnat : (UInt32.ofNat k).toNat = k := Value.toNat_ofNat_of_lt (by omega)
    simp [Env.write, v, Expr.eval, Env.find?, Env.set, hresult, hlane, hset, Value.ofNat, hnat, hitems, hk]
  rw [Stmt.exec, hvalue, Option.bind_some, hwrite]
  rfl

/-- The element of the result in a lane, if there is a channel for it. -/
def laneItem? (op : Operator) (element : String → Nat → Nat → Binary32) (p q : Nat → Nat × Nat)
    (channels g k : Nat) : Option Scalar :=
  if g * 4 + k < channels then some (laneValue op element p q (g * 4 + k)) else none

/-- **One lane** gets its element, if there is a channel for it. -/
theorem execAll_laneBody (op : Operator) (hfns : LaneFunctions fns s channels element p q)
    (hglobal : globals.find? "OUT_CHANNELS" = some (.ofNat channels)) (hchannels : channels < 2 ^ 32)
    {k : Nat} (hk : k < 4) (hindex : g * 4 + k < 2 ^ 32) {items : List Scalar}
    (hitems : items.length = 4) :
    ∃ pushed, Stmt.execAll fns (laneBody op) (("lane", .ofNat k) :: ("result", .vector items) ::
        ("s", .ofNat s) :: ("g", .ofNat g) :: globals) =
      some (pushed ++ ("result", .vector (putItem (laneItem? op element p q channels g) items k)) ::
        ("s", .ofNat s) :: ("g", .ofNat g) :: globals, .next) := by
  refine ⟨[("c", .ofNat (g * 4 + k)), ("lane", .ofNat k)], ?_⟩
  have hc : (Stmt.bind "c" (v "g" * u 4 + v "lane")).exec fns (("lane", .ofNat k) ::
      ("result", .vector items) :: ("s", .ofNat s) :: ("g", .ofNat g) :: globals) =
      some (("c", .ofNat (g * 4 + k)) :: ("lane", .ofNat k) :: ("result", .vector items) ::
        ("s", .ofNat s) :: ("g", .ofNat g) :: globals, .next) := by
    simp [Stmt.exec, Env.find?]
  unfold laneBody
  rw [execAll_cons_of_next fns hc]
  refine execAll_cons_of_next fns ?_ []
  have hcondition : (below (v "c") (v "OUT_CHANNELS")).eval fns (("c", .ofNat (g * 4 + k)) ::
      ("lane", .ofNat k) :: ("result", .vector items) :: ("s", .ofNat s) :: ("g", .ofNat g) ::
      globals) = some (.scalar (.truth (g * 4 + k < channels))) := by
    simp [below, Env.find?, hglobal, Value.binary_lt_ofNat hindex hchannels]
  rw [Stmt.exec, hcondition]
  unfold putItem laneItem?
  by_cases hin : g * 4 + k < channels
  · have hblock : Stmt.execAll fns (laneBlock op) (("c", .ofNat (g * 4 + k)) :: ("lane", .ofNat k) ::
        ("result", .vector items) :: ("s", .ofNat s) :: ("g", .ofNat g) :: globals) =
        some (("b", pairValue (q (g * 4 + k))) :: ("a", pairValue (p (g * 4 + k))) ::
          ("c", .ofNat (g * 4 + k)) :: ("lane", .ofNat k) ::
          ("result", .vector (items.set k (laneValue op element p q (g * 4 + k)))) ::
          ("s", .ofNat s) :: ("g", .ofNat g) :: globals, .next) :=
      execAll_laneBlock hfns rfl rfl hin rfl hk rfl hitems rfl
    rw [if_pos hin, decide_eq_true hin]
    dsimp only
    rw [hblock, Option.map_some]
    exact congrArg (fun env => some (env, Flow.next)) (Env.leave_append [_, _] rfl)
  · rw [if_neg hin, decide_eq_false hin]
    rfl

/-- One round of the loop over lanes. -/
def laneRound (fns : Functions) (op : Operator) (k : Nat) (env : Env) : Option (Env × Flow) :=
  (Stmt.execAll fns (laneBody op) (("lane", .ofNat k) :: env)).map fun r => (env.leave r.1, r.2)

/-- **All rounds** put the items of their lanes, one after the other. -/
theorem rounds_laneRound (op : Operator) (hfns : LaneFunctions fns s channels element p q)
    (hglobal : globals.find? "OUT_CHANNELS" = some (.ofNat channels)) (hchannels : channels < 2 ^ 32)
    (hgroup : g * 4 + 3 < 2 ^ 32) {lanes : List Nat} (hlanes : ∀ k ∈ lanes, k < 4)
    {items : List Scalar} (hitems : items.length = 4) :
    rounds (laneRound fns op) lanes
        (("result", .vector items) :: ("s", .ofNat s) :: ("g", .ofNat g) :: globals) =
      some (("result", .vector (lanes.foldl (putItem (laneItem? op element p q channels g)) items)) ::
        ("s", .ofNat s) :: ("g", .ofNat g) :: globals, .next) := by
  induction lanes generalizing items with
  | nil => rfl
  | cons lane lanes ih =>
    have hlane := hlanes lane List.mem_cons_self
    obtain ⟨pushed, hbody⟩ := execAll_laneBody op hfns hglobal hchannels hlane
      (show g * 4 + lane < 2 ^ 32 by omega) hitems
    have hround : laneRound fns op lane
        (("result", .vector items) :: ("s", .ofNat s) :: ("g", .ofNat g) :: globals) =
        some (("result", .vector (putItem (laneItem? op element p q channels g) items lane)) ::
          ("s", .ofNat s) :: ("g", .ofNat g) :: globals, .next) := by
      unfold laneRound
      rw [hbody, Option.map_some]
      exact congrArg (fun env => some (env, Flow.next)) (Env.leave_append pushed rfl)
    rw [rounds, hround]
    exact ih (fun k hk => hlanes k (List.mem_cons_of_mem _ hk)) (by rwa [length_putItem])

/-- The body of a pairwise operation that is computed channel by channel. -/
def lanesBody (op : Operator) : List Stmt :=
  [.var "result" zero4, .countTo "lane" (u 4) (laneBody op), .give (v "result")]

/-- **A group of channels**, each with its element. -/
theorem meaningOf_lanesBody (op : Operator) (hfns : LaneFunctions fns s channels element p q)
    (hglobal : globals.find? "OUT_CHANNELS" = some (.ofNat channels)) (hchannels : channels < 2 ^ 32)
    (hgroup : g * 4 + 3 < 2 ^ 32) :
    ∃ items, meaningOf fns globals groupParams (lanesBody op) [.ofNat s, .ofNat g] =
        some (.vector items) ∧
      ∀ k < 4, g * 4 + k < channels → items[k]? = some (laneValue op element p q (g * 4 + k)) := by
  have hzeros : (List.replicate 4 (Scalar.real .zero)).length = 4 := List.length_replicate
  have hvar : (Stmt.var "result" zero4).exec fns (("s", .ofNat s) :: ("g", .ofNat g) :: globals) =
      some (("result", .vector (List.replicate 4 (.real .zero))) :: ("s", .ofNat s) ::
        ("g", .ofNat g) :: globals, .next) := by
    simp [Stmt.exec, zero4, vec4, Expr.eval, Value.make, Value.items]
  have hrounds := rounds_laneRound op hfns hglobal hchannels hgroup
    (fun k hk => List.mem_range.mp hk : ∀ k ∈ List.range 4, k < 4) hzeros
  have hitem : ∀ k < 4, g * 4 + k < channels →
      ((List.range 4).foldl (putItem (laneItem? op element p q channels g))
        (List.replicate 4 (.real .zero)))[k]? = some (laneValue op element p q (g * 4 + k)) := by
    intro k hk hin
    rw [getElem?_foldl_putItem _ (by rwa [hzeros]), if_pos (List.mem_range.mpr hk), laneItem?, if_pos hin,
      Option.some_or]
  generalize (List.range 4).foldl (putItem (laneItem? op element p q channels g))
    (List.replicate 4 (.real .zero)) = items at hrounds hitem
  have hloop : (Stmt.countTo "lane" (u 4) (laneBody op)).exec fns
      (("result", .vector (List.replicate 4 (.real .zero))) :: ("s", .ofNat s) ::
        ("g", .ofNat g) :: globals) =
      some (("result", .vector items) :: ("s", .ofNat s) :: ("g", .ofNat g) :: globals, .next) := by
    rw [Stmt.exec, eval_u]
    exact hrounds
  have hgive : (Stmt.give (v "result")).exec fns
      (("result", .vector items) :: ("s", .ofNat s) :: ("g", .ofNat g) :: globals) =
      some (("result", .vector items) :: ("s", .ofNat s) :: ("g", .ofNat g) :: globals,
        .done (.vector items)) := by
    simp [Stmt.exec, Env.find?]
  have hbody : Stmt.execAll fns (lanesBody op) (("s", .ofNat s) :: ("g", .ofNat g) :: globals) =
      some (("result", .vector items) :: ("s", .ofNat s) :: ("g", .ofNat g) :: globals,
        .done (.vector items)) := by
    unfold lanesBody
    rw [execAll_cons_of_next fns hvar, execAll_cons_of_next fns hloop, execAll_cons_of_done fns hgive]
  exact ⟨items, meaningOf_of_done rfl hbody, hitem⟩

end Lanes

/-! ## §4 — the shader -/

/-- What stands in front of the functions of a pairwise operation. -/
def textures (op : Operator) (lhs rhs : Layout) : List Decl :=
  .remark (op.name ++ " program") ::
    (drawParams ++ (textureInput 1 "lhs" lhs ++ textureInput 2 "rhs" rhs))

/-- What stands between them and the body. -/
def outputConstants (output : Layout) : List Decl := .blank :: (layoutConstants "OUT" output ++ [.blank])

/-- What stands behind the body. -/
def stages (output : Layout) : List Decl :=
  [.blank, vertexStage, .blank, fragmentOutput output.renderTargets, .blank, outputTexel, .blank,
   fragmentStage output.renderTargets]

/-- A shader of these parts. -/
def assembled (op : Operator) (lhs rhs output : Layout) (decls : List Decl) (body : List Stmt) : Shader :=
  textures op lhs rhs ++ decls ++ outputConstants output ++
    .function none "compute" groupParams (result vec4) body :: stages output

section Shaders

variable {op : Operator} {lhs rhs output : Layout} {decls : List Decl} {body : List Stmt}
  {element : String → Nat → Nat → Binary32} {s c : Nat}

theorem body_pairwise (hlhs : Broadcasts lhs output) (hrhs : Broadcasts rhs output) :
    Wgsl.body op .pairwise [lhs, rhs] output = .ok (pairwise op lhs rhs output) := by
  show (if lhs.shape ≠ output.shape ∨ rhs.shape ≠ output.shape then
    checkIndex lhs.shape output.shape >>= fun _ => checkIndex rhs.shape output.shape >>= fun _ => _ else _) = _
  rw [hlhs.checkIndex_eq, hrhs.checkIndex_eq]
  split
  · rfl
  · rfl

theorem shader_pairwise (hlhs : Broadcasts lhs output) (hrhs : Broadcasts rhs output) :
    shader op .pairwise [lhs, rhs] output =
      .ok (assembled op lhs rhs output (pairwise op lhs rhs output).1 (pairwise op lhs rhs output).2) := by
  unfold shader
  rw [Outcome.bind_of_eq_ok (body_pairwise hlhs hrhs)]
  refine congrArg Except.ok ?_
  simp only [assembled, textures, outputConstants, stages, List.append_assoc, List.cons_append,
    List.nil_append]
  rfl

/-- What the names of a layout's constants end in. -/
def layoutParts : List String := ["_TEX_W", "_TEX_H", "_LPS", "_SPATIAL", "_CHANNELS", "_GROUPS"]

theorem globalNames_textures : (textures op lhs rhs).filterMap Decl.globalName? =
    ("lhs_tex" :: layoutParts.map ("lhs".map Char.toUpper ++ ·)) ++
      ("rhs_tex" :: layoutParts.map ("rhs".map Char.toUpper ++ ·)) := rfl

theorem functionNames_textures : (textures op lhs rhs).filterMap Decl.functionName? =
    ["load_lhs", "load_lhs_channel", "load_rhs", "load_rhs_channel"] := rfl

theorem find?_globals (hdecls : ∀ d ∈ decls, d.globalName? = none) :
    (assembled op lhs rhs output decls body).globals.find? "OUT_CHANNELS" =
      some (.ofNat output.channels) := by
  have hsplit : assembled op lhs rhs output decls body =
      (textures op lhs rhs ++ decls ++ [.blank, constant "OUT_TEX_W" output.width,
        constant "OUT_TEX_H" output.height, constant "OUT_LPS" output.layersPerSlice,
        constant "OUT_SPATIAL" output.spatial]) ++ constant "OUT_CHANNELS" output.channels ::
      (constant "OUT_GROUPS" output.channelGroups :: .blank ::
        .function none "compute" groupParams (result vec4) body :: stages output) := by
    unfold assembled outputConstants
    simp only [List.append_assoc]
    rfl
  rw [hsplit]
  refine find?_globals_of_split rfl ?_
  rw [List.filterMap_append, List.filterMap_append, globalNames_textures,
    List.filterMap_eq_nil_iff.mpr hdecls]
  show "OUT_CHANNELS" ∉ _ ++ _ ++ _ ++ ["OUT_TEX_W", "OUT_TEX_H", "OUT_LPS", "OUT_SPATIAL"]
  decide +kernel

/-- What is known in front of a shader. -/
def loaded (element : String → Nat → Nat → Binary32) : Functions := fun f =>
  (loading element ["lhs", "rhs"] f).or (builtin f)

/-- What is known where the body stands. -/
def known (element : String → Nat → Nat → Binary32) (globals : Env) (op : Operator)
    (lhs rhs output : Layout) (decls : List Decl) : Functions :=
  (textures op lhs rhs ++ decls ++ outputConstants output).foldl (define globals) (loaded element)

theorem functions_compute (hdecls : "compute" ∉ decls.filterMap Decl.functionName?) :
    (assembled op lhs rhs output decls body).functions (loading element ["lhs", "rhs"]) "compute" =
      some (meaningOf (known element (assembled op lhs rhs output decls body).globals op lhs rhs output decls)
        (assembled op lhs rhs output decls body).globals groupParams body) := by
  refine functions_of_split rfl ?_ none groupParams (result vec4) body
  rw [List.filterMap_append, List.filterMap_append, functionNames_textures]
  show "compute" ∉ _ ++ _ ++ []
  rw [List.append_nil, List.mem_append, not_or]
  exact ⟨by decide, hdecls⟩

theorem call_loadChannel (globals : Env) {fns : Functions} {role : String}
    {element : Nat → Nat → Binary32} {before after : List Decl}
    (hload : fns ("load_" ++ role) = some (groupOf element))
    (hnone : fns ("load_" ++ role ++ "_channel") = none)
    (hbefore : "load_" ++ role ++ "_channel" ∉ before.filterMap Decl.functionName?) (hs : s < 2 ^ 32)
    (hc : c < 2 ^ 32) :
    ((before ++ loadChannel role :: after).foldl (define globals) fns).call
      ("load_" ++ role ++ "_channel") [.ofNat s, .ofNat c] = some (.scalar (.real (element s c))) := by
  have hgroup : (before.foldl (define globals) fns).call ("load_" ++ role) [.ofNat s, .ofNat (c / 4)] =
      some (.vector ((List.range 4).map fun k => .real (element s (c / 4 * 4 + k)))) := by
    unfold Functions.call
    rw [foldl_define_of_some hload, Option.bind_some, groupOf_ofNat element hs (by omega)]
  have hchannel := meaningOf_channelBody globals hc hgroup
  rw [Size.div_mul_add_mod] at hchannel
  exact Option.bind_eq_some_iff.mpr
    ⟨_, functions_of_split hnone hbefore none elementParams (result .f32) (channelBody role), hchannel⟩

theorem known_load_lhs (globals : Env) : known element globals op lhs rhs output decls "load_lhs" =
    some (groupOf (element "lhs")) := foldl_define_of_some rfl _

theorem known_load_rhs (globals : Env) : known element globals op lhs rhs output decls "load_rhs" =
    some (groupOf (element "rhs")) := foldl_define_of_some rfl _

theorem call_load_lhs_channel (globals : Env) (hs : s < 2 ^ 32) (hc : c < 2 ^ 32) :
    (known element globals op lhs rhs output decls).call "load_lhs_channel" [.ofNat s, .ofNat c] =
      some (.scalar (.real (element "lhs" s c))) := by
  have hsplit : textures op lhs rhs ++ decls ++ outputConstants output =
      (.remark (op.name ++ " program") :: (drawParams ++ [.blank, .texture 1 "lhs_tex"] ++
        layoutConstants ("lhs".map Char.toUpper) lhs ++ [.blank, loadGroup "lhs", .blank])) ++
      loadChannel "lhs" :: (textureInput 2 "rhs" rhs ++ decls ++ outputConstants output) := rfl
  unfold known
  rw [hsplit]
  refine call_loadChannel globals rfl rfl ?_ hs hc
  show "load_lhs_channel" ∉ ["load_lhs"]
  decide

theorem call_load_rhs_channel (globals : Env) (hs : s < 2 ^ 32) (hc : c < 2 ^ 32) :
    (known element globals op lhs rhs output decls).call "load_rhs_channel" [.ofNat s, .ofNat c] =
      some (.scalar (.real (element "rhs" s c))) := by
  have hsplit : textures op lhs rhs ++ decls ++ outputConstants output =
      (.remark (op.name ++ " program") :: (drawParams ++ textureInput 1 "lhs" lhs ++
        [.blank, .texture 2 "rhs_tex"] ++ layoutConstants ("rhs".map Char.toUpper) rhs ++
        [.blank, loadGroup "rhs", .blank])) ++
      loadChannel "rhs" :: (decls ++ outputConstants output) := rfl
  unfold known
  rw [hsplit]
  refine call_loadChannel globals rfl rfl ?_ hs hc
  show "load_rhs_channel" ∉ ["load_lhs", "load_lhs_channel", "load_rhs"]
  decide

/-! ## §5 — the elements that are picked -/

/-- The index functions of both operands. -/
def indexDecls (lhs rhs output : Layout) : List Decl :=
  [operandIndex "lhs" lhs.shape output.shape, operandIndex "rhs" rhs.shape output.shape]

theorem pairwise_of_same (h : lhs.shape = output.shape ∧ rhs.shape = output.shape) :
    pairwise op lhs rhs output = ([], groupBody op) := if_pos h

theorem pairwise_of_not_same (h : ¬ (lhs.shape = output.shape ∧ rhs.shape = output.shape)) :
    pairwise op lhs rhs output = (indexDecls lhs rhs output, lanesBody op) := if_neg h

theorem call_operandIndex {globals : Env} {fns : Functions} {role : String} {operand : Layout}
    {before after : List Decl} (h : Broadcasts operand output)
    (hglobal : globals.find? "OUT_CHANNELS" = some (.ofNat output.channels))
    (hnone : fns ("index_" ++ role) = none)
    (hbefore : "index_" ++ role ∉ before.filterMap Decl.functionName?) (hs : s < output.spatial)
    (hc : c < output.channels) :
    ((before ++ operandIndex role operand.shape output.shape :: after).foldl (define globals) fns).call
      ("index_" ++ role) [.ofNat s, .ofNat c] = some (pairValue (pick operand output s c)) :=
  Option.bind_eq_some_iff.mpr
    ⟨_, functions_of_split hnone hbefore none elementParams (result (.vec 2 .u32))
        (indexBody operand.shape output.shape),
      h.meaningOf_index hs hc _ hglobal⟩

theorem call_index_lhs (h : Broadcasts lhs output) {globals : Env}
    (hglobal : globals.find? "OUT_CHANNELS" = some (.ofNat output.channels)) (hs : s < output.spatial)
    (hc : c < output.channels) :
    (known element globals op lhs rhs output (indexDecls lhs rhs output)).call "index_lhs"
      [.ofNat s, .ofNat c] = some (pairValue (pick lhs output s c)) := by
  have hsplit : textures op lhs rhs ++ indexDecls lhs rhs output ++ outputConstants output =
      textures op lhs rhs ++ operandIndex "lhs" lhs.shape output.shape ::
        operandIndex "rhs" rhs.shape output.shape :: outputConstants output := rfl
  unfold known
  rw [hsplit]
  refine call_operandIndex h hglobal rfl ?_ hs hc
  show "index_lhs" ∉ ["load_lhs", "load_lhs_channel", "load_rhs", "load_rhs_channel"]
  decide

theorem call_index_rhs (h : Broadcasts rhs output) {globals : Env}
    (hglobal : globals.find? "OUT_CHANNELS" = some (.ofNat output.channels)) (hs : s < output.spatial)
    (hc : c < output.channels) :
    (known element globals op lhs rhs output (indexDecls lhs rhs output)).call "index_rhs"
      [.ofNat s, .ofNat c] = some (pairValue (pick rhs output s c)) := by
  have hsplit : textures op lhs rhs ++ indexDecls lhs rhs output ++ outputConstants output =
      (textures op lhs rhs ++ [operandIndex "lhs" lhs.shape output.shape]) ++
        operandIndex "rhs" rhs.shape output.shape :: outputConstants output := rfl
  unfold known
  rw [hsplit]
  refine call_operandIndex h hglobal rfl ?_ hs hc
  show "index_rhs" ∉ ["load_lhs", "load_lhs_channel", "load_rhs", "load_rhs_channel", "index_lhs"]
  decide

theorem functions_assembled :
    (assembled op lhs rhs output decls body).functions (loading element ["lhs", "rhs"]) =
      (.function none "compute" groupParams (result vec4) body :: stages output).foldl
        (define (assembled op lhs rhs output decls body).globals)
        (known element (assembled op lhs rhs output decls body).globals op lhs rhs output decls) :=
  List.foldl_append

/-- What is known where the body stands is known of the whole shader. -/
theorem call_of_known {name : String} {args : List Value} {value : Value}
    (h : (known element (assembled op lhs rhs output decls body).globals op lhs rhs output decls).call name
      args = some value) :
    ((assembled op lhs rhs output decls body).functions (loading element ["lhs", "rhs"])).call name args =
      some value := by
  rw [functions_assembled]
  exact call_foldl_define h _

/-- The element that a shader computes at `s` and `c`, and what its index functions give there, if
it has any. -/
structure Computes (op : Operator) (shader : Shader) (lhs rhs output : Layout)
    (element : String → Nat → Nat → Binary32) (s c : Nat) (p q : Nat × Nat) : Prop where
  /-- The lane of the channel has the element that is made of those at `p` and `q`. -/
  lane : ∃ items, (shader.functions (loading element ["lhs", "rhs"])).call "compute"
      [.ofNat s, .ofNat (c / 4)] = some (.vector items) ∧
    items[c % 4]? = some (.real (pairFunction op (element "lhs" p.1 p.2) (element "rhs" q.1 q.2)))
  /-- Index functions give `p` and `q`. -/
  index : ¬ (lhs.shape = output.shape ∧ rhs.shape = output.shape) →
    (shader.functions (loading element ["lhs", "rhs"])).call "index_lhs" [.ofNat s, .ofNat c] =
        some (pairValue p) ∧
      (shader.functions (loading element ["lhs", "rhs"])).call "index_rhs" [.ofNat s, .ofNat c] =
        some (pairValue q)

section Elements

variable (hlhs : Broadcasts lhs output) (hrhs : Broadcasts rhs output)
include hlhs hrhs

/-- What the body rests on where something is broadcast. -/
theorem laneFunctions {globals : Env}
    (hglobal : globals.find? "OUT_CHANNELS" = some (.ofNat output.channels)) (hs : s < output.spatial) :
    LaneFunctions (known element globals op lhs rhs output (indexDecls lhs rhs output)) s output.channels
      element (pick lhs output s) (pick rhs output s) := by
  constructor
  case lhsIndex => exact fun c hc => call_index_lhs hlhs hglobal hs hc
  case rhsIndex => exact fun c hc => call_index_rhs hrhs hglobal hs hc
  case lhsLoad =>
    intro c hc
    obtain ⟨hposition, hchannel⟩ := hlhs.pick_lt hs hc
    exact call_load_lhs_channel globals hposition hchannel
  case rhsLoad =>
    intro c hc
    obtain ⟨hposition, hchannel⟩ := hrhs.pick_lt hs hc
    exact call_load_rhs_channel globals hposition hchannel

theorem computes_of_not_same (hs : s < output.spatial) (hc : c < output.channels) :
    Computes op (assembled op lhs rhs output (indexDecls lhs rhs output) (lanesBody op)) lhs rhs output
      element s c (pick lhs output s c) (pick rhs output s c) := by
  have hglobal := @find?_globals op lhs rhs output (indexDecls lhs rhs output) (lanesBody op)
    (by simp [indexDecls, operandIndex, function, Decl.globalName?, Decl.global?])
  have hchannels := hlhs.output_extents_lt.2
  have hfns : LaneFunctions (known element _ op lhs rhs output (indexDecls lhs rhs output)) s
      output.channels element (pick lhs output s) (pick rhs output s) :=
    laneFunctions hlhs hrhs hglobal hs
  obtain ⟨items, hbody, hitems⟩ := meaningOf_lanesBody op hfns hglobal hchannels
    (show c / 4 * 4 + 3 < 2 ^ 32 by omega)
  have hnames : "compute" ∉ (indexDecls lhs rhs output).filterMap Decl.functionName? := by
    show "compute" ∉ ["index_lhs", "index_rhs"]
    decide
  have hcompute := @functions_compute op lhs rhs output _ (lanesBody op) element hnames
  constructor
  case lane =>
    refine ⟨items, Option.bind_eq_some_iff.mpr ⟨_, hcompute, hbody⟩, ?_⟩
    rw [hitems (c % 4) (Nat.mod_lt c (by decide)) (by rwa [Size.div_mul_add_mod]), Size.div_mul_add_mod]
    rfl
  case index =>
    exact fun _ => ⟨call_of_known (call_index_lhs hlhs hglobal hs hc),
      call_of_known (call_index_rhs hrhs hglobal hs hc)⟩

theorem computes_of_same (hsame : lhs.shape = output.shape ∧ rhs.shape = output.shape)
    (hs : s < output.spatial) (hc : c < output.channels) :
    Computes op (assembled op lhs rhs output [] (groupBody op)) lhs rhs output
      element s c (pick lhs output s c) (pick rhs output s c) := by
  have hchannels := hlhs.output_extents_lt.2
  have hposition : s < 2 ^ 32 := hs.trans hlhs.output_extents_lt.1
  have hcompute := @functions_compute op lhs rhs output [] (groupBody op) element List.not_mem_nil
  rw [(hlhs.picked hs hc).same hsame.1, (hrhs.picked hs hc).same hsame.2]
  constructor
  case lane =>
    refine ⟨_, Option.bind_eq_some_iff.mpr ⟨_, hcompute, meaningOf_groupBody op _ (known_load_lhs _)
      (known_load_rhs _) hposition (by omega)⟩, ?_⟩
    exact getElem?_lane (fun n => Scalar.real (pairFunction op (element "lhs" s n) (element "rhs" s n))) c
  case index => exact fun h => absurd hsame h

end Elements

end Shaders

/-- **The shader of a pairwise operation picks the operands of the host.** At every element of the output
there are an element of the left and one of the right operand, both inside, that the host reads there, and
the shader computes its element from those two, whatever the operands hold. -/
theorem shader_picks (op : Operator) {left right out : String} {a b o : Descriptor}
    {limits : Layout.Limits} {options : Layout.Options} {lhs rhs output : Layout}
    (hlhs : Layout.compute left a limits options = .ok lhs)
    (hrhs : Layout.compute right b limits options = .ok rhs)
    (houtput : Layout.compute out o limits options = .ok output)
    (hshape : a.shape.broadcast b.shape = .ok o.shape) (hsize : o.shape.prod < 2 ^ 32) :
    ∃ shader, Wgsl.shader op .pairwise [lhs, rhs] output = .ok shader ∧
      ∀ s < output.spatial, ∀ c < output.channels, ∃ p q, Picked lhs output s c p ∧
        Picked rhs output s c q ∧ ∀ element, Computes op shader lhs rhs output element s c p q := by
  obtain ⟨ha, hb⟩ := Shape.broadcast_eq_ok hshape
  have hleft := Broadcasts.of_compute hlhs houtput ha hsize
  have hright := Broadcasts.of_compute hrhs houtput hb hsize
  refine ⟨_, shader_pairwise hleft hright, fun s hs c hc => ⟨pick lhs output s c, pick rhs output s c,
    hleft.picked hs hc, hright.picked hs hc, fun element => ?_⟩⟩
  by_cases hsame : lhs.shape = output.shape ∧ rhs.shape = output.shape
  · rw [pairwise_of_same hsame]
    exact computes_of_same hleft hright hsame hs hc
  · rw [pairwise_of_not_same hsame]
    exact computes_of_not_same hleft hright hs hc

/-- Two rows of five channels. -/
def wide : Layout := ⟨[2, 1, 5], 10, 5, 8, 2, 2, 2, 1, 1, 2, 2, 1⟩

/-- A column of three elements. -/
def tall : Layout := ⟨[3, 1], 3, 1, 4, 3, 1, 2, 2, 1, 1, 1, 1⟩

/-- What both are broadcast to. -/
def grid : Layout := ⟨[2, 3, 5], 30, 5, 8, 6, 2, 3, 2, 1, 2, 2, 1⟩

/-- Row 1, column 1, channel 3 of the sum is made of row 1, channel 3 and of the middle of the column. -/
theorem grid_picks :
    Layout.compute "wide" ⟨[2, 1, 5], .float32⟩ ⟨64, 64, 64⟩ ⟨true, []⟩ = .ok wide ∧
    Layout.compute "tall" ⟨[3, 1], .float32⟩ ⟨64, 64, 64⟩ ⟨true, []⟩ = .ok tall ∧
    Layout.compute "grid" ⟨[2, 3, 5], .float32⟩ ⟨64, 64, 64⟩ ⟨true, []⟩ = .ok grid ∧
    Shape.broadcast [2, 1, 5] [3, 1] = .ok [2, 3, 5] ∧ List.prod [2, 3, 5] < 2 ^ 32 ∧
    ∃ program, shader .add .pairwise [wide, tall] grid = .ok program ∧
      ∀ element, Computes .add program wide tall grid element 4 3 (1, 3) (1, 0) := by
  have hwide : Layout.compute "wide" ⟨[2, 1, 5], .float32⟩ ⟨64, 64, 64⟩ ⟨true, []⟩ = .ok wide := by
    cbv
  have htall : Layout.compute "tall" ⟨[3, 1], .float32⟩ ⟨64, 64, 64⟩ ⟨true, []⟩ = .ok tall := by
    cbv
  have hgrid : Layout.compute "grid" ⟨[2, 3, 5], .float32⟩ ⟨64, 64, 64⟩ ⟨true, []⟩ = .ok grid := by
    cbv
  have hshape : Shape.broadcast [2, 1, 5] [3, 1] = .ok [2, 3, 5] := by rfl
  have hsize : List.prod [2, 3, 5] < 2 ^ 32 := by decide
  obtain ⟨program, hprogram, hpicks⟩ := shader_picks .add hwide htall hgrid hshape hsize
  obtain ⟨p, q, hp, hq, hcomputes⟩ := hpicks 4 (by decide) 3 (by decide)
  -- position and channel are told apart by their sum, as the channel is inside
  have hpair : p = (1, 3) := by
    have hchannel : p.2 < 5 := hp.channel_lt
    have hhost : p.1 * 5 + p.2 = 8 := hp.host
    exact Prod.ext (show p.1 = 1 by omega) (show p.2 = 3 by omega)
  have hpair' : q = (1, 0) := by
    have hchannel : q.2 < 1 := hq.channel_lt
    have hhost : q.1 * 1 + q.2 = 1 := hq.host
    exact Prod.ext (show q.1 = 1 by omega) (show q.2 = 0 by omega)
  rw [hpair, hpair'] at hcomputes
  exact ⟨hwide, htall, hgrid, hshape, hsize, program, hprogram, hcomputes⟩

end TexelFlow.Wgsl
