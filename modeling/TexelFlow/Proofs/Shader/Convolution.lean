import TexelFlow.Proofs.Shader.Products

/-!
# The body of a convolution

The body walks the kernel, tests for each of its elements where it meets the image, and adds up products
for a group of four channels at a time: over all channels of the image, or lane by lane where channels
are treated by themselves. Its load functions are left open here, as in `Loads`; what is known of its
numbers is that they fit. Level by level it is shown to add, to each lane, the products of the factors
that `Convolution.factors` lists.

## Main statements

* `lands_axisTest` — the test of an axis lets the kernel elements pass that meet the image.
* `adds_accumulateAll`, `adds_accumulateDepthwise` — what one kernel element adds.
* `exec_rows` — what all of them add.
* `meaningOf_convolution` — what the body gives, and the factors it takes in their order.

## §1 — what is fetched
## §2 — tests
## §3 — one kernel element
## §4 — all kernel elements
## §5 — the body
-/

namespace TexelFlow.Wgsl

open TexelFlow.Convolution (Geometry landing factorsAt factors)

/-! ## §1 — what is fetched -/

/-- The number that an expression stands for, if it stands for one. -/
def natOf (fns : Functions) (env : Env) (e : Expr) : Option Nat :=
  match e.eval fns env with
  | some (.scalar (.unsigned n)) => some n.toNat
  | _ => none

theorem natOf_eq {fns : Functions} {env : Env} {e : Expr} {n : Nat} (hn : n < 2 ^ 32)
    (h : e.eval fns env = some (.ofNat n)) : natOf fns env e = some n := by
  unfold natOf
  rw [h]
  exact congrArg some (Value.toNat_ofNat_of_lt hn)

/-- The factors of the product that is added to a lane, where a convolution increases its sum: the
position and channel of an element of the input, and of one of the kernel. Channels that are treated by
themselves have their turn lane by lane. -/
def fetched (depthwise : Bool) (fns : Functions) (k : Nat) (env : Env) : Option Factors :=
  if depthwise ∧ natOf fns env (v "lane") ≠ some k then none
  else do
    let pixel ← natOf fns env (v "pixel")
    let ci ← natOf fns env (v "ci")
    let row ← natOf fns env (v "tap" * v "IN_C" + v "ci")
    let channel ← natOf fns env (if depthwise then v "co" % v "MULTIPLIER" else v "g" * u 4 + u k)
    return ((pixel, ci), (row, channel))

theorem fetched_eq {depthwise : Bool} {fns : Functions} {k : Nat} {env : Env} {p : Factors}
    (hlane : depthwise → natOf fns env (v "lane") = some k)
    (hpixel : natOf fns env (v "pixel") = some p.1.1) (hci : natOf fns env (v "ci") = some p.1.2)
    (hrow : natOf fns env (v "tap" * v "IN_C" + v "ci") = some p.2.1)
    (hchannel : natOf fns env (if depthwise then v "co" % v "MULTIPLIER" else v "g" * u 4 + u k) =
      some p.2.2) : fetched depthwise fns k env = some p := by
  unfold fetched
  rw [if_neg fun hand => hand.2 (hlane hand.1), hpixel, hci, hrow, hchannel]
  rfl

/-! ## §2 — tests -/

section Tests

variable {fns : Functions} {env : Env} {name extent output stride kernel pad : String}
  {o st k p e : Nat}

/-- A place along an axis, as a signed number. -/
theorem eval_reach (ho : env.find? output = some (.ofNat o)) (hst : env.find? stride = some (.ofNat st))
    (hk : env.find? kernel = some (.ofNat k)) (hp : env.find? pad = some (.ofInt p)) :
    (reach output stride kernel pad).eval fns env = some (.ofInt ((o * st + k : Nat) - p)) := by
  unfold reach
  rw [eval_sub, eval_binary, eval_cast, eval_add, eval_binary, eval_mul, eval_binary, eval_v, eval_v,
    eval_v, eval_v, ho, hst, hk, hp]
  simp only [Option.bind_some, Value.binary_mul_ofNat, Value.binary_add_ofNat, Value.make_i32_ofNat,
    Value.binary_sub_ofInt]

/-- The condition under which a place is passed over. -/
def isOutside (name extent : String) : Expr :=
  either (below (v name) (.signed 0)) (atLeast (v name) (cast .i32 (v extent)))

/-- The statements that find a place along an axis and pass over it where it is outside. -/
def axisTest (name extent output stride kernel pad : String) : List Stmt :=
  [.bind name (reach output stride kernel pad), skipOutside name extent]

/-- A place is passed over where the kernel element meets no place of the image. -/
theorem eval_isOutside (hname : env.find? name = some (.ofInt ((o * st + k : Nat) - p)))
    (hextent : env.find? extent = some (.ofNat e)) (hreach : o * st + k < 2 ^ 31) (hp : p < 2 ^ 31)
    (he : e < 2 ^ 31) : (isOutside name extent).eval fns env =
      some (.scalar (.truth (landing o st p k e = none))) := by
  unfold isOutside either below atLeast
  rw [eval_binary, eval_binary, eval_binary, eval_v, hname, eval_cast, eval_v, hextent, eval_signed]
  simp only [Option.bind_some, Value.make_i32_ofNat]
  have hlow : Value.binary .lt (.ofInt ((o * st + k : Nat) - p)) (.scalar (.signed (.ofInt (0 : Nat)))) =
      some (.scalar (.truth (((o * st + k : Nat) : Int) - p < (0 : Nat)))) :=
    Value.binary_lt_ofInt (by omega) (by omega) (by omega) (by omega)
  rw [hlow, Value.binary_ge_ofInt (by omega) (by omega) (by omega) (by omega), Option.bind_some,
    Option.bind_some]
  have hiff : ((o * st + k : Nat) : Int) - p < (0 : Nat) ∨ (e : Int) ≤ (o * st + k : Nat) - p ↔
      landing o st p k e = none := Convolution.landing_eq_none_iff.symm
  show some (Value.scalar (.truth (_ || _))) = _
  rw [← Bool.decide_or, decide_eq_decide.mpr hiff]

/-- A test goes on where a kernel element is among those that meet the image, with the place that it
meets, and passes on to the next one elsewhere. -/
structure Lands (fns : Functions) (env : Env) (test : List Stmt) (name : String)
    (taps : List (Nat × Nat)) (k : Nat) : Prop where
  /-- It goes on with the place. -/
  goes : ∀ place, (k, place) ∈ taps →
    Stmt.execAll fns test env = some ((name, .ofInt place) :: env, .next)
  /-- It passes on. -/
  skips : (∀ place, (k, place) ∉ taps) →
    ∃ value, Stmt.execAll fns test env = some ((name, value) :: env, .skip)

/-- **The test of an axis** goes on at the places of the host, and nowhere else. -/
theorem lands_axisTest (hne : name ≠ extent) (ho : env.find? output = some (.ofNat o))
    (hst : env.find? stride = some (.ofNat st)) (hk : env.find? kernel = some (.ofNat k))
    (hp : env.find? pad = some (.ofInt p)) (he : env.find? extent = some (.ofNat e)) {size : Nat}
    (hin : k < size) (hreach : o * st + k < 2 ^ 31) (hpad : p < 2 ^ 31) (hextent : e < 2 ^ 31) :
    Lands fns env (axisTest name extent output stride kernel pad) name
      (Convolution.taps o st p size e) k := by
  have hbind : (Stmt.bind name (reach output stride kernel pad)).exec fns env =
      some ((name, .ofInt ((o * st + k : Nat) - p)) :: env, .next) := by
    rw [Stmt.exec, eval_reach ho hst hk hp]
    rfl
  have hcondition : (isOutside name extent).eval fns ((name, .ofInt ((o * st + k : Nat) - p)) :: env) =
      some (.scalar (.truth (landing o st p k e = none))) :=
    eval_isOutside (if_pos rfl) ((if_neg hne).trans he) hreach hpad hextent
  constructor
  case goes =>
    intro place hmem
    have hland := (Convolution.mem_taps_iff.mp hmem).2
    have hplace := (Convolution.landing_eq_some_iff.mp hland).1
    rw [decide_eq_false (by simp [hland])] at hcondition
    rw [show ((o * st + k : Nat) : Int) - p = (place : Nat) by omega] at hbind hcondition
    refine (execAll_cons_of_next fns hbind _).trans ?_
    exact (execAll_cons_of_next fns (exec_onlyIf_of_false hcondition _) _).trans (execAll_nil fns _)
  case skips =>
    intro hmem
    have hland : landing o st p k e = none := by
      cases hland : landing o st p k e with
      | none => rfl
      | some place => exact absurd (Convolution.mem_taps_iff.mpr ⟨hin, hland⟩) (hmem place)
    rw [decide_eq_true hland] at hcondition
    have hskip := exec_onlyIf_skip_of_true hcondition
    refine ⟨.ofInt ((o * st + k : Nat) - p), (execAll_cons_of_next fns hbind _).trans ?_⟩
    rw [Stmt.execAll]
    exact congrArg (Option.bind · _) hskip

end Tests

section Axis

variable {fns : Functions} {fetched : Nat → Env → Option Factors} {x w : Nat → Nat → Binary32}
  {outer inner : Env} {rest : List Stmt} {added : Nat → Nat → List Factors}
  {name extent output stride kernel pad : String} {o st k p e : Nat}

/-- **Along an axis**, statements behind the test add what they add at the place that the kernel element
meets, and nothing if it meets none. -/
theorem Adds.axis (hne : name ≠ extent)
    (ho : ∀ f, (summing inner outer f).find? output = some (.ofNat o))
    (hst : ∀ f, (summing inner outer f).find? stride = some (.ofNat st))
    (hk : ∀ f, (summing inner outer f).find? kernel = some (.ofNat k))
    (hp : ∀ f, (summing inner outer f).find? pad = some (.ofInt p))
    (he : ∀ f, (summing inner outer f).find? extent = some (.ofNat e))
    (hreach : o * st + k < 2 ^ 31) (hpad : p < 2 ^ 31) (hextent : e < 2 ^ 31)
    (h : ∀ place, landing o st p k e = some place →
      Adds fns fetched x w outer ((name, .ofInt place) :: inner) rest (added place)) :
    Adds fns fetched x w outer inner (axisTest name extent output stride kernel pad ++ rest)
      fun lane => (landing o st p k e).toList.flatMap fun place => added place lane := by
  have hcondition : ∀ f, (isOutside name extent).eval fns
      (summing ((name, .ofInt ((o * st + k : Nat) - p)) :: inner) outer f) =
      some (.scalar (.truth (landing o st p k e = none))) := fun f =>
    eval_isOutside (if_pos rfl) ((if_neg hne).trans (he f)) hreach hpad hextent
  refine Adds.bind (fun f => eval_reach (ho f) (hst f) (hk f) (hp f)) ?_
  cases hland : landing o st p k e with
  | none => exact Adds.skip fun f => (hcondition f).trans (by rw [decide_eq_true hland])
  | some place =>
    -- the place is not negative, so it is a number
    have heq : ((o * st + k : Nat) : Int) - p = (place : Nat) := by
      have hplace := (Convolution.landing_eq_some_iff.mp hland).1
      omega
    rw [heq] at hcondition ⊢
    simp only [Option.toList_some, List.flatMap_singleton]
    exact Adds.pass (fun f => (hcondition f).trans (by rw [decide_eq_false (by simp [hland])]))
      (h place hland)

end Axis

/-! ## §3 — one kernel element -/

/-- The load functions of a convolution give the elements of its tensors: groups and channels of the
input, and of the kernel the group that is computed, or channels. -/
structure Loads (fns : Functions) (g : Geometry) (depthwise : Bool) (inputGroups group : Nat)
    (x w : Nat → Nat → Binary32) : Prop where
  input : ∀ s < g.inH * g.inW, ∀ gi < inputGroups, fns.call "load_input" [.ofNat s, .ofNat gi] =
    some (.lanes fun k => x s (gi * 4 + k))
  inputChannel : ∀ s < g.inH * g.inW, ∀ c < g.inC, fns.call "load_input_channel" [.ofNat s, .ofNat c] =
    some (.scalar (.real (x s c)))
  kernel : depthwise = false → ∀ s < g.kernelH * g.kernelW * g.inC,
    fns.call "load_kernel" [.ofNat s, .ofNat group] = some (.lanes fun k => w s (group * 4 + k))
  kernelChannel : depthwise = true → ∀ s < g.kernelH * g.kernelW * g.inC, ∀ c < g.multiplier,
    fns.call "load_kernel_channel" [.ofNat s, .ofNat c] = some (.scalar (.real (w s c)))

/-- What is known where a kernel element has met the image. -/
structure Met (g : Geometry) (inputGroups group pixel tap : Nat) (outer inner : Env) : Prop where
  acc : "acc" ∉ inner.map Prod.fst
  pixel : ∀ f, (summing inner outer f).find? "pixel" = some (.ofNat pixel)
  tap : ∀ f, (summing inner outer f).find? "tap" = some (.ofNat tap)
  group : ∀ f, (summing inner outer f).find? "g" = some (.ofNat group)
  inC : ∀ f, (summing inner outer f).find? "IN_C" = some (.ofNat g.inC)
  multiplier : ∀ f, (summing inner outer f).find? "MULTIPLIER" = some (.ofNat g.multiplier)
  outC : ∀ f, (summing inner outer f).find? "OUT_CHANNELS" = some (.ofNat g.outC)
  inputGroups : ∀ f, (summing inner outer f).find? "INPUT_GROUPS" = some (.ofNat inputGroups)

/-- Numbers of a convolution that fit words. -/
structure Fitting (g : Geometry) (inputGroups group : Nat) : Prop where
  pixels : g.inH * g.inW ≤ 2 ^ 31
  rows : g.kernelH * g.kernelW * g.inC ≤ 2 ^ 31
  groups : g.inC ≤ inputGroups * 4
  inputGroups : inputGroups ≤ 2 ^ 30
  outC : g.outC ≤ 2 ^ 31
  group : group * 4 < g.outC

section Element

variable {fns : Functions} {g : Geometry} {x w : Nat → Nat → Binary32}
  {outer inner : Env} {inputGroups group pixel tap : Nat}

/-- Numbers that are restricted to those below a limit. -/
theorem flatMap_range_if {α : Type} {m n : Nat} (h : n ≤ m) (f : Nat → α) :
    ((List.range m).flatMap fun i => if i < n then [f i] else []) = (List.range n).map f := by
  obtain ⟨extra, rfl⟩ := Nat.exists_eq_add_of_le h
  have hlow : ((List.range n).flatMap fun i => if i < n then [f i] else []) = (List.range n).map f := by
    rw [List.map_eq_flatMap]
    exact List.flatMap_congr fun i hi => if_pos (List.mem_range.mp hi)
  have hhigh : (((List.range extra).map (n + ·)).flatMap fun i => if i < n then [f i] else []) = [] := by
    rw [List.flatMap_eq_nil_iff]
    intro i hi
    obtain ⟨j, -, rfl⟩ := List.mem_map.mp hi
    exact if_neg (by omega)
  rw [List.range_add, List.flatMap_append, hlow, hhigh, List.append_nil]

/-- The product of one channel of the input. -/
theorem adds_channel (hm : Met g inputGroups group pixel tap outer inner)
    (hl : Loads fns g false inputGroups group x w) (hf : Fitting g inputGroups group)
    (hpixel : pixel < g.inH * g.inW) (htap : tap < g.kernelH * g.kernelW) {gi lane : Nat} (hlane : lane < 4)
    (hci : gi * 4 + lane < g.inC) :
    Adds fns (fetched false fns) x w outer
      (("ci", .ofNat (gi * 4 + lane)) :: ("lane", .ofNat lane) ::
        ("x", .lanes fun k => x pixel (gi * 4 + k)) :: ("gi", .ofNat gi) :: inner)
      [.increase (v "acc")
        (.item (v "x") (v "lane") * .call "load_kernel" [v "tap" * v "IN_C" + v "ci", v "g"])]
      fun k => [((pixel, gi * 4 + lane), (tap * g.inC + (gi * 4 + lane), group * 4 + k))] := by
  have hrow : tap * g.inC + (gi * 4 + lane) < g.kernelH * g.kernelW * g.inC := Size.mul_add_lt htap hci
  have hrows := hf.rows
  have hpixels := hf.pixels
  have hgroup := hf.group
  have houtC := hf.outC
  refine Adds.increase ?_ (fun f => ?_) fun f k hk => ?_
  · simp [hm.acc]
  · have hitem : (Expr.item (v "x") (v "lane")).eval fns (summing
        (("ci", .ofNat (gi * 4 + lane)) :: ("lane", .ofNat lane) ::
          ("x", .lanes fun k => x pixel (gi * 4 + k)) :: ("gi", .ofNat gi) :: inner) outer f) =
        some (.scalar (.real (x pixel (gi * 4 + lane)))) := by
      rw [Expr.eval, eval_v, eval_v]
      exact Value.item?_lanes hlane
    rw [eval_mul, eval_binary, hitem]
    simp [hm.tap, hm.inC, hm.group, hl.kernel rfl _ hrow, Value.binary_mul_lanes]
  · refine fetched_eq (by simp) (natOf_eq ?_ ?_) (natOf_eq ?_ ?_) (natOf_eq ?_ ?_) (natOf_eq ?_ ?_)
    · exact Nat.lt_of_lt_of_le hpixel (hf.pixels.trans (by decide))
    · simp [hm.pixel]
    · dsimp only
      omega
    · simp
    · exact Nat.lt_of_lt_of_le hrow (hrows.trans (by decide))
    · simp [hm.tap, hm.inC]
    · dsimp only
      omega
    · simp [hm.group]

/-- **All channels of the input** at a kernel element. -/
theorem adds_accumulateAll (hm : Met g inputGroups group pixel tap outer inner)
    (hl : Loads fns g false inputGroups group x w) (hf : Fitting g inputGroups group)
    (hpixel : pixel < g.inH * g.inW) (htap : tap < g.kernelH * g.kernelW) :
    Adds fns (fetched false fns) x w outer inner accumulateAll fun k =>
      (List.range g.inC).map fun ci => ((pixel, ci), (tap * g.inC + ci, group * 4 + k)) := by
  have hrows := hf.rows
  have hgroups := hf.inputGroups
  have hinC : g.inC < 2 ^ 32 := by
    have := Nat.le_mul_of_pos_left g.inC (Nat.zero_lt_of_lt htap)
    omega
  have hloops : Adds fns (fetched false fns) x w outer inner accumulateAll fun k =>
      (List.range inputGroups).flatMap fun gi => (List.range 4).flatMap fun lane =>
        if gi * 4 + lane < g.inC then
          [((pixel, gi * 4 + lane), (tap * g.inC + (gi * 4 + lane), group * 4 + k))] else [] := by
    refine Adds.countTo (by omega) (fun f => by rw [eval_v, hm.inputGroups]) fun gi hgi => ?_
    have hx : ∀ f, (Expr.call "load_input" [v "pixel", v "gi"]).eval fns
        (summing (("gi", .ofNat gi) :: inner) outer f) =
        some (.lanes fun k => x pixel (gi * 4 + k)) := by
      intro f
      simp [hm.pixel, hl.input pixel hpixel gi hgi]
    refine Adds.bind hx (Adds.countTo (by decide) (fun f => by rw [eval_u]) fun lane hlane => ?_)
    have hci : ∀ f, (v "gi" * u 4 + v "lane").eval fns (summing (("lane", .ofNat lane) ::
        ("x", .lanes fun k => x pixel (gi * 4 + k)) :: ("gi", .ofNat gi) :: inner) outer f) =
        some (.ofNat (gi * 4 + lane)) := by
      intro f
      simp
    refine Adds.bind hci (Adds.onlyIf (fun f => ?_) fun hin =>
      adds_channel hm hl hf hpixel htap hlane hin)
    simp [below, hm.inC, Value.binary_lt_ofNat (show gi * 4 + lane < 2 ^ 32 by omega) hinC]
  -- the lanes of all groups are the channels, and some behind the last one
  have hflat : ∀ k, ((List.range inputGroups).flatMap fun gi => (List.range 4).flatMap fun lane =>
      if gi * 4 + lane < g.inC then
        [((pixel, gi * 4 + lane), (tap * g.inC + (gi * 4 + lane), group * 4 + k))] else []) =
      (List.range g.inC).map fun ci => ((pixel, ci), (tap * g.inC + ci, group * 4 + k)) := by
    intro k
    rw [Size.flatMap_range_mul inputGroups 4 fun ci =>
      if ci < g.inC then [((pixel, ci), (tap * g.inC + ci, group * 4 + k))] else [],
      flatMap_range_if hf.groups]
  simp only [hflat] at hloops
  exact hloops

/-- The product of the channel of a lane, where channels are treated by themselves. -/
theorem adds_lane (hm : Met g inputGroups group pixel tap outer inner)
    (hl : Loads fns g true inputGroups group x w) (hf : Fitting g inputGroups group)
    (houtC : g.outC = g.inC * g.multiplier) (hpixel : pixel < g.inH * g.inW)
    (htap : tap < g.kernelH * g.kernelW) {lane co : Nat} (hlane : lane < 4) (hco : co < g.outC) :
    Adds fns (fetched true fns) x w outer (("co", .ofNat co) :: ("lane", .ofNat lane) :: inner)
      [.bind "ci" (v "co" / v "MULTIPLIER"),
        .increase (.item (v "acc") (v "lane"))
          (.broken .mul (.call "load_input_channel" [v "pixel", v "ci"])
            (.call "load_kernel_channel" [v "tap" * v "IN_C" + v "ci", v "co" % v "MULTIPLIER"]))]
      fun k => if k = lane then [((pixel, co / g.multiplier),
        (tap * g.inC + co / g.multiplier, co % g.multiplier))] else [] := by
  have hbound := hf.outC
  have hmultiplier : 0 < g.multiplier := by
    rw [houtC] at hco
    exact Nat.pos_of_mul_pos_left (Nat.zero_lt_of_lt hco)
  have hci : co / g.multiplier < g.inC := by
    rw [houtC, Nat.mul_comm] at hco
    exact Nat.div_lt_of_lt_mul hco
  have hle : g.multiplier ≤ g.outC := by
    rw [houtC]
    exact Nat.le_mul_of_pos_left _ (Nat.zero_lt_of_lt hci)
  have hchannel : co % g.multiplier < g.multiplier := Nat.mod_lt _ hmultiplier
  have hrow : tap * g.inC + co / g.multiplier < g.kernelH * g.kernelW * g.inC := Size.mul_add_lt htap hci
  have hquotient := Value.binary_div_ofNat (show co < 2 ^ 32 by omega) hmultiplier (by omega)
  have hremainder := Value.binary_rem_ofNat (show co < 2 ^ 32 by omega) hmultiplier (by omega)
  have hbind : ∀ f, (v "co" / v "MULTIPLIER").eval fns
      (summing (("co", .ofNat co) :: ("lane", .ofNat lane) :: inner) outer f) =
      some (.ofNat (co / g.multiplier)) := by
    intro f
    simp [hm.multiplier, hquotient]
  refine Adds.bind hbind (Adds.increaseLane hlane ?_ (fun f => ?_) (fun f => ?_) fun f k hk => ?_)
  · simp [hm.acc]
  · simp
  · rw [Expr.eval]
    simp [hm.pixel, hm.tap, hm.inC, hm.multiplier, hremainder, hl.inputChannel pixel hpixel _ hci,
      hl.kernelChannel rfl _ hrow _ hchannel]
    rfl
  · have hturn : natOf fns (summing (("ci", .ofNat (co / g.multiplier)) :: ("co", .ofNat co) ::
        ("lane", .ofNat lane) :: inner) outer f) (v "lane") = some lane :=
      natOf_eq (by omega) (by simp)
    by_cases heq : k = lane
    · subst heq
      rw [if_pos rfl]
      refine fetched_eq (fun _ => hturn) (natOf_eq ?_ ?_) (natOf_eq ?_ ?_) (natOf_eq ?_ ?_) (natOf_eq ?_ ?_)
      · exact Nat.lt_of_lt_of_le hpixel (hf.pixels.trans (by decide))
      · simp [hm.pixel]
      · exact Nat.lt_of_le_of_lt (Nat.div_le_self _ _) (by omega)
      · simp
      · exact Nat.lt_of_lt_of_le hrow (hf.rows.trans (by decide))
      · simp [hm.tap, hm.inC]
      · exact Nat.lt_of_le_of_lt (Nat.mod_le _ _) (by omega)
      · simp [hm.multiplier, hremainder]
    · rw [if_neg heq]
      exact if_pos ⟨rfl, by rw [hturn]; simpa using Ne.symm heq⟩

/-- **The channel of each lane**, where channels are treated by themselves. -/
theorem adds_accumulateDepthwise (hm : Met g inputGroups group pixel tap outer inner)
    (hl : Loads fns g true inputGroups group x w) (hf : Fitting g inputGroups group)
    (houtC : g.outC = g.inC * g.multiplier) (hpixel : pixel < g.inH * g.inW)
    (htap : tap < g.kernelH * g.kernelW) :
    Adds fns (fetched true fns) x w outer inner accumulateDepthwise fun k =>
      if group * 4 + k < g.outC then [((pixel, (group * 4 + k) / g.multiplier),
        (tap * g.inC + (group * 4 + k) / g.multiplier, (group * 4 + k) % g.multiplier))] else [] := by
  have hgroup := hf.group
  have hbound := hf.outC
  have hloop : Adds fns (fetched true fns) x w outer inner accumulateDepthwise fun k =>
      (List.range 4).flatMap fun lane => if group * 4 + lane < g.outC then
        if k = lane then [((pixel, (group * 4 + lane) / g.multiplier),
          (tap * g.inC + (group * 4 + lane) / g.multiplier, (group * 4 + lane) % g.multiplier))] else []
        else [] := by
    refine Adds.countTo (by decide) (fun f => by rw [eval_u]) fun lane hlane => ?_
    have hco : ∀ f, (v "g" * u 4 + v "lane").eval fns
        (summing (("lane", .ofNat lane) :: inner) outer f) = some (.ofNat (group * 4 + lane)) := by
      intro f
      simp [hm.group]
    refine Adds.bind hco (Adds.onlyIf (fun f => ?_) fun hin =>
      adds_lane hm hl hf houtC hpixel htap hlane hin)
    simp [below, hm.outC, Value.binary_lt_ofNat (show group * 4 + lane < 2 ^ 32 by omega)
      (show g.outC < 2 ^ 32 by omega)]
  refine hloop.congr fun k hk => ?_
  -- a lane has its turn once
  rw [show List.range 4 = [0, 1, 2, 3] from rfl]
  obtain rfl | rfl | rfl | rfl : k = 0 ∨ k = 1 ∨ k = 2 ∨ k = 3 := by omega
  all_goals simp

end Element

/-! ## §4 — all kernel elements -/

/-- The constants of a convolution are known. -/
structure Declared (globals : Env) (g : Geometry) (inputGroups : Nat) : Prop where
  inH : globals.find? "IN_H" = some (.ofNat g.inH)
  inW : globals.find? "IN_W" = some (.ofNat g.inW)
  inC : globals.find? "IN_C" = some (.ofNat g.inC)
  kernelH : globals.find? "KERNEL_H" = some (.ofNat g.kernelH)
  kernelW : globals.find? "KERNEL_W" = some (.ofNat g.kernelW)
  outX : globals.find? "OUT_X" = some (.ofNat g.outW)
  strideH : globals.find? "STRIDE_H" = some (.ofNat g.strideH)
  strideW : globals.find? "STRIDE_W" = some (.ofNat g.strideW)
  padTop : globals.find? "PAD_TOP" = some (.ofInt g.padTop)
  padLeft : globals.find? "PAD_LEFT" = some (.ofInt g.padLeft)
  multiplier : globals.find? "MULTIPLIER" = some (.ofNat g.multiplier)
  outC : globals.find? "OUT_CHANNELS" = some (.ofNat g.outC)
  inputGroups : globals.find? "INPUT_GROUPS" = some (.ofNat inputGroups)

/-- The coordinates of the kernel around one element of the result fit signed words. -/
structure Around (g : Geometry) (oy ox : Nat) : Prop where
  rows : oy * g.strideH + g.kernelH ≤ 2 ^ 31
  columns : ox * g.strideW + g.kernelW ≤ 2 ^ 31
  inH : g.inH < 2 ^ 31
  inW : g.inW < 2 ^ 31
  padTop : g.padTop < 2 ^ 31
  padLeft : g.padLeft < 2 ^ 31

/-- What is around the sum of a convolution. -/
def aroundSum (globals : Env) (group s oy ox : Nat) : Env :=
  ("ox", .ofNat ox) :: ("oy", .ofNat oy) :: ("s", .ofNat s) :: ("g", .ofNat group) :: globals

/-- The factors that a lane gets at a kernel element. Channels that are treated by themselves get none
behind the last one. -/
def laneFactors (g : Geometry) (depthwise : Bool) (co ky iy kx ix : Nat) : List Factors :=
  if depthwise ∧ g.outC ≤ co then [] else factorsAt g depthwise co ky iy kx ix

/-- The statements that add up what one kernel element contributes. -/
def accumulation (depthwise : Bool) : List Stmt :=
  if depthwise then accumulateDepthwise else accumulateAll

/-- What is done for one kernel element of a row. -/
def columnBody (depthwise : Bool) : List Stmt :=
  axisTest "ix" "IN_W" "ox" "STRIDE_W" "kx" "PAD_LEFT" ++
    .bind "pixel" (cast .u32 (v "iy") * v "IN_W" + cast .u32 (v "ix")) ::
    .bind "tap" (v "ky" * v "KERNEL_W" + v "kx") :: accumulation depthwise

/-- What is done for one row of the kernel. -/
def rowBody (depthwise : Bool) : List Stmt :=
  axisTest "iy" "IN_H" "oy" "STRIDE_H" "ky" "PAD_TOP" ++
    [.countTo "kx" (v "KERNEL_W") (columnBody depthwise)]

section Kernel

variable {fns : Functions} {globals : Env} {g : Geometry} {depthwise : Bool} {x w : Nat → Nat → Binary32}
  {inputGroups group s oy ox : Nat}

/-- **What a kernel element contributes** where it meets the image. -/
theorem adds_accumulation (hc : Declared globals g inputGroups)
    (hl : Loads fns g depthwise inputGroups group x w) (hf : Fitting g inputGroups group)
    (houtC : depthwise → g.outC = g.inC * g.multiplier) {ky iy kx ix : Nat} (hky : ky < g.kernelH)
    (hiy : iy < g.inH) (hkx : kx < g.kernelW) (hix : ix < g.inW) :
    Adds fns (fetched depthwise fns) x w (aroundSum globals group s oy ox)
      [("tap", .ofNat (ky * g.kernelW + kx)), ("pixel", .ofNat (iy * g.inW + ix)), ("ix", .ofInt ix),
        ("kx", .ofNat kx), ("iy", .ofInt iy), ("ky", .ofNat ky)]
      (accumulation depthwise) fun k => laneFactors g depthwise (group * 4 + k) ky iy kx ix := by
  have hpixel : iy * g.inW + ix < g.inH * g.inW := Size.mul_add_lt hiy hix
  have htap : ky * g.kernelW + kx < g.kernelH * g.kernelW := Size.mul_add_lt hky hkx
  have hm : Met g inputGroups group (iy * g.inW + ix) (ky * g.kernelW + kx)
      (aroundSum globals group s oy ox)
      [("tap", .ofNat (ky * g.kernelW + kx)), ("pixel", .ofNat (iy * g.inW + ix)), ("ix", .ofInt ix),
        ("kx", .ofNat kx), ("iy", .ofInt iy), ("ky", .ofNat ky)] := by
    constructor
    case acc => simp
    all_goals
      intro f
      simp [aroundSum, Env.find?, hc.inC, hc.multiplier, hc.outC, hc.inputGroups]
  unfold accumulation laneFactors factorsAt
  cases depthwise with
  | true =>
    simp only [if_true, true_and]
    refine (adds_accumulateDepthwise hm hl hf (houtC rfl) hpixel htap).congr fun k _ => ?_
    by_cases hco : group * 4 + k < g.outC
    · rw [if_pos hco, if_neg (by omega)]
    · rw [if_neg hco, if_pos (by omega)]
  | false =>
    simp only [Bool.false_eq_true, if_false, false_and]
    exact adds_accumulateAll hm hl hf hpixel htap

/-- **What a row of the kernel contributes** where it meets the image. -/
theorem adds_columns (hc : Declared globals g inputGroups)
    (hl : Loads fns g depthwise inputGroups group x w) (hf : Fitting g inputGroups group)
    (houtC : depthwise → g.outC = g.inC * g.multiplier) (ha : Around g oy ox) {ky iy : Nat}
    (hky : ky < g.kernelH) (hiy : iy < g.inH) :
    Adds fns (fetched depthwise fns) x w (aroundSum globals group s oy ox)
      [("iy", .ofInt iy), ("ky", .ofNat ky)] [.countTo "kx" (v "KERNEL_W") (columnBody depthwise)]
      fun k => (List.range g.kernelW).flatMap fun kx =>
        (landing ox g.strideW g.padLeft kx g.inW).toList.flatMap fun ix =>
          laneFactors g depthwise (group * 4 + k) ky iy kx ix := by
  have hcolumns := ha.columns
  refine Adds.countTo (by omega) (fun f => by simp [aroundSum, Env.find?, hc.kernelW]) fun kx hkx => ?_
  refine Adds.axis (by decide) (fun f => ?_) (fun f => ?_) (fun f => ?_) (fun f => ?_) (fun f => ?_)
    (by omega) ha.padLeft ha.inW fun ix hix => ?_
  · simp [aroundSum, Env.find?]
  · simp [aroundSum, Env.find?, hc.strideW]
  · simp
  · simp [aroundSum, Env.find?, hc.padLeft]
  · simp [aroundSum, Env.find?, hc.inW]
  · have hin := (Convolution.landing_eq_some_iff.mp hix).2
    have hpixel : ∀ f, (cast .u32 (v "iy") * v "IN_W" + cast .u32 (v "ix")).eval fns
        (summing [("ix", .ofInt ix), ("kx", .ofNat kx), ("iy", .ofInt iy), ("ky", .ofNat ky)]
          (aroundSum globals group s oy ox) f) = some (.ofNat (iy * g.inW + ix)) := by
      intro f
      simp [eval_cast, aroundSum, Env.find?, hc.inW, Value.make_u32_ofInt]
    have htap : ∀ f, (v "ky" * v "KERNEL_W" + v "kx").eval fns
        (summing [("pixel", .ofNat (iy * g.inW + ix)), ("ix", .ofInt ix), ("kx", .ofNat kx),
          ("iy", .ofInt iy), ("ky", .ofNat ky)] (aroundSum globals group s oy ox) f) =
        some (.ofNat (ky * g.kernelW + kx)) := by
      intro f
      simp [aroundSum, Env.find?, hc.kernelW]
    exact Adds.bind hpixel (Adds.bind htap (adds_accumulation hc hl hf houtC hky hiy hkx hin))

/-- The factors that a lane gets at all kernel elements. -/
def laneProducts (g : Geometry) (depthwise : Bool) (oy ox co : Nat) : List Factors :=
  (List.range g.kernelH).flatMap fun ky =>
    (landing oy g.strideH g.padTop ky g.inH).toList.flatMap fun iy =>
      (List.range g.kernelW).flatMap fun kx =>
        (landing ox g.strideW g.padLeft kx g.inW).toList.flatMap fun ix =>
          laneFactors g depthwise co ky iy kx ix

/-- A lane that has a channel gets the factors of the host. -/
theorem laneProducts_eq {co : Nat} (hco : co < g.outC) :
    laneProducts g depthwise oy ox co = factors g depthwise oy ox co := by
  have hlane : ∀ ky iy kx ix,
      laneFactors g depthwise co ky iy kx ix = factorsAt g depthwise co ky iy kx ix :=
    fun ky iy kx ix => if_neg fun hand => Nat.not_le.mpr hco hand.2
  unfold laneProducts factors
  simp only [hlane]

/-- **What the kernel contributes** to a group of channels. -/
theorem exec_rows (hc : Declared globals g inputGroups)
    (hl : Loads fns g depthwise inputGroups group x w) (hf : Fitting g inputGroups group)
    (houtC : depthwise → g.outC = g.inC * g.multiplier) (ha : Around g oy ox) (f : Nat → Binary32) :
    (Stmt.countTo "ky" (v "KERNEL_H") (rowBody depthwise)).exec fns
        (summing [] (aroundSum globals group s oy ox) f) =
        some (summing [] (aroundSum globals group s oy ox)
          (addAll x w f fun k => laneProducts g depthwise oy ox (group * 4 + k)), .next) ∧
      ∀ k < 4, ((Stmt.countTo "ky" (v "KERNEL_H") (rowBody depthwise)).increases fns
        (summing [] (aroundSum globals group s oy ox) f)).filterMap (fetched depthwise fns k) =
        laneProducts g depthwise oy ox (group * 4 + k) := by
  have hrows := ha.rows
  refine Adds.exec_countTo (by omega) (fun f => by simp [aroundSum, Env.find?, hc.kernelH])
    (fun ky hky => ?_) f
  refine Adds.axis (by decide) (fun f => ?_) (fun f => ?_) (fun f => ?_) (fun f => ?_) (fun f => ?_)
    (by omega) ha.padTop ha.inH fun iy hiy => ?_
  · simp [aroundSum, Env.find?]
  · simp [aroundSum, Env.find?, hc.strideH]
  · simp
  · simp [aroundSum, Env.find?, hc.padTop]
  · simp [aroundSum, Env.find?, hc.inH]
  · exact adds_columns hc hl hf houtC ha hky (Convolution.landing_eq_some_iff.mp hiy).2

end Kernel

/-! ## §5 — the body -/

/-- What a device makes of an activation. It has no rule for what is not a number. -/
def onDevice : Activation → Binary32 → Binary32
  | .linear, x => x
  | .relu, x => x.max .zero
  | .relu6, x => (x.max .zero).min .six

/-- What the sums of a convolution start with: the bias, or nothing. -/
def StartsWith (fns : Functions) (hasBias : Bool) (group : Nat) (first : Nat → Binary32) : Prop :=
  if hasBias then fns.call "load_bias" [.ofNat 0, .ofNat group] = some (.lanes first)
  else first = fun _ => .zero

section Body

variable {fns : Functions} {globals : Env} {g : Geometry} {depthwise hasBias : Bool}
  {x w : Nat → Nat → Binary32} {inputGroups group oy ox : Nat} {first : Nat → Binary32}

theorem eval_constant (env : Env) (y : Binary32) :
    (Expr.make vec4 [.real y]).eval fns env = some (.lanes fun _ => y) := by
  rw [eval_make, evalAll_cons, evalAll_nil, Expr.eval]
  rfl

theorem eval_activate {a : Activation} (hmax : fns "max" = builtin "max")
    (hclamp : fns "clamp" = builtin "clamp") {env : Env} {e : Expr} {f : Nat → Binary32}
    (he : e.eval fns env = some (.lanes f)) :
    (activate a e).eval fns env = some (.lanes fun k => onDevice a (f k)) := by
  cases a with
  | linear => exact he
  | relu =>
    unfold activate zero4
    dsimp only
    rw [eval_call, evalAll_cons, evalAll_cons, evalAll_nil, he, eval_constant]
    unfold Functions.call
    rw [hmax]
    rfl
  | relu6 =>
    unfold activate zero4
    dsimp only
    rw [eval_call, evalAll_cons, evalAll_cons, evalAll_cons, evalAll_nil, he, eval_constant, eval_constant]
    unfold Functions.call
    rw [hclamp]
    rfl

theorem exec_start (h : StartsWith fns hasBias group first) {env : Env}
    (hgroup : env.find? "g" = some (.ofNat group)) :
    (Stmt.var "acc" (if hasBias then .call "load_bias" [u 0, v "g"] else zero4)).exec fns env =
      some (summing [] env first, .next) := by
  unfold StartsWith at h
  cases hasBias with
  | true =>
    rw [if_pos rfl] at h
    simp [Stmt.exec, hgroup, h, summing]
  | false =>
    rw [if_neg Bool.false_ne_true] at h
    rw [if_neg Bool.false_ne_true, h, Stmt.exec]
    unfold zero4
    rw [eval_constant, Option.map_some]
    rfl

/-- What the body of a convolution rests on, for a group of channels at one place. -/
structure Ready (fns : Functions) (globals : Env) (g : Geometry) (depthwise hasBias : Bool)
    (inputGroups group oy ox : Nat) (x w : Nat → Nat → Binary32) (first : Nat → Binary32) : Prop where
  /-- Constants are known, -/
  declared : Declared globals g inputGroups
  /-- elements are loaded, -/
  loads : Loads fns g depthwise inputGroups group x w
  /-- numbers fit words, -/
  fitting : Fitting g inputGroups group
  /-- also those of the places around; -/
  around : Around g oy ox
  /-- channels that are treated by themselves have equal shares in the result; -/
  outC : depthwise → g.outC = g.inC * g.multiplier
  /-- activations are computed, -/
  max : fns "max" = builtin "max"
  /-- both of them, -/
  clamp : fns "clamp" = builtin "clamp"
  /-- and sums start with something. -/
  start : StartsWith fns hasBias group first

/-- **A group of channels** of a convolution: its factors are those of the host, and their products are
added up in their order. -/
theorem meaningOf_convolution (h : Ready fns globals g depthwise hasBias inputGroups group oy ox x w first)
    (a : Activation) (hox : ox < g.outW) (hsize : oy * g.outW + ox < 2 ^ 32) (hwidth : g.outW < 2 ^ 32) :
    meaningOf fns globals groupParams (convolution a depthwise hasBias)
        [.ofNat (oy * g.outW + ox), .ofNat group] =
        some (.lanes fun k => onDevice a
          (addAll x w first (fun k => laneProducts g depthwise oy ox (group * 4 + k)) k)) ∧
      ∀ k < 4, (Stmt.increasesAll fns (convolution a depthwise hasBias)
        (("s", .ofNat (oy * g.outW + ox)) :: ("g", .ofNat group) :: globals)).filterMap
        (fetched depthwise fns k) = laneProducts g depthwise oy ox (group * 4 + k) := by
  have hpos : 0 < g.outW := Nat.zero_lt_of_lt hox
  have hdiv := Value.binary_div_ofNat hsize hpos hwidth
  have hrem := Value.binary_rem_ofNat hsize hpos hwidth
  rw [Size.mul_add_div hox] at hdiv
  rw [Size.mul_add_mod hox] at hrem
  generalize oy * g.outW + ox = s at hdiv hrem
  have hfirstRow : (Stmt.bind "oy" (v "s" / v "OUT_X")).exec fns
      (("s", .ofNat s) :: ("g", .ofNat group) :: globals) =
      some (("oy", .ofNat oy) :: ("s", .ofNat s) :: ("g", .ofNat group) :: globals, .next) := by
    simp [Stmt.exec, Env.find?, h.declared.outX, hdiv]
  have hfirstColumn : (Stmt.bind "ox" (v "s" % v "OUT_X")).exec fns
      (("oy", .ofNat oy) :: ("s", .ofNat s) :: ("g", .ofNat group) :: globals) =
      some (aroundSum globals group s oy ox, .next) := by
    simp [Stmt.exec, Env.find?, h.declared.outX, hrem, aroundSum]
  have hstart : (Stmt.var "acc" (if hasBias then .call "load_bias" [u 0, v "g"] else zero4)).exec fns
      (aroundSum globals group s oy ox) =
      some (summing [] (aroundSum globals group s oy ox) first, .next) :=
    exec_start h.start rfl
  obtain ⟨hrows, hlog⟩ := exec_rows (s := s) h.declared h.loads h.fitting h.outC h.around first
  generalize hsum : (addAll x w first fun k => laneProducts g depthwise oy ox (group * 4 + k)) = sum
    at hrows ⊢
  have hgive : (Stmt.give (activate a (v "acc"))).exec fns
      (summing [] (aroundSum globals group s oy ox) sum) =
      some (summing [] (aroundSum globals group s oy ox) sum,
        .done (.lanes fun k => onDevice a (sum k))) := by
    have hacc : (v "acc").eval fns (summing [] (aroundSum globals group s oy ox) sum) =
        some (.lanes sum) := by
      rw [eval_v]
      rfl
    rw [Stmt.exec, eval_activate h.max h.clamp hacc]
    rfl
  have hstatements : convolution a depthwise hasBias =
      [.bind "oy" (v "s" / v "OUT_X"), .bind "ox" (v "s" % v "OUT_X"),
        .var "acc" (if hasBias then .call "load_bias" [u 0, v "g"] else zero4),
        .countTo "ky" (v "KERNEL_H") (rowBody depthwise), .give (activate a (v "acc"))] := rfl
  rw [hstatements]
  constructor
  · exact meaningOf_of_done rfl <| (execAll_cons_of_next fns hfirstRow _).trans <|
      (execAll_cons_of_next fns hfirstColumn _).trans <| (execAll_cons_of_next fns hstart _).trans <|
      (execAll_cons_of_next fns hrows _).trans (execAll_cons_of_done fns hgive _)
  · intro k hk
    rw [increasesAll_cons_of_next fns hfirstRow, increasesAll_cons_of_next fns hfirstColumn,
      increasesAll_cons_of_next fns hstart, increasesAll_cons_of_next fns hrows,
      increasesAll_cons_of_stop fns hgive (by simp), increases_bind, increases_bind, increases_var,
      increases_give, List.append_nil]
    exact hlog k hk

end Body

end TexelFlow.Wgsl
