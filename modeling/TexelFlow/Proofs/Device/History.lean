import Mathlib
import TexelFlow.CommandLine.Validator
import TexelFlow.Device.Engine
import TexelFlow.Proofs.Schedule.Binding

/-!
# Histories of an engine

An engine is compiled, prepared and run in any order, and each call may meet a device that refuses any
of its steps. What an engine holds is tied to where it stands: it is prepared exactly when it is ready,
and compiled whenever it could be prepared. Each call changes phase, compiled graph and prepared
resources at different points of a chain that may break anywhere; the cases below list how each chain
can end, and every end keeps the tie.

## Main statements

* `Consistent.afterCall` — the step: one call keeps the tie between what is held and the phase.
* `orderly_afterCalls` — after every history the tie holds, an engine with nothing to run refuses and
  stays as it is, and inputs that do not fit leave a prepared engine behind.

## §1 — calls
## §2 — how each call can end
## §3 — consistent engines
## §4 — refusals and inputs that do not fit
## §5 — histories
-/

namespace TexelFlow.Engine

/-! ## §1 — calls -/

/-- A call on an engine, with the device as this call meets it. -/
inductive Call where
  | compile (device : Device) (description : Model.Description) (weights : Tensors)
      (request : CompileRequest)
  | prepare (device : Device)
  | run (device : Device) (inputs : List (String × HostTensor))

/-- The engine that a call leaves behind, whatever it answers. -/
def afterCall [Wgsl.Validator] (e : Engine) : Call → Engine
  | .compile d description weights r => (e.compile d description weights r).2
  | .prepare d => (e.prepare d).2
  | .run d inputs => (e.run d inputs).2

/-- The engine that a history leaves behind. -/
def afterCalls [Wgsl.Validator] (e : Engine) (calls : List Call) : Engine := calls.foldl afterCall e

/-! ## §2 — how each call can end -/

variable {e e' : Engine} {d : Device}

/-- An engine with nothing compiled. -/
def cleared (e : Engine) : Engine :=
  { e with phase := .uninitialized, compiled := none, prepared := none }

/-- An engine that the device failed. -/
def failed (e : Engine) : Engine := { e with phase := .failed, prepared := none }

theorem afterError_of_device {error : Error} (h : isDeviceFailure error = true) :
    e.afterError error = e.failed := by
  unfold afterError
  rw [h]
  rfl

theorem afterError_of_other {error : Error} (h : isDeviceFailure error = false) :
    e.afterError error = { e with phase := if e.phase = .running then .ready else e.phase } := by
  unfold afterError
  rw [h]
  rfl

/-- What a phase refuses, it refuses by naming what has to come first. -/
theorem after_eq_error {p : Phase} {event : Event} {error : Error}
    (h : p.after event = .error error) : ∃ fault, error = .order fault := by
  unfold Phase.after at h
  split at h
  all_goals cases h
  all_goals exact ⟨_, rfl⟩

/-- How compiling ends: the answer and the engine left behind. -/
inductive Compiles (e : Engine) : Outcome Unit → Engine → Prop
  | refused (error : Error) : Compiles e (.error error) e.cleared
  | broken (error : Error) (h : isDeviceFailure error) : Compiles e (.error error) e.cleared.failed
  | done (c : Compiled) : Compiles e (.ok ()) { e.cleared with phase := .compiled, compiled := some c }

theorem compiles [Wgsl.Validator] (hp : e.phase ≠ .running) (d : Device) (description : Model.Description)
    (weights : Tensors) (r : CompileRequest) :
    e.Compiles (e.compile d description weights r).1 (e.compile d description weights r).2 := by
  have hnext : e.phase.after .compile = .ok .compiled := by
    cases hphase : e.phase with
    | running => exact absurd hphase hp
    | _ => rfl
  unfold compile
  rw [hnext]
  dsimp only
  split
  · exact .refused _
  · split
    · rename_i error _
      cases hf : isDeviceFailure error with
      | true =>
        rw [afterError_of_device hf]
        exact .broken error hf
      | false =>
        rw [afterError_of_other hf]
        exact .refused error
    · exact .done _

theorem after_prepare_eq_ok {p next : Phase} (h : p.after .prepare = .ok next) :
    (p = .compiled ∨ p = .ready) ∧ next = .ready := by
  cases p <;> simp_all [Phase.after]

/-- A plan that is not made has a size that no word holds, and no input is to blame. -/
theorem plan_ne_input (c : Compiled) (fault : InputFault) : plan c ≠ .error (.input fault) := by
  have hmul : ∀ m n : Nat, Size.mul m n ≠ .error (.input fault) := by
    intro m n h
    cases (Size.mul_eq_error_iff.mp h).2
  intro h
  rcases Outcome.bind_eq_error_iff.mp h with h | ⟨_, -, h⟩
  · obtain ⟨l, -, h⟩ := Outcome.exists_of_mapM_eq_error h
    rcases Outcome.bind_eq_error_iff.mp h with h | ⟨_, -, h⟩
    · rcases Outcome.bind_eq_error_iff.mp h with h | ⟨_, -, h⟩
      · exact hmul _ _ h
      · exact hmul _ _ h
    · rcases Outcome.bind_eq_error_iff.mp h with h | ⟨_, -, h⟩
      · exact hmul _ _ h
      · exact hmul _ _ h
  · cases h

/-- What is built is the plan of the compiled graph. -/
theorem build_eq_ok {p : Prepared} (h : e.build d = .ok p) :
    ∃ c, e.compiled = some c ∧ plan c = .ok p := by
  unfold build at h
  split at h
  · cases h
  · rename_i c hc
    obtain ⟨-, h⟩ := Outcome.check_eq_ok_iff.mp h
    obtain ⟨p', hplan, h⟩ := Outcome.bind_eq_ok_iff.mp h
    obtain ⟨_, -, h⟩ := Outcome.bind_eq_ok_iff.mp h
    obtain rfl := Outcome.pure_eq_ok_iff.mp h
    exact ⟨c, hc, hplan⟩

/-- Where nothing is built, no input is to blame. -/
theorem build_ne_input (e : Engine) (d : Device) (fault : InputFault) :
    e.build d ≠ .error (.input fault) := by
  unfold build
  intro h
  split at h
  · cases h
  · rename_i c _
    rcases Outcome.check_eq_error_iff.mp h with ⟨-, h⟩ | ⟨-, h⟩
    · cases h
    · rcases Outcome.bind_eq_error_iff.mp h with h | ⟨p, -, h⟩
      · exact plan_ne_input c fault h
      · rcases Outcome.bind_eq_error_iff.mp h with h | ⟨_, -, h⟩
        · unfold Device.ask at h
          split at h
          · cases h
          · cases h
        · cases h

/-- How preparing ends. -/
inductive Prepares (e : Engine) : Outcome Unit → Engine → Prop
  | refused (fault : OrderFault) : Prepares e (.error (.order fault)) e
  | again (p : Prepared) (hp : e.prepared = some p) : Prepares e (.ok ()) { e with phase := .ready }
  | stopped (error : Error) (h : ∀ fault, error ≠ .input fault) : Prepares e (.error error) e
  | broken (error : Error) (h : isDeviceFailure error) : Prepares e (.error error) e.failed
  | done (c : Compiled) (p : Prepared) (hc : e.compiled = some c) (hplan : plan c = .ok p)
      (hp : e.prepared = none) : Prepares e (.ok ()) { e with phase := .ready, prepared := some p }

theorem prepares (e : Engine) (d : Device) : e.Prepares (e.prepare d).1 (e.prepare d).2 := by
  unfold prepare
  split
  · rename_i error h
    obtain ⟨fault, rfl⟩ := after_eq_error h
    exact .refused fault
  · rename_i next h
    obtain ⟨hphase, rfl⟩ := after_prepare_eq_ok h
    split
    · rename_i p hp
      exact .again p hp
    · rename_i hp
      cases hbuild : e.build d with
      | error error =>
        dsimp only
        cases hf : isDeviceFailure error with
        | true =>
          rw [afterError_of_device hf]
          exact .broken error hf
        | false =>
          have hsame : e.afterError error = e := by
            rw [afterError_of_other hf, if_neg]
            intro hrunning
            rw [hrunning] at hphase
            simp at hphase
          rw [hsame]
          exact .stopped error fun fault h => e.build_ne_input d fault (h ▸ hbuild)
      | ok p =>
        obtain ⟨c, hc, hplan⟩ := build_eq_ok hbuild
        exact .done c p hc hplan hp

theorem after_begin_eq_ok {p next : Phase} (h : p.after .begin = .ok next) :
    p = .ready ∧ next = .running := by
  cases p <;> simp_all [Phase.after]

/-- How running a prepared engine ends: unless the device fails, with the engine that it began with. -/
inductive Runs (e : Engine) : Outcome (Named HostTensor) → Engine → Prop
  | refused (fault : OrderFault) (h : e.phase ≠ .ready) : Runs e (.error (.order fault)) e
  | stopped (error : Error) (h : e.phase = .ready) : Runs e (.error error) e
  | broken (error : Error) (h : isDeviceFailure error) : Runs e (.error error) e.failed
  | done (outputs : Named HostTensor) (h : e.phase = .ready) : Runs e (.ok outputs) e

theorem runs (e : Engine) (d : Device) (inputs : List (String × HostTensor)) :
    e.Runs (e.runPrepared d inputs).1 (e.runPrepared d inputs).2 := by
  unfold runPrepared
  split
  · rename_i error h
    have hp : e.phase ≠ .ready := by
      intro hready
      rw [hready] at h
      cases h
    obtain ⟨fault, rfl⟩ := after_eq_error h
    exact .refused fault hp
  · rename_i inProgress h
    obtain ⟨hp, rfl⟩ := after_begin_eq_ok h
    -- a run in progress that ends goes back to where it began
    have hback : { ({ e with phase := .running } : Engine) with phase := Phase.ready } = e := by
      rw [← hp]
    split
    · exact .stopped _ hp
    · dsimp only
      split
      · rename_i error _
        cases hf : isDeviceFailure error with
        | true =>
          rw [afterError_of_device hf]
          exact .broken error hf
        | false =>
          have hsame : ({ e with phase := .running } : Engine).afterError error = e := by
            rw [afterError_of_other hf, if_pos rfl, hback]
          rw [hsame]
          exact .stopped error hp
      · have hfinish : Phase.after .running .finish = .ok .ready := rfl
        rw [hfinish]
        dsimp only
        rw [hback]
        exact .done _ hp

/-- A run of an engine that is not just compiled runs what is prepared; else it prepares first. -/
theorem run_cases (e : Engine) (d : Device) (inputs : List (String × HostTensor)) :
    e.phase ≠ .compiled ∧ e.run d inputs = e.runPrepared d inputs ∨
    e.phase = .compiled ∧
      ((∃ error, (e.prepare d).1 = .error error ∧ e.run d inputs = (.error error, (e.prepare d).2)) ∨
      (e.prepare d).1 = .ok () ∧ e.run d inputs = (e.prepare d).2.runPrepared d inputs) := by
  unfold run
  by_cases hp : e.phase = .compiled
  · rw [if_pos hp]
    refine .inr ⟨hp, ?_⟩
    rcases e.prepare d with ⟨answer | answer, e'⟩
    · exact .inl ⟨answer, rfl, rfl⟩
    · exact .inr ⟨rfl, rfl⟩
  · rw [if_neg hp]
    exact .inl ⟨hp, rfl⟩

section Kept

variable [Wgsl.Validator] {P : Engine → Prop}
  (hcompile : ∀ e d description weights r, P e → P (e.compile d description weights r).2)
  (hprepare : ∀ e answer e', P e → e.Prepares answer e' → P e')
  (hrun : ∀ e answer e', P e → e.Runs answer e' → P e')

include hcompile hprepare hrun

/-- **One call** keeps what compiling, preparing and running a prepared engine keep. -/
theorem kept_afterCall (he : P e) (call : Call) : P (e.afterCall call) := by
  cases call with
  | compile d description weights r => exact hcompile e d description weights r he
  | prepare d => exact hprepare e _ _ he (e.prepares d)
  | run d inputs =>
    unfold Engine.afterCall
    dsimp only
    have hprepared := hprepare e _ _ he (e.prepares d)
    rcases e.run_cases d inputs with ⟨-, h⟩ | ⟨-, ⟨error, -, h⟩ | ⟨-, h⟩⟩
    · rw [h]
      exact hrun e _ _ he (e.runs d inputs)
    · rw [h]
      exact hprepared
    · rw [h]
      exact hrun _ _ _ hprepared ((e.prepare d).2.runs d inputs)

end Kept

/-- **Every history** keeps what one call keeps. -/
theorem kept_afterCalls [Wgsl.Validator] {P : Engine → Prop} (hstep : ∀ e call, P e → P (e.afterCall call)) (he : P e)
    (calls : List Call) : P (e.afterCalls calls) := by
  unfold Engine.afterCalls
  induction calls generalizing e with
  | nil => exact he
  | cons call rest ih => exact ih (hstep e call he)

/-! ## §3 — consistent engines -/

/-- **What an engine holds fits where it stands**, between two calls. -/
structure Consistent (e : Engine) : Prop where
  /-- No run is in progress. -/
  idle : e.phase ≠ .running
  /-- Something is prepared exactly when the engine is ready. -/
  prepared_iff : e.prepared.isSome ↔ e.phase = .ready
  /-- There is a graph whenever it could be prepared or run. -/
  compiled : e.phase = .compiled ∨ e.phase = .ready → e.compiled.isSome
  /-- Before the first compilation there is none. -/
  bare : e.phase = .uninitialized → e.compiled = none

theorem new_consistent {o : EngineOptions} (h : new d o = .ok e) : e.Consistent := by
  unfold new at h
  obtain ⟨_, -, h⟩ := Outcome.bind_eq_ok_iff.mp h
  obtain rfl := Outcome.pure_eq_ok_iff.mp h
  constructor <;> simp

theorem cleared_consistent (e : Engine) : e.cleared.Consistent := by
  constructor <;> simp [cleared]

theorem failed_consistent (e : Engine) : e.failed.Consistent := by
  constructor <;> simp [failed]

theorem Compiles.consistent {answer : Outcome Unit} (h : e.Compiles answer e') : e'.Consistent := by
  cases h with
  | refused error => exact e.cleared_consistent
  | broken error hf => exact failed_consistent _
  | done c => constructor <;> simp [cleared]

theorem Consistent.of_prepares (he : e.Consistent) {answer : Outcome Unit}
    (h : e.Prepares answer e') : e'.Consistent := by
  cases h with
  | refused fault => exact he
  | again p hp =>
    -- what is prepared already belongs to a ready engine
    have hready : e.phase = .ready := he.prepared_iff.mp (by rw [hp]; rfl)
    constructor <;> simp [hp, he.compiled (.inr hready)]
  | stopped error hf => exact he
  | broken error hf => exact e.failed_consistent
  | done c p hc hplan hp => constructor <;> simp [hc]

theorem Consistent.of_runs (he : e.Consistent) {answer : Outcome (Named HostTensor)}
    (h : e.Runs answer e') : e'.Consistent := by
  cases h with
  | broken error hf => exact e.failed_consistent
  | _ => exact he

/-- **One call** keeps what is held and where the engine stands in step. -/
theorem Consistent.afterCall [Wgsl.Validator] (he : e.Consistent) (call : Call) : (e.afterCall call).Consistent :=
  kept_afterCall (P := Consistent)
    (fun _ d description weights r he => (compiles he.idle d description weights r).consistent)
    (fun _ _ _ he h => he.of_prepares h) (fun _ _ _ he h => he.of_runs h) he call

theorem Consistent.afterCalls [Wgsl.Validator] (he : e.Consistent) (calls : List Call) :
    (e.afterCalls calls).Consistent :=
  kept_afterCalls (fun _ call he => he.afterCall call) he calls

/-! ## §4 — refusals and inputs that do not fit -/

section Inputs

variable {inputs : List (String × HostTensor)}

theorem prepare_of_bare (h : e.phase = .failed ∨ e.phase = .uninitialized) (d : Device) :
    ∃ fault, e.prepare d = (.error (.order fault), e) := by
  unfold prepare
  rcases h with h | h
  · rw [h]
    exact ⟨_, rfl⟩
  · rw [h]
    exact ⟨_, rfl⟩

theorem run_of_bare (h : e.phase = .failed ∨ e.phase = .uninitialized) (d : Device)
    (inputs : List (String × HostTensor)) :
    ∃ fault, e.run d inputs = (.error (.order fault), e) := by
  unfold run runPrepared
  rcases h with h | h
  · rw [h]
    exact ⟨_, rfl⟩
  · rw [h]
    exact ⟨_, rfl⟩

/-- Preparing a compiled engine, where it succeeds, keeps the graph and prepares its plan. -/
theorem Consistent.prepare_eq_ok (he : e.Consistent) (hp : e.phase = .compiled)
    (h : e.prepare d = (.ok (), e')) :
    ∃ c p, e.compiled = some c ∧ plan c = .ok p ∧
      e' = { e with phase := .ready, prepared := some p } := by
  have hends := e.prepares d
  rw [h] at hends
  cases hends with
  | again p hheld =>
    have hready : e.phase = .ready := he.prepared_iff.mp (by rw [hheld]; rfl)
    rw [hp] at hready
    cases hready
  | done c p hc hplan _ => exact ⟨c, p, hc, hplan, rfl⟩

theorem prepare_ne_input (e : Engine) (d : Device) (fault : InputFault) :
    (e.prepare d).1 ≠ .error (.input fault) := by
  intro h
  have hends := e.prepares d
  generalize (e.prepare d).2 = left at hends
  rw [h] at hends
  cases hends with
  | stopped error hinput => exact hinput fault rfl
  | broken error hf => cases hf

/-- A run of a prepared engine that blames its inputs changes nothing. -/
theorem runPrepared_of_input {fault : InputFault}
    (h : e.runPrepared d inputs = (.error (.input fault), e')) : e.phase = .ready ∧ e' = e := by
  have hends := e.runs d inputs
  rw [h] at hends
  cases hends with
  | stopped error hp => exact ⟨hp, rfl⟩
  | broken error hf => cases hf

/-- **A run that blames its inputs** leaves a ready engine with the graph that it had, prepared as it
was, or as it would be for any other run. -/
theorem Consistent.run_of_input (he : e.Consistent) {fault : InputFault}
    (h : e.run d inputs = (.error (.input fault), e')) :
    e.phase = .ready ∧ e' = e ∨
    e.phase = .compiled ∧ ∃ c p, e.compiled = some c ∧ plan c = .ok p ∧
      e' = { e with phase := .ready, prepared := some p } := by
  rcases e.run_cases d inputs with ⟨-, hrun⟩ | ⟨hp, ⟨error, hprepare, hrun⟩ | ⟨hprepare, hrun⟩⟩
  · exact .inl (runPrepared_of_input (hrun.symm.trans h))
  · rw [hrun] at h
    obtain ⟨herror, -⟩ := Prod.mk.inj h
    obtain rfl := Except.error.inj herror
    exact absurd hprepare (e.prepare_ne_input d fault)
  · have hprepared := he.prepare_eq_ok hp (Prod.ext hprepare rfl)
    rw [hrun] at h
    obtain ⟨-, rfl⟩ := runPrepared_of_input h
    exact .inr ⟨hp, hprepared⟩

/-- Host tensors are tensors as they are. -/
theorem toTensors_ne_error (error : Error) : HostTensor.toTensors inputs ≠ .error error := by
  intro h
  unfold HostTensor.toTensors at h
  rcases Outcome.bind_eq_error_iff.mp h with h | ⟨_, -, h⟩
  · obtain ⟨⟨name, t⟩, -, h⟩ := Outcome.exists_of_mapM_eq_error h
    dsimp only at h
    rcases Outcome.bind_eq_error_iff.mp h with h | ⟨_, -, h⟩
    · -- a host tensor fills its shape, and its elements are those of the tensor
      have hfilled : t.shape.counted = .ok t.data.toTensorData.length := by
        rw [t.filled]
        cases t.data <;> rfl
      have hmade : t.toTensor name = .ok ⟨t.shape, t.data.toTensorData, hfilled⟩ :=
        Tensor.make_eq_ok_iff.mpr ⟨rfl, rfl⟩
      rw [hmade] at h
      cases h
    · exact absurd h (by simp)
  · exact absurd h (by simp)

/-- Inputs that a graph does not take are reported as such: unknown or missing, without the axis to
strip, or of a wrong shape or type. -/
theorem bind_inputs_eq_error {c : Compiled} {error : Error}
    (h : (HostTensor.toTensors inputs >>= c.schedule.bind) = .error error) :
    ∃ fault, error = .input fault := by
  rcases Outcome.bind_eq_error_iff.mp h with h | ⟨given, -, h⟩
  · exact absurd h (toTensors_ne_error error)
  · exact Schedule.bind_eq_error h

/-- A prepared engine reports inputs that do not fit and stays as it is. -/
theorem runPrepared_of_unfit (hp : e.phase = .ready) {c : Compiled} (hc : e.compiled = some c)
    {error : Error} (h : (HostTensor.toTensors inputs >>= c.schedule.bind) = .error error)
    (d : Device) : e.runPrepared d inputs = (.error error, e) := by
  have hbegin : e.phase.after .begin = .ok .running := by
    rw [hp]
    rfl
  have hbind : e.bind = c.schedule.bind := by
    funext given
    unfold bind
    rw [hc, hp]
    rfl
  unfold runPrepared
  rw [hbegin, hbind, h]

end Inputs

/-! ## §5 — histories -/

/-- **An engine between two calls**: what it holds fits where it stands, and what the next call can
do to it is known where nothing can be run or the inputs do not fit. -/
structure Orderly (e : Engine) : Prop extends Consistent e where
  /-- With nothing to run, preparing and running name what has to come first and change nothing. -/
  refuses : e.phase = .failed ∨ e.phase = .uninitialized → ∀ d inputs,
    (∃ fault, e.prepare d = (.error (.order fault), e)) ∧
    ∃ fault, e.run d inputs = (.error (.order fault), e)
  /-- A run that blames its inputs leaves a ready engine with the same graph, prepared as it was, or
  newly prepared where it was not. -/
  blames : ∀ d inputs fault e', e.run d inputs = (.error (.input fault), e') →
    e.phase = .ready ∧ e' = e ∨
    e.phase = .compiled ∧ ∃ c p, e.compiled = some c ∧ plan c = .ok p ∧
      e' = { e with phase := .ready, prepared := some p }
  /-- Inputs that the graph does not take are blamed, once the engine is prepared. -/
  reports : ∀ d inputs c error, e.compiled = some c →
    (HostTensor.toTensors inputs >>= c.schedule.bind) = .error error →
    (∃ fault, error = .input fault) ∧
    (e.phase = .ready → e.run d inputs = (.error error, e)) ∧
    (e.phase = .compiled → ∀ e', e.prepare d = (.ok (), e') → e.run d inputs = (.error error, e'))

/-- **After every history** of an engine, however each of its calls ended, the engine is orderly. -/
theorem orderly_afterCalls [Wgsl.Validator] {o : EngineOptions} (h : new d o = .ok e) (calls : List Call) :
    (e.afterCalls calls).Orderly := by
  have hc : (e.afterCalls calls).Consistent := (new_consistent h).afterCalls calls
  generalize e.afterCalls calls = e at hc
  refine ⟨hc, fun hp d inputs => ⟨prepare_of_bare hp d, run_of_bare hp d inputs⟩, ?_, ?_⟩
  · intro d inputs fault e' hrun
    exact hc.run_of_input hrun
  · intro d inputs c error hcompiled hbind
    refine ⟨bind_inputs_eq_error hbind, fun hp => ?_, fun hp e' hprepare => ?_⟩
    · rcases e.run_cases d inputs with ⟨-, hrun⟩ | ⟨hp', -⟩
      · rw [hrun]
        exact runPrepared_of_unfit hp hcompiled hbind d
      · rw [hp] at hp'
        cases hp'
    · obtain ⟨c', p, hc', -, rfl⟩ := hc.prepare_eq_ok hp hprepare
      obtain rfl := Option.some.inj (hcompiled.symm.trans hc')
      unfold run
      rw [if_pos hp, hprepare]
      exact runPrepared_of_unfit (e := { e with phase := .ready, prepared := some p }) rfl
        hcompiled hbind d

open scoped CommandLine

/-- A graph that gives back what it is given. -/
def mirror : Model.Description where
  format := none
  topology := .graph [⟨"x", "Placeholder", [], .empty⟩]
  signature := none
  groups := []

/-- An engine with the usual options on an idle device. -/
def fresh : Engine := ⟨{}, Device.idle.limits, .uninitialized, none, none⟩

theorem fresh_new : new .idle {} = .ok fresh := by cbv

/-- A device that refuses to draw. -/
def stuck : Device := { Device.idle with accepts := (· ≠ .draw) }

/-- A history that compiles, prepares, and runs without the input that the graph takes. -/
def denied : List Call :=
  [.compile .idle mirror .empty ⟨["x"], .ofList [("x", [1, 2, 1])]⟩,
   .prepare .idle,
   .run .idle []]

/-- The same history, and then a run on a device that refuses to draw. -/
def rough : List Call :=
  denied ++ [.run stuck [("x", ⟨[1, 2, 1], .float32 [.zero, .zero], by decide⟩)]]

/-- Without its input the engine stays ready; where the device fails, the engine has failed and is
orderly still. -/
theorem rough_orderly : new .idle {} = .ok fresh ∧ (fresh.afterCalls denied).phase = .ready ∧
    (fresh.afterCalls rough).phase = .failed ∧ (fresh.afterCalls rough).Orderly :=
  ⟨fresh_new, by cbv, by cbv, orderly_afterCalls fresh_new rough⟩

end TexelFlow.Engine
