import Mathlib.Data.List.Basic
import Mathlib.Data.List.Nodup
import TexelFlow.Proofs.Device.History
import TexelFlow.Proofs.Shader.Cache
import TexelFlow.Proofs.Shader.Marked

/-!
# Pipelines shared by text

A pipeline is built from the text of a shader, but which resources its slots take and how many targets it
writes is said by the program, not by the text. Programs with one text share the pipeline of the first of
them, so the text has to fix what is said beside it. It does, because the marks of the text count slots and
targets. A shader is kept under its key, so programs that share a shader share its text; there are no more
pipelines than shaders.

## Main statements

* `Program.pipeline_eq` — programs of one text have one pipeline.
* `Pipeline.share_given`, `Pipeline.length_share` — what sharing gives and builds.
* `Engine.pipelines_shared` — on every engine, every program runs with the pipeline it would have alone, and
  there are no more pipelines than shaders.

## §1 — pipelines
## §2 — programs of one text
## §3 — sharing
## §4 — engines
-/

namespace TexelFlow

/-! ## §1 — pipelines -/

/-- What a slot takes. -/
inductive SlotKind where
  /-- A block of parameters. -/
  | block
  /-- A texture of several layers. -/
  | layers
  deriving DecidableEq, Repr

/-- What is bound decides what the slot takes. -/
def Resource.kind : Resource → SlotKind
  | .drawParams => .block
  | .texture _ => .layers

/-- A pipeline. -/
@[ext]
structure Pipeline where
  /-- Text of its shader. -/
  source : String
  /-- Its slots by their numbers. -/
  slots : List (Nat × SlotKind)
  /-- How many targets it writes. -/
  targets : Nat
  deriving DecidableEq, Repr

/-- The pipeline that a program would have alone. -/
def Program.pipeline (p : Program) : Pipeline where
  source := p.source
  slots := p.bindings.map fun b => (b.slot, b.resource.kind)
  targets := p.renderTargets

/-- **Share** pipelines among programs, one after the other, beside those that are there: a program whose
text has a pipeline takes it, and any other builds its own. Gives the pipelines of the programs, and all
that were built. -/
def Pipeline.share (built : List Pipeline) : List Program → List Pipeline × List Pipeline
  | [] => ([], built)
  | p :: rest =>
    match built.find? fun q => q.source = p.source with
    | some q => ((q :: (share built rest).1), (share built rest).2)
    | none => (p.pipeline :: (share (p.pipeline :: built) rest).1, (share (p.pipeline :: built) rest).2)

/-! ## §2 — programs of one text -/

namespace Program

variable {cache cache' : ShaderCache} {n : Node} {inputs : List TextureInput} {size : Option Tensor}
  {output : Layout} {p : Program}

/-- A program that is compiled with a cache, whatever was compiled with it before. -/
def Produced [Wgsl.Validator] (p : Program) : Prop :=
  ∃ (cache : ShaderCache) (n : Node) (inputs : List TextureInput) (size : Option Tensor) (output : Layout),
    cache.Grown ∧ (compile cache n inputs size output).1 = .ok p

/-- What a program is compiled to: its shader is that of its key, its slots are one for the parameters and
one for each texture. -/
structure Keyed (p : Program) (key : ShaderKey) : Prop where
  /-- The operation has a name of its own. -/
  named : Wgsl.Unmarked key.op.name
  /-- There is a texture for each role. -/
  roles : key.pass.roles.length = key.inputs.length
  /-- The shader is that of the key. -/
  shader : key.Has p.shader
  /-- The slots are numbered from the parameters on. -/
  slots : p.pipeline.slots = (0, .block) :: (List.range' 1 key.inputs.length).map fun i => (i, .layers)
  /-- The targets are those of the output. -/
  targets : p.renderTargets = key.output.renderTargets

/-- An operation with a program has a name of its own. -/
theorem unmarked_of_resolve {layouts : List Layout} {pass : Pass}
    (h : Pass.resolve n layouts size = .ok pass) : Wgsl.Unmarked n.op.name := by
  unfold Pass.resolve at h
  cases hop : n.op with
  | unsupported name =>
    rw [hop] at h
    cases h
  | _ => decide

theorem slots_textureBindings (slot : Nat) {roles : List String} {sources : List TextureSource}
    (h : roles.length = sources.length) :
    (textureBindings slot roles sources).map (fun b => (b.slot, b.resource.kind)) =
      (List.range' slot sources.length).map fun i => (i, .layers) := by
  induction sources generalizing slot roles with
  | nil =>
    obtain rfl := List.length_eq_zero_iff.mp h
    rfl
  | cons source sources ih =>
    match roles, h with
    | role :: roles, h =>
      rw [textureBindings, List.map_cons, ih _ (Nat.succ.inj h)]
      rfl

/-- **What is compiled** has a key, and a number for its shader in the cache that is left. -/
theorem keyed_of_compile [Wgsl.Validator] (hc : cache.Sound)
    (h : compile cache n inputs size output = (.ok p, cache')) :
    (∃ key, p.Keyed key) ∧ cache'.shader? p.shaderId = some p.shader := by
  obtain ⟨k, found, hk, hfetch, rfl⟩ := exists_fetch_of_compile h
  obtain ⟨hshader, hat⟩ := ShaderCache.fetch_eq_ok hc hfetch
  refine ⟨⟨k, ?_⟩, hat⟩
  obtain ⟨pass, hpass, hroles, rfl⟩ := key_eq_ok hk
  constructor
  case named => exact unmarked_of_resolve hpass
  case roles => rw [hroles, List.length_map]
  case shader => exact hshader
  case slots =>
    have hlength : pass.roles.length = (inputs.map (·.source)).length := by rw [List.length_map, hroles]
    have := slots_textureBindings 1 hlength
    rw [List.length_map] at this
    rw [pipeline, assemble, List.map_cons, this, List.length_map]
    rfl
  case targets => rfl

theorem Produced.keyed [Wgsl.Validator] (h : p.Produced) : ∃ key, p.Keyed key := by
  obtain ⟨cache, n, inputs, size, output, hc, h⟩ := h
  exact (keyed_of_compile hc.sound (Prod.ext h rfl)).1

/-- **Programs of one text** have one pipeline. -/
theorem pipeline_eq [Wgsl.Validator] {p q : Program} (hp : p.Produced) (hq : q.Produced) (h : p.source = q.source) :
    p.pipeline = q.pipeline := by
  obtain ⟨key, hp⟩ := hp.keyed
  obtain ⟨key', hq⟩ := hq.keyed
  obtain ⟨hinputs, htargets⟩ := Wgsl.shader_text_injective hp.shader hq.shader hp.named hq.named hp.roles
    hq.roles h
  have hslots : p.pipeline.slots = q.pipeline.slots := by rw [hp.slots, hq.slots, hinputs]
  have htargets : p.pipeline.targets = q.pipeline.targets := by
    show p.renderTargets = q.renderTargets
    rw [hp.targets, hq.targets, htargets]
  exact Pipeline.ext h hslots htargets

end Program

/-! ## §3 — sharing -/

/-- Keeping the first of equals leaves no equals. -/
theorem nodup_eraseDups {α : Type} [BEq α] [LawfulBEq α] : (xs : List α) → xs.eraseDups.Nodup
  | [] => List.nodup_nil
  | x :: xs => by
    have : (xs.filter fun y => !y == x).length < xs.length + 1 :=
      Nat.lt_succ_of_le (List.length_filter_le _ _)
    rw [List.eraseDups_cons, List.nodup_cons, List.mem_eraseDups, List.mem_filter]
    exact ⟨by simp, nodup_eraseDups _⟩
termination_by xs => xs.length

/-- Where one value determines another, there are no more of the other. -/
theorem length_eraseDups_le {α β γ : Type} [BEq β] [LawfulBEq β] [BEq γ] [LawfulBEq γ]
    {xs : List α} {f : α → β} {g : α → γ} (determined : γ → Option β)
    (h : ∀ x ∈ xs, determined (g x) = some (f x)) :
    (xs.map f).eraseDups.length ≤ (xs.map g).eraseDups.length := by
  have hsubset : (xs.map f).eraseDups.map some ⊆ (xs.map g).eraseDups.map determined := by
    intro y hy
    obtain ⟨b, hb, rfl⟩ := List.mem_map.mp hy
    obtain ⟨x, hx, rfl⟩ := List.mem_map.mp (List.mem_eraseDups.mp hb)
    exact List.mem_map.mpr ⟨g x, List.mem_eraseDups.mpr (List.mem_map_of_mem hx), h x hx⟩
  have hnodup : ((xs.map f).eraseDups.map some).Nodup :=
    (nodup_eraseDups _).map (Option.some_injective β)
  have := hnodup.length_le_of_subset hsubset
  rwa [List.length_map, List.length_map] at this

namespace Pipeline

variable {programs : List Program}

/-- **Sharing is sound**: every program gets the pipeline that it would have alone. -/
theorem share_given [Wgsl.Validator] {built : List Pipeline}
    (hbuilt : ∀ q ∈ built, ∃ p : Program, p.Produced ∧ q = p.pipeline)
    (h : ∀ p ∈ programs, p.Produced) : (share built programs).1 = programs.map Program.pipeline := by
  induction programs generalizing built with
  | nil => rfl
  | cons p rest ih =>
    have hp := h p List.mem_cons_self
    have hrest := fun q hq => h q (List.mem_cons_of_mem _ hq)
    rw [share, List.map_cons]
    split
    · rename_i q hq
      have hsource := List.find?_some hq
      obtain ⟨p', hp', rfl⟩ := hbuilt q (List.mem_of_find?_eq_some hq)
      rw [ih hbuilt hrest, Program.pipeline_eq hp' hp (of_decide_eq_true hsource)]
    · rw [ih (List.forall_mem_cons.mpr ⟨⟨p, hp, rfl⟩, hbuilt⟩) hrest]

/-- **Sharing builds** a pipeline for each text that has none. -/
theorem length_share (built : List Pipeline) (programs : List Program) :
    (share built programs).2.length = built.length + ((programs.map Program.source).filter fun source =>
      source ∉ built.map Pipeline.source).eraseDups.length := by
  induction programs generalizing built with
  | nil => rfl
  | cons p rest ih =>
    rw [share, List.map_cons]
    split
    · rename_i q hq
      have hfound := List.find?_some hq
      have hsource : q.source = p.source := of_decide_eq_true hfound
      have hthere : p.source ∈ built.map Pipeline.source :=
        hsource ▸ List.mem_map_of_mem (List.mem_of_find?_eq_some hq)
      rw [List.filter_cons_of_neg (by simpa using hthere)]
      exact ih built
    · rename_i hnone
      have hnew : p.source ∉ built.map Pipeline.source := by
        intro h
        obtain ⟨q, hq, hsource⟩ := List.mem_map.mp h
        exact absurd (decide_eq_true hsource) (List.find?_eq_none.mp hnone q hq)
      have hsame : ∀ source, (!(source == p.source) && decide (source ∉ built.map Pipeline.source)) =
          decide (source ∉ (p.pipeline :: built).map Pipeline.source) := by
        intro source
        simp [Program.pipeline, Bool.beq_eq_decide_eq]
      rw [List.filter_cons_of_pos (by simpa using hnew), List.eraseDups_cons, List.filter_filter]
      dsimp only
      rw [ih, List.length_cons, List.length_cons, List.filter_congr fun source _ => hsame source]
      omega

end Pipeline

/-! ## §4 — engines -/

namespace Schedule

variable [Wgsl.Validator] {s : Schedule} {layouts : Named Layout} {cache cache' : ShaderCache} {n : Node} {p : Program}

theorem produced_of_programOf (hc : cache.Grown) (h : s.programOf layouts cache n = .ok (p, cache')) :
    cache'.Grown ∧ cache.entries <:+ cache'.entries ∧ p.Produced ∧
      cache'.shader? p.shaderId = some p.shader := by
  obtain ⟨inputs, output, -, -, hcompile⟩ := exists_compile_of_programOf h
  have hgrown := hc.compile n inputs (s.constantSize n) output
  have hsuffix := (Program.compile_grows cache n inputs (s.constantSize n) output).1
  rw [hcompile] at hgrown hsuffix
  exact ⟨hgrown, hsuffix, ⟨cache, n, inputs, _, output, hc, by rw [hcompile]⟩,
    (Program.keyed_of_compile hc.sound hcompile).2⟩

/-- **Programs in their order** share one cache, in which each finds its shader. -/
theorem produced_of_programsFrom {nodes : List Node} {programs : List Program} (hc : cache.Grown)
    (h : s.programsFrom layouts cache nodes = .ok programs) :
    ∃ last : ShaderCache, cache.entries <:+ last.entries ∧
      ∀ p ∈ programs, p.Produced ∧ last.shader? p.shaderId = some p.shader := by
  induction nodes generalizing cache programs with
  | nil =>
    rw [programsFrom] at h
    cases h
    exact ⟨cache, List.suffix_rfl, fun p hp => absurd hp List.not_mem_nil⟩
  | cons n rest ih =>
    rw [programsFrom] at h
    obtain ⟨⟨p, cache'⟩, hp, h⟩ := Outcome.bind_eq_ok_iff.mp h
    obtain ⟨programs', hprograms, h⟩ := Outcome.bind_eq_ok_iff.mp h
    obtain rfl := Outcome.pure_eq_ok_iff.mp h
    obtain ⟨hgrown, hsuffix, hproduced, hat⟩ := produced_of_programOf hc hp
    obtain ⟨last, hlast, hrest⟩ := ih hgrown hprograms
    exact ⟨last, hsuffix.trans hlast, List.forall_mem_cons.mpr
      ⟨⟨hproduced, ShaderCache.shader?_of_suffix hlast hat⟩, hrest⟩⟩

end Schedule

namespace Compiled

variable [Wgsl.Validator] {g : Graph} {o : EngineOptions} {limits : DeviceLimits} {r : CompileRequest}
  {c : Compiled}

theorem produced_of_ofGraph (h : ofGraph g o limits r = .ok c) : ∀ p ∈ c.programs, p.Produced := by
  obtain ⟨-, -, hprograms⟩ := ofGraph_eq_ok h
  obtain ⟨last, -, hall⟩ := Schedule.produced_of_programsFrom .empty hprograms
  exact fun p hp => (hall p hp).1

/-- There are no more texts than shaders. -/
theorem texts_le_uniqueShaders (h : ofGraph g o limits r = .ok c) :
    (c.programs.map Program.source).eraseDups.length ≤ c.uniqueShaders := by
  obtain ⟨-, -, hprograms⟩ := ofGraph_eq_ok h
  obtain ⟨last, -, hall⟩ := Schedule.produced_of_programsFrom .empty hprograms
  refine length_eraseDups_le (fun i => (last.shader? i).map Wgsl.Shader.text) fun p hp => ?_
  rw [(hall p hp).2]
  rfl

end Compiled

namespace Engine

variable {e e' : Engine} {d : Device}

/-- A plan has a pipeline for each text. -/
theorem pipelines_of_plan {c : Compiled} {p : Prepared} (h : plan c = .ok p) :
    p.pipelines = (c.programs.map Program.source).eraseDups.length := by
  obtain ⟨_, -, h⟩ := Outcome.bind_eq_ok_iff.mp h
  rw [← Outcome.pure_eq_ok_iff.mp h]

section Planned

variable [Wgsl.Validator]

/-- **What an engine holds is compiled and planned**: its graph was compiled, and what is prepared is the
plan of that graph. -/
structure Planned (e : Engine) : Prop where
  /-- The graph was compiled. -/
  compiled : ∀ c, e.compiled = some c → ∃ g o limits r, Compiled.ofGraph g o limits r = .ok c
  /-- What is prepared is its plan. -/
  prepared : ∀ p, e.prepared = some p → ∃ c, e.compiled = some c ∧ plan c = .ok p

theorem new_planned {o : EngineOptions} (h : new d o = .ok e) : e.Planned := by
  unfold new at h
  obtain ⟨_, -, h⟩ := Outcome.bind_eq_ok_iff.mp h
  obtain rfl := Outcome.pure_eq_ok_iff.mp h
  constructor <;> simp

theorem Planned.of_compile (he : e.Planned) (d : Device) (description : Model.Description)
    (weights : Tensors) (r : CompileRequest) : (e.compile d description weights r).2.Planned := by
  unfold compile
  split
  · exact he
  · dsimp only
    split
    · constructor <;> simp
    · rename_i c hc
      split
      · constructor <;> simp [afterError]
      · refine ⟨fun c' hc' => ?_, by simp⟩
        obtain rfl := Option.some.inj hc'
        unfold Compiled.ofDescription at hc
        obtain ⟨g, -, hc⟩ := Outcome.bind_eq_ok_iff.mp hc
        exact ⟨g, _, _, _, hc⟩

theorem Planned.failed (he : e.Planned) : e.failed.Planned := ⟨he.compiled, by simp [Engine.failed]⟩

theorem Planned.of_prepares (he : e.Planned) {answer : Outcome Unit} (h : e.Prepares answer e') :
    e'.Planned := by
  cases h with
  | refused fault => exact he
  | again p hp => exact ⟨he.compiled, he.prepared⟩
  | stopped error hf => exact he
  | broken error hf => exact he.failed
  | done c p hc hplan hp =>
    refine ⟨he.compiled, fun p' hp' => ⟨c, hc, ?_⟩⟩
    rw [hplan, Option.some.inj hp']

theorem Planned.of_runs (he : e.Planned) {answer : Outcome (Named HostTensor)} (h : e.Runs answer e') :
    e'.Planned := by
  cases h with
  | broken error hf => exact he.failed
  | _ => exact he

/-- **One call** keeps what is held compiled and planned. -/
theorem Planned.afterCall (he : e.Planned) (call : Call) : (e.afterCall call).Planned :=
  kept_afterCall (P := Planned)
    (fun _ d description weights r he => he.of_compile d description weights r)
    (fun _ _ _ he h => he.of_prepares h) (fun _ _ _ he h => he.of_runs h) he call

theorem Planned.afterCalls (he : e.Planned) (calls : List Call) : (e.afterCalls calls).Planned :=
  kept_afterCalls (fun _ call he => he.afterCall call) he calls

/-- **Sharing pipelines by text is sound.** Any two programs of one text are told of the same slots and
targets. So on every engine, whatever was called on it, each program of the compiled graph gets the pipeline
that it would have alone, and as many are built as there are texts, which are no more than the shaders. -/
theorem pipelines_shared :
    (∀ p q : Program, p.Produced → q.Produced → p.source = q.source →
      p.pipeline.slots = q.pipeline.slots ∧ p.pipeline.targets = q.pipeline.targets) ∧
    ∀ (d : Device) (o : EngineOptions) (e : Engine), new d o = .ok e →
      ∀ (calls : List Call) (c : Compiled), (e.afterCalls calls).compiled = some c →
      (Pipeline.share [] c.programs).1 = c.programs.map Program.pipeline ∧
      (Pipeline.share [] c.programs).2.length ≤ c.uniqueShaders ∧
      ∀ p, (e.afterCalls calls).prepared = some p →
        p.pipelines = (Pipeline.share [] c.programs).2.length := by
  refine ⟨fun p q hp hq h => ?_, fun d o e h calls c hc => ?_⟩
  · rw [Program.pipeline_eq hp hq h]
    exact ⟨rfl, rfl⟩
  · have hplanned := (new_planned h).afterCalls calls
    obtain ⟨g, o', limits, r, hgraph⟩ := hplanned.compiled c hc
    have hlength : (Pipeline.share [] c.programs).2.length =
        (c.programs.map Program.source).eraseDups.length := by
      rw [Pipeline.length_share, List.length_nil, Nat.zero_add, List.filter_eq_self.mpr]
      exact fun source _ => decide_eq_true List.not_mem_nil
    refine ⟨Pipeline.share_given (fun q hq => absurd hq List.not_mem_nil)
      (Compiled.produced_of_ofGraph hgraph), ?_, ?_⟩
    · rw [hlength]
      exact Compiled.texts_le_uniqueShaders hgraph
    · intro p hp
      obtain ⟨c', hc', hplan⟩ := hplanned.prepared p hp
      obtain rfl := Option.some.inj (hc'.symm.trans hc)
      rw [hlength, pipelines_of_plan hplan]

end Planned

open scoped CommandLine

/-- Two positions of one channel, as an image. -/
def strip : Layout := ⟨[1, 2, 1], 2, 1, 4, 2, 1, 2, 1, 1, 1, 1, 1⟩

/-- The same image in a batch of one. -/
def batched : Layout := { strip with shape := [1, 1, 2, 1] }

/-- The shader that rectifies an image of two positions. -/
def rectifying : Wgsl.Shader :=
  match Wgsl.shader .relu .relu [strip] strip with
  | .ok shader => shader
  | .error _ => []

/-- The program that rectifies the image. -/
def rectified : Program :=
  .assemble (.bare "x" .relu) [⟨.node "a", strip⟩] ⟨.relu, .relu, [strip], strip⟩ (0, rectifying)

/-- The cache that it leaves behind. -/
def kept : ShaderCache := ⟨[(⟨.relu, .relu, [strip], strip⟩, rectifying)]⟩

/-- The program that rectifies the image in a batch, compiled behind the other. -/
def rectifiedBatch : Program :=
  .assemble (.bare "y" .relu) [⟨.node "b", batched⟩] ⟨.relu, .relu, [batched], batched⟩ (1, rectifying)

theorem rectifying_accepted : Wgsl.Validator.accepts rectifying := by decide +kernel

/-- Two keys with one text. -/
theorem rectified_produced : rectified.Produced ∧ rectifiedBatch.Produced := by
  have hfirst : Program.compile .empty (.bare "x" .relu) [⟨.node "a", strip⟩] none strip =
      (.ok rectified, kept) := Program.compile_of_accepted rfl rfl rfl rectifying_accepted
  have hsecond : Program.compile kept (.bare "y" .relu) [⟨.node "b", batched⟩] none batched =
      (.ok rectifiedBatch, ⟨(⟨.relu, .relu, [batched], batched⟩, rectifying) :: kept.entries⟩) :=
    Program.compile_of_accepted rfl rfl rfl rectifying_accepted
  have hgrown := ShaderCache.Grown.empty.compile (.bare "x" .relu) [⟨.node "a", strip⟩] none strip
  rw [hfirst] at hgrown
  exact ⟨⟨_, _, _, _, _, .empty, congrArg Prod.fst hfirst⟩,
    ⟨_, _, _, _, _, hgrown, congrArg Prod.fst hsecond⟩⟩

/-- A compiled engine is prepared where there are pipelines for its programs and room for its outputs. -/
theorem Consistent.prepared_of_compiled (he : e.Consistent) (hp : e.phase = .compiled) {c : Compiled}
    (hc : e.compiled = some c) (hpipelines : hasPipelines d c) {p : Prepared} (hplan : plan c = .ok p)
    (hd : ∀ step, d.accepts step) :
    (e.prepare d).2.prepared = some p ∧ (e.prepare d).2.compiled = some c := by
  have hnone : e.prepared = none := by
    rw [← Option.not_isSome_iff_eq_none, he.prepared_iff, hp]
    decide
  have hbuild : e.build d = .ok p := by
    unfold build
    rw [hc]
    dsimp only
    rw [hpipelines, hplan, Outcome.bind_of_eq_ok rfl, Device.ask, hd]
    rfl
  have hnext : e.phase.after .prepare = .ok .ready := by
    rw [hp]
    rfl
  unfold prepare
  rw [hnext, hnone, hbuild]
  exact ⟨rfl, hc⟩

/-- A device that accepts everything. -/
def willing : Device := { Device.idle with accepts := fun _ => true }

/-- A graph that rectifies what it is given. -/
def rectifier : Model.Description where
  format := none
  topology := .graph [⟨"x", "Placeholder", [], .empty⟩, ⟨"y", "Relu", ["x"], .empty⟩]
  signature := none
  groups := []

/-- Compile and prepare a graph. -/
def steady : List Call :=
  [.compile .idle rectifier .empty ⟨["y"], .ofList [("x", [1, 2, 1])]⟩, .prepare willing]

/-- Two programs of different keys have one text and are told the same beside it, and an engine that compiled
and prepared a graph builds its pipelines by text. -/
theorem rectified_shared : rectified.shaderId ≠ rectifiedBatch.shaderId ∧
    rectified.pipeline.slots = rectifiedBatch.pipeline.slots ∧
    rectified.pipeline.targets = rectifiedBatch.pipeline.targets ∧
    ∃ c p, (fresh.afterCalls steady).compiled = some c ∧ (fresh.afterCalls steady).prepared = some p ∧
      p.pipelines = (Pipeline.share [] c.programs).2.length ∧ p.pipelines ≤ c.uniqueShaders := by
  obtain ⟨hfirst, hsecond⟩ := rectified_produced
  obtain ⟨hslots, htargets⟩ := pipelines_shared.1 rectified rectifiedBatch hfirst hsecond rfl
  refine ⟨by decide, hslots, htargets, ?_⟩
  have hconsistent := (new_consistent fresh_new).afterCalls (steady.take 1)
  have hphase : (fresh.afterCalls (steady.take 1)).phase = .compiled := by cbv
  have hpipelines : (fresh.afterCalls (steady.take 1)).compiled.any (hasPipelines willing) := by cbv
  obtain ⟨c, hc, hcan⟩ := (Option.any_eq_true _ _).mp hpipelines
  have hplans : (fresh.afterCalls (steady.take 1)).compiled.any fun c =>
      ((c.schedule.outputs.filterMap fun o => c.layouts.find? o.node).mapM readbackBytes).isOk := by cbv
  rw [hc] at hplans
  obtain ⟨sizes, hsizes⟩ := Outcome.exists_of_isOk hplans
  obtain ⟨p, hplan⟩ : ∃ p, plan c = .ok p := ⟨_, Outcome.bind_eq_ok_iff.mpr ⟨sizes, hsizes, rfl⟩⟩
  obtain ⟨hprepared, hcompiled⟩ := hconsistent.prepared_of_compiled hphase hc hcan hplan fun _ => rfl
  obtain ⟨-, hfewer, hbuilt⟩ := pipelines_shared.2 .idle {} fresh fresh_new steady c hcompiled
  have hcount := hbuilt p hprepared
  exact ⟨c, p, hcompiled, hprepared, hcount, hcount ▸ hfewer⟩

end Engine

end TexelFlow
