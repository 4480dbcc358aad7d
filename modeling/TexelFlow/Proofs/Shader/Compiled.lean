import TexelFlow.CommandLine.Validator
import TexelFlow.Shader.Compile
import TexelFlow.Proofs.Schedule.Described
import TexelFlow.Proofs.Texture.Layout

/-!
# What programs read

A compiled graph is put together by passes over its schedule that know nothing of each other: one lists
the tensors that are in textures, one lays them out, one writes the programs and decides for every
texture whether it is uploaded or computed, and the uploads are listed last. Each pass has its own view of
which inputs of a node are textures, and a resize, whose size is none, is the case in which the views could
differ. This module proves that they agree: whatever a program reads is uploaded, fed or written by an
earlier program, and has a layout.

## Main statements

* `Schedule.layouts_eq_ok` — the nodes that have a layout, and which one.
* `Schedule.serves_of_programOf` — the program of a node reads what the node reads.
* `Compiled.reads_of_ofGraph` — no program reads what is missing, stale or being written.

## §1 — layouts
## §2 — the program of a node
## §3 — programs in their order
## §4 — compiled graphs
## §5 — a resize in front of a sum
-/

namespace TexelFlow

/-! ## §1 — layouts -/

namespace Schedule

variable {s : Schedule} {limits : Layout.Limits} {options : Layout.Options}
  {known known' : Named Layout} {names : List String}

/-- Laying out adds the layouts of the listed nodes to those that are known. -/
theorem layoutsFrom_eq_ok (h : s.layoutsFrom limits options known names = .ok known')
    (hknown : ∀ name l, known.find? name = some l → s.layoutOf limits options name = .ok l) :
    (∀ name, known'.contains name ↔ known.contains name ∨ name ∈ names) ∧
      ∀ name l, known'.find? name = some l → s.layoutOf limits options name = .ok l := by
  induction names generalizing known with
  | nil =>
    rw [layoutsFrom] at h
    cases h
    exact ⟨fun name => by simp, hknown⟩
  | cons head rest ih =>
    rw [layoutsFrom] at h
    split at h
    · rename_i hhead
      obtain ⟨hcontains, hlayouts⟩ := ih h hknown
      refine ⟨fun name => ?_, hlayouts⟩
      rw [hcontains, List.mem_cons]
      constructor
      · rintro (hname | hname)
        · exact .inl hname
        · exact .inr (.inr hname)
      · rintro (hname | rfl | hname)
        · exact .inl hname
        · exact .inl hhead
        · exact .inr hname
    · obtain ⟨l, hl, h⟩ := Outcome.bind_eq_ok_iff.mp h
      have hinsert : ∀ name l', (known.insert head l).find? name = some l' →
          s.layoutOf limits options name = .ok l' := by
        intro name l' hl'
        rw [Named.find?_insert] at hl'
        split at hl'
        · rename_i heq
          rw [← heq, hl, Option.some.inj hl']
        · exact hknown name l' hl'
      obtain ⟨hcontains, hlayouts⟩ := ih h hinsert
      refine ⟨fun name => ?_, hlayouts⟩
      have hhead : (known.insert head l).contains name ↔ known.contains name ∨ name = head := by
        unfold Named.contains
        rw [Named.find?_insert]
        by_cases heq : head = name
        · simp [heq]
        · simp [heq, Ne.symm heq]
      rw [hcontains, hhead, List.mem_cons, or_assoc]

/-- A layout in textures is computed from the descriptor of its node. -/
theorem exists_compute_of_layouts (h : s.layouts limits options = .ok known) {name : String} {l : Layout}
    (hl : known.find? name = some l) :
    ∃ d, s.descriptors.find? name = some d ∧ Layout.compute name d limits options = .ok l := by
  have hlayout := (layoutsFrom_eq_ok h fun name l hl => by cases hl).2 name l hl
  unfold layoutOf at hlayout
  split at hlayout
  · rename_i d hd
    exact ⟨d, hd, hlayout⟩
  · cases hlayout

/-- **The nodes that have a layout** are those whose tensors are in textures, and the layout of a node
has the shape of its descriptor. -/
theorem layouts_eq_ok (h : s.layouts limits options = .ok known) :
    (∀ name, known.contains name ↔ name ∈ s.textureNodes) ∧
      ∀ name l, known.find? name = some l →
        ∃ d, s.descriptors.find? name = some d ∧ l.shape = d.shape := by
  obtain ⟨hcontains, -⟩ := layoutsFrom_eq_ok h fun name l hl => by cases hl
  refine ⟨fun name => ?_, fun name l hl => ?_⟩
  · rw [hcontains]
    exact ⟨fun h => h.resolve_left (by simp [Named.contains]), .inr⟩
  · obtain ⟨d, hd, hcompute⟩ := exists_compute_of_layouts h hl
    exact ⟨d, hd, Layout.compute_shape hcompute⟩

/-- What is in textures, by the reasons for it. -/
theorem mem_textureNodes_iff {name : String} : name ∈ s.textureNodes ↔
    (∃ n ∈ s.operations, name ∈ n.boundInputs) ∨ name ∈ s.inputs.map (·.node) ∨
      name ∈ s.operations.map (·.name) ∨ name ∈ s.outputs.map (·.node) := by
  unfold textureNodes
  rw [List.mem_append, List.mem_append, List.mem_flatMap]
  constructor
  · rintro ((h | ⟨n, hn, h⟩) | h)
    · exact .inr (.inl h)
    · rcases List.mem_cons.mp h with rfl | h
      · exact .inr (.inr (.inl (List.mem_map_of_mem hn)))
      · exact .inl ⟨n, hn, h⟩
    · exact .inr (.inr (.inr h))
  · rintro (⟨n, hn, h⟩ | h | h | h)
    · exact .inl (.inr ⟨n, hn, List.mem_cons_of_mem _ h⟩)
    · exact .inl (.inl h)
    · obtain ⟨n, hn, rfl⟩ := List.mem_map.mp h
      exact .inl (.inr ⟨n, hn, List.mem_cons_self⟩)
    · exact .inr h

end Schedule

/-! ## §2 — the program of a node -/

/-- The node behind a texture. -/
def TextureSource.name : TextureSource → String
  | .node name => name
  | .weight name => name

/-- The texture of a binding. -/
def Binding.source? (b : Binding) : Option TextureSource :=
  match b.resource with
  | .texture source => some source
  | .drawParams => none

/-- The textures that a program reads. -/
def Program.sources (p : Program) : List TextureSource := p.bindings.filterMap Binding.source?

/-- A program serves a node when it writes the texture of the node and reads those of its inputs. -/
structure Program.Serves (p : Program) (s : Schedule) (n : Node) : Prop where
  node : p.node = n.name
  sources : p.sources = n.boundInputs.map s.textureSource

/-- Textures are bound one for each role. -/
theorem sources_textureBindings {slot : Nat} {roles : List String} {sources : List TextureSource}
    (h : roles.length = sources.length) :
    (textureBindings slot roles sources).filterMap Binding.source? = sources := by
  induction sources generalizing slot roles with
  | nil =>
    obtain rfl := List.length_eq_zero_iff.mp h
    rfl
  | cons source sources ih =>
    match roles, h with
    | role :: roles, h =>
      rw [textureBindings, List.filterMap_cons, ih (Nat.succ.inj h)]
      rfl

theorem Node.mem_inputNames_of_boundInputs {n : Node} {name : String} (h : name ∈ n.boundInputs) :
    name ∈ n.inputNames := by
  unfold boundInputs at h
  split at h
  · exact List.mem_of_mem_take h
  · exact h

namespace Program

variable {cache cache' : ShaderCache} {n : Node} {inputs : List TextureInput} {size : Option Tensor}
  {output : Layout} {p : Program}

/-- What a key consists of. -/
theorem key_eq_ok {k : ShaderKey} (h : key n inputs size output = .ok k) :
    ∃ pass, Pass.resolve n (inputs.map (·.layout)) size = .ok pass ∧ pass.roles.length = inputs.length ∧
      k = ⟨n.op, pass, inputs.map (·.layout), output⟩ := by
  unfold key at h
  obtain ⟨pass, hpass, h⟩ := Outcome.bind_eq_ok_iff.mp h
  obtain ⟨hroles, h⟩ := Outcome.check_eq_ok_iff.mp h
  exact ⟨pass, hpass, Classical.not_not.mp hroles, (Outcome.pure_eq_ok_iff.mp h).symm⟩

/-- What is compiled is assembled from a key and the shader that is fetched for it. -/
theorem exists_fetch_of_compile [Wgsl.Validator] (h : compile cache n inputs size output = (.ok p, cache')) :
    ∃ k found, key n inputs size output = .ok k ∧ cache.fetch k n.name = (.ok found, cache') ∧
      p = assemble n inputs k found := by
  unfold compile at h
  split at h
  · cases (Prod.mk.inj h).1
  · rename_i k hk
    split at h
    · cases (Prod.mk.inj h).1
    · rename_i found _ hfetch
      obtain ⟨hp, rfl⟩ := Prod.mk.inj h
      exact ⟨k, found, hk, hfetch, (Except.ok.inj hp).symm⟩

/-- **A program reads the textures it is compiled for**, one for each role of its pass. -/
theorem compile_eq_ok [Wgsl.Validator] (h : compile cache n inputs size output = (.ok p, cache')) :
    p.node = n.name ∧ p.sources = inputs.map (·.source) := by
  obtain ⟨k, found, hk, -, rfl⟩ := exists_fetch_of_compile h
  obtain ⟨pass, -, hroles, rfl⟩ := key_eq_ok hk
  have hlength : pass.roles.length = (inputs.map (·.source)).length := by rw [List.length_map, hroles]
  exact ⟨rfl, sources_textureBindings hlength⟩

end Program

namespace Schedule

variable {s : Schedule} {layouts : Named Layout} {cache cache' : ShaderCache} {n : Node} {p : Program}

theorem textureInputs_source {inputs : List TextureInput} (h : s.textureInputs layouts n = .ok inputs) :
    inputs.map (·.source) = n.boundInputs.map s.textureSource := by
  unfold textureInputs at h
  rw [← List.forall₂_eq_eq_eq, List.forall₂_map_left_iff, List.forall₂_map_right_iff]
  refine (Outcome.mapM_eq_ok_iff.mp h).flip.imp fun input name hinput => ?_
  obtain ⟨l, -, hinput⟩ := Outcome.bind_eq_ok_iff.mp hinput
  rw [← Outcome.pure_eq_ok_iff.mp hinput]

/-- The program of a node is compiled for the textures of its inputs and the layout of its output. -/
theorem exists_compile_of_programOf [Wgsl.Validator] (h : s.programOf layouts cache n = .ok (p, cache')) :
    ∃ inputs output, s.textureInputs layouts n = .ok inputs ∧ textureLayout layouts n.name = .ok output ∧
      Program.compile cache n inputs (s.constantSize n) output = (.ok p, cache') := by
  unfold programOf at h
  obtain ⟨inputs, hinputs, h⟩ := Outcome.bind_eq_ok_iff.mp h
  obtain ⟨output, houtput, h⟩ := Outcome.bind_eq_ok_iff.mp h
  refine ⟨inputs, output, hinputs, houtput, ?_⟩
  cases hcompile : Program.compile cache n inputs (s.constantSize n) output with
  | mk program cache'' =>
    rw [hcompile] at h
    obtain ⟨p', hp', h⟩ := Outcome.bind_eq_ok_iff.mp h
    obtain ⟨rfl, rfl⟩ := Prod.mk.inj (Outcome.pure_eq_ok_iff.mp h)
    rw [hp']

/-- **The program of a node serves it.** -/
theorem serves_of_programOf [Wgsl.Validator] (h : s.programOf layouts cache n = .ok (p, cache')) : p.Serves s n := by
  obtain ⟨inputs, output, hinputs, -, hcompile⟩ := exists_compile_of_programOf h
  obtain ⟨hnode, hsources⟩ := Program.compile_eq_ok hcompile
  exact ⟨hnode, by rw [hsources, textureInputs_source hinputs]⟩

/-! ## §3 — programs in their order -/

/-- There is one program for each node, in their order. -/
theorem programsFrom_eq_ok [Wgsl.Validator] {nodes : List Node} {programs : List Program}
    (h : s.programsFrom layouts cache nodes = .ok programs) :
    List.Forall₂ (fun n p => p.Serves s n) nodes programs := by
  induction nodes generalizing cache programs with
  | nil =>
    rw [programsFrom] at h
    cases h
    exact .nil
  | cons n rest ih =>
    rw [programsFrom] at h
    obtain ⟨⟨p, cache'⟩, hp, h⟩ := Outcome.bind_eq_ok_iff.mp h
    obtain ⟨programs', hprograms, h⟩ := Outcome.bind_eq_ok_iff.mp h
    obtain rfl := Outcome.pure_eq_ok_iff.mp h
    exact .cons (serves_of_programOf hp) (ih hprograms)

/-- Before an operation among the operations stand the operations among the nodes before it. -/
theorem exists_split_of_operations {ops ops' : List Node} (h : s.operations = ops ++ n :: ops') :
    ∃ before after, s.nodes = before ++ n :: after ∧ ops = before.filter fun m => !m.op.isData := by
  unfold operations at h
  obtain ⟨left, right, hnodes, rfl, hright⟩ := List.filter_eq_append_iff.mp h
  obtain ⟨skipped, after, rfl, hskipped, -, -⟩ := List.filter_eq_cons_iff.mp hright
  refine ⟨left ++ skipped, after, by rw [hnodes, List.append_assoc], ?_⟩
  rw [List.filter_append, List.filter_eq_nil_iff.mpr hskipped, List.append_nil]

end Schedule

/-- **What a scheduled node reads** is a constant, fed, or computed before it. -/
theorem Graph.source_of_input {g : Graph} {r : Request} {s : Schedule} (hb : g.Built)
    (hs : g.schedule r = .ok s) {before after : List Node} {n : Node}
    (hsplit : s.nodes = before ++ n :: after) {name : String} (hname : name ∈ n.inputNames) :
    name ≠ n.name ∧
      ((∃ t, s.constants.find? name = some t ∧ s.textureSource name = .weight name) ∨
        s.textureSource name = .node name ∧ (name ∈ s.inputs.map (·.node) ∨
          name ∈ (before.filter fun m => !m.op.isData).map (·.name))) := by
  have hbefore := scheduledNodes_behind hb hs hsplit hname
  have hdistinct := scheduledNames_nodup hs
  obtain ⟨m, hm, rfl⟩ := List.mem_map.mp hbefore
  have hscheduled : m ∈ s.nodes := by
    rw [hsplit]
    exact List.mem_append_left _ hm
  constructor
  · -- names are distinct, and the node stands behind `m`
    rw [hsplit, List.map_append, List.map_cons, List.nodup_append] at hdistinct
    exact hdistinct.2.2 _ hbefore _ List.mem_cons_self
  cases ht : s.constants.find? m.name with
  | some t =>
    refine .inl ⟨t, rfl, ?_⟩
    simp [Schedule.textureSource, Named.contains, ht]
  | none =>
    refine .inr ⟨by simp [Schedule.textureSource, Named.contains, ht], ?_⟩
    cases hop : m.op.isData with
    | true =>
      rcases Operator.isData_iff.mp hop with hop | hop
      · refine .inl ?_
        rw [inputNodes_eq hs]
        exact List.mem_map_of_mem (List.mem_filter.mpr ⟨hscheduled, by simp [hop]⟩)
      · obtain ⟨t, ht'⟩ := exists_constant_of_scheduled hs hscheduled hop
        rw [ht] at ht'
        cases ht'
    | false => exact .inr (List.mem_map_of_mem (List.mem_filter.mpr ⟨hm, by simp [hop]⟩))

/-! ## §4 — compiled graphs -/

namespace Compiled

/-- A texture can be read behind some programs: it belongs to a constant that is uploaded, or to a node
that is fed or that one of the programs wrote. -/
def Ready (c : Compiled) (before : List Program) : TextureSource → Prop
  | .weight name => ∃ t l, c.schedule.constants.find? name = some t ∧ (name, t, l) ∈ c.weights
  | .node name => name ∈ c.schedule.inputs.map (·.node) ∨ name ∈ before.map (·.node)

/-- **No program reads what is missing, stale or being written.** -/
structure ReadsReady (c : Compiled) : Prop where
  /-- There is one program for each operation, in their order. -/
  order : c.programs.map (·.node) = c.schedule.operations.map (·.name)
  /-- What a program reads is there before it runs. -/
  ready : ∀ before p after, c.programs = before ++ p :: after →
    ∀ source ∈ p.sources, c.Ready before source
  /-- No program reads what it writes. -/
  apart : ∀ p ∈ c.programs, ∀ source ∈ p.sources, source.name ≠ p.node
  /-- A node has a layout when a program reads it, when it is fed, when it is an operation, and when it
  is an output, and at no other time. -/
  placed : ∀ name, c.layouts.contains name ↔
    (∃ p ∈ c.programs, ∃ source ∈ p.sources, source.name = name) ∨
    name ∈ c.schedule.inputs.map (·.node) ∨ name ∈ c.schedule.operations.map (·.name) ∨
    name ∈ c.schedule.outputs.map (·.node)
  /-- A layout has the shape that the schedule says. -/
  shaped : ∀ name l, c.layouts.find? name = some l →
    ∃ d, c.schedule.descriptors.find? name = some d ∧ l.shape = d.shape

variable {g : Graph} {o : EngineOptions} {limits : DeviceLimits} {r : CompileRequest} {c : Compiled}

/-- What a compiled graph consists of. -/
theorem ofGraph_eq_ok [Wgsl.Validator] (h : ofGraph g o limits r = .ok c) :
    g.schedule ⟨r.outputs, o.batch, r.shapes, none⟩ = .ok c.schedule ∧
      c.schedule.layouts (o.layoutLimits limits) o.layoutOptions = .ok c.layouts ∧
      c.schedule.programsFrom c.layouts .empty c.schedule.operations = .ok c.programs := by
  unfold ofGraph at h
  obtain ⟨_, -, h⟩ := Outcome.bind_eq_ok_iff.mp h
  obtain ⟨schedule, hschedule, h⟩ := Outcome.bind_eq_ok_iff.mp h
  obtain ⟨layouts, hlayouts, h⟩ := Outcome.bind_eq_ok_iff.mp h
  obtain ⟨programs, hprograms, h⟩ := Outcome.bind_eq_ok_iff.mp h
  obtain rfl := Outcome.pure_eq_ok_iff.mp h
  exact ⟨hschedule, hlayouts, hprograms⟩

/-- A constant with a layout is uploaded. -/
theorem mem_weights {name : String} {t : Tensor} {l : Layout}
    (ht : c.schedule.constants.find? name = some t) (hl : c.layouts.find? name = some l) :
    (name, t, l) ∈ c.weights := by
  unfold weights
  refine List.mem_filterMap.mpr ⟨(name, t), Named.mem_entries_iff.mpr ht, ?_⟩
  simp only [hl, Option.map_some]

/-- Programs that serve nodes, split at a program. -/
theorem exists_split_of_serves {s : Schedule} {nodes : List Node} {before after : List Program}
    {p : Program} (h : List.Forall₂ (fun n p => p.Serves s n) nodes (before ++ p :: after)) :
    ∃ left n right, nodes = left ++ n :: right ∧ p.Serves s n ∧
      before.map (·.node) = left.map (·.name) := by
  induction before generalizing nodes with
  | nil =>
    obtain ⟨n, right, hn, -, rfl⟩ := List.forall₂_cons_right_iff.mp h
    exact ⟨[], n, right, rfl, hn, rfl⟩
  | cons q before ih =>
    obtain ⟨m, rest, hm, hrest, rfl⟩ := List.forall₂_cons_right_iff.mp h
    obtain ⟨left, n, right, rfl, hn, hbefore⟩ := ih hrest
    refine ⟨m :: left, n, right, rfl, hn, ?_⟩
    rw [List.map_cons, List.map_cons, hm.node, hbefore]

theorem names_of_serves {s : Schedule} {nodes : List Node} {programs : List Program}
    (h : List.Forall₂ (fun n p => p.Serves s n) nodes programs) :
    programs.map (·.node) = nodes.map (·.name) := by
  rw [← List.forall₂_eq_eq_eq, List.forall₂_map_left_iff, List.forall₂_map_right_iff]
  exact h.flip.imp fun p n hp => hp.node

/-- **Each read of a program** is ready, and is not of what the program writes. -/
theorem ready_of_split [Wgsl.Validator] (hb : g.Built) (h : ofGraph g o limits r = .ok c)
    {before after : List Program} {p : Program} (hsplit : c.programs = before ++ p :: after)
    {source : TextureSource} (hsource : source ∈ p.sources) :
    c.Ready before source ∧ source.name ≠ p.node := by
  obtain ⟨hschedule, hlayouts, hprograms⟩ := ofGraph_eq_ok h
  have hall := Schedule.programsFrom_eq_ok hprograms
  rw [hsplit] at hall
  obtain ⟨left, n, right, hoperations, hserves, hbefore⟩ := exists_split_of_serves hall
  obtain ⟨behind, after', hnodes, rfl⟩ := Schedule.exists_split_of_operations hoperations
  rw [hserves.sources] at hsource
  obtain ⟨name, hname, rfl⟩ := List.mem_map.mp hsource
  obtain ⟨hne, hfrom⟩ := Graph.source_of_input hb hschedule hnodes
    (Node.mem_inputNames_of_boundInputs hname)
  rw [hserves.node]
  rcases hfrom with ⟨t, ht, hweight⟩ | ⟨hnode, hready⟩
  · -- an uploaded constant: it has a layout because a program binds it
    have hn : n ∈ c.schedule.operations := by
      rw [hoperations]
      exact List.mem_append_right _ List.mem_cons_self
    have hlaid := ((Schedule.layouts_eq_ok hlayouts).1 name).mpr
      (Schedule.mem_textureNodes_iff.mpr (.inl ⟨n, hn, hname⟩))
    obtain ⟨l, hl⟩ := Option.isSome_iff_exists.mp hlaid
    rw [hweight]
    exact ⟨⟨t, l, ht, mem_weights ht hl⟩, hne⟩
  · rw [hnode]
    rw [← hbefore] at hready
    exact ⟨hready, hne⟩

/-- What programs read is what operations bind. -/
theorem exists_read_iff {s : Schedule} {nodes : List Node} {programs : List Program}
    (h : List.Forall₂ (fun n p => p.Serves s n) nodes programs) {name : String} :
    (∃ p ∈ programs, ∃ source ∈ p.sources, source.name = name) ↔
      ∃ n ∈ nodes, name ∈ n.boundInputs := by
  have hname : ∀ name, (s.textureSource name).name = name := by
    intro name
    unfold Schedule.textureSource
    split
    · rfl
    · rfl
  induction h with
  | nil => simp
  | @cons n p _ _ hp _ ih =>
    have hhead : (∃ source ∈ p.sources, source.name = name) ↔ name ∈ n.boundInputs := by
      rw [hp.sources]
      simp [hname]
    simp only [List.mem_cons, exists_eq_or_imp, hhead, ih]

/-- **What programs read** in a compiled graph is there, and nothing is in textures but what they read,
what the graph is fed, what it computes and what it is asked for. -/
theorem reads_of_ofGraph [Wgsl.Validator] (hb : g.Built) (h : ofGraph g o limits r = .ok c) : c.ReadsReady := by
  obtain ⟨-, hlayouts, hprograms⟩ := ofGraph_eq_ok h
  obtain ⟨hplaced, hshaped⟩ := Schedule.layouts_eq_ok hlayouts
  have hall := Schedule.programsFrom_eq_ok hprograms
  constructor
  case order => exact names_of_serves hall
  case ready =>
    intro before p after hsplit source hsource
    exact (ready_of_split hb h hsplit hsource).1
  case apart =>
    intro p hp source hsource
    obtain ⟨before, after, hsplit⟩ := List.append_of_mem hp
    exact (ready_of_split hb h hsplit hsource).2
  case placed =>
    intro name
    rw [hplaced, Schedule.mem_textureNodes_iff, exists_read_iff hall]
  case shaped => exact hshaped

end Compiled

/-! ## §5 — a resize in front of a sum -/

namespace Graph

open scoped CommandLine

/-- A resize whose size is a constant, and its sum with another constant. -/
def enlargedNodes : List Node :=
  [⟨"x", .placeholder, [], .ofList [("shape", .numbers [.one, .one, .one])], []⟩,
   ⟨"size", .const, [], .empty, []⟩,
   ⟨"k", .const, [], .empty, []⟩,
   ⟨"r", .resize, [.first "x", .first "size"], .empty, ["size"]⟩,
   ⟨"y", .add, [.first "r", .first "k"], .empty, ["k"]⟩]

/-- The size and the other summand. -/
def enlargedConstants : Tensors :=
  .ofList [("k", ⟨[1], .float32 [.half], by decide⟩), ("size", ⟨[2], .float32 [.one, .one], by cbv⟩)]

/-- The graph of the sum. -/
def enlarged : Graph where
  nodes := enlargedNodes
  constants := enlargedConstants
  signature := none
  named := by decide
  distinct := by decide
  wired := by decide
  given := by decide

theorem enlarged_built : enlarged.Built := .assembled enlargedNodes enlargedConstants none (by cbv)

/-- The schedule of the sum. -/
def enlargedSchedule : Schedule where
  nodes := [enlargedNodes[2], enlargedNodes[1], enlargedNodes[0], enlargedNodes[3], enlargedNodes[4]]
  descriptors := .ofList [("k", ⟨[1], .float32⟩), ("size", ⟨[2], .float32⟩),
    ("x", ⟨[1, 1, 1], .float32⟩), ("r", ⟨[1, 1, 1], .float32⟩), ("y", ⟨[1, 1, 1], .float32⟩)]
  inputs := [⟨"x", "x", .float32, some [1, 1, 1], [1, 1, 1]⟩]
  outputs := [⟨"y", "y"⟩]
  constants := enlargedConstants
  batch := .kept

theorem enlarged_schedule : enlarged.schedule ⟨["y"], .kept, .empty, none⟩ = .ok enlargedSchedule := by
  have hneeded : enlarged.dependencies.ancestors
      (enlargedSchedule.outputs.filterMap fun o => enlarged.place? o.node) =
      [⟨2, by decide⟩, ⟨1, by decide⟩, ⟨0, by decide⟩, ⟨3, by decide⟩, ⟨4, by decide⟩] := by cbv
  have hnodes : enlarged.neededNodes
      [⟨2, by decide⟩, ⟨1, by decide⟩, ⟨0, by decide⟩, ⟨3, by decide⟩, ⟨4, by decide⟩]
      enlargedSchedule.outputs = enlargedSchedule.nodes := by
    unfold neededNodes keptVertices
    rw [hneeded]
    cbv
  exact schedule_of_stages (by cbv) (by cbv) hnodes (by decide +kernel) (by cbv)
    (by decide +kernel) rfl rfl

/-- A device with small textures. -/
def enlargedLimits : DeviceLimits := ⟨64, 64, 64⟩

theorem enlarged_compiles : (Compiled.ofGraph enlarged {} enlargedLimits ⟨["y"], .empty⟩).isOk := by
  have hvalid : EngineOptions.validate {} enlargedLimits = .ok () := by decide
  have hschedule : enlarged.schedule ⟨["y"], EngineOptions.batch {}, .empty, none⟩ =
      .ok enlargedSchedule := enlarged_schedule
  unfold Compiled.ofGraph
  rw [Outcome.bind_of_eq_ok hvalid, Outcome.bind_of_eq_ok hschedule]
  decide +kernel

/-- The sum compiles, and its two programs read what is there. -/
theorem enlarged_reads : enlarged.Built ∧ ∃ c,
    Compiled.ofGraph enlarged {} enlargedLimits ⟨["y"], .empty⟩ = .ok c ∧
    c.programs.map (·.node) = ["r", "y"] ∧ c.ReadsReady := by
  refine ⟨enlarged_built, ?_⟩
  cases h : Compiled.ofGraph enlarged {} enlargedLimits ⟨["y"], .empty⟩ with
  | error e =>
    have hok := enlarged_compiles
    rw [h] at hok
    cases hok
  | ok c =>
    have hreads := Compiled.reads_of_ofGraph enlarged_built h
    have hschedule : c.schedule = enlargedSchedule :=
      Except.ok.inj ((Compiled.ofGraph_eq_ok h).1.symm.trans enlarged_schedule)
    refine ⟨c, rfl, ?_, hreads⟩
    rw [hreads.order, hschedule]
    decide

end Graph

end TexelFlow
