import TexelFlow.CommandLine.RandomInputs
import TexelFlow.Proofs.Device.Nested
import TexelFlow.Proofs.Schedule.Acceptance
import TexelFlow.Proofs.Shader.Compiled

/-!
# Generated inputs

A tensor is drawn for every input that goes by no name of a provided one, of the input's type and in the
shape in which it arrives, and is filed under the input's external name. An input then looks a tensor up by
its external name and only after that by its node, so what it finds was provided under one of its names or
drawn for an input with one of them. Where two inputs have one external name, one tensor is filed for both,
and it fits both only if they are alike.

## Main statements

* `CommandLine.drawInputs_eq_ok` — what is drawn, input by input.
* `CommandLine.completes_of_named`, `CommandLine.completes_of_shared` — where generated inputs fit.
* `CommandLine.alike_of_completes`, `CommandLine.alike_of_completes_some` — where they do not.
* `CommandLine.completes_iff` — all of it, for compiled graphs.

## §1 — host tensors as tensors
## §2 — what an input expects and finds
## §3 — what is drawn
## §4 — completed inputs
## §5 — a name that belongs to two inputs
-/

namespace TexelFlow

/-! ## §1 — host tensors as tensors -/

namespace HostTensor

/-- The tensor of a host tensor's shape and elements. -/
def held (t : HostTensor) : Tensor where
  shape := t.shape
  data := t.data.toTensorData
  filled := by
    rw [t.filled]
    cases t.data <;> rfl

theorem dtype_held (t : HostTensor) : t.held.dtype = t.dtype := by
  show t.data.toTensorData.dtype = t.data.dtype
  cases t.data <;> rfl

variable {given : List (String × HostTensor)} {key : String}

/-- Host tensors by name, as tensors; of two with one name the later one counts. -/
def byName (given : List (String × HostTensor)) : Tensors := .ofList (given.map fun e => (e.1, e.2.held))

/-- **Host tensors are tensors as they are.** -/
theorem toTensors_eq (given : List (String × HostTensor)) : toTensors given = .ok (byName given) := by
  refine Outcome.bind_eq_ok_iff.mpr ⟨_, Outcome.mapM_eq_ok_iff.mpr ?_, rfl⟩
  rw [List.forall₂_map_right_iff, List.forall₂_same]
  intro e _
  exact Outcome.bind_eq_ok_iff.mpr ⟨e.2.held, Tensor.make_eq_ok_iff.mpr ⟨rfl, rfl⟩, rfl⟩

theorem contains_byName_iff : (byName given).contains key ↔ ∃ e ∈ given, e.1 = key := by
  unfold byName
  rw [Named.contains_ofList_iff, List.map_map, List.mem_map]
  rfl

theorem exists_of_find?_byName {u : Tensor} (h : (byName given).find? key = some u) :
    ∃ e ∈ given, e.1 = key ∧ u = e.2.held := by
  obtain ⟨e, he, heq⟩ := List.mem_map.mp (Named.mem_of_find?_ofList h)
  obtain ⟨rfl, rfl⟩ := Prod.mk.inj heq
  exact ⟨e, he, rfl, rfl⟩

end HostTensor

/-! ## §2 — what an input expects and finds -/

namespace InputSpec

variable {i j : InputSpec} {batch : Batch} {t : HostTensor} {given : List (String × HostTensor)}

/-- A name of an input: its external name or its node's. -/
def GoesBy (i : InputSpec) (name : String) : Prop := i.name = name ∨ i.node = name

instance (key : String) : Decidable (i.GoesBy key) := inferInstanceAs (Decidable (_ ∨ _))

/-- The tensors that an input expects: of its type, in the shape in which it arrives. -/
def Expects (i : InputSpec) (batch : Batch) (t : HostTensor) : Prop :=
  t.dtype = i.dtype ∧ t.shape = i.arriving batch

/-- Two inputs of one type and one shape. -/
def Alike (i j : InputSpec) : Prop := i.dtype = j.dtype ∧ i.shape = j.shape

instance : Decidable (i.Alike j) := inferInstanceAs (Decidable (_ ∧ _))

/-- The types that are drawn. -/
def Drawn (i : InputSpec) : Prop := i.dtype = .float32 ∨ i.dtype = .int32

instance : Decidable i.Drawn := inferInstanceAs (Decidable (_ ∨ _))

theorem Alike.symm (h : i.Alike j) : j.Alike i := ⟨h.1.symm, h.2.symm⟩

theorem Alike.expects (h : i.Alike j) (hi : i.Expects batch t) : j.Expects batch t := by
  have hshape : i.arriving batch = j.arriving batch := by
    unfold arriving
    rw [h.2]
  exact ⟨hi.1.trans h.1, hi.2.trans hshape⟩

/-- Inputs that expect one tensor are alike. -/
theorem alike_of_expects (hi : i.Expects batch t) (hj : j.Expects batch t) : i.Alike j := by
  refine ⟨hi.1.symm.trans hj.1, ?_⟩
  have hshape : i.arriving batch = j.arriving batch := hi.2.symm.trans hj.2
  cases batch with
  | kept => exact hshape
  | stripped => exact (List.cons.inj hshape).2

/-- **What an input finds** stands under its external name, or under its node's where nothing stands under
that. -/
theorem exists_of_find?_byName {u : Tensor} (h : i.find? (HostTensor.byName given) = some u) :
    ∃ e ∈ given, u = e.2.held ∧ (i.name = e.1 ∨ (¬ ∃ p ∈ given, p.1 = i.name) ∧ i.node = e.1) := by
  rw [find?_eq_bind_key?, Option.bind_eq_some_iff] at h
  obtain ⟨key, hkey, hu⟩ := h
  obtain ⟨e, he, rfl, rfl⟩ := HostTensor.exists_of_find?_byName hu
  exact ⟨e, he, rfl, by simpa only [HostTensor.contains_byName_iff] using (key?_eq_some_iff.mp hkey).2⟩

/-- An input finds something where something stands under one of its names. -/
theorem exists_find?_byName {e : String × HostTensor} (he : e ∈ given) (h : i.GoesBy e.1) :
    ∃ u, i.find? (HostTensor.byName given) = some u := by
  have hcontains : (HostTensor.byName given).contains e.1 := HostTensor.contains_byName_iff.mpr ⟨e, he, rfl⟩
  unfold find?
  cases hname : (HostTensor.byName given).find? i.name with
  | some u => exact ⟨u, rfl⟩
  | none =>
    rcases h with h | h
    · rw [← h, Named.contains, hname] at hcontains
      cases hcontains
    · rw [← h] at hcontains
      exact Option.isSome_iff_exists.mp hcontains

end InputSpec

namespace CommandLine

/-! ## §3 — what is drawn -/

variable {batch : Batch} {inputs : List InputSpec} {i : InputSpec} {c : Compiled}
  {generated provided given : List (String × HostTensor)} {seed : UInt64}

/-- As many values are drawn as asked for. -/
theorem length_draws {σ α : Type} (draw : σ → α × σ) (count : Nat) (s : σ) :
    (draws draw count s).1.length = count := by
  induction count generalizing s with
  | zero => rfl
  | succ count ih => exact congrArg (· + 1) (ih _)

/-- Tensors are drawn in the shape in which they arrive. -/
theorem givenShape_eq (batch : Batch) (i : InputSpec) : givenShape batch i = i.arriving batch := by
  cases batch <;> rfl

/-- A shape that is counted is counted in the shape in which it arrives. -/
theorem counted_givenShape (batch : Batch) (h : i.shape.Counted) :
    (givenShape batch i).counted = .ok (givenShape batch i).prod := by
  cases batch with
  | kept => exact h.counted
  | stripped => exact (Shape.counted_one_cons_iff.mpr h).counted

theorem isProvided_iff : isProvided provided i ↔ ∃ e ∈ provided, i.GoesBy e.1 := by
  unfold isProvided InputSpec.GoesBy
  rw [List.any_eq_true]
  refine exists_congr fun e => and_congr_right fun _ => ?_
  rw [Bool.or_eq_true, decide_eq_true_eq, decide_eq_true_eq, eq_comm, eq_comm (a := e.1)]

theorem mem_unprovided_iff : i ∈ inputs.filter (fun i => !isProvided provided i) ↔
    i ∈ inputs ∧ ¬ ∃ e ∈ provided, i.GoesBy e.1 := by
  rw [List.mem_filter, Bool.not_eq_true', ← Bool.not_eq_true, isProvided_iff]

section Drawing

open RandomSource (State)

variable [RandomSource] {source source' : State}

/-- Elements that are drawn for an input are of its type. -/
theorem dtype_of_drawData {count : Nat} {data : HostData} (h : drawData source i count = .ok (data, source')) :
    data.dtype = i.dtype := by
  unfold drawData at h
  split at h
  · rename_i hdtype
    obtain ⟨rfl, -⟩ := Prod.mk.inj (Except.ok.inj h)
    exact hdtype.symm
  · rename_i hdtype
    obtain ⟨rfl, -⟩ := Prod.mk.inj (Except.ok.inj h)
    exact hdtype.symm
  · cases h

/-- An input of a type that is drawn gets as many elements as asked for. -/
theorem exists_drawData (h : i.Drawn) (source : State) (count : Nat) :
    ∃ data source', drawData source i count = .ok (data, source') ∧ data.length = count := by
  unfold drawData
  rcases h with h | h
  · rw [h]
    exact ⟨_, _, rfl, length_draws _ _ _⟩
  · rw [h]
    exact ⟨_, _, rfl, length_draws _ _ _⟩

/-- **What is drawn, input by input**: a tensor that the input expects, under its external name. -/
theorem drawInputs_eq_ok (h : drawInputs batch source inputs = .ok generated) :
    List.Forall₂ (fun i e => e.1 = i.name ∧ i.Expects batch e.2) inputs generated := by
  induction inputs generalizing source generated with
  | nil =>
    obtain rfl := Except.ok.inj h
    exact .nil
  | cons i rest ih =>
    unfold drawInputs at h
    dsimp only at h
    obtain ⟨_, -, h⟩ := Outcome.bind_eq_ok_iff.mp h
    obtain ⟨⟨data, source'⟩, hdata, h⟩ := Outcome.bind_eq_ok_iff.mp h
    obtain ⟨t, ht, h⟩ := Outcome.bind_eq_ok_iff.mp h
    obtain ⟨others, hothers, h⟩ := Outcome.bind_eq_ok_iff.mp h
    obtain rfl := Outcome.pure_eq_ok_iff.mp h
    obtain ⟨hshape, hheld⟩ := HostTensor.make_eq_ok_iff.mp (Outcome.mapError_eq_ok_iff.mp ht)
    refine .cons ⟨rfl, ?_, ?_⟩ (ih hothers)
    · rw [HostTensor.dtype, hheld, dtype_of_drawData hdata]
    · rw [hshape, givenShape_eq]

/-- **Drawing succeeds** for inputs of types that are drawn, whose elements can be counted. -/
theorem exists_drawInputs (h : ∀ i ∈ inputs, i.Drawn ∧ i.shape.Counted) (batch : Batch) (source : State) :
    ∃ generated, drawInputs batch source inputs = .ok generated := by
  induction inputs generalizing source with
  | nil => exact ⟨[], rfl⟩
  | cons i rest ih =>
    obtain ⟨⟨hi, hcounted⟩, hrest⟩ := List.forall_mem_cons.mp h
    have hcount := counted_givenShape batch hcounted
    obtain ⟨data, source', hdata, hlength⟩ := exists_drawData hi source (givenShape batch i).prod
    obtain ⟨others, hothers⟩ := ih hrest source'
    let t : HostTensor := ⟨givenShape batch i, data, hlength ▸ hcount⟩
    have hmake : HostTensor.make (givenShape batch i) data = .ok t := HostTensor.make_eq_ok_iff.mpr ⟨rfl, rfl⟩
    refine ⟨(i.name, t) :: others, ?_⟩
    refine Outcome.bind_eq_ok_iff.mpr ⟨_, Outcome.mapError_eq_ok_iff.mpr hcount, ?_⟩
    refine Outcome.bind_eq_ok_iff.mpr ⟨_, hdata, ?_⟩
    refine Outcome.bind_eq_ok_iff.mpr ⟨t, Outcome.mapError_eq_ok_iff.mpr hmake, ?_⟩
    exact Outcome.bind_eq_ok_iff.mpr ⟨others, hothers, rfl⟩

/-- Some tensor is expected by an input of a type that is drawn, whose elements can be counted. -/
theorem exists_expected (h : i.Drawn ∧ i.shape.Counted) (batch : Batch) : ∃ t, i.Expects batch t := by
  obtain ⟨generated, hgenerated⟩ :=
    exists_drawInputs (List.forall_mem_singleton.mpr h) batch (RandomSource.seeded 0)
  obtain ⟨e, -, ⟨-, he⟩, -⟩ := List.forall₂_cons_left_iff.mp (drawInputs_eq_ok hgenerated)
  exact ⟨e.2, he⟩

/-- Whatever is provided, the other inputs can be drawn. -/
theorem exists_randomInputs (h : ∀ i ∈ c.schedule.inputs, i.Drawn ∧ i.shape.Counted)
    (provided : List (String × HostTensor)) (seed : UInt64) :
    ∃ generated, randomInputs c provided seed = .ok generated :=
  exists_drawInputs (fun i hi => h i (mem_unprovided_iff.mp hi).1) _ _

/-- What is drawn goes by the external names of the inputs without a provided tensor, in order. -/
theorem names_of_randomInputs (h : randomInputs c provided seed = .ok generated) :
    generated.map Prod.fst = (c.schedule.inputs.filter fun i => !isProvided provided i).map (·.name) := by
  rw [← List.forall₂_eq_eq_eq, List.forall₂_map_left_iff, List.forall₂_map_right_iff]
  exact (drawInputs_eq_ok h).flip.imp fun _ _ he => he.1

/-- What is drawn was drawn for an input without a provided tensor. -/
theorem exists_input_of_generated (h : randomInputs c provided seed = .ok generated) {e : String × HostTensor}
    (he : e ∈ generated) : ∃ i ∈ c.schedule.inputs, (¬ ∃ p ∈ provided, i.GoesBy p.1) ∧ e.1 = i.name ∧
      i.Expects c.schedule.batch e.2 := by
  obtain ⟨i, hi, hname, hexpects⟩ := Outcome.exists_of_forall₂ (drawInputs_eq_ok h).flip he
  obtain ⟨hi, hnone⟩ := mem_unprovided_iff.mp hi
  exact ⟨i, hi, hnone, hname, hexpects⟩

/-- An input without a provided tensor has one drawn under its external name. -/
theorem exists_generated_of_input (h : randomInputs c provided seed = .ok generated)
    (hi : i ∈ c.schedule.inputs) (hnone : ¬ ∃ p ∈ provided, i.GoesBy p.1) : ∃ e ∈ generated, e.1 = i.name := by
  obtain ⟨e, he, hname, -⟩ :=
    Outcome.exists_of_forall₂ (drawInputs_eq_ok h) (mem_unprovided_iff.mpr ⟨hi, hnone⟩)
  exact ⟨e, he, hname⟩

end Drawing

/-! ## §4 — completed inputs -/

/-- Tensors under names are taken by a compiled graph. -/
def Binds (c : Compiled) (given : List (String × HostTensor)) : Prop :=
  ∃ bound, (HostTensor.toTensors given >>= c.schedule.bind) = .ok bound

/-- A tensor is expected by every input that goes by its name, and there is one. -/
def FitsEvery (s : Schedule) (e : String × HostTensor) : Prop :=
  (∃ i ∈ s.inputs, i.GoesBy e.1) ∧ ∀ i ∈ s.inputs, i.GoesBy e.1 → i.Expects s.batch e.2

/-- A tensor is expected by some input that goes by its name. -/
def FitsSome (s : Schedule) (e : String × HostTensor) : Prop :=
  ∃ i ∈ s.inputs, i.GoesBy e.1 ∧ i.Expects s.batch e.2

/-- Inputs of one external name are alike. -/
def NamedAlike (s : Schedule) : Prop := ∀ i ∈ s.inputs, ∀ j ∈ s.inputs, j.name = i.name → i.Alike j

/-- Inputs are alike where one goes, by either of its names, by the external name of the other. -/
def SharedAlike (s : Schedule) : Prop := ∀ i ∈ s.inputs, ∀ j ∈ s.inputs, j.GoesBy i.name → i.Alike j

/-- **Drawing completes what is provided**: whatever tensors that fit are provided, they are taken together
with those that are drawn for the other inputs. -/
def Completes [RandomSource] (c : Compiled) (fits : String × HostTensor → Prop) : Prop :=
  ∀ provided seed generated, (∀ e ∈ provided, fits e) → randomInputs c provided seed = .ok generated →
    Binds c (provided ++ generated)

section Completes

variable {g : Graph} {r : Request} (hg : g.Signed) (hs : g.schedule r = .ok c.schedule)
include hg hs

theorem binds_iff : Binds c given ↔ c.schedule.Accepts (HostTensor.byName given) := by
  unfold Binds
  rw [HostTensor.toTensors_eq]
  constructor
  · rintro ⟨bound, hbind⟩
    exact Graph.accepts_of_bind hs hbind
  · intro h
    exact Schedule.exists_bind h.known fun i hi => Graph.exists_bindOne_of_accepts hg hs h hi

/-- Of the tensors under a name that are taken, one is expected by every input of that external name. -/
theorem exists_expected_of_binds (h : Binds c given) {name : String} (hname : ∃ e ∈ given, e.1 = name) :
    ∃ e ∈ given, e.1 = name ∧ ∀ i ∈ c.schedule.inputs, i.name = name → i.Expects c.schedule.batch e.2 := by
  have haccepts := (binds_iff hg hs).mp h
  obtain ⟨u, hu⟩ := Option.isSome_iff_exists.mp (HostTensor.contains_byName_iff.mpr hname)
  obtain ⟨e, he, hkey, rfl⟩ := HostTensor.exists_of_find?_byName hu
  refine ⟨e, he, hkey, fun i hi hiname => ?_⟩
  have hfind : i.find? (HostTensor.byName given) = some e.2.held := by
    unfold InputSpec.find?
    rw [hiname, hu]
  obtain ⟨u, hu', hdtype⟩ := haccepts.found i hi
  obtain rfl := Option.some.inj (hfind.symm.trans hu')
  exact ⟨e.2.dtype_held.symm.trans hdtype, haccepts.shaped i hi _ hfind⟩

variable [RandomSource]

/-- Provided and drawn tensors are taken where each input expects the one that it finds. -/
theorem binds_of_generated (hgenerated : randomInputs c provided seed = .ok generated)
    (hknown : ∀ e ∈ provided, ∃ i ∈ c.schedule.inputs, i.GoesBy e.1)
    (hfits : ∀ i ∈ c.schedule.inputs, ∀ e ∈ provided ++ generated,
      (i.name = e.1 ∨ (¬ ∃ p ∈ provided ++ generated, p.1 = i.name) ∧ i.node = e.1) →
      i.Expects c.schedule.batch e.2) : Binds c (provided ++ generated) := by
  have hexpects : ∀ i ∈ c.schedule.inputs, ∀ u,
      i.find? (HostTensor.byName (provided ++ generated)) = some u →
      u.dtype = i.dtype ∧ u.shape = i.arriving c.schedule.batch := by
    intro i hi u hu
    obtain ⟨e, he, rfl, hkey⟩ := InputSpec.exists_of_find?_byName hu
    obtain ⟨hdtype, hshape⟩ := hfits i hi e he hkey
    exact ⟨e.2.dtype_held.trans hdtype, hshape⟩
  refine (binds_iff hg hs).mpr ⟨⟨fun key hkey => ?known, fun i hi => ?found⟩,
    fun i hi u hu => (hexpects i hi u hu).2⟩
  case known =>
    obtain ⟨e, he, rfl⟩ := HostTensor.contains_byName_iff.mp hkey
    rcases List.mem_append.mp he with he | he
    · exact hknown e he
    · obtain ⟨i, hi, -, hname, -⟩ := exists_input_of_generated hgenerated he
      exact ⟨i, hi, .inl hname.symm⟩
  case found =>
    obtain ⟨e, he, hname⟩ : ∃ e ∈ provided ++ generated, i.GoesBy e.1 := by
      by_cases h : ∃ p ∈ provided, i.GoesBy p.1
      · obtain ⟨p, hp, hname⟩ := h
        exact ⟨p, List.mem_append_left _ hp, hname⟩
      · obtain ⟨e, he, hname⟩ := exists_generated_of_input hgenerated hi h
        exact ⟨e, List.mem_append_right _ he, .inl hname.symm⟩
    obtain ⟨u, hu⟩ := InputSpec.exists_find?_byName he hname
    exact ⟨u, hu, (hexpects i hi u hu).1⟩

/-- **Inputs of one external name that are alike** let drawing complete what every input of a name expects. -/
theorem completes_of_named (h : NamedAlike c.schedule) : Completes c (FitsEvery c.schedule) := by
  intro provided seed generated hprovided hgenerated
  refine binds_of_generated hg hs hgenerated (fun e he => (hprovided e he).1) fun i hi e he hkey => ?_
  rcases List.mem_append.mp he with he | he
  · exact (hprovided e he).2 i hi (hkey.imp_right And.right)
  · obtain ⟨j, hj, hnone, hname, hexpects⟩ := exists_input_of_generated hgenerated he
    rcases hkey with hkey | ⟨habsent, hkey⟩
    · exact (h j hj i hi (hkey.trans hname)).expects hexpects
    · -- nothing was drawn for the input, so a tensor was provided under its node, the name of the other
      exfalso
      by_cases hp : ∃ p ∈ provided, i.GoesBy p.1
      · obtain ⟨p, hp, hiname | hnode⟩ := hp
        · exact habsent ⟨p, List.mem_append_left _ hp, hiname.symm⟩
        · exact hnone ⟨p, hp, .inl (by rw [← hname, ← hkey, hnode])⟩
      · obtain ⟨q, hq, hqname⟩ := exists_generated_of_input hgenerated hi hp
        exact habsent ⟨q, List.mem_append_right _ hq, hqname⟩

/-- **Inputs that share a name and are alike** let drawing complete what some input of a name expects. -/
theorem completes_of_shared (h : SharedAlike c.schedule) : Completes c (FitsSome c.schedule) := by
  intro provided seed generated hprovided hgenerated
  have hexpected : ∀ e ∈ provided ++ generated, FitsSome c.schedule e := by
    intro e he
    rcases List.mem_append.mp he with he | he
    · exact hprovided e he
    · obtain ⟨j, hj, -, hname, hexpects⟩ := exists_input_of_generated hgenerated he
      exact ⟨j, hj, .inl hname.symm, hexpects⟩
  refine binds_of_generated hg hs hgenerated (fun e he => ?_) fun i hi e he hkey => ?_
  · obtain ⟨j, hj, hname, -⟩ := hprovided e he
    exact ⟨j, hj, hname⟩
  · obtain ⟨j, hj, hname, hexpects⟩ := hexpected e he
    refine InputSpec.Alike.expects ?_ hexpects
    rcases hkey with hkey | ⟨-, hkey⟩
    · rw [← hkey] at hname
      exact (h i hi j hj hname).symm
    · rcases hname with hname | hname
      · exact h j hj i hi (.inr (hkey.trans hname.symm))
      · exact Graph.input_eq_of_node_eq hs hj hi (hname.trans hkey.symm) ▸ ⟨rfl, rfl⟩

/-- What is drawn for an input without a provided tensor is taken only where the inputs of its external name
are alike. -/
theorem alike_of_binds (hgenerated : randomInputs c provided seed = .ok generated)
    (h : Binds c (provided ++ generated)) (hi : i ∈ c.schedule.inputs)
    (hnone : ¬ ∃ p ∈ provided, i.GoesBy p.1) {j : InputSpec} (hj : j ∈ c.schedule.inputs)
    (hname : j.name = i.name) : i.Alike j := by
  obtain ⟨e, he, hkey⟩ := exists_generated_of_input hgenerated hi hnone
  obtain ⟨e, -, -, hexpects⟩ :=
    exists_expected_of_binds hg hs h ⟨e, List.mem_append_right _ he, hkey⟩
  exact InputSpec.alike_of_expects (hexpects i hi rfl) (hexpects j hj hname)

/-- **Where drawing completes what is provided**, and so where nothing is, inputs of one external name are
alike. -/
theorem alike_of_completes (hdrawn : ∀ i ∈ c.schedule.inputs, i.Drawn ∧ i.shape.Counted)
    {fits : String × HostTensor → Prop}
    (h : Completes c fits) : NamedAlike c.schedule := by
  intro i hi j hj hname
  obtain ⟨generated, hgenerated⟩ := exists_randomInputs hdrawn [] 0
  have hbinds := h [] 0 generated (fun e he => absurd he List.not_mem_nil) hgenerated
  exact alike_of_binds hg hs hgenerated hbinds hi (by simp) hj hname

/-- **Where it completes what some input of a name expects**, inputs that share a name are alike: what one of
them expects can be provided under the external name of the other. -/
theorem alike_of_completes_some (hdrawn : ∀ i ∈ c.schedule.inputs, i.Drawn ∧ i.shape.Counted)
    (h : Completes c (FitsSome c.schedule)) : SharedAlike c.schedule := by
  intro i hi j hj hname
  obtain ⟨t, ht⟩ := exists_expected (hdrawn j hj) c.schedule.batch
  obtain ⟨generated, hgenerated⟩ := exists_randomInputs hdrawn [(i.name, t)] 0
  have hbinds := h _ 0 generated (List.forall_mem_singleton.mpr ⟨j, hj, hname, ht⟩) hgenerated
  obtain ⟨e, he, hkey, hexpects⟩ := exists_expected_of_binds hg hs hbinds ⟨_, List.mem_cons_self, rfl⟩
  rcases List.mem_cons.mp he with rfl | he
  · exact InputSpec.alike_of_expects (hexpects i hi rfl) ht
  · -- nothing is drawn under a name that is provided
    obtain ⟨k, -, hnone, hkname, -⟩ := exists_input_of_generated hgenerated he
    exact absurd ⟨_, List.mem_singleton_self _, .inl (hkname.symm.trans hkey)⟩ hnone

end Completes

section Compiled

variable [Wgsl.Validator] {g : Graph} {o : EngineOptions} {limits : DeviceLimits} {r : CompileRequest}

/-- The elements of what a compiled graph takes can be counted: they are in a texture. -/
theorem counted_of_input (hc : Compiled.ofGraph g o limits r = .ok c) (hi : i ∈ c.schedule.inputs) :
    i.shape.Counted := by
  obtain ⟨hs, hlayouts, -⟩ := Compiled.ofGraph_eq_ok hc
  have hplaced := ((Schedule.layouts_eq_ok hlayouts).1 i.node).mpr
    (Schedule.mem_textureNodes_iff.mpr (.inr (.inl (List.mem_map_of_mem hi))))
  obtain ⟨l, hl⟩ := Option.isSome_iff_exists.mp hplaced
  obtain ⟨d, hd, hcompute⟩ := Schedule.exists_compute_of_layouts hlayouts hl
  obtain rfl := Option.some.inj ((Graph.input_described hs hi).symm.trans hd)
  exact Layout.counted_of_compute hcompute

/-- **When generated inputs fit** a compiled graph, with a leading axis or without: where provided tensors are
expected by all inputs that go by their names, exactly when inputs of one external name are alike; where they
are expected by some input that does, exactly when inputs that share a name are. -/
theorem completes_iff [RandomSource] (hg : g.Signed) (hc : Compiled.ofGraph g o limits r = .ok c) :
    (NamedAlike c.schedule → Completes c (FitsEvery c.schedule)) ∧
    (SharedAlike c.schedule → Completes c (FitsSome c.schedule)) ∧
    ((∀ i ∈ c.schedule.inputs, i.Drawn) →
      (Completes c (FitsEvery c.schedule) → NamedAlike c.schedule) ∧
      (Completes c (FitsSome c.schedule) → SharedAlike c.schedule)) := by
  have hs := (Compiled.ofGraph_eq_ok hc).1
  refine ⟨completes_of_named hg hs, completes_of_shared hg hs, fun hdrawn => ?_⟩
  have hcounted : ∀ i ∈ c.schedule.inputs, i.Drawn ∧ i.shape.Counted :=
    fun i hi => ⟨hdrawn i hi, counted_of_input hc hi⟩
  exact ⟨alike_of_completes hg hs hcounted, alike_of_completes_some hg hs hcounted⟩

end Compiled

/-! ## §5 — a name that belongs to two inputs -/

/-- Two placeholders, of one element and of two, under a signature. -/
def unequal (signature : Option Model.Signature) : Graph where
  nodes :=
    [⟨"a", .placeholder, [], .ofList [("shape", .numbers [.one])], []⟩,
     ⟨"b", .placeholder, [], .ofList [("shape", .numbers [⟨0x4000000000000000⟩])], []⟩]
  constants := .empty
  signature
  named := by decide
  distinct := by decide
  wired := by decide
  given := by decide

/-- Both are asked for. -/
def unequalRequest : CompileRequest := ⟨["a", "b"], .empty⟩

/-- Their schedule, where the first one goes by this name. -/
def unequalSchedule (name : String) : Schedule where
  nodes := (unequal none).nodes.reverse
  descriptors := .ofList [("a", ⟨[1], .float32⟩), ("b", ⟨[2], .float32⟩)]
  inputs := [⟨"b", "b", .float32, some [2], [2]⟩, ⟨name, "a", .float32, some [1], [1]⟩]
  outputs := [⟨"a", "a"⟩, ⟨"b", "b"⟩]
  constants := .empty
  batch := .kept

/-- What a signature without outputs decides about the compiled placeholders are the inputs. -/
theorem unequal_compiles {signature : Option Model.Signature} {name : String}
    (houtputs : (unequal signature).resolveOutputs ["a", "b"] = .ok (unequalSchedule name).outputs)
    (hinputs : (unequal none).nodes.reverse.mapM
      ((unequal signature).inputSpec ⟨["a", "b"], .kept, .empty, none⟩) = .ok (unequalSchedule name).inputs) :
    ∃ c, Compiled.ofGraph (unequal signature) {} .standard unequalRequest = .ok c ∧
      c.schedule = unequalSchedule name := by
  have hvalid : EngineOptions.validate {} .standard = .ok () := by decide
  have horder : (unequal signature).ordered =
      .ok [⟨1, show 1 < 2 by decide⟩, ⟨0, show 0 < 2 by decide⟩] := by cbv
  have hschedule : (unequal signature).schedule ⟨["a", "b"], .kept, .empty, none⟩ =
      .ok (unequalSchedule name) :=
    Graph.schedule_of_stages horder houtputs (by cbv) hinputs (by cbv) (by cbv) rfl rfl
  -- the layouts do not depend on what the inputs are called
  obtain ⟨layouts, hlayouts⟩ : ∃ layouts,
      (unequalSchedule "a").layouts (EngineOptions.layoutLimits {} .standard)
        (EngineOptions.layoutOptions {}) = .ok layouts := Outcome.exists_of_isOk (by decide +kernel)
  refine ⟨⟨unequalSchedule name, [], layouts, {}⟩, ?_, rfl⟩
  exact Outcome.bind_eq_ok_iff.mpr ⟨(), hvalid, Outcome.bind_eq_ok_iff.mpr ⟨_, hschedule,
    Outcome.bind_eq_ok_iff.mpr ⟨layouts, hlayouts, rfl⟩⟩⟩

section Scrambled

/-- What is drawn comes from a scrambled counter. -/
local instance : RandomSource := .scrambled

/-- Under their own names the placeholders get tensors that fit, whatever is provided. -/
theorem unequal_completes : ∃ c, (unequal none).Signed ∧
    Compiled.ofGraph (unequal none) {} .standard unequalRequest = .ok c ∧ c.schedule = unequalSchedule "a" ∧
    Completes c (FitsEvery c.schedule) ∧ Completes c (FitsSome c.schedule) := by
  have hsigned : (unequal none).Signed := fun _ h => by cases h
  obtain ⟨c, hc, hschedule⟩ : ∃ c, Compiled.ofGraph (unequal none) {} .standard unequalRequest = .ok c ∧
      c.schedule = unequalSchedule "a" := unequal_compiles (by cbv) (by decide +kernel)
  have hshared : SharedAlike c.schedule := by
    rw [hschedule]
    unfold SharedAlike
    decide
  obtain ⟨hevery, hsome, -⟩ := completes_iff hsigned hc
  exact ⟨c, hsigned, hc, hschedule, hevery fun i hi j hj h => hshared i hi j hj (.inl h), hsome hshared⟩

/-- The first placeholder goes by the name of the second. -/
def crossing : Model.Signature := ⟨.ofList [("b", ⟨"a", .float32, some [1]⟩)], .empty⟩

/-- **Where one placeholder goes by the name of another** that is not alike, both tensors are drawn under that
name, and what is drawn is not taken. -/
theorem crossing_not_taken : ∃ c generated, (unequal (some crossing)).Signed ∧
    Compiled.ofGraph (unequal (some crossing)) {} .standard unequalRequest = .ok c ∧
    randomInputs c [] 0 = .ok generated ∧ generated.map Prod.fst = ["b", "b"] ∧ ¬ Binds c ([] ++ generated) := by
  have hsigned : (unequal (some crossing)).Signed := by
    intro signature h
    obtain rfl := Option.some.inj h
    unfold Model.Signature.Signed Model.TensorSpec.Signed
    decide +kernel
  obtain ⟨c, hc, hschedule⟩ : ∃ c,
      Compiled.ofGraph (unequal (some crossing)) {} .standard unequalRequest = .ok c ∧
      c.schedule = unequalSchedule "b" := unequal_compiles (by cbv) (by decide +kernel)
  have hinputs : c.schedule.inputs = (unequalSchedule "b").inputs := by rw [hschedule]
  have hdrawn : ∀ i ∈ c.schedule.inputs, i.Drawn ∧ i.shape.Counted := by
    have htypes : ∀ i ∈ c.schedule.inputs, i.Drawn := by
      rw [hinputs]
      decide
    exact fun i hi => ⟨htypes i hi, counted_of_input hc hi⟩
  obtain ⟨generated, hgenerated⟩ := exists_randomInputs hdrawn [] 0
  refine ⟨c, generated, hsigned, hc, hgenerated, ?_, fun h => ?_⟩
  · rw [names_of_randomInputs hgenerated, hinputs]
    rfl
  · have hb : (unequalSchedule "b").inputs[0] ∈ c.schedule.inputs := by
      rw [hinputs]
      exact List.getElem_mem _
    have ha : (unequalSchedule "b").inputs[1] ∈ c.schedule.inputs := by
      rw [hinputs]
      exact List.getElem_mem _
    have halike := alike_of_binds hsigned (Compiled.ofGraph_eq_ok hc).1 hgenerated h hb (by simp) ha rfl
    exact absurd halike (by decide)

end Scrambled

end CommandLine

end TexelFlow
