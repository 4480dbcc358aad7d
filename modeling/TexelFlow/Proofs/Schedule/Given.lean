import TexelFlow.Proofs.Schedule.Feeding

/-!
# Scheduling for tensors and for their shapes

Tensors that come with a request are prepared for the inputs and only their shapes are kept; shapes that
come with it are stripped and checked by themselves. Both ways look an entry up by the same names, and a
tensor's elements fill its shape however it is stripped, so what preparing a tensor asks for beyond its
shape is its type. Scheduling for tensors is therefore scheduling for their shapes, provided that the
schedule takes the tensors: it knows all of their names and finds one of its type for every input.

## Main statements

* `InputSpec.exists_prepare_iff` — what preparing a tensor asks of its shape and type.
* `Graph.schedule_given_iff` — a schedule for tensors is one for their shapes which takes the tensors.
* `Graph.schedule_given` — the two succeed alike, with the same schedule.

## §1 — what preparing asks for
## §2 — inputs
## §3 — schedules
-/

namespace TexelFlow

/-! ## §1 — what preparing asks for -/

theorem Named.find?_map {α β : Type} (f : α → β) (m : Named α) (key : String) :
    (m.map f).find? key = (m.find? key).map f := by
  unfold find? map
  dsimp only
  induction m.entries with
  | nil => rfl
  | cons e rest ih =>
    obtain ⟨k, a⟩ := e
    rw [List.map_cons]
    by_cases h : k = key
    · simp [lookup, h]
    · simpa [lookup, h] using ih

namespace InputSpec

variable {i : InputSpec} {batch : Batch} {t : Tensor} {shape : Shape}

/-- An entry is found by the same names whatever is made of the entries. -/
theorem find?_map {α β : Type} (i : InputSpec) (f : α → β) (m : Named α) :
    i.find? (m.map f) = (i.find? m).map f := by
  unfold find?
  rw [Named.find?_map, Named.find?_map]
  cases m.find? i.name with
  | some a => rfl
  | none => rfl

/-- **What preparing a tensor asks for**: its type, and of its shape what is asked of a shape alone. -/
theorem exists_prepare_iff : (∃ u, i.prepare batch t = .ok u ∧ u.shape = shape) ↔
    t.dtype = i.dtype ∧ i.strip batch t.shape = .ok shape ∧ i.checkDeclared shape = .ok () := by
  constructor
  · rintro ⟨u, h, rfl⟩
    unfold prepare at h
    obtain ⟨stripped, hstrip, h⟩ := Outcome.bind_eq_ok_iff.mp h
    obtain ⟨v, hreshape, h⟩ := Outcome.bind_eq_ok_iff.mp h
    obtain ⟨hdtype, h⟩ := Outcome.check_eq_ok_iff.mp h
    obtain ⟨⟨⟩, hdeclared, h⟩ := Outcome.bind_eq_ok_iff.mp h
    obtain rfl := Outcome.pure_eq_ok_iff.mp h
    obtain ⟨rfl, hdata⟩ := Tensor.make_eq_ok_iff.mp hreshape
    refine ⟨?_, hstrip, hdeclared⟩
    rw [← Classical.not_not.mp hdtype, Tensor.dtype, Tensor.dtype, hdata]
  · rintro ⟨hdtype, hstrip, hdeclared⟩
    -- the elements fill the stripped shape as they fill the whole one
    let u : Tensor := ⟨shape, t.data, by rw [counted_of_strip hstrip, t.filled]⟩
    have hreshape : t.reshape i.name shape = .ok u := Tensor.make_eq_ok_iff.mpr ⟨rfl, rfl⟩
    refine ⟨u, Outcome.bind_eq_ok_iff.mpr ⟨shape, hstrip, Outcome.bind_eq_ok_iff.mpr ⟨u, hreshape, ?_⟩⟩, rfl⟩
    refine Outcome.check_eq_ok_iff.mpr ⟨not_not_intro hdtype, ?_⟩
    exact Outcome.bind_eq_ok_iff.mpr ⟨(), hdeclared, rfl⟩

/-- An input finds a tensor of its type among those that are given. -/
def Finds (i : InputSpec) (given : Tensors) : Prop := ∃ t, i.find? given = some t ∧ t.dtype = i.dtype

end InputSpec

/-! ## §2 — inputs -/

namespace Graph

variable {g : Graph} {outputs : List String} {batch : Batch} {shapes : Named Shape} {given : Tensors}

/-- The shape of an input is the same for tensors as for their shapes. -/
theorem inputShape_given_iff {i : InputSpec} {shape : Shape} :
    inputShape i ⟨outputs, batch, shapes, some given⟩ = .ok shape ↔
      i.Finds given ∧ inputShape i ⟨outputs, batch, given.map Tensor.shape, none⟩ = .ok shape := by
  unfold inputShape InputSpec.Finds InputSpec.pick
  simp only [InputSpec.find?_map]
  cases i.find? given with
  | none =>
    simp [bind, Except.bind]
  | some t =>
    have hprepare : (do return (← i.prepare batch t).shape) = (.ok shape : Outcome Shape) ↔
        ∃ u, i.prepare batch t = .ok u ∧ u.shape = shape := by
      rw [Outcome.bind_eq_ok_iff]
      simp
    have hshape : (do
        let shape ← i.strip batch t.shape
        i.checkDeclared shape
        return shape) = (.ok shape : Outcome Shape) ↔
        i.strip batch t.shape = .ok shape ∧ i.checkDeclared shape = .ok () := by
      rw [Outcome.bind_eq_ok_iff]
      constructor
      · rintro ⟨stripped, hstrip, h⟩
        obtain ⟨⟨⟩, hdeclared, h⟩ := Outcome.bind_eq_ok_iff.mp h
        obtain rfl := Outcome.pure_eq_ok_iff.mp h
        exact ⟨hstrip, hdeclared⟩
      · rintro ⟨hstrip, hdeclared⟩
        exact ⟨shape, hstrip, Outcome.bind_eq_ok_iff.mpr ⟨(), hdeclared, rfl⟩⟩
    have hthere : (∃ u, some t = some u ∧ u.dtype = i.dtype) ↔ t.dtype = i.dtype := by
      simp
    rw [hthere]
    exact hprepare.trans (InputSpec.exists_prepare_iff.trans (and_congr_right fun _ => hshape.symm))

/-- An input is the same for tensors as for their shapes. -/
theorem inputSpec_given_iff {n : Node} {i : InputSpec} :
    g.inputSpec ⟨outputs, batch, shapes, some given⟩ n = .ok i ↔
      i.Finds given ∧ g.inputSpec ⟨outputs, batch, given.map Tensor.shape, none⟩ n = .ok i := by
  unfold inputSpec
  rw [Outcome.bind_eq_ok_iff, Outcome.bind_eq_ok_iff]
  constructor
  · rintro ⟨declared, hdeclare, h⟩
    obtain ⟨shape, hshape, h⟩ := Outcome.bind_eq_ok_iff.mp h
    obtain rfl := Outcome.pure_eq_ok_iff.mp h
    obtain ⟨hfinds, hshape⟩ := inputShape_given_iff.mp hshape
    exact ⟨hfinds, declared, hdeclare, Outcome.bind_eq_ok_iff.mpr ⟨shape, hshape, rfl⟩⟩
  · rintro ⟨hfinds, declared, hdeclare, h⟩
    obtain ⟨shape, hshape, h⟩ := Outcome.bind_eq_ok_iff.mp h
    obtain rfl := Outcome.pure_eq_ok_iff.mp h
    have hshape : inputShape declared ⟨outputs, batch, shapes, some given⟩ = .ok shape :=
      inputShape_given_iff.mpr ⟨hfinds, hshape⟩
    exact ⟨declared, hdeclare, Outcome.bind_eq_ok_iff.mpr ⟨shape, hshape, rfl⟩⟩

/-- So are the inputs of some nodes. -/
theorem inputSpecs_given_iff {nodes : List Node} {inputs : List InputSpec} :
    nodes.mapM (g.inputSpec ⟨outputs, batch, shapes, some given⟩) = .ok inputs ↔
      (∀ i ∈ inputs, i.Finds given) ∧
        nodes.mapM (g.inputSpec ⟨outputs, batch, given.map Tensor.shape, none⟩) = .ok inputs := by
  rw [Outcome.mapM_eq_ok_iff, Outcome.mapM_eq_ok_iff]
  constructor
  · intro h
    obtain ⟨hfinds, h⟩ := (List.forall₂_and_left _ _).mp (h.flip.imp fun i n hi => inputSpec_given_iff.mp hi)
    exact ⟨hfinds, h.flip⟩
  · rintro ⟨hfinds, h⟩
    exact ((List.forall₂_and_left _ _).mpr ⟨hfinds, h.flip⟩).flip.imp fun n i hi => inputSpec_given_iff.mpr hi

/-- An input that a graph makes for given tensors binds one of them. -/
theorem exists_bindOne {s : Schedule} {n : Node} {i : InputSpec} (hbatch : s.batch = batch)
    (hi : g.inputSpec ⟨outputs, batch, shapes, some given⟩ n = .ok i) :
    ∃ entry, s.bindOne given i = .ok entry := by
  unfold inputSpec at hi
  obtain ⟨declared, -, hi⟩ := Outcome.bind_eq_ok_iff.mp hi
  obtain ⟨shape, hshape, hi⟩ := Outcome.bind_eq_ok_iff.mp hi
  obtain rfl := Outcome.pure_eq_ok_iff.mp hi
  obtain ⟨t, hpick, hshape⟩ := Outcome.bind_eq_ok_iff.mp hshape
  obtain ⟨u, hprepare, hshape⟩ := Outcome.bind_eq_ok_iff.mp hshape
  obtain rfl := Outcome.pure_eq_ok_iff.mp hshape
  -- neither picking nor preparing looks at the shape that was found for the input
  refine ⟨(declared.node, u), Outcome.bind_eq_ok_iff.mpr ⟨t, hpick, ?_⟩⟩
  rw [hbatch]
  exact Outcome.bind_eq_ok_iff.mpr ⟨u, hprepare, Outcome.check_eq_ok_iff.mpr ⟨not_not_intro rfl, rfl⟩⟩

/-! ## §3 — schedules -/

end Graph

/-- **A schedule takes tensors** when each goes by the name of an input, and each input finds one of its
type. -/
structure Schedule.Takes (s : Schedule) (given : Tensors) : Prop where
  /-- Every name is the external name or the node of an input. -/
  known : ∀ key, given.contains key → ∃ i ∈ s.inputs, i.name = key ∨ i.node = key
  /-- Every input finds a tensor, and it is of the input's type. -/
  found : ∀ i ∈ s.inputs, ∃ t, i.find? given = some t ∧ t.dtype = i.dtype

/-- Where all names are known and all inputs bind, the whole binds. -/
theorem Schedule.exists_bind {s : Schedule} {given : Tensors}
    (hknown : ∀ key, given.contains key → ∃ i ∈ s.inputs, i.name = key ∨ i.node = key)
    (hone : ∀ i ∈ s.inputs, ∃ entry, s.bindOne given i = .ok entry) :
    ∃ bound, s.bind given = .ok bound := by
  obtain ⟨entries, hentries⟩ := Outcome.exists_mapM_eq_ok hone
  have hunknown : s.unknownNames given = [] := by
    refine List.filter_eq_nil_iff.mpr fun key hkey => ?_
    obtain ⟨i, hi, hor⟩ := hknown key (Named.mem_names_iff.mp hkey)
    rw [Bool.not_eq_true, Bool.not_eq_false', List.any_eq_true]
    exact ⟨i, hi, by simpa using hor⟩
  refine ⟨.ofList entries, Outcome.check_eq_ok_iff.mpr ⟨not_not_intro hunknown, ?_⟩⟩
  exact Outcome.bind_eq_ok_iff.mpr ⟨entries, hentries, rfl⟩

namespace Graph

variable {g : Graph} {outputs : List String} {batch : Batch} {shapes : Named Shape} {given : Tensors}
  {s : Schedule}

/-- Tensors that come with a request bind to the schedule that is made for it. -/
theorem bind_of_schedule {r : Request} (hs : g.schedule r = .ok s) (hr : r.inputs = some given) :
    ∃ bound, s.bind given = .ok bound := by
  unfold schedule at hs
  obtain ⟨order, -, hs⟩ := Outcome.bind_eq_ok_iff.mp hs
  obtain ⟨outputs, -, hs⟩ := Outcome.bind_eq_ok_iff.mp hs
  obtain ⟨inputs, -, hs⟩ := Outcome.bind_eq_ok_iff.mp hs
  obtain ⟨descriptors, -, hs⟩ := Outcome.bind_eq_ok_iff.mp hs
  rw [hr] at hs
  obtain ⟨bound, hbind, hs⟩ := Outcome.bind_eq_ok_iff.mp hs
  obtain rfl := Outcome.pure_eq_ok_iff.mp hs
  exact ⟨bound, hbind⟩

/-- **A schedule for tensors** is a schedule for their shapes that takes the tensors. -/
theorem schedule_given_iff :
    g.schedule ⟨outputs, batch, shapes, some given⟩ = .ok s ↔
      g.schedule ⟨outputs, batch, given.map Tensor.shape, none⟩ = .ok s ∧ s.Takes given := by
  constructor
  · intro hs
    obtain ⟨bound, hbind⟩ := bind_of_schedule hs rfl
    obtain ⟨order, ho, houtputs, hnodes, hinputs, hconstants, hdescribe, hbatch⟩ := exists_stages hs
    obtain ⟨hfinds, hinputs⟩ := inputSpecs_given_iff.mp hinputs
    refine ⟨?_, fun _ hkey => Schedule.known_of_bind hbind hkey, hfinds⟩
    exact schedule_of_stages ho houtputs hnodes.symm hinputs hconstants.symm hdescribe hbatch.symm rfl
  · rintro ⟨hs, htakes⟩
    obtain ⟨order, ho, houtputs, hnodes, hinputs, hconstants, hdescribe, hbatch⟩ := exists_stages hs
    have hinputs : (s.nodes.filter (·.op = .placeholder)).mapM
        (g.inputSpec ⟨outputs, batch, shapes, some given⟩) = .ok s.inputs :=
      inputSpecs_given_iff.mpr ⟨htakes.found, hinputs⟩
    refine schedule_of_stages_given ho houtputs hnodes.symm hinputs hconstants.symm hdescribe
      hbatch.symm fun given' hgiven => ?_
    obtain rfl : given = given' := Option.some.inj hgiven
    refine Schedule.exists_bind htakes.known fun i hi => ?_
    obtain ⟨n, -, hn⟩ := Outcome.exists_of_mem_results hinputs hi
    exact exists_bindOne hbatch hn

/-- **Scheduling for tensors and for their shapes is the same**: the one succeeds exactly when the other
does, with a schedule that takes the tensors, and then both make the same schedule. -/
theorem schedule_given (g : Graph) (outputs : List String) (batch : Batch) (shapes : Named Shape)
    (given : Tensors) :
    ((∃ s, g.schedule ⟨outputs, batch, shapes, some given⟩ = .ok s) ↔
      ∃ s, g.schedule ⟨outputs, batch, given.map Tensor.shape, none⟩ = .ok s ∧ s.Takes given) ∧
    ∀ s s', g.schedule ⟨outputs, batch, shapes, some given⟩ = .ok s →
      g.schedule ⟨outputs, batch, given.map Tensor.shape, none⟩ = .ok s' → s = s' := by
  refine ⟨exists_congr fun s => schedule_given_iff, fun s s' hs hs' => ?_⟩
  exact Except.ok.inj ((schedule_given_iff.mp hs).1.symm.trans hs')

/-- The sum of two placeholders that go by each other's names, scheduled for a tensor under each name. -/
theorem swapped_given : ∃ s,
    (paired swappedSignature).schedule ⟨["y"], .kept, .empty, some pairedGiven⟩ = .ok s ∧
      s = pairedSchedule "b" "a" := by
  have hs : (paired swappedSignature).schedule ⟨["y"], .kept, pairedGiven.map Tensor.shape, none⟩ =
      .ok (pairedSchedule "b" "a") := paired_schedule (by cbv) (by cbv)
  have htakes : (pairedSchedule "b" "a").Takes pairedGiven := by
    refine ⟨fun key hkey => ?_, by decide +kernel⟩
    have hkeys : ∀ key ∈ pairedGiven.names,
        ∃ i ∈ (pairedSchedule "b" "a").inputs, i.name = key ∨ i.node = key := by decide +kernel
    exact hkeys key (Named.mem_names_iff.mpr hkey)
  obtain ⟨hiff, hsame⟩ := schedule_given (paired swappedSignature) ["y"] .kept .empty pairedGiven
  obtain ⟨s, hgiven⟩ := hiff.mpr ⟨_, hs, htakes⟩
  exact ⟨s, hgiven, hsame s _ hgiven hs⟩

end Graph

end TexelFlow
