import TexelFlow.Proofs.Schedule.Described

/-!
# Which input takes which tensor

An input looks for its tensor under its external name first and under its node's name then, among
tensors that the caller may name either way. Names that belong to no input are refused. That a tensor is
taken once is not checked: an external name may be the name of another placeholder, and then one tensor
can serve both of them; and where a tensor is given under either name of one input, the second one is
looked at by nobody. This module says exactly when the given tensors and the inputs are paired off.

## Main statements

* `Graph.prepared_of_bind` — what is bound to an input is prepared from the tensor it takes.
* `Schedule.oneToOne_iff` — when every tensor is taken by exactly one input, as a matter of names.
* `Graph.bind_oneToOne_iff` — the same for what binding accepts.
* `Graph.crossed_not_oneToOne` — one tensor that two inputs take.

## §1 — the name an input goes by
## §2 — pairing tensors and inputs
## §3 — the names of a schedule's inputs
## §4 — external names that are placeholders' names
-/

namespace TexelFlow

open Model (Signature TensorSpec)

/-! ## §1 — the name an input goes by -/

namespace InputSpec

variable {α : Type} {i : InputSpec} {m : Named α} {key : String}

/-- The name under which an input finds its entry: its external name, else that of its node. -/
def key? (i : InputSpec) (m : Named α) : Option String :=
  if m.contains i.name then some i.name
  else if m.contains i.node then some i.node
  else none

theorem find?_eq_bind_key? : i.find? m = (i.key? m).bind m.find? := by
  unfold find? key? Named.contains
  cases hname : m.find? i.name with
  | some a => simp [hname]
  | none =>
    cases hnode : m.find? i.node with
    | some b => simp [hnode]
    | none => simp

/-- The external name goes first; the node counts only where nothing has the external name. -/
theorem key?_eq_some_iff : i.key? m = some key ↔
    m.contains key ∧ (i.name = key ∨ ¬ m.contains i.name ∧ i.node = key) := by
  unfold key?
  split
  · rename_i hname
    simp only [Option.some.injEq, hname, not_true_eq_false, false_and, or_false]
    constructor
    · rintro rfl
      exact ⟨hname, rfl⟩
    · exact fun h => h.2
  · rename_i hname
    split
    · rename_i hnode
      simp only [Option.some.injEq]
      constructor
      · rintro rfl
        exact ⟨hnode, .inr ⟨hname, rfl⟩⟩
      · rintro ⟨hkey, rfl | ⟨-, h⟩⟩
        · exact absurd hkey hname
        · exact h
    · rename_i hnode
      simp only [reduceCtorEq, false_iff, not_and]
      rintro hkey (rfl | ⟨-, rfl⟩)
      · exact hname hkey
      · exact hnode hkey

end InputSpec

/-! ## §2 — pairing tensors and inputs -/

namespace Schedule

variable {s : Schedule} {given bound : Tensors}

/-- **Tensors and inputs are paired off**: each given tensor is taken by exactly one input. -/
def OneToOne (s : Schedule) (given : Tensors) : Prop :=
  ∀ key, given.contains key → ∃! i, i ∈ s.inputs ∧ i.key? given = some key

/-- The tensor under the name of a placeholder goes to another input exactly when the placeholder has
its own tensor under an external name. -/
def LeavesNodes (s : Schedule) (given : Tensors) : Prop :=
  ∀ j ∈ s.inputs, given.contains j.node →
    ((∃ i ∈ s.inputs, i ≠ j ∧ i.name = j.node) ↔ j.name ≠ j.node ∧ given.contains j.name)

section Names

variable
  (hnodes : ∀ i ∈ s.inputs, ∀ j ∈ s.inputs, i.node = j.node → i = j)
  (hnames : ∀ i ∈ s.inputs, ∀ j ∈ s.inputs, i.name = j.name → i = j ∨ i.name = i.node ∨ j.name = j.node)
  (hknown : ∀ key, given.contains key → ∃ i ∈ s.inputs, i.name = key ∨ i.node = key)

include hnodes in
theorem OneToOne.leavesNodes (h : s.OneToOne given) : s.LeavesNodes given := by
  intro j hj hgiven
  constructor
  · -- the other input takes the tensor, so the placeholder must not
    rintro ⟨i, hi, hne, hname⟩
    obtain ⟨k, -, hunique⟩ := h j.node hgiven
    have hik : i = k := hunique i ⟨hi, InputSpec.key?_eq_some_iff.mpr ⟨hgiven, .inl hname⟩⟩
    have hother : j.key? given ≠ some j.node := fun hjk => hne (hik.trans (hunique j ⟨hj, hjk⟩).symm)
    rw [Ne, InputSpec.key?_eq_some_iff] at hother
    refine ⟨fun he => hother ⟨hgiven, .inl he⟩, ?_⟩
    by_contra hmissing
    exact hother ⟨hgiven, .inr ⟨hmissing, rfl⟩⟩
  · -- the placeholder takes another tensor, so this one is taken by its external name
    rintro ⟨hne, hname⟩
    obtain ⟨i, ⟨hi, hkey⟩, -⟩ := h j.node hgiven
    obtain ⟨-, hname' | ⟨hmissing, hnode⟩⟩ := InputSpec.key?_eq_some_iff.mp hkey
    · exact ⟨i, hi, by rintro rfl; exact hne hname', hname'⟩
    · obtain rfl := hnodes i hi j hj hnode
      exact absurd hname hmissing

include hnodes hnames in
/-- Two inputs that take one tensor are one input. -/
theorem LeavesNodes.eq_of_key? (h : s.LeavesNodes given) {key : String} {i j : InputSpec}
    (hi : i ∈ s.inputs) (hj : j ∈ s.inputs) (hik : i.key? given = some key)
    (hjk : j.key? given = some key) : i = j := by
  obtain ⟨hkey, hi'⟩ := InputSpec.key?_eq_some_iff.mp hik
  obtain ⟨-, hj'⟩ := InputSpec.key?_eq_some_iff.mp hjk
  -- an input that goes by its node's name does not share it with another input's external name
  have own : ∀ a ∈ s.inputs, ∀ b ∈ s.inputs, a.name = key → b.node = key →
      (b.name = key ∨ ¬ given.contains b.name) → a = b := by
    intro a ha b hb ha' hb' hor
    by_contra hne
    obtain ⟨hdiffers, hgiven⟩ := (h b hb (hb' ▸ hkey)).mp ⟨a, ha, hne, ha'.trans hb'.symm⟩
    rcases hor with hor | hor
    · exact hdiffers (hor.trans hb'.symm)
    · exact hor hgiven
  rcases hi' with hi' | ⟨hmissing, hi'⟩
  · rcases hj' with hj' | ⟨hmissing, hj'⟩
    · -- of two inputs with one external name, one has it from its node
      rcases hnames i hi j hj (hi'.trans hj'.symm) with rfl | hself | hself
      · rfl
      · exact (own j hj i hi hj' (hself.symm.trans hi') (.inl hi')).symm
      · exact own i hi j hj hi' (hself.symm.trans hj') (.inl hj')
    · exact own i hi j hj hi' hj' (.inr hmissing)
  · rcases hj' with hj' | ⟨-, hj'⟩
    · exact (own j hj i hi hj' hi' (.inr hmissing)).symm
    · exact hnodes i hi j hj (hi'.trans hj'.symm)

include hknown in
/-- Every tensor is taken. -/
theorem LeavesNodes.exists_key? (h : s.LeavesNodes given) {key : String} (hkey : given.contains key) :
    ∃ i ∈ s.inputs, i.key? given = some key := by
  obtain ⟨j, hj, hj'⟩ := hknown key hkey
  by_cases hname : ∃ i ∈ s.inputs, i.name = key
  · obtain ⟨i, hi, hi'⟩ := hname
    exact ⟨i, hi, InputSpec.key?_eq_some_iff.mpr ⟨hkey, .inl hi'⟩⟩
  · have hnone : ∀ i ∈ s.inputs, i.name ≠ key := fun i hi hi' => hname ⟨i, hi, hi'⟩
    obtain rfl : j.node = key := hj'.resolve_left (hnone j hj)
    -- nobody has this external name, so the placeholder has no tensor under its own
    have hmissing : ¬ given.contains j.name := by
      intro hgiven
      obtain ⟨i, hi, -, hi'⟩ := (h j hj hkey).mpr ⟨hnone j hj, hgiven⟩
      exact hnone i hi hi'
    exact ⟨j, hj, InputSpec.key?_eq_some_iff.mpr ⟨hkey, .inr ⟨hmissing, rfl⟩⟩⟩

include hnodes hnames hknown in
/-- **When tensors and inputs are paired off**, as a matter of names. -/
theorem oneToOne_iff : s.OneToOne given ↔ s.LeavesNodes given := by
  refine ⟨fun h => h.leavesNodes hnodes, fun h key hkey => ?_⟩
  obtain ⟨i, hi, hik⟩ := h.exists_key? hknown hkey
  exact ⟨i, ⟨hi, hik⟩, fun j ⟨hj, hjk⟩ => h.eq_of_key? hnodes hnames hj hi hjk hik⟩

end Names

/-- Binding knows every given name. -/
theorem known_of_bind (h : s.bind given = .ok bound) {key : String} (hkey : given.contains key) :
    ∃ i ∈ s.inputs, i.name = key ∨ i.node = key := by
  unfold bind at h
  obtain ⟨hknown, -⟩ := Outcome.check_eq_ok_iff.mp h
  have hknown : s.unknownNames given = [] := Classical.not_not.mp hknown
  unfold unknownNames at hknown
  have hany := List.filter_eq_nil_iff.mp hknown key (Named.mem_names_iff.mpr hkey)
  rw [Bool.not_eq_true, Bool.not_eq_false', List.any_eq_true] at hany
  obtain ⟨i, hi, hor⟩ := hany
  rw [Bool.or_eq_true, decide_eq_true_eq, decide_eq_true_eq] at hor
  exact ⟨i, hi, hor⟩

end Schedule

/-! ## §3 — the names of a schedule's inputs -/

namespace Graph

variable {g : Graph} {r : Request} {s : Schedule} {given bound : Tensors}

theorem eq_of_refersTo {reference a b : String} (ha : refersTo reference a) (hb : refersTo reference b) :
    a = b := by
  unfold refersTo at ha hb
  split at ha
  · rename_i hparse
    rw [hparse] at hb
    exact (of_decide_eq_true ha).symm.trans (of_decide_eq_true hb)
  · cases ha

/-- An entry of the signature belongs to one node. -/
theorem node_eq_of_signedInput? {a b external : String} {spec spec' : TensorSpec}
    (ha : g.signedInput? a = some (external, spec)) (hb : g.signedInput? b = some (external, spec')) :
    a = b := by
  unfold signedInput? at ha hb
  cases hsignature : g.signature with
  | none => simp [hsignature] at ha
  | some signature =>
    rw [hsignature, Option.bind_some] at ha hb
    have hentry := Named.mem_entries_iff.mp (List.mem_of_find?_eq_some ha)
    have hentry' := Named.mem_entries_iff.mp (List.mem_of_find?_eq_some hb)
    obtain rfl := Option.some.inj (hentry.symm.trans hentry')
    have ha' := List.find?_some ha
    have hb' := List.find?_some hb
    exact eq_of_refersTo ha' hb'

/-- The name that a placeholder goes by: that of its entry in the signature, else its own. -/
def externalName (g : Graph) (name : String) : String :=
  ((g.signedInput? name).map Prod.fst).getD name

theorem inputSpec_name {n : Node} {i : InputSpec} (h : g.inputSpec r n = .ok i) :
    i.name = g.externalName n.name := by
  unfold inputSpec at h
  obtain ⟨i', hdeclare, h⟩ := Outcome.bind_eq_ok_iff.mp h
  obtain ⟨shape, -, h⟩ := Outcome.bind_eq_ok_iff.mp h
  obtain rfl := Outcome.pure_eq_ok_iff.mp h
  unfold declareInput at hdeclare
  unfold externalName
  dsimp only at hdeclare
  split at hdeclare
  · rename_i external spec hsigned
    obtain ⟨_, hentry, hdeclare⟩ := Outcome.bind_eq_ok_iff.mp hdeclare
    obtain rfl := Outcome.pure_eq_ok_iff.mp hdeclare
    cases hentry
    rw [hsigned]
    rfl
  · rename_i hsigned
    obtain ⟨_, -, hdeclare⟩ := Outcome.bind_eq_ok_iff.mp hdeclare
    obtain ⟨_, hentry, hdeclare⟩ := Outcome.bind_eq_ok_iff.mp hdeclare
    obtain rfl := Outcome.pure_eq_ok_iff.mp hdeclare
    obtain rfl := Outcome.pure_eq_ok_iff.mp hentry
    rw [hsigned]
    rfl

/-- A name that two placeholders go by is the own name of one of them, or they are one. -/
theorem eq_of_externalName {a b : String} (h : g.externalName a = g.externalName b) :
    a = b ∨ g.externalName a = a ∨ g.externalName b = b := by
  unfold externalName at h ⊢
  cases ha : g.signedInput? a with
  | none => simp
  | some left =>
    cases hb : g.signedInput? b with
    | none => simp
    | some right =>
      -- both names stand in the signature, so they belong to one node
      rw [ha, hb] at h
      obtain ⟨external, spec⟩ := left
      obtain ⟨external', spec'⟩ := right
      obtain rfl : external = external' := h
      exact .inl (node_eq_of_signedInput? ha hb)

theorem exists_inputSpec_of_mem (hs : g.schedule r = .ok s) {i : InputSpec} (hi : i ∈ s.inputs) :
    ∃ n ∈ s.nodes.filter (·.op = .placeholder), g.inputSpec r n = .ok i := by
  obtain ⟨order, -, -, -, hinputs, -⟩ := schedule_eq_ok hs
  exact Outcome.exists_of_mem_results hinputs hi

/-- Of two inputs with one external name, one has it from its node. -/
theorem input_eq_of_name_eq (hs : g.schedule r = .ok s) {i j : InputSpec} (hi : i ∈ s.inputs)
    (hj : j ∈ s.inputs) (hname : i.name = j.name) : i = j ∨ i.name = i.node ∨ j.name = j.node := by
  obtain ⟨m, -, hm⟩ := exists_inputSpec_of_mem hs hi
  obtain ⟨n, -, hn⟩ := exists_inputSpec_of_mem hs hj
  rw [inputSpec_name hm, inputSpec_name hn] at hname
  rw [inputSpec_name hm, inputSpec_name hn, inputSpec_node hm, inputSpec_node hn]
  rcases eq_of_externalName hname with hnode | hown
  · have hnode : i.node = j.node := by rw [inputSpec_node hm, inputSpec_node hn, hnode]
    exact .inl (input_eq_of_node_eq hs hi hj hnode)
  · exact .inr hown

/-- **What is bound to an input** is prepared from the tensor it takes. -/
theorem prepared_of_bind (hs : g.schedule r = .ok s) (hbind : s.bind given = .ok bound) {i : InputSpec}
    (hi : i ∈ s.inputs) : ∃ key t u, i.key? given = some key ∧ given.find? key = some t ∧
      i.prepare s.batch t = .ok u ∧ bound.find? i.node = some u := by
  unfold Schedule.bind at hbind
  obtain ⟨-, hbind⟩ := Outcome.check_eq_ok_iff.mp hbind
  obtain ⟨entries, hentries, hbind⟩ := Outcome.bind_eq_ok_iff.mp hbind
  obtain rfl := Outcome.pure_eq_ok_iff.mp hbind
  -- nodes are distinct, so entries of one name are the same
  have hfind : ∀ {name t}, (Named.ofList entries).find? name = some t ↔ (name, t) ∈ entries := by
    refine Named.find?_ofList_eq_some_iff fun name t u ht hu => ?_
    obtain ⟨j, hj, hjone⟩ := Outcome.exists_of_mem_results hentries ht
    obtain ⟨k, hk, hkone⟩ := Outcome.exists_of_mem_results hentries hu
    have hnode : j.node = k.node :=
      (Schedule.bindOne_eq_ok hjone).1.trans (Schedule.bindOne_eq_ok hkone).1.symm
    obtain rfl := input_eq_of_node_eq hs hj hk hnode
    exact (Prod.mk.inj (Except.ok.inj (hjone.symm.trans hkone))).2
  obtain ⟨⟨name, u⟩, hmem, hone⟩ := Outcome.exists_result_of_mem hentries hi
  obtain ⟨rfl, -⟩ := Schedule.bindOne_eq_ok hone
  unfold Schedule.bindOne at hone
  obtain ⟨t, hpick, hone⟩ := Outcome.bind_eq_ok_iff.mp hone
  obtain ⟨u', hprepare, hone⟩ := Outcome.bind_eq_ok_iff.mp hone
  obtain ⟨-, hone⟩ := Outcome.check_eq_ok_iff.mp hone
  obtain ⟨-, rfl⟩ := Prod.mk.inj (Outcome.pure_eq_ok_iff.mp hone)
  unfold InputSpec.pick at hpick
  split at hpick
  · rename_i t' ht
    obtain rfl := Except.ok.inj hpick
    rw [InputSpec.find?_eq_bind_key?] at ht
    obtain ⟨key, hkey, ht⟩ := Option.bind_eq_some_iff.mp ht
    exact ⟨key, t', u', hkey, ht, hprepare, hfind.mpr hmem⟩
  · cases hpick

/-- **What binding accepts is paired off** exactly when the tensors under placeholders' names are left
to others that go by these names, and only then. Whatever is paired with whatever, each input is bound
to what is made of the tensor it takes. -/
theorem bind_oneToOne_iff (hs : g.schedule r = .ok s) (hbind : s.bind given = .ok bound) :
    (∀ i ∈ s.inputs, ∃ key t u, i.key? given = some key ∧ given.find? key = some t ∧
      i.prepare s.batch t = .ok u ∧ bound.find? i.node = some u) ∧
    (s.OneToOne given ↔ s.LeavesNodes given) :=
  ⟨fun _ hi => prepared_of_bind hs hbind hi,
    Schedule.oneToOne_iff (fun _ hi _ hj => input_eq_of_node_eq hs hi hj)
      (fun _ hi _ hj => input_eq_of_name_eq hs hi hj) fun _ hkey => Schedule.known_of_bind hbind hkey⟩

/-! ## §4 — external names that are placeholders' names -/

/-- Two placeholders and their sum. -/
def pairedNodes : List Node :=
  [⟨"a", .placeholder, [], .empty, []⟩, ⟨"b", .placeholder, [], .empty, []⟩,
   ⟨"y", .add, [.first "a", .first "b"], .empty, []⟩]

/-- The sum under a signature. -/
def paired (signature : Signature) : Graph where
  nodes := pairedNodes
  constants := .empty
  signature := some signature
  named := by decide
  distinct := by decide
  wired := by decide
  given := by decide

theorem paired_built (signature : Signature) : (paired signature).Built :=
  .assembled pairedNodes .empty (some signature) rfl

/-- The sum is asked for, of one element each. -/
def pairedRequest : Request := ⟨["y"], .kept, .ofList [("a", [1]), ("b", [1])], none⟩

/-- The schedule of the sum, where the placeholders go by these external names. -/
def pairedSchedule (a b : String) : Schedule where
  nodes := [pairedNodes[1], pairedNodes[0], pairedNodes[2]]
  descriptors := .ofList [("a", ⟨[1], .float32⟩), ("b", ⟨[1], .float32⟩), ("y", ⟨[1], .float32⟩)]
  inputs := [⟨b, "b", .float32, none, [1]⟩, ⟨a, "a", .float32, none, [1]⟩]
  outputs := [⟨"y", "y"⟩]
  constants := .empty
  batch := .kept

/-- What a signature decides about the schedule of the sum are the inputs. -/
theorem paired_schedule {signature : Signature} {a b : String}
    (houtputs : (paired signature).resolveOutputs ["y"] = .ok [⟨"y", "y"⟩])
    (hinputs : [pairedNodes[1], pairedNodes[0]].mapM ((paired signature).inputSpec pairedRequest) =
      .ok (pairedSchedule a b).inputs) :
    (paired signature).schedule pairedRequest = .ok (pairedSchedule a b) := by
  have hneeded : (paired signature).dependencies.ancestors
      ((pairedSchedule a b).outputs.filterMap fun o => (paired signature).place? o.node) =
      [⟨1, show 1 < 3 by decide⟩, ⟨0, show 0 < 3 by decide⟩, ⟨2, show 2 < 3 by decide⟩] := by cbv
  have hnodes : (paired signature).neededNodes
      [⟨1, show 1 < 3 by decide⟩, ⟨0, show 0 < 3 by decide⟩, ⟨2, show 2 < 3 by decide⟩]
      (pairedSchedule a b).outputs = (pairedSchedule a b).nodes := by
    unfold neededNodes keptVertices
    rw [hneeded]
    cbv
  exact schedule_of_stages (by cbv) houtputs hnodes hinputs (by cbv) (by cbv) rfl rfl

/-- One element for each placeholder. -/
def pairedGiven : Tensors :=
  .ofList [("a", ⟨[1], .float32 [.one], rfl⟩), ("b", ⟨[1], .float32 [⟨0x40000000⟩], rfl⟩)]

/-- Each placeholder goes by the other one's name. -/
def swappedSignature : Signature :=
  ⟨.ofList [("a", ⟨"b", .float32, none⟩), ("b", ⟨"a", .float32, none⟩)], .empty⟩

/-- The elements, each bound to the other placeholder. -/
def swappedBound : Tensors :=
  .ofList [("a", ⟨[1], .float32 [⟨0x40000000⟩], rfl⟩), ("b", ⟨[1], .float32 [.one], rfl⟩)]

/-- Where both names are swapped, each element goes to one placeholder. -/
theorem swapped_oneToOne :
    (paired swappedSignature).schedule pairedRequest = .ok (pairedSchedule "b" "a") ∧
    (pairedSchedule "b" "a").bind pairedGiven = .ok swappedBound ∧
    (pairedSchedule "b" "a").LeavesNodes pairedGiven ∧
    (pairedSchedule "b" "a").OneToOne pairedGiven := by
  have hs : (paired swappedSignature).schedule pairedRequest = .ok (pairedSchedule "b" "a") :=
    paired_schedule (by cbv) (by cbv)
  have hbind : (pairedSchedule "b" "a").bind pairedGiven = .ok swappedBound := by cbv
  have hleaves : (pairedSchedule "b" "a").LeavesNodes pairedGiven := by
    unfold Schedule.LeavesNodes
    decide +kernel
  exact ⟨hs, hbind, hleaves, (bind_oneToOne_iff hs hbind).2.mpr hleaves⟩

/-- Only the first placeholder goes by the other one's name. -/
def crossedSignature : Signature := ⟨.ofList [("b", ⟨"a", .float32, none⟩)], .empty⟩

/-- The second element, bound to both placeholders. -/
def crossedBound : Tensors :=
  .ofList [("a", ⟨[1], .float32 [⟨0x40000000⟩], rfl⟩), ("b", ⟨[1], .float32 [⟨0x40000000⟩], rfl⟩)]

/-- Where one name is crossed, the tensor under it goes to both placeholders, and the other to none. -/
theorem crossed_not_oneToOne : (paired crossedSignature).Built ∧
    (paired crossedSignature).schedule pairedRequest = .ok (pairedSchedule "b" "b") ∧
    (pairedSchedule "b" "b").bind pairedGiven = .ok crossedBound ∧
    ¬ (pairedSchedule "b" "b").OneToOne pairedGiven := by
  refine ⟨paired_built _, paired_schedule (by cbv) (by cbv), by cbv, fun h => ?_⟩
  obtain ⟨i, ⟨hi, hkey⟩, -⟩ := h "a" (by decide +kernel)
  have htaken : ∀ i ∈ (pairedSchedule "b" "b").inputs, i.key? pairedGiven = some "b" := by
    decide +kernel
  exact absurd (hkey.symm.trans (htaken i hi)) (by decide)

end Graph

end TexelFlow
