import TexelFlow.Proofs.Model.Reading
import TexelFlow.Proofs.Schedule.Given

/-!
# Which tensors a schedule accepts

Binding asks five things of a tensor, one after the other: that it goes by a name which belongs to an input,
that it has a leading axis of extent one where axes are stripped, that its type is the input's, that its
shape is one of those declared, and that it is the one the schedule was made for. The fourth question is
answered by the fifth: however a schedule comes by the shape of an input, from tensors, from shapes or from
the declaration itself, it is a shape that was declared. Declared extents are signed words, and without that
an extent and its signed reading would differ.

## Main statements

* `InputSpec.checkDeclared_eq_ok_iff` — which shapes are declared.
* `Graph.checkDeclared_of_mem` — a schedule is made for declared shapes.
* `Graph.bind_accepts` — what a schedule accepts, and what is bound then.

## §1 — declared shapes
## §2 — the shapes of a schedule
## §3 — acceptance
-/

namespace TexelFlow

/-! ## §1 — declared shapes -/

namespace InputSpec

variable {i : InputSpec} {shape : Shape}

/-- An extent goes along with a declared one that stands for any, or for it. -/
def Allows (want : Int) (got : Nat) : Prop := want = -1 ∨ want = signed got

theorem badAxis?_eq_none_iff (axis : Nat) {wants : List Int} {gots : Shape}
    (hlength : wants.length = gots.length) :
    badAxis? axis wants gots = none ↔ List.Forall₂ Allows wants gots := by
  induction wants generalizing axis gots with
  | nil =>
    obtain rfl := List.length_eq_zero_iff.mp hlength.symm
    exact iff_of_true rfl .nil
  | cons want wants ih =>
    match gots, hlength with
    | got :: gots, hlength =>
      rw [badAxis?, List.forall₂_cons, ← ih (axis + 1) (Nat.succ.inj hlength)]
      unfold Allows
      split
      · rename_i hbad
        exact iff_of_false nofun fun h => h.1.elim hbad.1 hbad.2
      · rename_i hgood
        rw [iff_and_self]
        intro
        by_cases hany : want = -1
        · exact .inl hany
        · exact .inr (Classical.not_not.mp fun hne => hgood ⟨hany, hne⟩)

/-- **A shape is declared** when its extents go along with the declared ones, axis by axis. -/
theorem checkDeclared_eq_ok_iff : i.checkDeclared shape = .ok () ↔
    ∀ declared ∈ i.declared, List.Forall₂ Allows declared shape := by
  unfold checkDeclared
  split
  · rename_i hnone
    simp [hnone]
  · rename_i declared hdeclared
    simp only [hdeclared, Option.mem_some_iff, forall_eq']
    split
    · rename_i hlength
      exact iff_of_false nofun fun h => hlength h.length_eq
    · rename_i hlength
      rw [← badAxis?_eq_none_iff 0 (Classical.not_not.mp hlength)]
      split
      · rename_i hbad
        exact iff_of_false nofun (by rw [hbad]; nofun)
      · rename_i hgood
        exact iff_of_true rfl hgood

/-- The shape in which an input's tensor is given. -/
def arriving (i : InputSpec) (batch : Batch) : Shape :=
  match batch with
  | .kept => i.shape
  | .stripped => 1 :: i.shape

/-- What is left when the leading axis is stripped. -/
theorem strip_eq_ok_iff {batch : Batch} :
    i.strip batch shape = .ok i.shape ↔ shape = i.arriving batch := by
  unfold strip arriving
  cases batch with
  | kept => exact ⟨Except.ok.inj, congrArg Except.ok⟩
  | stripped =>
    dsimp only
    split
    · cases ‹Batch.stripped = Batch.kept›
    · rename_i rest
      exact ⟨fun h => congrArg _ (Except.ok.inj h), fun h => congrArg _ (List.cons.inj h).2⟩
    · rename_i hno
      exact iff_of_false nofun fun h => hno _ h

end InputSpec

/-! ## §2 — the shapes of a schedule -/

namespace Graph

variable {g : Graph} {r : Request} {s : Schedule} {n : Node} {i : InputSpec} {batch : Batch}

/-- The extents that a placeholder declares itself are signed words. -/
theorem declaredShape_lt {dims : List Int} (h : declaredShape n = some dims) :
    ∀ extent ∈ dims, extent < Size.signedModulus := by
  obtain ⟨numbers, -, rfl⟩ := Option.map_eq_some_iff.mp h
  intro extent hextent
  obtain ⟨x, -, rfl⟩ := List.mem_map.mp hextent
  have hle : x.toInt64 ≤ 9223372036854775807 := Binary.saturate_le _ (by decide) (by decide) _
  have hend : (9223372036854775807 : Int) < Size.signedModulus := by decide
  exact Int.lt_of_le_of_lt hle hend

/-- What is declared without the leading axis was declared with it. -/
theorem forall_mem_stripped {p : Int → Prop} {declared : Option (List Int)} {dims : List Int}
    (h : ∀ dims ∈ declared, ∀ extent ∈ dims, p extent)
    (hdims : (match batch with
      | .kept => declared
      | .stripped => declared.map (·.drop 1)) = some dims) : ∀ extent ∈ dims, p extent := by
  cases batch with
  | kept => exact h dims hdims
  | stripped =>
    obtain ⟨whole, hwhole, rfl⟩ := Option.map_eq_some_iff.mp hdims
    exact fun extent hextent => h whole hwhole extent (List.mem_of_mem_drop hextent)

/-- What an input declares are signed words, whoever declared them. -/
theorem declared_lt (hg : g.Signed) (h : g.declareInput batch n = .ok i) :
    ∀ dims ∈ i.declared, ∀ extent ∈ dims, extent < Size.signedModulus := by
  intro dims hdims
  unfold declareInput at h
  dsimp only at h
  split at h
  · rename_i external spec hsigned
    obtain ⟨_, hentry, h⟩ := Outcome.bind_eq_ok_iff.mp h
    obtain rfl := Outcome.pure_eq_ok_iff.mp h
    obtain rfl := Except.ok.inj hentry
    refine forall_mem_stripped (fun dims hdims => ?_) hdims
    obtain hspec | ⟨-, hattribute⟩ := Option.or_eq_some_iff.mp hdims
    · obtain ⟨signature, hsignature, hfind⟩ := Option.bind_eq_some_iff.mp hsigned
      exact hg signature hsignature _ (List.mem_of_find?_eq_some hfind) dims hspec
    · exact declaredShape_lt hattribute
  · obtain ⟨dtype, -, h⟩ := Outcome.bind_eq_ok_iff.mp h
    obtain rfl := Outcome.pure_eq_ok_iff.mp h
    exact forall_mem_stripped (fun dims hdims => declaredShape_lt hdims) hdims

/-- An extent that is made from a declared one goes along with it. -/
theorem allows_of_concreteExtent {axis : Nat} {want : Int} {got : Nat}
    (h : concreteExtent i batch axis want = .ok got) (hwant : want < Size.signedModulus) :
    InputSpec.Allows want got := by
  unfold concreteExtent at h
  split at h
  · rename_i hany
    exact .inl hany.1
  · split at h
    · rename_i hpos
      obtain rfl := Except.ok.inj h
      right
      unfold InputSpec.signed
      rw [if_pos (by omega), Int.toNat_of_nonneg hpos]
    · cases h

/-- A shape that is made from declared extents goes along with them. -/
theorem allows_of_concreteExtents {axis : Nat} {wants : List Int} {shape : Shape}
    (h : concreteExtents i batch axis wants = .ok shape)
    (hwants : ∀ want ∈ wants, want < Size.signedModulus) :
    List.Forall₂ InputSpec.Allows wants shape := by
  induction wants generalizing axis shape with
  | nil =>
    obtain rfl := Except.ok.inj h
    exact .nil
  | cons want wants ih =>
    obtain ⟨got, hgot, h⟩ := Outcome.bind_eq_ok_iff.mp h
    obtain ⟨gots, hgots, h⟩ := Outcome.bind_eq_ok_iff.mp h
    obtain rfl := Outcome.pure_eq_ok_iff.mp h
    obtain ⟨hwant, hwants⟩ := List.forall_mem_cons.mp hwants
    exact .cons (allows_of_concreteExtent hgot hwant) (ih hgots hwants)

/-- **The shape an input is scheduled for is declared**, wherever it comes from. -/
theorem checkDeclared_of_inputShape {shape : Shape} (h : inputShape i r = .ok shape)
    (hi : ∀ dims ∈ i.declared, ∀ extent ∈ dims, extent < Size.signedModulus) :
    i.checkDeclared shape = .ok () := by
  unfold inputShape at h
  split at h
  · -- from a tensor
    obtain ⟨t, -, h⟩ := Outcome.bind_eq_ok_iff.mp h
    obtain ⟨u, hprepare, h⟩ := Outcome.bind_eq_ok_iff.mp h
    obtain rfl := Outcome.pure_eq_ok_iff.mp h
    exact (InputSpec.exists_prepare_iff.mp ⟨u, hprepare, rfl⟩).2.2
  · split at h
    · -- from a shape
      obtain ⟨stripped, -, h⟩ := Outcome.bind_eq_ok_iff.mp h
      obtain ⟨⟨⟩, hdeclared, h⟩ := Outcome.bind_eq_ok_iff.mp h
      obtain rfl := Outcome.pure_eq_ok_iff.mp h
      exact hdeclared
    · -- from the declaration
      unfold concreteShape at h
      split at h
      · cases h
      · rename_i declared hdeclared
        refine InputSpec.checkDeclared_eq_ok_iff.mpr fun dims hdims => ?_
        obtain rfl : declared = dims := Option.some.inj (hdeclared.symm.trans hdims)
        exact allows_of_concreteExtents h (hi declared hdims)

/-- **A schedule is made for declared shapes.** -/
theorem checkDeclared_of_mem (hg : g.Signed) (hs : g.schedule r = .ok s) (hi : i ∈ s.inputs) :
    i.checkDeclared i.shape = .ok () := by
  obtain ⟨n, -, hn⟩ := exists_inputSpec_of_mem hs hi
  obtain ⟨declared, hdeclare, hn⟩ := Outcome.bind_eq_ok_iff.mp hn
  obtain ⟨shape, hshape, hn⟩ := Outcome.bind_eq_ok_iff.mp hn
  obtain rfl := Outcome.pure_eq_ok_iff.mp hn
  -- the check does not look at the shape that was found for the input
  exact checkDeclared_of_inputShape (i := declared) hshape (declared_lt hg hdeclare)

/-! ## §3 — acceptance -/

end Graph

/-- **A schedule accepts tensors** when it takes them and each comes in the shape the schedule was made for,
behind a leading axis of one where axes are stripped. -/
structure Schedule.Accepts (s : Schedule) (given : Tensors) : Prop extends s.Takes given where
  /-- The tensor that an input finds has the input's shape. -/
  shaped : ∀ i ∈ s.inputs, ∀ t, i.find? given = some t → t.shape = i.arriving s.batch

/-- What is bound for an input: the elements of the tensor it finds, in the input's shape. -/
def InputSpec.Bound (i : InputSpec) (given bound : Tensors) : Prop :=
  ∃ t u, i.find? given = some t ∧ bound.find? i.node = some u ∧ u.shape = i.shape ∧ u.data = t.data

namespace Graph

variable {g : Graph} {r : Request} {s : Schedule} {given bound : Tensors}

/-- An input that finds a tensor of its type and shape binds it. -/
theorem exists_bindOne_of_accepts (hg : g.Signed) (hs : g.schedule r = .ok s) (h : s.Accepts given)
    {i : InputSpec} (hi : i ∈ s.inputs) : ∃ entry, s.bindOne given i = .ok entry := by
  obtain ⟨t, ht, hdtype⟩ := h.found i hi
  have hstrip : i.strip s.batch t.shape = .ok i.shape :=
    InputSpec.strip_eq_ok_iff.mpr (h.shaped i hi t ht)
  obtain ⟨u, hprepare, hshape⟩ := InputSpec.exists_prepare_iff.mpr
    ⟨hdtype, hstrip, checkDeclared_of_mem hg hs hi⟩
  have hpick : i.pick given = .ok t := by
    unfold InputSpec.pick
    rw [ht]
  refine ⟨(i.node, u), Outcome.bind_eq_ok_iff.mpr ⟨t, hpick, ?_⟩⟩
  exact Outcome.bind_eq_ok_iff.mpr ⟨u, hprepare, Outcome.check_eq_ok_iff.mpr ⟨not_not_intro hshape, rfl⟩⟩

/-- What binding binds to an input was prepared from the tensor that the input finds. -/
theorem exists_prepared_of_bind (hs : g.schedule r = .ok s) (hbind : s.bind given = .ok bound)
    {i : InputSpec} (hi : i ∈ s.inputs) : ∃ t u, i.find? given = some t ∧
      i.prepare s.batch t = .ok u ∧ bound.find? i.node = some u ∧ u.shape = i.shape := by
  obtain ⟨key, t, u, hkey, ht, hprepare, hu⟩ := prepared_of_bind hs hbind hi
  have hfind : i.find? given = some t := by
    rw [InputSpec.find?_eq_bind_key?, hkey, Option.bind_some, ht]
  obtain ⟨j, hj, hnode, hshape, -⟩ := (Schedule.bind_eq_ok hbind).2 i.node u hu
  obtain rfl := input_eq_of_node_eq hs hj hi hnode
  exact ⟨t, u, hfind, hprepare, hu, hshape⟩

theorem accepts_of_bind (hs : g.schedule r = .ok s) (hbind : s.bind given = .ok bound) :
    s.Accepts given := by
  refine ⟨⟨fun _ hkey => Schedule.known_of_bind hbind hkey, fun i hi => ?_⟩, fun i hi t ht => ?_⟩
  · obtain ⟨t, u, ht, hprepare, -, hshape⟩ := exists_prepared_of_bind hs hbind hi
    exact ⟨t, ht, (InputSpec.exists_prepare_iff.mp ⟨u, hprepare, hshape⟩).1⟩
  · obtain ⟨t', u, ht', hprepare, -, hshape⟩ := exists_prepared_of_bind hs hbind hi
    obtain rfl := Option.some.inj (ht.symm.trans ht')
    exact InputSpec.strip_eq_ok_iff.mp (InputSpec.exists_prepare_iff.mp ⟨u, hprepare, hshape⟩).2.1

/-- The names that are bound are those of the scheduled placeholders, each of them once. -/
theorem names_of_bind (hs : g.schedule r = .ok s) (hbind : s.bind given = .ok bound) :
    bound.names.Perm ((s.nodes.filter (·.op = .placeholder)).map (·.name)) := by
  unfold Schedule.bind at hbind
  obtain ⟨-, hbind⟩ := Outcome.check_eq_ok_iff.mp hbind
  obtain ⟨entries, hentries, hbind⟩ := Outcome.bind_eq_ok_iff.mp hbind
  obtain rfl := Outcome.pure_eq_ok_iff.mp hbind
  have hnames : entries.map Prod.fst = s.inputs.map (·.node) := by
    rw [← List.forall₂_eq_eq_eq, List.forall₂_map_left_iff, List.forall₂_map_right_iff]
    refine (Outcome.mapM_eq_ok_iff.mp hentries).flip.imp ?_
    rintro ⟨name, t⟩ i hone
    exact (Schedule.bindOne_eq_ok hone).1.symm
  rw [inputNodes_eq hs] at hnames
  rw [← hnames]
  refine Named.names_ofList_perm ?_
  rw [hnames]
  exact (scheduledNames_nodup hs).sublist (List.filter_sublist.map _)

/-- **What a schedule accepts.** Binding succeeds exactly for tensors that all go by names of inputs and
among which each input finds one of its type and shape; the declared extents never refuse the shape of an
input; and what is bound is one tensor for each scheduled placeholder, of its shape and with the elements of
the tensor that was found. -/
theorem bind_accepts (hg : g.Signed) (hs : g.schedule r = .ok s) (given : Tensors) :
    ((∃ bound, s.bind given = .ok bound) ↔ s.Accepts given) ∧
    (∀ i ∈ s.inputs, i.checkDeclared i.shape = .ok ()) ∧
    ∀ bound, s.bind given = .ok bound →
      bound.names.Perm ((s.nodes.filter (·.op = .placeholder)).map (·.name)) ∧
      (∀ i ∈ s.inputs, i.Bound given bound) := by
  refine ⟨⟨?accepts, fun h => ?binds⟩, fun i hi => checkDeclared_of_mem hg hs hi, fun bound hbind => ?_⟩
  case accepts =>
    rintro ⟨bound, hbind⟩
    exact accepts_of_bind hs hbind
  case binds => exact Schedule.exists_bind h.known fun i hi => exists_bindOne_of_accepts hg hs h hi
  refine ⟨names_of_bind hs hbind, fun i hi => ?_⟩
  obtain ⟨t, u, ht, hprepare, hu, hshape⟩ := exists_prepared_of_bind hs hbind hi
  exact ⟨t, u, ht, hu, hshape, (InputSpec.data_of_prepare hprepare).1⟩

/-- A placeholder that declares any number of rows of three elements. -/
def rows : Graph where
  nodes := [⟨"row", .placeholder, [], .empty, []⟩]
  constants := .empty
  signature := some ⟨.ofList [("image", ⟨"row", .float32, some [-1, 3]⟩)], .empty⟩
  named := by decide
  distinct := by decide
  wired := by decide
  given := by decide

/-- Its schedule for single rows. -/
def rowSchedule : Schedule where
  nodes := rows.nodes
  descriptors := .ofList [("row", ⟨[3], .float32⟩)]
  inputs := [⟨"image", "row", .float32, some [3], [3]⟩]
  outputs := [⟨"row", "row"⟩]
  constants := .empty
  batch := .stripped

/-- One row, under the external name. -/
def rowGiven : Tensors := .ofList [("image", ⟨[1, 3], .float32 [.zero, .half, .one], by decide⟩)]

/-- A row is accepted and bound to the placeholder. -/
theorem row_accepted : rows.Signed ∧
    rows.schedule ⟨["row"], .stripped, .empty, none⟩ = .ok rowSchedule ∧ rowSchedule.Accepts rowGiven ∧
    ∃ bound, rowSchedule.bind rowGiven = .ok bound ∧ bound.names.Perm ["row"] ∧
      ∀ i ∈ rowSchedule.inputs, i.Bound rowGiven bound := by
  have hsigned : rows.Signed := by
    intro signature hsignature
    obtain rfl := Option.some.inj hsignature
    unfold Model.Signature.Signed Model.TensorSpec.Signed
    decide +kernel
  have hs : rows.schedule ⟨["row"], .stripped, .empty, none⟩ = .ok rowSchedule := by cbv
  have haccepts : rowSchedule.Accepts rowGiven := by
    refine ⟨⟨fun key hkey => ?_, by decide +kernel⟩, by decide +kernel⟩
    have hkeys : ∀ key ∈ rowGiven.names, ∃ i ∈ rowSchedule.inputs, i.name = key ∨ i.node = key := by
      decide +kernel
    exact hkeys key (Named.mem_names_iff.mpr hkey)
  obtain ⟨hiff, -, hbound⟩ := bind_accepts hsigned hs rowGiven
  obtain ⟨bound, hbind⟩ := hiff.mpr haccepts
  obtain ⟨hnames, hinputs⟩ := hbound bound hbind
  exact ⟨hsigned, hs, haccepts, bound, hbind, hnames, hinputs⟩

end Graph

end TexelFlow
