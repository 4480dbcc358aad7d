import TexelFlow.Device.HostTensor
import TexelFlow.Proofs.Checked

/-!
# Reading nested arrays

Nested arrays are rectangular along a shape when all values at one depth are arrays of one length, and the
values at the last depth are numbers. Reading guesses the shape from the first items alone, makes room for
as many numbers as that guess counts, and only then looks at the rest. So what is read is rectangular, and
what is rectangular is read; but a guess that no memory has room for is no error, it ends the program. Small
arrays can have such a guess, when they double at every depth along their first items.

## Main statements

* `leaves_eq_ok_iff` — arrays give their numbers exactly when they follow the shape.
* `rectangular_iff` — arrays are rectangular along the guess or not at all.
* `ofNested_eq_ok_iff` — what is read.
* `readsArrays_iff` — when nested arrays are read as rectangular ones or refused.

## §1 — rectangular arrays
## §2 — the numbers of a shape
## §3 — the shape of the first items
## §4 — reading
-/

namespace TexelFlow

/-! ## §1 — rectangular arrays -/

namespace Json

/-- The values at a depth of nested arrays, in the order in which they stand. -/
def level : Nat → Json → List Json
  | 0, j => [j]
  | depth + 1, j => (j.items?.getD []).flatMap (level depth)

/-- The numbers at a depth of nested arrays, rounded to words of 32 bits. -/
def wordsAt (depth : Nat) (j : Json) : List Binary32 :=
  ((j.level depth).filterMap real?).map Binary64.toBinary32

/-- Nested arrays follow a shape: at each of its depths stand arrays of its extent. -/
structure Layered (shape : Shape) (j : Json) : Prop where
  /-- Values above the end of the shape are arrays. -/
  arrays : ∀ depth extent, shape[depth]? = some extent → ∀ v ∈ j.level depth,
    ∃ items, v = .array items ∧ items.length = extent

/-- Nested arrays of numbers follow a shape. -/
structure Nests (shape : Shape) (j : Json) : Prop extends Layered shape j where
  /-- Values at the end of the shape are numbers. -/
  numbers : ∀ v ∈ j.level shape.length, ∃ n, v = .number n

/-- **Nested arrays are rectangular** along a shape, which ends with the first extent that is zero. -/
structure Rectangular (shape : Shape) (j : Json) : Prop extends Nests shape j where
  /-- Nothing follows an extent that is zero. -/
  stops : ∀ depth, shape[depth]? = some 0 → depth + 1 = shape.length

variable {j : Json} {shape : Shape} {extent : Nat}

theorem level_array (depth : Nat) (items : List Json) :
    (Json.array items).level (depth + 1) = items.flatMap (level depth) := rfl

theorem layered_nil (j : Json) : Layered [] j := ⟨fun _ _ h => by simp at h⟩

/-- An array follows a shape when it has the first extent and its items follow the rest. -/
theorem layered_cons_iff : Layered (extent :: shape) j ↔
    ∃ items, j = .array items ∧ items.length = extent ∧ ∀ v ∈ items, Layered shape v := by
  constructor
  · intro h
    obtain ⟨items, rfl, hlength⟩ := h.arrays 0 extent rfl j List.mem_cons_self
    refine ⟨items, rfl, hlength, fun v hv => ⟨fun depth e he w hw => ?_⟩⟩
    exact h.arrays (depth + 1) e he w (List.mem_flatMap.mpr ⟨v, hv, hw⟩)
  · rintro ⟨items, rfl, hlength, hitems⟩
    refine ⟨fun depth e he w hw => ?_⟩
    cases depth with
    | zero =>
      obtain rfl := Option.some.inj he
      exact ⟨items, List.mem_singleton.mp hw, hlength⟩
    | succ depth =>
      obtain ⟨v, hv, hw⟩ := List.mem_flatMap.mp hw
      exact (hitems v hv).arrays depth e he w hw

/-- As many values stand at the end of a shape as its extents multiply to. -/
theorem Layered.length_level (h : Layered shape j) : (j.level shape.length).length = shape.prod := by
  induction shape generalizing j with
  | nil => rfl
  | cons extent shape ih =>
    obtain ⟨items, rfl, hlength, hitems⟩ := layered_cons_iff.mp h
    have hrows : items.map (fun v => (v.level shape.length).length) = items.map fun _ => shape.prod :=
      List.map_congr_left fun v hv => ih (hitems v hv)
    rw [List.length_cons, level_array, List.length_flatMap, hrows, List.map_const',
      List.sum_replicate_nat, hlength, List.prod_cons]

theorem nests_nil_iff : Nests [] j ↔ ∃ n, j = .number n := by
  constructor
  · intro h
    exact h.numbers j List.mem_cons_self
  · rintro ⟨n, rfl⟩
    exact ⟨layered_nil _, fun v hv => ⟨n, List.mem_singleton.mp hv⟩⟩

/-- An array of numbers follows a shape when it has the first extent and its items follow the rest. -/
theorem nests_cons_iff : Nests (extent :: shape) j ↔
    ∃ items, j = .array items ∧ items.length = extent ∧ ∀ v ∈ items, Nests shape v := by
  constructor
  · intro h
    obtain ⟨items, rfl, hlength, hitems⟩ := layered_cons_iff.mp h.toLayered
    refine ⟨items, rfl, hlength, fun v hv => ⟨hitems v hv, fun w hw => ?_⟩⟩
    exact h.numbers w (List.mem_flatMap.mpr ⟨v, hv, hw⟩)
  · rintro ⟨items, rfl, hlength, hitems⟩
    refine ⟨layered_cons_iff.mpr ⟨items, rfl, hlength, fun v hv => (hitems v hv).toLayered⟩, ?_⟩
    intro w hw
    obtain ⟨v, hv, hw⟩ := List.mem_flatMap.mp hw
    exact (hitems v hv).numbers w hw

/-- Each of the values at the end of a shape gives its number. -/
theorem Nests.length_wordsAt (h : Nests shape j) : (j.wordsAt shape.length).length = shape.prod := by
  rw [wordsAt, List.length_map, ← h.length_level, List.length_filterMap_eq_countP, List.countP_eq_length]
  intro v hv
  obtain ⟨n, rfl⟩ := h.numbers v hv
  rfl

theorem wordsAt_array (items : List Json) (depth : Nat) :
    (Json.array items).wordsAt (depth + 1) = items.flatMap (wordsAt depth) := by
  rw [wordsAt, level_array, List.filterMap_flatMap, List.map_flatMap]
  rfl

theorem rectangular_nil_iff : Rectangular [] j ↔ ∃ n, j = .number n :=
  ⟨fun h => nests_nil_iff.mp h.toNests, fun h => ⟨nests_nil_iff.mpr h, fun _ h => by simp at h⟩⟩

/-- An array is rectangular when all its items are along one shape, which is empty if it has none. -/
theorem rectangular_cons_iff : Rectangular (extent :: shape) j ↔
    ∃ items, j = .array items ∧ items.length = extent ∧ (items = [] → shape = []) ∧
      ∀ v ∈ items, Rectangular shape v := by
  constructor
  · intro h
    obtain ⟨items, rfl, rfl, hitems⟩ := nests_cons_iff.mp h.toNests
    refine ⟨items, rfl, rfl, fun hempty => ?_, fun v hv => ⟨hitems v hv, fun depth hd => ?_⟩⟩
    · have hstop := h.stops 0 (by rw [hempty]; rfl)
      exact List.length_eq_zero_iff.mp (Nat.succ.inj hstop).symm
    · exact Nat.succ.inj (h.stops (depth + 1) hd)
  · rintro ⟨items, rfl, rfl, hempty, hitems⟩
    refine ⟨nests_cons_iff.mpr ⟨items, rfl, rfl, fun v hv => (hitems v hv).toNests⟩, ?_⟩
    intro depth hd
    cases depth with
    | zero =>
      rw [hempty (List.length_eq_zero_iff.mp (Option.some.inj hd))]
      rfl
    | succ depth =>
      cases items with
      | nil => simp [hempty rfl] at hd
      | cons v items => exact congrArg Nat.succ ((hitems v List.mem_cons_self).stops depth hd)

end Json

namespace HostTensor

variable {j : Json} {shape : Shape} {t : HostTensor} {e : Error}

/-! ## §2 — the numbers of a shape -/

/-- A list that is related to another member by member by a function is its image. -/
theorem forall₂_image_iff {α β : Type} {f : α → β} {xs : List α} {ys : List β} :
    List.Forall₂ (fun x y => y = f x) xs ys ↔ ys = xs.map f := by
  rw [← List.forall₂_eq_eq_eq, List.forall₂_map_right_iff]
  exact ⟨.flip, .flip⟩

theorem leavesOfItems_eq (shape : Shape) (items : List Json) :
    leavesOfItems shape items = do return (← items.mapM (leaves shape)).flatten := by
  induction items with
  | nil => rfl
  | cons item items ih =>
    rw [leavesOfItems, ih, List.mapM_cons]
    simp only [bind_assoc, pure_bind, List.flatten_cons]

/-- The numbers of an array of the first extent are those of its items. -/
theorem leaves_array {items : List Json} {extent : Nat} (h : items.length = extent) :
    leaves (extent :: shape) (.array items) = do return (← items.mapM (leaves shape)).flatten := by
  rw [leaves, if_pos h, leavesOfItems_eq]

/-- **Nested arrays give their numbers** exactly when they follow the shape. -/
theorem leaves_eq_ok_iff {words : List Binary32} :
    leaves shape j = .ok words ↔ j.Nests shape ∧ words = j.wordsAt shape.length := by
  induction shape generalizing j words with
  | nil =>
    rw [Json.nests_nil_iff]
    cases j with
    | number n =>
      rw [leaves, Except.ok.injEq, eq_comm]
      exact ⟨fun h => ⟨⟨n, rfl⟩, h⟩, fun h => h.2⟩
    | _ => simp [leaves]
  | cons extent shape ih =>
    rw [Json.nests_cons_iff]
    cases j with
    | array items =>
      by_cases hlength : items.length = extent
      · rw [leaves_array hlength, Outcome.bind_eq_ok_iff]
        simp only [Outcome.mapM_eq_ok_iff, ih, List.forall₂_and_left, forall₂_image_iff,
          Outcome.pure_eq_ok_iff]
        rw [List.length_cons, Json.wordsAt_array]
        constructor
        · rintro ⟨rows, ⟨hitems, rfl⟩, rfl⟩
          exact ⟨⟨items, rfl, hlength, hitems⟩, List.flatMap_def.symm⟩
        · rintro ⟨⟨_, hsame, -, hitems⟩, rfl⟩
          obtain rfl := Json.array.inj hsame
          exact ⟨_, ⟨hitems, rfl⟩, List.flatMap_def.symm⟩
      · rw [leaves, if_neg hlength]
        simp [hlength]
    | _ => simp [leaves]

/-- What keeps nested arrays from giving their numbers is an error of tensors. -/
theorem leaves_eq_error (h : leaves shape j = .error e) : ∃ fault, e = .tensor fault := by
  induction shape generalizing j e with
  | nil =>
    cases j with
    | number n => cases h
    | _ => exact ⟨_, (Except.error.inj h).symm⟩
  | cons extent shape ih =>
    cases j with
    | array items =>
      by_cases hlength : items.length = extent
      · rw [leaves_array hlength] at h
        rcases Outcome.bind_eq_error_iff.mp h with h | ⟨_, -, h⟩
        · obtain ⟨v, -, hv⟩ := Outcome.exists_of_mapM_eq_error h
          exact ih hv
        · cases h
      · rw [leaves, if_neg hlength] at h
        exact ⟨_, (Except.error.inj h).symm⟩
    | _ => exact ⟨_, (Except.error.inj h).symm⟩

/-! ## §3 — the shape of the first items -/

/-- The first items are followed until there is none. -/
theorem leadingShape_stops (j : Json) :
    ∀ depth, (leadingShape j)[depth]? = some 0 → depth + 1 = (leadingShape j).length := by
  fun_induction leadingShape j with
  | case1 =>
    intro depth h
    obtain ⟨hd, -⟩ := List.getElem?_eq_some_iff.mp h
    exact (Nat.le_antisymm hd (Nat.succ_le_succ (Nat.zero_le _)))
  | case2 first rest ih =>
    intro depth h
    cases depth with
    | zero => cases h
    | succ depth => exact congrArg Nat.succ (ih depth h)
  | case3 => exact fun _ h => by simp at h

/-- **Nested arrays are rectangular** along the shape of their first items or not at all. -/
theorem rectangular_iff : j.Rectangular shape ↔ shape = leadingShape j ∧ j.Nests shape := by
  constructor
  · intro h
    refine ⟨?_, h.toNests⟩
    induction shape generalizing j with
    | nil =>
      obtain ⟨n, rfl⟩ := Json.rectangular_nil_iff.mp h
      rfl
    | cons extent shape ih =>
      obtain ⟨items, rfl, rfl, hempty, hitems⟩ := Json.rectangular_cons_iff.mp h
      cases items with
      | nil =>
        rw [hempty rfl]
        rfl
      | cons first rest => exact congrArg _ (ih (hitems first List.mem_cons_self))
  · rintro ⟨rfl, h⟩
    exact ⟨h, leadingShape_stops j⟩

/-! ## §4 — reading -/

/-- What does not make a tensor of a counted shape is an error of tensors. -/
theorem make_eq_error {data : HostData} (hcounted : shape.Counted) (h : make shape data = .error e) :
    ∃ fault, e = .tensor fault := by
  unfold make at h
  split at h
  · rename_i hcount
    exact absurd hcounted (Shape.counted_eq_error_iff.mp hcount).1
  · split at h
    · cases h
    · exact ⟨_, (Except.error.inj h).symm⟩

/-- Where there is no room for the guess, nothing is looked at. -/
theorem ofNested_of_full (h : ¬ (leadingShape j).HasRoom) : ∃ breach, ofNested j = .error (.breach breach) :=
  Shape.reserve_of_not_hasRoom h

/-- Where there is room for the guess, its numbers are looked for. -/
theorem ofNested_of_room (h : (leadingShape j).HasRoom) : ofNested j =
    leaves (leadingShape j) j >>= fun words => make (leadingShape j) (.float32 words) :=
  Shape.reserve_of_hasRoom h

/-- **What is read**: rectangular arrays, if there is room for their numbers. -/
theorem ofNested_eq_ok_iff : ofNested j = .ok t ↔
    j.Rectangular t.shape ∧ t.data = .float32 (j.wordsAt t.shape.length) ∧ t.shape.HasRoom := by
  rw [rectangular_iff]
  constructor
  · intro h
    have hroom : (leadingShape j).HasRoom := by
      by_contra hfull
      obtain ⟨breach, hbreach⟩ := ofNested_of_full hfull
      cases hbreach.symm.trans h
    rw [ofNested_of_room hroom] at h
    obtain ⟨words, hwords, h⟩ := Outcome.bind_eq_ok_iff.mp h
    obtain ⟨hshape, hdata⟩ := make_eq_ok_iff.mp h
    rw [← hshape] at hwords hroom
    obtain ⟨hnests, rfl⟩ := leaves_eq_ok_iff.mp hwords
    exact ⟨⟨hshape, hnests⟩, hdata, hroom⟩
  · rintro ⟨⟨hshape, hnests⟩, hdata, hroom⟩
    rw [hshape] at hroom
    rw [ofNested_of_room hroom, ← hshape, Outcome.bind_eq_ok_iff]
    exact ⟨_, leaves_eq_ok_iff.mpr ⟨hnests, rfl⟩, make_eq_ok_iff.mpr ⟨rfl, hdata⟩⟩

/-- What is not read though there is room for the guess is an error of tensors. -/
theorem ofNested_eq_error (hroom : (leadingShape j).HasRoom) (h : ofNested j = .error e) :
    ∃ fault, e = .tensor fault := by
  rw [ofNested_of_room hroom] at h
  rcases Outcome.bind_eq_error_iff.mp h with h | ⟨words, -, h⟩
  · exact leaves_eq_error h
  · exact make_eq_error hroom.1 h

/-- **Nested arrays are read as rectangular ones, or refused.** -/
structure ReadsArrays (j : Json) : Prop where
  /-- What is rectangular is read along its shape, its numbers in order. -/
  reads : ∀ shape, j.Rectangular shape → ∃ t, ofNested j = .ok t ∧ t.shape = shape ∧
    t.data = .float32 (j.wordsAt shape.length)
  /-- Anything else is refused as a tensor. -/
  refuses : (∀ shape, ¬ j.Rectangular shape) → ∃ fault, ofNested j = .error (.tensor fault)

/-- **Nested arrays are read or refused** exactly when there is room for the shape of their first items. -/
theorem readsArrays_iff (j : Json) : ReadsArrays j ↔ (leadingShape j).HasRoom := by
  constructor
  · intro h
    by_contra hfull
    obtain ⟨breach, hbreach⟩ := ofNested_of_full hfull
    by_cases hnone : ∀ shape, ¬ j.Rectangular shape
    · obtain ⟨fault, hfault⟩ := h.refuses hnone
      cases hbreach.symm.trans hfault
    · obtain ⟨shape, hshape⟩ := not_forall_not.mp hnone
      obtain ⟨t, ht, -⟩ := h.reads shape hshape
      cases hbreach.symm.trans ht
  · intro hroom
    refine ⟨fun shape hshape => ?_, fun hnone => ?_⟩
    · obtain rfl := (rectangular_iff.mp hshape).1
      have hcount : (leadingShape j).counted =
          .ok (HostData.float32 (j.wordsAt (leadingShape j).length)).length := by
        rw [hroom.1.counted]
        exact congrArg Except.ok hshape.length_wordsAt.symm
      exact ⟨⟨_, _, hcount⟩, ofNested_eq_ok_iff.mpr ⟨hshape, rfl, hroom⟩, rfl, rfl⟩
    · cases hread : ofNested j with
      | ok t => exact absurd (ofNested_eq_ok_iff.mp hread).1 (hnone t.shape)
      | error e =>
        obtain ⟨fault, rfl⟩ := ofNested_eq_error hroom hread
        exact ⟨fault, rfl⟩

/-- Two rows of two numbers. -/
def rows : Json := .array [.array [.nat 1, .nat 2], .array [.nat 0, .nat 1]]

/-- A row of two numbers beside a number. -/
def raggedRows : Json := .array [.array [.nat 1, .nat 2], .nat 0]

/-- Rows are read in order, and a number beside a row is refused. -/
theorem rows_read : (∃ t, ofNested rows = .ok t ∧ t.shape = [2, 2] ∧ t.data = .float32 (rows.wordsAt 2)) ∧
    ∃ fault, ofNested raggedRows = .error (.tensor fault) := by
  have hroom : Shape.HasRoom [2, 2] := ⟨Shape.counted_of_eq_ok rfl, by decide⟩
  constructor
  · have hnests : rows.Nests [2, 2] := (leaves_eq_ok_iff.mp rfl).1
    exact ((readsArrays_iff rows).mpr hroom).reads [2, 2] (rectangular_iff.mpr ⟨rfl, hnests⟩)
  · refine ((readsArrays_iff raggedRows).mpr hroom).refuses fun shape hshape => ?_
    obtain ⟨rfl, hnests⟩ := rectangular_iff.mp hshape
    cases leaves_eq_ok_iff.mpr ⟨hnests, rfl⟩

/-- A number inside pairs, each with a number behind. -/
def tower : Nat → Json
  | 0 => .nat 0
  | depth + 1 => .array [tower depth, .nat 0]

/-- A pair of an array and a number is not rectangular. -/
theorem tower_not_rectangular (depth : Nat) (shape : Shape) : ¬ (tower (depth + 2)).Rectangular shape := by
  intro h
  cases shape with
  | nil =>
    obtain ⟨n, hn⟩ := Json.rectangular_nil_iff.mp h
    cases hn
  | cons extent shape =>
    obtain ⟨items, hitems, -, -, hall⟩ := Json.rectangular_cons_iff.mp h
    obtain rfl := Json.array.inj hitems
    cases shape with
    | nil =>
      obtain ⟨n, hn⟩ := Json.rectangular_nil_iff.mp (hall (tower (depth + 1)) List.mem_cons_self)
      cases hn
    | cons extent shape =>
      obtain ⟨items, hitems, -⟩ := Json.rectangular_cons_iff.mp (hall (.nat 0) (by simp))
      cases hitems

/-- **A small tower is not refused**: sixty-one pairs guess at more numbers than can be held. -/
theorem tower_not_read : ¬ ReadsArrays (tower 61) := by
  intro h
  have hfull : ¬ (leadingShape (tower 61)).HasRoom := fun hroom => absurd hroom.2 (by decide)
  obtain ⟨breach, hbreach⟩ := ofNested_of_full hfull
  obtain ⟨fault, hfault⟩ := h.refuses (tower_not_rectangular 59)
  cases hbreach.symm.trans hfault

end HostTensor

end TexelFlow
