import TexelFlow.Proofs.Binary.Widening
import TexelFlow.Proofs.Device.Nested

/-!
# Writing nested arrays

Elements are nested along a shape by cutting them, at each extent, into rows as long as the count of the
extents behind it. Where every extent has members, the rows are as many as the extent says and nothing is
left over: what is written follows the shape and holds the elements in order. Reading and writing are then
inverse, for a finite word comes back from the 64 bits it is written in.

## Main statements

* `pieces_flatMap`, `pieces_rows` — cutting a list into rows.
* `nest_layered` — what is written follows the shape.
* `nest_level` — what was read is written again.
* `nested_inverse` — reading and writing are inverse.

## §1 — rows
## §2 — nesting
## §3 — there and back
-/

namespace TexelFlow

namespace HostTensor

/-! ## §1 — rows -/

variable {α β : Type} {k n : Nat}

theorem pieces_nil (k : Nat) : pieces k ([] : List α) = [] := by
  unfold pieces
  rfl

/-- The first row is cut off. -/
theorem pieces_append (hk : 0 < k) {row rest : List α} (h : row.length = k) :
    pieces k (row ++ rest) = row :: pieces k rest := by
  cases row with
  | nil => exact absurd h (by simpa using hk.ne)
  | cons a row =>
    rw [List.cons_append, pieces, if_neg hk.ne', ← List.cons_append, List.take_left' h, List.drop_left' h]

/-- **Rows behind each other** are cut apart again. -/
theorem pieces_flatMap (hk : 0 < k) {items : List β} {f : β → List α}
    (h : ∀ b ∈ items, (f b).length = k) : pieces k (items.flatMap f) = items.map f := by
  induction items with
  | nil => exact pieces_nil k
  | cons b items ih =>
    rw [List.forall_mem_cons] at h
    rw [List.flatMap_cons, pieces_append hk h.1, ih h.2, List.map_cons]

/-- **A list of `n` rows** is cut into `n` rows, which are the list. -/
theorem pieces_rows (hk : 0 < k) {values : List α} (h : values.length = n * k) :
    (pieces k values).length = n ∧ (∀ row ∈ pieces k values, row.length = k) ∧
      (pieces k values).flatten = values := by
  induction n generalizing values with
  | zero =>
    obtain rfl := List.length_eq_zero_iff.mp (h.trans (Nat.zero_mul k))
    rw [pieces_nil]
    exact ⟨rfl, fun _ hrow => absurd hrow List.not_mem_nil, rfl⟩
  | succ n ih =>
    rw [Nat.succ_mul] at h
    have hrow : (values.take k).length = k := List.length_take_of_le (by omega)
    have hrest : (values.drop k).length = n * k := by
      rw [List.length_drop]
      omega
    obtain ⟨hcount, hrows, hflat⟩ := ih hrest
    have hcut : pieces k values = values.take k :: pieces k (values.drop k) := by
      rw [← pieces_append hk hrow, List.take_append_drop]
    rw [hcut]
    refine ⟨congrArg Nat.succ hcount, List.forall_mem_cons.mpr ⟨hrow, hrows⟩, ?_⟩
    rw [List.flatten_cons, hflat, List.take_append_drop]

/-! ## §2 — nesting -/

variable {values : List Json} {shape : Shape} {j : Json} {t : HostTensor}

/-- A list is cut along the rest of the shape, also where nothing is left of it. -/
theorem nest_cons_eq_ok_iff {extent : Nat} : nest values (extent :: shape) = .ok j ↔ shape.Counted ∧
    ∃ items, (pieces shape.prod values).mapM (fun row => nest row shape) = .ok items ∧ j = .array items := by
  cases shape with
  | cons next shape =>
    rw [nest.eq_3 values extent _ (List.cons_ne_nil next shape)]
    constructor
    · intro h
      obtain ⟨row, hrow, h⟩ := Outcome.bind_eq_ok_iff.mp h
      obtain ⟨hcounted, rfl⟩ := Shape.counted_eq_ok_iff.mp hrow
      obtain ⟨items, hitems, h⟩ := Outcome.bind_eq_ok_iff.mp h
      exact ⟨hcounted, items, hitems, (Outcome.pure_eq_ok_iff.mp h).symm⟩
    · rintro ⟨hcounted, items, hitems, rfl⟩
      rw [hcounted.counted, Outcome.bind_of_eq_ok rfl, Outcome.bind_of_eq_ok hitems]
      rfl
  | nil =>
    have hsingles : (pieces 1 values).mapM (fun row => nest row []) = .ok values := by
      induction values with
      | nil => rw [pieces_nil]; rfl
      | cons v values ih =>
        have hfirst : nest [v] [] = .ok v := rfl
        rw [← List.singleton_append, pieces_append Nat.one_pos rfl, List.mapM_cons, hfirst, ih]
        rfl
    have hcounted : Shape.Counted [] := Shape.counted_of_eq_ok rfl
    rw [nest, List.prod_nil, hsingles, and_iff_right hcounted]
    simp [eq_comm]

/-- The rest of a shape with members is counted, and has members. -/
theorem counted_rest {extent : Nat} (hpos : ∀ n ∈ extent :: shape, 1 ≤ n)
    (hlt : (extent :: shape).prod < Size.modulus) :
    (∀ n ∈ shape, 1 ≤ n) ∧ shape.prod < Size.modulus ∧ shape.Counted ∧ 0 < shape.prod := by
  rw [List.forall_mem_cons] at hpos
  rw [List.prod_cons] at hlt
  have hrest : shape.prod < Size.modulus := (Nat.le_mul_of_pos_left _ hpos.1).trans_lt hlt
  exact ⟨hpos.2, hrest, (Shape.counted_iff_of_pos hpos.2).mpr hrest, List.prod_pos hpos.2⟩

/-- **What is written follows the shape**, and at its end stand the values in order. -/
theorem nest_layered (hpos : ∀ n ∈ shape, 1 ≤ n) (hlt : shape.prod < Size.modulus)
    (hlength : values.length = shape.prod) :
    ∃ j, nest values shape = .ok j ∧ j.Layered shape ∧ j.level shape.length = values := by
  induction shape generalizing values with
  | nil =>
    obtain ⟨v, rfl⟩ := List.length_eq_one_iff.mp hlength
    exact ⟨v, rfl, Json.layered_nil _, rfl⟩
  | cons extent shape ih =>
    obtain ⟨hpos', hlt', hcounted, hmembers⟩ := counted_rest hpos hlt
    obtain ⟨hextent, hrows, hflat⟩ := pieces_rows hmembers hlength
    obtain ⟨items, hitems, hall⟩ :=
      Outcome.exists_mapM_of_forall fun row hrow => ih hpos' hlt' (hrows row hrow)
    refine ⟨.array items, nest_cons_eq_ok_iff.mpr ⟨hcounted, items, hitems, rfl⟩, ?_, ?_⟩
    · refine Json.layered_cons_iff.mpr ⟨items, rfl, hall.length_eq.symm.trans hextent, fun v hv => ?_⟩
      obtain ⟨_, -, hlayered, -⟩ := Outcome.exists_of_forall₂ hall.flip hv
      exact hlayered
    · have hlevels : pieces shape.prod values = items.map (Json.level shape.length) :=
        forall₂_image_iff.mp (hall.flip.imp fun _ _ h => h.2.symm)
      rw [List.length_cons, Json.level_array, List.flatMap_def, ← hlevels, hflat]

end HostTensor

namespace Json

mutual

/-- Nested arrays with each number as one of 64 bits. -/
def asReals : Json → Json
  | .number n => .number (.real n.toBinary64)
  | .array items => .array (asRealsOfItems items)
  | .null => .null
  | .bool b => .bool b
  | .string s => .string s
  | .object members => .object members

/-- Items with each number as one of 64 bits. -/
def asRealsOfItems : List Json → List Json
  | [] => []
  | item :: rest => asReals item :: asRealsOfItems rest

end

theorem asReals_array (items : List Json) : (Json.array items).asReals = .array (items.map asReals) := by
  rw [asReals]
  congr 1
  induction items with
  | nil => rfl
  | cons item items ih => rw [asRealsOfItems, ih, List.map_cons]

/-- A number that is one of 32 bits. -/
def Number.IsSingle (n : Number) : Prop := ∃ x : Binary32, x.isFinite = true ∧ n.toBinary64 = x.toBinary64

end Json

namespace HostTensor

variable {values : List Json} {shape : Shape} {j : Json} {t : HostTensor}

/-- **What was read is written again**: the values at the end of a shape, nested along it. -/
theorem nest_level (hpos : ∀ n ∈ shape, 1 ≤ n) (hlt : shape.prod < Size.modulus)
    (h : j.Nests shape) : nest ((j.level shape.length).map Json.asReals) shape = .ok j.asReals := by
  induction shape generalizing j with
  | nil => rfl
  | cons extent shape ih =>
    obtain ⟨hpos', hlt', hcounted, hmembers⟩ := counted_rest hpos hlt
    obtain ⟨items, rfl, -, hitems⟩ := Json.nests_cons_iff.mp h
    have hrows : ∀ v ∈ items, ((v.level shape.length).map Json.asReals).length = shape.prod := by
      intro v hv
      rw [List.length_map, (hitems v hv).length_level]
    refine nest_cons_eq_ok_iff.mpr ⟨hcounted, items.map Json.asReals, ?_, Json.asReals_array items⟩
    rw [List.length_cons, Json.level_array, List.map_flatMap, pieces_flatMap hmembers hrows,
      Outcome.mapM_eq_ok_iff, List.forall₂_map_left_iff, List.forall₂_map_right_iff, List.forall₂_same]
    exact fun v hv => ih hpos' hlt' (hitems v hv)

/-! ## §3 — there and back -/

theorem jsonOfReal_finite {x : Binary32} (h : x.isFinite = true) :
    jsonOfReal x = .number (.real x.toBinary64) := if_pos h

/-- The elements of a tensor stand in memory. Those of a tensor in a running program always do, so this is no
restriction on the tensors there are. -/
def Held (t : HostTensor) : Prop := t.data.length * elementRoom ≤ Size.addressable

/-- A tensor is counted as what its shape multiplies to. -/
theorem prod_shape (t : HostTensor) : t.shape.prod = t.data.length := Shape.prod_of_counted t.filled

theorem counted_shape (t : HostTensor) : t.shape.Counted := Shape.counted_of_eq_ok t.filled

/-- There is room for the numbers of a tensor exactly when they can stand in memory. -/
theorem held_iff (t : HostTensor) : Held t ↔ t.shape.HasRoom := by
  unfold Held Shape.HasRoom
  rw [prod_shape, and_iff_right t.counted_shape]

/-- A tensor without empty extents is written as rectangular arrays of its shape, with its elements. -/
theorem toNested_rectangular {words : List Binary32} (hdata : t.data = .float32 words)
    (hpos : ∀ n ∈ t.shape, 1 ≤ n) (hfinite : ∀ x ∈ words, x.isFinite = true) :
    ∃ j, t.toNested = .ok j ∧ j.Rectangular t.shape ∧ j.wordsAt t.shape.length = words := by
  have hlength : (words.map jsonOfReal).length = t.shape.prod := by
    rw [List.length_map, t.prod_shape, hdata]
    rfl
  obtain ⟨j, hnest, hlayered, hlevel⟩ := nest_layered hpos t.counted_shape.prod_lt hlength
  have hnested : t.toNested = .ok j := by
    unfold toNested
    rw [hdata]
    exact hnest
  refine ⟨j, hnested, ⟨⟨hlayered, ?numbers⟩, ?stops⟩, ?words⟩
  case numbers =>
    rw [hlevel]
    exact List.forall_mem_map.mpr fun x hx => ⟨_, jsonOfReal_finite (hfinite x hx)⟩
  case stops =>
    intro depth hdepth
    have hzero := hpos 0 (List.mem_of_getElem? hdepth)
    omega
  case words =>
    rw [Json.wordsAt, hlevel, List.filterMap_map, List.map_filterMap]
    refine (List.filterMap_congr fun x hx => ?_).trans List.filterMap_some
    show (jsonOfReal x).real?.map Binary64.toBinary32 = some x
    rw [jsonOfReal_finite (hfinite x hx)]
    exact congrArg some (Binary32.toBinary32_toBinary64 (hfinite x hx))

/-- What was read without rounding is written again. -/
theorem toNested_ofNested (h : ofNested j = .ok t) (hpos : ∀ n ∈ t.shape, 1 ≤ n)
    (hsingle : ∀ n, .number n ∈ j.level t.shape.length → n.IsSingle) : t.toNested = .ok j.asReals := by
  obtain ⟨hrect, hdata, -⟩ := ofNested_eq_ok_iff.mp h
  have hwords : (j.wordsAt t.shape.length).map jsonOfReal = (j.level t.shape.length).map Json.asReals := by
    unfold Json.wordsAt
    rw [List.map_map, List.map_filterMap]
    refine (List.filterMap_congr fun v hv => ?_).trans (congrFun List.filterMap_eq_map' _)
    obtain ⟨n, rfl⟩ := hrect.numbers v hv
    obtain ⟨x, hx, hn⟩ := hsingle n hv
    show some (jsonOfReal n.toBinary64.toBinary32) = some (.number (.real n.toBinary64))
    rw [hn, Binary32.toBinary32_toBinary64 hx, jsonOfReal_finite hx]
  unfold toNested
  rw [hdata]
  dsimp only
  rw [hwords]
  exact nest_level hpos t.counted_shape.prod_lt hrect.toNests

/-- **Reading and writing nested arrays are inverse** for tensors without empty extents: one of finite numbers
that stand in memory is written and comes back, and arrays that are read as it, with numbers that need no
rounding, are written again. -/
theorem nested_inverse (t : HostTensor) (hpos : ∀ n ∈ t.shape, 1 ≤ n) :
    (∀ words, t.data = .float32 words → (∀ x ∈ words, x.isFinite = true) → Held t →
      ∃ j, t.toNested = .ok j ∧ ofNested j = .ok t) ∧
      ∀ j, ofNested j = .ok t → (∀ n, .number n ∈ j.level t.shape.length → n.IsSingle) →
        t.toNested = .ok j.asReals := by
  refine ⟨fun words hdata hfinite hheld => ?_, fun j h hsingle => toNested_ofNested h hpos hsingle⟩
  obtain ⟨j, hnested, hrect, hwords⟩ := toNested_rectangular hdata hpos hfinite
  exact ⟨j, hnested, ofNested_eq_ok_iff.mpr ⟨hrect, by rw [hwords, hdata], t.held_iff.mp hheld⟩⟩

/-- A row of two. -/
def row : HostTensor := ⟨[1, 2], .float32 [.half, .one], rfl⟩

/-- The row comes back, and so do its arrays, where an integer was read as a number of 64 bits. -/
theorem row_inverse : (∃ j, row.toNested = .ok j ∧ ofNested j = .ok row) ∧
    row.toNested = .ok (Json.array [.array [.number (.real ⟨0x3fe0000000000000⟩), .nat 1]]).asReals := by
  have hread : ofNested (.array [.array [.number (.real ⟨0x3fe0000000000000⟩), .nat 1]]) = .ok row := rfl
  obtain ⟨hback, hagain⟩ := nested_inverse row (by decide)
  have hheld : Held row := show 2 * 4 ≤ Size.addressable by decide
  refine ⟨hback [.half, .one] rfl (by decide) hheld, hagain _ hread fun n hn => ?_⟩
  rcases List.mem_pair.mp hn with h | h
  · exact ⟨.half, by decide, by rw [Json.number.inj h]; decide +kernel⟩
  · exact ⟨.one, by decide, by rw [Json.number.inj h]; decide +kernel⟩

end HostTensor

end TexelFlow
