import TexelFlow.Proofs.Texture.Layout
import Mathlib.Data.List.Nodup

/-!
# Packing loses nothing

Packing is a list of writes. Writes at distinct places within an array all read back and leave every
other place as it was; the places of elements are distinct, so every word of the packed array is known: it is
the element the word belongs to, or zero.

Room is asked for the words of the whole texture, and there are less than eight of them for an element. So a
list that leaves eight times its own room is packed whenever it has as many values as there are elements.

## Main statements

* `writeAll_eq_ok` — writes at distinct places.
* `Exact.pack_eq_ok_iff` — when a list is packed, and how.
* `Exact.getElem?_of_pack` — every word of a packed array.
* `lossless_of_compute` — packing by a computed layout loses nothing.

## §1 — writes
## §2 — packed arrays
## §3 — nothing is lost
-/

namespace TexelFlow.Layout

/-! ## §1 — writes -/

/-- Write values at their places, one after the other. -/
def writeAll (words : Array Binary32) : List (Nat × Binary32) → Outcome (Array Binary32)
  | [] => .ok words
  | w :: rest => do writeAll (← write words w.1 w.2) rest

section Writes

variable {words written : Array Binary32} {writes : List (Nat × Binary32)}

theorem write_eq_ok_iff {place : Nat} {value : Binary32} :
    write words place value = .ok written ↔
      ∃ h : place < words.size, words.set place value h = written := by
  unfold write
  split
  · rename_i h
    simp [h]
  · rename_i h
    simp [h]

/-- Writes succeed when all their places are within the array. -/
theorem exists_writeAll (h : ∀ w ∈ writes, w.1 < words.size) :
    ∃ written, writeAll words writes = .ok written := by
  induction writes generalizing words with
  | nil => exact ⟨words, rfl⟩
  | cons w rest ih =>
    have hw := h w List.mem_cons_self
    -- a write keeps the size, so the places behind it are still within
    obtain ⟨written, hrest⟩ : ∃ written, writeAll (words.set w.1 w.2 hw) rest = .ok written := by
      refine ih fun v hv => ?_
      rw [Array.size_set]
      exact h v (List.mem_cons_of_mem _ hv)
    exact ⟨written, Outcome.bind_eq_ok_iff.mpr ⟨_, write_eq_ok_iff.mpr ⟨hw, rfl⟩, hrest⟩⟩

/-- Writes keep the size. -/
theorem size_writeAll (h : writeAll words writes = .ok written) : written.size = words.size := by
  induction writes generalizing words with
  | nil =>
    rw [writeAll] at h
    cases h
    rfl
  | cons w rest ih =>
    rw [writeAll] at h
    obtain ⟨words', hwrite, hrest⟩ := Outcome.bind_eq_ok_iff.mp h
    obtain ⟨hw, rfl⟩ := write_eq_ok_iff.mp hwrite
    rw [ih hrest, Array.size_set]

/-- **Writes at distinct places** read back, and leave every other place as it was. -/
theorem writeAll_eq_ok (h : writeAll words writes = .ok written)
    (hd : (writes.map Prod.fst).Nodup) : (∀ w ∈ writes, written[w.1]? = some w.2) ∧
      ∀ place, place ∉ writes.map Prod.fst → written[place]? = words[place]? := by
  induction writes generalizing words with
  | nil =>
    rw [writeAll] at h
    cases h
    exact ⟨fun _ hw => absurd hw List.not_mem_nil, fun _ _ => rfl⟩
  | cons w rest ih =>
    rw [writeAll] at h
    obtain ⟨words', hwrite, hrest⟩ := Outcome.bind_eq_ok_iff.mp h
    obtain ⟨hw, rfl⟩ := write_eq_ok_iff.mp hwrite
    rw [List.map_cons, List.nodup_cons] at hd
    obtain ⟨hread, hframe⟩ := ih hrest hd.2
    refine ⟨fun v hv => ?_, fun place hplace => ?_⟩
    · rcases List.mem_cons.mp hv with rfl | hv
      · -- no later write goes to the same place
        rw [hframe _ hd.1, Array.getElem?_set_self]
      · exact hread v hv
    · rw [List.map_cons, List.mem_cons, not_or] at hplace
      rw [hframe place hplace.2, Array.getElem?_set_ne hw (Ne.symm hplace.1)]

end Writes

/-! ## §2 — packed arrays -/

variable {l : Layout}

/-- The places and values of consecutive elements. -/
def placed (l : Layout) (i : Nat) (values : List Binary32) : List (Nat × Binary32) :=
  (values.zipIdx i).map fun e => (l.offsetOf e.2, e.1)

/-- Packing writes the elements at their places. -/
theorem writeFrom_eq (i : Nat) (words : Array Binary32) (values : List Binary32) :
    l.writeFrom i words values = writeAll words (l.placed i values) := by
  induction values generalizing i words with
  | nil => rfl
  | cons value rest ih =>
    rw [writeFrom]
    simp only [ih]
    rfl

/-- Elements and their indices in row-major order. -/
theorem Exact.index_lt (h : l.Exact) {i : Nat} (hi : i < l.elementCount) :
    i / l.channels < l.spatial ∧ i % l.channels < l.channels := by
  rw [h.count] at hi
  exact ⟨(Nat.div_lt_iff_lt_mul h.channels_pos).mpr hi, Nat.mod_lt _ h.channels_pos⟩

theorem Exact.offsetOf_lt (h : l.Exact) {i : Nat} (hi : i < l.elementCount) : l.offsetOf i < l.floats := by
  obtain ⟨hp, hc⟩ := h.index_lt hi
  exact h.offset_lt hp hc

/-- **Distinct elements have distinct places.** -/
theorem Exact.offsetOf_inj (h : l.Exact) {i j : Nat} (hi : i < l.elementCount)
    (hj : j < l.elementCount) (heq : l.offsetOf i = l.offsetOf j) : i = j := by
  obtain ⟨hpi, hci⟩ := h.index_lt hi
  obtain ⟨hpj, hcj⟩ := h.index_lt hj
  obtain ⟨hp, hc⟩ := h.home_offset hpi hci
  obtain ⟨hp', hc'⟩ := h.home_offset hpj hcj
  unfold offsetOf at heq
  rw [heq] at hp hc
  rw [← Size.div_mul_add_mod i l.channels, ← Size.div_mul_add_mod j l.channels, ← hp, ← hc, hp', hc']

/-- The word at a place: what is computed for the element it belongs to, or zero. -/
def content (l : Layout) (value : Nat → Nat → Binary32) (place : Nat) : Binary32 :=
  if l.positionAt place < l.spatial ∧ l.channelAt place < l.channels then
    value (l.positionAt place) (l.channelAt place)
  else .zero

/-- The elements of a list by position and channel. -/
def element (l : Layout) (values : List Binary32) (position channel : Nat) : Binary32 :=
  values.getD (position * l.channels + channel) .zero

theorem placed_fst (values : List Binary32) :
    (l.placed 0 values).map Prod.fst = (List.range values.length).map l.offsetOf := by
  unfold placed
  rw [List.map_map, List.range_eq_range', ← List.zipIdx_map_snd 0 values, List.map_map]
  rfl

theorem mem_placed_iff {values : List Binary32} {place : Nat} {value : Binary32} :
    (place, value) ∈ l.placed 0 values ↔ ∃ i, l.offsetOf i = place ∧ values[i]? = some value := by
  unfold placed
  rw [List.mem_map]
  constructor
  · rintro ⟨⟨v, i⟩, he, heq⟩
    obtain ⟨rfl, rfl⟩ := Prod.mk.inj heq
    exact ⟨i, rfl, List.mem_zipIdx_iff_getElem?.mp he⟩
  · rintro ⟨i, rfl, hget⟩
    exact ⟨(value, i), List.mem_zipIdx_iff_getElem?.mpr hget, rfl⟩

/-- The elements of an exact layout have distinct places, all within the array. -/
theorem Exact.placed_nodup (h : l.Exact) {values : List Binary32}
    (hlen : values.length = l.elementCount) : ((l.placed 0 values).map Prod.fst).Nodup := by
  rw [placed_fst, hlen]
  refine List.Nodup.map_on (fun i hi j hj => ?_) List.nodup_range
  exact h.offsetOf_inj (List.mem_range.mp hi) (List.mem_range.mp hj)

theorem Exact.placed_lt (h : l.Exact) {values : List Binary32}
    (hlen : values.length = l.elementCount) : ∀ w ∈ l.placed 0 values, w.1 < l.floats := by
  rintro ⟨place, value⟩ hw
  obtain ⟨i, rfl, hget⟩ := mem_placed_iff.mp hw
  exact h.offsetOf_lt (hlen ▸ (List.getElem?_eq_some_iff.mp hget).1)

/-- What an element's word should hold is written there. -/
theorem Exact.home_mem_placed (h : l.Exact) {values : List Binary32}
    (hlen : values.length = l.elementCount) {place : Nat} (hlt : place < l.floats)
    (hp : l.positionAt place < l.spatial) (hc : l.channelAt place < l.channels) :
    (place, l.element values (l.positionAt place) (l.channelAt place)) ∈ l.placed 0 values := by
  have hindex : l.positionAt place * l.channels + l.channelAt place < values.length := by
    rw [hlen, h.count]
    exact Size.mul_add_lt hp hc
  refine mem_placed_iff.mpr ⟨l.positionAt place * l.channels + l.channelAt place, ?_, ?_⟩
  · unfold offsetOf
    rw [Size.mul_add_div hc, Size.mul_add_mod hc]
    exact h.offset_home hlt hp hc
  · unfold element
    rw [List.getD_eq_getElem?_getD, List.getElem?_eq_getElem hindex, Option.getD_some]

/-- No element is written where none belongs. -/
theorem Exact.not_mem_placed (h : l.Exact) {values : List Binary32}
    (hlen : values.length = l.elementCount) {place : Nat}
    (hhome : ¬ (l.positionAt place < l.spatial ∧ l.channelAt place < l.channels)) :
    place ∉ (l.placed 0 values).map Prod.fst := by
  rw [placed_fst, hlen, List.mem_map]
  rintro ⟨i, hi, rfl⟩
  obtain ⟨hp, hc⟩ := h.index_lt (List.mem_range.mp hi)
  obtain ⟨hp', hc'⟩ := h.home_offset hp hc
  unfold offsetOf at hhome
  rw [hp', hc'] at hhome
  exact hhome ⟨hp, hc⟩

/-- There is room for the words of a texture: their bytes can be addressed. A texture takes less than eight
times the bytes of its elements (`hasRoom_of_compute`), so there is room for every list of elements of up to
two to the sixtieth bytes. -/
def HasRoom (l : Layout) : Prop := l.floats * elementRoom ≤ Size.addressable

/-- **A list is packed** exactly when it has as many values as there are elements and there is room for the
words; the values are written over zeros then. -/
theorem Exact.pack_eq_ok_iff (h : l.Exact) {values : List Binary32} {words : Array Binary32} :
    l.pack values = .ok words ↔ values.length = l.elementCount ∧ l.HasRoom ∧
      writeAll (Array.replicate l.floats .zero) (l.placed 0 values) = .ok words := by
  unfold pack HasRoom
  rw [Outcome.check_eq_ok_iff, not_not, Outcome.bind_eq_ok_iff]
  refine and_congr_right fun _ => ⟨?_, ?_⟩
  · rintro ⟨capacity, hcapacity, hwords⟩
    obtain ⟨-, rfl⟩ := h.capacity_eq_ok_iff.mp hcapacity
    obtain ⟨_, hroom, hwords⟩ := Outcome.bind_eq_ok_iff.mp hwords
    rw [writeFrom_eq] at hwords
    exact ⟨Size.reserve_eq_ok_iff.mp hroom, hwords⟩
  · rintro ⟨hroom, hwords⟩
    -- words that can be addressed are counted
    have hcounted : l.floats < Size.modulus := by
      unfold elementRoom Size.addressable at hroom
      unfold Size.modulus
      omega
    rw [← writeFrom_eq] at hwords
    exact ⟨_, h.capacity_eq_ok_iff.mpr ⟨hcounted, rfl⟩,
      Outcome.bind_eq_ok_iff.mpr ⟨(), Size.reserve_eq_ok_iff.mpr hroom, hwords⟩⟩

/-- Where there is room, a list with as many values as there are elements is packed. -/
theorem Exact.exists_pack (h : l.Exact) (hroom : l.HasRoom) {values : List Binary32}
    (hlen : values.length = l.elementCount) : ∃ words, l.pack values = .ok words := by
  obtain ⟨words, hwords⟩ :
      ∃ words, writeAll (Array.replicate l.floats .zero) (l.placed 0 values) = .ok words := by
    refine exists_writeAll fun w hw => ?_
    rw [Array.size_replicate]
    exact h.placed_lt hlen w hw
  exact ⟨words, h.pack_eq_ok_iff.mpr ⟨hlen, hroom, hwords⟩⟩

section Packed

variable (h : l.Exact) {values : List Binary32} {words : Array Binary32} (hpack : l.pack values = .ok words)
include h hpack

theorem Exact.length_of_pack : values.length = l.elementCount := (h.pack_eq_ok_iff.mp hpack).1

theorem Exact.hasRoom_of_pack : l.HasRoom := (h.pack_eq_ok_iff.mp hpack).2.1

/-- A packed array has as many words as its texture. -/
theorem Exact.size_of_pack : words.size = l.floats := by
  rw [size_writeAll (h.pack_eq_ok_iff.mp hpack).2.2, Array.size_replicate]

/-- **Every word of a packed array** is known. -/
theorem Exact.getElem?_of_pack {place : Nat} (hlt : place < l.floats) :
    words[place]? = some (l.content (l.element values) place) := by
  obtain ⟨hlen, -, hwords⟩ := h.pack_eq_ok_iff.mp hpack
  obtain ⟨hread, hframe⟩ := writeAll_eq_ok hwords (h.placed_nodup hlen)
  unfold content
  split
  · rename_i hhome
    exact hread _ (h.home_mem_placed hlen hlt hhome.1 hhome.2)
  · rename_i hhome
    rw [hframe place (h.not_mem_placed hlen hhome), Array.getElem?_replicate, if_pos hlt]

/-- An element stands at its place. -/
theorem Exact.stored_of_pack {i : Nat} (hi : i < l.elementCount) : words[l.offsetOf i]? = values[i]? := by
  obtain ⟨hp, hc⟩ := h.index_lt hi
  obtain ⟨hp', hc'⟩ := h.home_offset hp hc
  have hlen := h.length_of_pack hpack
  rw [h.getElem?_of_pack hpack (h.offsetOf_lt hi)]
  unfold content offsetOf element
  rw [hp', hc', if_pos ⟨hp, hc⟩, Size.div_mul_add_mod, List.getD_eq_getElem?_getD,
    List.getElem?_eq_getElem (by omega), Option.getD_some]

/-- The words of a packed array are counted. -/
theorem Exact.capacity_of_pack : l.capacity = .ok words.size := by
  have hroom := h.hasRoom_of_pack hpack
  rw [h.size_of_pack hpack, h.capacity_eq_ok_iff]
  unfold HasRoom elementRoom Size.addressable at hroom
  unfold Size.modulus
  omega

end Packed

/-! ## §3 — nothing is lost -/

/-- **Packing loses nothing.** A list is packed exactly when it has as many values as there are elements and
there is room for the words, as there is for every list that leaves eight times its own room; the words are
the floats of the texture; elements stand at distinct places within the words and all other words are zero;
and they are unpacked again, whatever follows the words. -/
structure Lossless (l : Layout) : Prop where
  /-- The words are the floats of the texture, if a word counts them. -/
  whole : ∀ n, l.capacity = .ok n ↔ l.floats < Size.modulus ∧ l.floats = n
  /-- A list of the right length is packed where there is room for the words, and no other. -/
  accepts : ∀ values, (∃ words, l.pack values = .ok words) ↔ values.length = l.elementCount ∧ l.HasRoom
  /-- There is room where the elements leave eight times their own. -/
  roomy : 8 * (l.elementCount * elementRoom) ≤ Size.addressable → l.HasRoom
  /-- Elements have places within the words. -/
  within : ∀ i < l.elementCount, l.offsetOf i < l.floats
  /-- Distinct elements have distinct places. -/
  apart : ∀ i < l.elementCount, ∀ j < l.elementCount, l.offsetOf i = l.offsetOf j → i = j
  /-- There are as many words as the layout has. -/
  sized : ∀ values words, l.pack values = .ok words → l.capacity = .ok words.size
  /-- An element stands at its place. -/
  stored : ∀ values words, l.pack values = .ok words →
    ∀ i < l.elementCount, words[l.offsetOf i]? = values[i]?
  /-- Where no element stands is zero. -/
  blank : ∀ values words, l.pack values = .ok words → ∀ place < words.size,
    (∀ i < l.elementCount, l.offsetOf i ≠ place) → words[place]? = some .zero
  /-- The elements are unpacked again. -/
  unpacks : ∀ values words extra, l.pack values = .ok words → l.unpack (words ++ extra) = .ok values

theorem read_eq_ok_iff {words : Array Binary32} {place : Nat} {value : Binary32} :
    read words place = .ok value ↔ words[place]? = some value := by
  unfold read
  split
  · rename_i hlt
    rw [Array.getElem?_eq_getElem hlt]
    simp
  · rename_i hlt
    rw [Array.getElem?_eq_none (by omega)]
    simp

/-- What is packed is unpacked, whatever follows it. -/
theorem Exact.unpack_pack (h : l.Exact) {values : List Binary32} {words : Array Binary32}
    (hpack : l.pack values = .ok words) (extra : Array Binary32) :
    l.unpack (words ++ extra) = .ok values := by
  have hlen := h.length_of_pack hpack
  have hsize := h.size_of_pack hpack
  unfold unpack
  rw [Outcome.bind_of_eq_ok (h.capacity_of_pack hpack), if_neg (by rw [Array.size_append]; omega),
    Outcome.mapM_eq_ok_iff, List.forall₂_iff_get]
  refine ⟨by rw [List.length_range, hlen], fun i hi hi' => ?_⟩
  rw [List.length_range] at hi
  have hplace : l.offsetOf i < words.size := by
    rw [hsize]
    exact h.offsetOf_lt hi
  rw [List.get_eq_getElem, List.get_eq_getElem, List.getElem_range, read_eq_ok_iff,
    Array.getElem?_append_left hplace, h.stored_of_pack hpack hi, List.getElem?_eq_getElem hi']

/-- Where no element stands, packing leaves a zero. -/
theorem Exact.blank_of_pack (h : l.Exact) {values : List Binary32} {words : Array Binary32}
    (hpack : l.pack values = .ok words) {place : Nat} (hplace : place < l.floats)
    (hfree : ∀ i < l.elementCount, l.offsetOf i ≠ place) : words[place]? = some .zero := by
  rw [h.getElem?_of_pack hpack hplace]
  unfold content
  rw [if_neg]
  rintro ⟨hp, hc⟩
  -- else the element whose word this is would stand here
  refine hfree (l.positionAt place * l.channels + l.channelAt place) ?_ ?_
  · rw [h.count]
    exact Size.mul_add_lt hp hc
  · unfold offsetOf
    rw [Size.mul_add_div hc, Size.mul_add_mod hc]
    exact h.offset_home hplace hp hc

variable {name : String} {d : Descriptor} {limits : Limits} {options : Options}

/-- There is room for the texture of elements that leave eight times their own room. -/
theorem hasRoom_of_compute (h : compute name d limits options = .ok l)
    (hroom : 8 * (l.elementCount * elementRoom) ≤ Size.addressable) : l.HasRoom := by
  have hfloats := floats_lt_of_compute h
  unfold HasRoom
  unfold elementRoom at hroom ⊢
  omega

/-- **A computed layout loses nothing.** -/
theorem lossless_of_compute (h : compute name d limits options = .ok l) : l.Lossless := by
  have hexact := (compute_eq_ok h).exact
  constructor
  case whole => exact fun n => hexact.capacity_eq_ok_iff
  case accepts =>
    intro values
    constructor
    · rintro ⟨words, hpack⟩
      exact ⟨hexact.length_of_pack hpack, hexact.hasRoom_of_pack hpack⟩
    · rintro ⟨hlen, hroom⟩
      exact hexact.exists_pack hroom hlen
  case roomy => exact hasRoom_of_compute h
  case within => exact fun i hi => hexact.offsetOf_lt hi
  case apart => exact fun i hi j hj => hexact.offsetOf_inj hi hj
  case sized => exact fun values words hpack => hexact.capacity_of_pack hpack
  case stored => exact fun values words hpack i hi => hexact.stored_of_pack hpack hi
  case blank =>
    intro values words hpack place hplace hfree
    exact hexact.blank_of_pack hpack (hexact.size_of_pack hpack ▸ hplace) hfree
  case unpacks => exact fun values words extra hpack => hexact.unpack_pack hpack extra

/-- A layout whose groups are rounded up to two render targets. -/
def roundedLayout : Layout where
  shape := [2, 2, 12]
  elementCount := 48
  channels := 12
  paddedChannels := 12
  spatial := 4
  channelGroups := 3
  width := 2
  height := 2
  slices := 1
  layersPerSlice := 4
  layers := 4
  renderTargets := 2

theorem rounded_compute : compute "t" ⟨[2, 2, 12], .float32⟩ ⟨64, 64, 16⟩ ⟨true, [⟨1, 2⟩]⟩ =
    .ok roundedLayout := by cbv

/-- The rounded layout loses nothing of its elements, for whose texture there is room. -/
theorem rounded_lossless :
    compute "t" ⟨[2, 2, 12], .float32⟩ ⟨64, 64, 16⟩ ⟨true, [⟨1, 2⟩]⟩ = .ok roundedLayout ∧
    8 * (roundedLayout.elementCount * elementRoom) ≤ Size.addressable ∧ roundedLayout.Lossless :=
  ⟨rounded_compute, by decide, lossless_of_compute rounded_compute⟩

end TexelFlow.Layout
