import TexelFlow.Proofs.Weight.Counts
import TexelFlow.Proofs.Weight.Scale

/-!
# Weights that are stored as small integers

Tensors are encoded on an affine scale and decoded again. Those of other types than float32 are stored
by their own type and come back as they were. A float32 tensor of finite values is written as one small
integer for each value, beside the least value and the step of its scale, and these integers are read
again. What comes back is each value's number of steps above the least one. These are finite numbers
exactly if the end of the scale is one, and near the values where the step has all of its bits. From two
bytes a value may come back as its neighbour, which can be further away than a step; from one byte it
does not.

## Main statements

* `rawIntegers_written` — the integers that were written are read.
* `exists_returned` — one tensor, whatever follows its bytes.
* `affine_returns` — what becomes of tensors, there and back.

## §1 — stored integers
## §2 — one tensor
## §3 — there and back
-/

namespace TexelFlow.Weight

open Binary32

/-! ## §1 — stored integers -/

variable {storage : Storage} {name : String} {least step : Binary32}

/-- Two bytes weigh in at powers of 256. -/
theorem word16_bytes (w : UInt16) :
    w.toUInt8.toUInt16 ||| ((w >>> 8).toUInt8.toUInt16 <<< 8) = w := by
  have hw := w.toNat_lt
  have hlow : w.toUInt8.toUInt16.toNat = w.toNat % 256 := by
    rw [UInt8.toNat_toUInt16, UInt16.toNat_toUInt8]
  have hhigh : ((w >>> 8).toUInt8.toUInt16 <<< 8).toNat = 2 ^ 8 * (w.toNat / 256) := by
    rw [UInt16.toNat_shiftLeft, UInt8.toNat_toUInt16, UInt16.toNat_toUInt8, UInt16.toNat_shiftRight,
      show (8 : UInt16).toNat % 16 = 8 from rfl, Nat.shiftRight_eq_div_pow, Nat.shiftLeft_eq]
    omega
  apply UInt16.toNat_inj.mp
  rw [UInt16.toNat_or, hlow, hhigh, Nat.or_comm, ← Nat.two_pow_add_eq_or_of_lt (by omega)]
  omega

theorem words16_flatMap (ws : List UInt16) : words16 (ws.flatMap bytesOf16) = ws := by
  induction ws with
  | nil => rfl
  | cons w ws ih =>
    have hword := word16_bytes w
    rw [List.flatMap_cons]
    unfold bytesOf16 at ih ⊢
    simp only [List.cons_append, List.nil_append, words16]
    rw [hword, ih]

theorem length_bytesOfRaw (storage : Storage) (raw : Nat) :
    (bytesOfRaw storage raw).length = storage.byteSize := by
  cases storage <;> rfl

theorem length_bytesOfRaws (storage : Storage) (raws : List Nat) :
    (raws.flatMap (bytesOfRaw storage)).length = raws.length * storage.byteSize := by
  induction raws with
  | nil => exact (Nat.zero_mul _).symm
  | cons raw raws ih =>
    rw [List.flatMap_cons, List.length_append, ih, length_bytesOfRaw, List.length_cons, Nat.succ_mul,
      Nat.add_comm]

/-- **Integers within the storage** are read as they were written. -/
theorem rawIntegers_written {raws : List Nat} (hstorage : storage ≠ .float16)
    (h : ∀ raw ∈ raws, raw ≤ storage.largest) :
    rawIntegers storage (raws.flatMap (bytesOfRaw storage)) = raws := by
  cases storage with
  | uint8 =>
    have hbytes : raws.flatMap (bytesOfRaw .uint8) = raws.map UInt8.ofNat := List.flatMap_pure_eq_map ..
    unfold rawIntegers
    dsimp only
    rw [hbytes, List.map_map]
    refine (List.map_congr_left fun raw hraw => ?_).trans (List.map_id raws)
    exact UInt8.toNat_ofNat_of_lt' (Nat.lt_succ_of_le (h raw hraw))
  | uint16 =>
    have hbytes : raws.flatMap (bytesOfRaw .uint16) = (raws.map UInt16.ofNat).flatMap bytesOf16 := by
      rw [List.flatMap_map]
      rfl
    unfold rawIntegers
    dsimp only
    rw [hbytes, words16_flatMap, List.map_map]
    refine (List.map_congr_left fun raw hraw => ?_).trans (List.map_id raws)
    exact UInt16.toNat_ofNat_of_lt' (Nat.lt_succ_of_le (h raw hraw))
  | float16 => exact absurd rfl hstorage

/-! ## §2 — one tensor -/

/-- Every float32 element is a number. -/
def FiniteValues : TensorData → Prop
  | .float32 values => ∀ v ∈ values, v.isFinite = true
  | _ => True

instance (data : TensorData) : Decidable (FiniteValues data) :=
  match data with
  | .float32 values => inferInstanceAs (Decidable (∀ v ∈ values, v.isFinite = true))
  | .int32 _ | .bool _ | .string _ => inferInstanceAs (Decidable True)

/-- What a tensor comes back as: from the scale of its entry if its elements are float32, and else as it
was. -/
def Returned (storage : Storage) (e : Entry) (t back : Tensor) : Prop :=
  back.shape = t.shape ∧
  match t.data with
  | .float32 values => ∃ step least ws, e.quantization = some ⟨storage, some step, some least⟩ ∧
      back.data = .float32 ws ∧ Restores storage step least values ws
  | data => back.data = data

variable {t : Tensor} {values : List Binary32}

theorem writeTensor_affine (hstorage : storage ≠ .float16) (hdata : t.data = .float32 values)
    (hfinite : ∀ v ∈ values, v.isFinite = true) (hscale : affineScale storage values = (least, step)) :
    writeTensor name t (some storage) =
      .ok ((values.map (quantize storage least step)).flatMap (bytesOfRaw storage),
        ⟨name, .float32, t.shape, some ⟨storage, some step, some least⟩⟩) := by
  have hnone : ¬ (values.any fun x => !x.isFinite) = true := by
    rw [List.any_eq_true]
    rintro ⟨v, hv, hnot⟩
    rw [hfinite v hv] at hnot
    cases hnot
  have hdtype : t.dtype = .float32 := by
    unfold Tensor.dtype
    rw [hdata]
    rfl
  unfold writeTensor
  rw [hdata, hdtype, List.flatMap_map]
  cases storage with
  | float16 => exact absurd rfl hstorage
  | uint8 | uint16 =>
    dsimp only
    rw [if_neg hnone, hscale]

theorem quantizedOf_affine (hstorage : storage ≠ .float16) (window : Bytes) :
    quantizedOf name .float32 ⟨storage, some step, some least⟩ window =
      .ok (.float32 ((rawIntegers storage window).map (dequantize step least))) := by
  cases storage with
  | float16 => exact absurd rfl hstorage
  | uint8 | uint16 => rfl

/-- Stored integers are read back as their numbers of steps above the least value. -/
theorem readEntry_affine {back : Tensor} {raws : List Nat} (hstorage : storage ≠ .float16)
    (hraws : ∀ raw ∈ raws, raw ≤ storage.largest)
    (hback : back.data = .float32 (raws.map (dequantize step least)))
    (hfits : back.shape.prod * storage.byteSize < Size.modulus) (rest : Bytes) :
    readEntry ⟨name, .float32, back.shape, some ⟨storage, some step, some least⟩⟩
      (raws.flatMap (bytesOfRaw storage) ++ rest) = .ok (back, rest) := by
  have hcounted : back.shape.Counted := Shape.counted_of_eq_ok back.filled
  have hcount : back.shape.prod = raws.length := by
    rw [Shape.prod_of_counted back.filled, hback]
    exact List.length_map _
  have hlength := length_bytesOfRaws storage raws
  rw [← hcount] at hlength
  have hmake : Tensor.make name back.shape (.float32 (raws.map (dequantize step least))) = .ok back :=
    Tensor.make_eq_ok_iff.mpr ⟨rfl, hback⟩
  rw [readEntry_of_width (w := storage.byteSize) hcounted rfl]
  unfold tensorOf
  dsimp only
  rw [Outcome.bind_of_eq_ok (Size.mul_eq_ok_iff.mpr ⟨hfits, rfl⟩), ← hlength, take_append]
  dsimp only [bind, Except.bind]
  rw [quantizedOf_affine hstorage, rawIntegers_written hstorage hraws]
  dsimp only
  rw [hmake]

/-- What is stored in no more bytes than its elements take in memory, a word counts. -/
theorem size_lt_of_held (hheld : Held t.data) (hdata : t.data = .float32 values) :
    t.shape.prod * storage.byteSize < Size.modulus := by
  have hsize : storage.byteSize ≤ 4 := by cases storage <;> decide
  have hroom : t.shape.prod * 4 ≤ Size.addressable := by
    unfold Held at hheld
    rw [← Shape.prod_of_counted t.filled, hdata] at hheld
    exact hheld
  exact Nat.lt_of_le_of_lt ((Nat.mul_le_mul_left _ hsize).trans hroom) (by decide)

/-- **One tensor** is written, and read again whatever follows its bytes. -/
theorem exists_returned (hstorage : storage ≠ .float16) (name : String) (hheld : Held t.data)
    (hshort : ShortTexts t.data) (hfinite : FiniteValues t.data) :
    ∃ bytes e back, writeTensor name t (some storage) = .ok (bytes, e) ∧ e.name = name ∧
      (∀ rest, readEntry e (bytes ++ rest) = .ok (back, rest)) ∧ Returned storage e t back := by
  cases hdata : t.data with
  | float32 values =>
    have hvalues : ∀ v ∈ values, v.isFinite = true := by
      rw [hdata] at hfinite
      exact hfinite
    obtain ⟨⟨least, step⟩, hscale⟩ : ∃ s, affineScale storage values = s := ⟨_, rfl⟩
    -- each value, as the number of steps it is stored as
    let raws := values.map (quantize storage least step)
    have hraws : ∀ raw ∈ raws, raw ≤ storage.largest :=
      List.forall_mem_map.mpr fun v _ => quantize_le ..
    have hrestored : raws.map (dequantize step least) = values.map (restored storage least step) :=
      List.map_map
    have hlength : t.data.length = (raws.map (dequantize step least)).length := by
      rw [hdata, hrestored]
      exact (List.length_map _).symm
    have hfilled := t.filled
    rw [hlength] at hfilled
    let back : Tensor := ⟨t.shape, .float32 (raws.map (dequantize step least)), hfilled⟩
    have hfits : back.shape.prod * storage.byteSize < Size.modulus :=
      size_lt_of_held (t := t) hheld hdata
    refine ⟨_, _, back, writeTensor_affine hstorage hdata hvalues hscale, rfl,
      readEntry_affine hstorage hraws rfl hfits, rfl, ?_⟩
    rw [hdata]
    exact ⟨step, least, _, rfl, congrArg TensorData.float32 hrestored,
      restores_of_scale hstorage hvalues hscale⟩
  | int32 _ | bool _ | string _ =>
    refine ⟨bytesOfPlain t.data, plainEntry (name, t), t, ?_, rfl,
      fun rest => readEntry_written hheld hshort, rfl, ?_⟩
    · unfold writeTensor plainEntry
      rw [hdata]
    · rw [hdata]

/-! ## §3 — there and back -/

/-- **Tensors one behind the other** are written, and read again until no byte is left. -/
theorem exists_returned_all {tensors : List (String × Tensor)} (hstorage : storage ≠ .float16)
    (h : ∀ p ∈ tensors, Held p.2.data ∧ ShortTexts p.2.data ∧ FiniteValues p.2.data) :
    ∃ bytes entries backs, encode tensors (some storage) = .ok (bytes, entries) ∧
      readEntries entries bytes = .ok (backs, []) ∧ backs.map Prod.fst = tensors.map Prod.fst ∧
      ∀ p ∈ tensors, ∃ e ∈ entries, ∃ back, e.name = p.1 ∧ (p.1, back) ∈ backs ∧
        Returned storage e p.2 back := by
  induction tensors with
  | nil => exact ⟨[], [], [], rfl, rfl, rfl, fun p hp => absurd hp List.not_mem_nil⟩
  | cons p tensors ih =>
    obtain ⟨hheld, hshort, hfinite⟩ := h p List.mem_cons_self
    obtain ⟨bytes, e, back, hwrite, hname, hread, hreturned⟩ :=
      exists_returned hstorage p.1 hheld hshort hfinite
    obtain ⟨others, entries, backs, hencode, hreads, hnames, hall⟩ :=
      ih fun p' hp' => h p' (List.mem_cons_of_mem _ hp')
    obtain ⟨written, hwritten, hothers⟩ := Outcome.bind_eq_ok_iff.mp hencode
    obtain ⟨rfl, rfl⟩ := Prod.mk.inj (Except.ok.inj hothers)
    refine ⟨bytes ++ written.flatMap Prod.fst, e :: written.map Prod.snd, (p.1, back) :: backs,
      ?_, ?_, by rw [List.map_cons, hnames, List.map_cons], ?_⟩
    · exact Outcome.bind_eq_ok_iff.mpr ⟨(bytes, e) :: written,
        Outcome.mapM_eq_ok_iff.mpr (.cons hwrite (Outcome.mapM_eq_ok_iff.mp hwritten)), rfl⟩
    · rw [readEntries, hread]
      show readEntries _ _ >>= _ = _
      rw [hreads, ← hname]
      rfl
    · intro p' hp'
      rcases List.mem_cons.mp hp' with rfl | hp'
      · exact ⟨e, List.mem_cons_self, back, hname, List.mem_cons_self, hreturned⟩
      · obtain ⟨e', he', back', hname', hback', hreturned'⟩ := hall p' hp'
        exact ⟨e', List.mem_cons_of_mem _ he', back', hname', List.mem_cons_of_mem _ hback', hreturned'⟩

/-- **Tensors come back** from an affine scale. Where their names are distinct, encoding them succeeds if
the float32 values are finite, and decoding what was encoded gives, under the name of each, what it comes
back as: other types as they were, and float32 values as numbers exactly if the end of their scale is one,
and then close to themselves where the stored step has all of its bits. -/
theorem affine_returns {tensors : List (String × Tensor)} (hstorage : storage ≠ .float16)
    (hnames : (tensors.map Prod.fst).Nodup)
    (h : ∀ p ∈ tensors, Held p.2.data ∧ ShortTexts p.2.data ∧ FiniteValues p.2.data) :
    ∃ bytes entries decoded, encode tensors (some storage) = .ok (bytes, entries) ∧
      decode bytes entries = .ok decoded ∧
      ∀ p ∈ tensors, ∃ e ∈ entries, ∃ back, e.name = p.1 ∧ decoded.find? p.1 = some back ∧
        Returned storage e p.2 back := by
  obtain ⟨bytes, entries, backs, hencode, hread, hsame, hall⟩ := exists_returned_all hstorage h
  rw [← hsame] at hnames
  refine ⟨bytes, entries, _, hencode, decode_of_readEntries hread, fun p hp => ?_⟩
  obtain ⟨e, he, back, hname, hback, hreturned⟩ := hall p hp
  exact ⟨e, he, back, hname, (find?_ofList_iff_mem hnames).mpr hback, hreturned⟩

/-- One number fills a scalar. -/
theorem scalar_filled : Shape.counted [] = .ok (TensorData.int32 [-2]).length := by decide

/-- A tensor of floats on a scale of step one, and one of another type. -/
def blend : List (String × Tensor) :=
  [("w", ⟨[3], .float32 [⟨0xbf800000⟩, ⟨0x3e99999a⟩, ⟨0x437e0000⟩], by decide⟩),
    ("n", ⟨[], .int32 [-2], scalar_filled⟩)]

/-- The entries of these tensors. -/
def blendEntries : List Entry :=
  [⟨"w", .float32, [3], some ⟨.uint8, some .one, some ⟨0xbf800000⟩⟩⟩, ⟨"n", .int32, [], none⟩]

theorem blend_returns :
    Storage.uint8 ≠ .float16 ∧ (blend.map Prod.fst).Nodup ∧
    (∀ p ∈ blend, Held p.2.data ∧ ShortTexts p.2.data ∧ FiniteValues p.2.data) ∧
    encode blend (some .uint8) = .ok ([0, 1, 255, 0xfe, 0xff, 0xff, 0xff], blendEntries) ∧
    ∃ decoded back ws, decode [0, 1, 255, 0xfe, 0xff, 0xff, 0xff] blendEntries = .ok decoded ∧
      decoded.find? "w" = some back ∧ back.data = .float32 ws ∧ (∀ w ∈ ws, w.isFinite = true) ∧
      List.Forall₂ (Close .uint8 .one) [⟨0xbf800000⟩, ⟨0x3e99999a⟩, ⟨0x437e0000⟩] ws := by
  have hstorage : Storage.uint8 ≠ .float16 := by decide
  have hnames : (blend.map Prod.fst).Nodup := by decide
  have hstored : ∀ p ∈ blend, Held p.2.data ∧ ShortTexts p.2.data ∧ FiniteValues p.2.data := by
    decide +kernel
  have hencode : encode blend (some .uint8) = .ok ([0, 1, 255, 0xfe, 0xff, 0xff, 0xff], blendEntries) := by
    decide +kernel
  refine ⟨hstorage, hnames, hstored, hencode, ?_⟩
  obtain ⟨bytes, entries, decoded, hencode', hdecode, hall⟩ := affine_returns hstorage hnames hstored
  obtain ⟨rfl, rfl⟩ := Prod.mk.inj (Except.ok.inj (hencode.symm.trans hencode'))
  obtain ⟨e, he, back, hname, hfind, -, hreturned⟩ := hall _ List.mem_cons_self
  obtain ⟨step, least, ws, hscale, hback, hrestores⟩ := hreturned
  have he : e = blendEntries.head (by decide) := by
    rcases List.mem_cons.mp he with rfl | he
    · rfl
    · rw [List.mem_singleton.mp he] at hname
      exact absurd hname (by decide)
  subst he
  obtain ⟨rfl, rfl⟩ : step = .one ∧ least = ⟨0xbf800000⟩ := by
    cases hscale
    exact ⟨rfl, rfl⟩
  have htop : (dequantize .one ⟨0xbf800000⟩ 255).isFinite = true := by decide +kernel
  refine ⟨decoded, back, ws, hdecode, hfind, hback, hrestores.finite.mpr htop, hrestores.close htop ?_⟩
  rw [value_one.2]
  norm_num

/-- The promise of an affine scale: what a tensor is encoded to decodes to numbers, none of them further
from its value than the stored step. -/
def Faithful (storage : Storage) (t : Tensor) : Prop :=
  ∀ values bytes e, t.data = .float32 values → encode [("w", t)] (some storage) = .ok (bytes, [e]) →
    ∃ step least decoded back ws, e.quantization = some ⟨storage, some step, some least⟩ ∧
      decode bytes [e] = .ok decoded ∧ decoded.find? "w" = some back ∧ back.data = .float32 ws ∧
      (∀ w ∈ ws, w.isFinite = true) ∧
      List.Forall₂ (fun v w => |w.value - v.value| ≤ step.value) values ws

theorem Faithful.elim {back : Tensor} {ws : List Binary32} {bytes : Bytes} {e : Entry}
    (h : Faithful storage t) (hdata : t.data = .float32 values)
    (hencode : encode [("w", t)] (some storage) = .ok (bytes, [e]))
    (hscale : e.quantization = some ⟨storage, some step, some least⟩)
    (hread : readEntries [e] bytes = .ok ([("w", back)], [])) (hback : back.data = .float32 ws) :
    (∀ w ∈ ws, w.isFinite = true) ∧
      List.Forall₂ (fun v w => |w.value - v.value| ≤ step.value) values ws := by
  obtain ⟨step', least', decoded, back', ws', hscale', hdecode, hfind, hback', hfinite, hclose⟩ :=
    h values bytes e hdata hencode
  rw [decode_of_readEntries hread] at hdecode
  obtain rfl := Except.ok.inj hdecode
  obtain rfl : back' = back := by
    have hmem := Named.mem_of_find?_ofList hfind
    exact (Prod.mk.inj (List.mem_singleton.mp hmem)).2
  rw [hback] at hback'
  rw [hscale] at hscale'
  cases hback'
  cases hscale'
  exact ⟨hfinite, hclose⟩

/-- Zero and the greatest number: the last of the steps between them leads out of the numbers. -/
def peak : Tensor := ⟨[2], .float32 [.zero, ⟨0x7f7fffff⟩], by decide⟩

/-- Three numbers of 24 bits, 65534 last places apart at most: a step is a little less than one. -/
def dense : Tensor := ⟨[3], .float32 [⟨0x4b000000⟩, ⟨0x4b007fff⟩, ⟨0x4b00fffe⟩], by decide⟩

/-- Numbers so small that no step is left between them. -/
def specks : Tensor := ⟨[2], .float32 [.zero, ⟨100⟩], by decide⟩

theorem peak_not_faithful : FiniteValues peak.data ∧ ¬ Faithful .uint16 peak := by
  refine ⟨by decide, fun h => ?_⟩
  have hencode : encode [("w", peak)] (some .uint16) = .ok ([0, 0, 255, 255],
      [⟨"w", .float32, [2], some ⟨.uint16, some ⟨0x77800080⟩, some .zero⟩⟩]) := by decide +kernel
  have hread : readEntries [⟨"w", .float32, [2], some ⟨.uint16, some ⟨0x77800080⟩, some .zero⟩⟩]
      [0, 0, 255, 255] = .ok ([("w", ⟨[2], .float32 [.zero, .infinity], by decide⟩)], []) := by
    decide +kernel
  obtain ⟨hfinite, -⟩ := h.elim rfl hencode rfl hread rfl
  exact absurd (hfinite .infinity (by decide)) (by decide)

theorem dense_not_faithful : FiniteValues dense.data ∧ ¬ Faithful .uint16 dense := by
  refine ⟨by decide, fun h => ?_⟩
  have hencode : encode [("w", dense)] (some .uint16) = .ok ([0, 0, 0, 128, 255, 255],
      [⟨"w", .float32, [3], some ⟨.uint16, some ⟨0x3f7fff00⟩, some ⟨0x4b000000⟩⟩⟩]) := by
    decide +kernel
  have hread : readEntries [⟨"w", .float32, [3], some ⟨.uint16, some ⟨0x3f7fff00⟩, some ⟨0x4b000000⟩⟩⟩]
      [0, 0, 0, 128, 255, 255] =
        .ok ([("w", ⟨[3], .float32 [⟨0x4b000000⟩, ⟨0x4b008000⟩, ⟨0x4b00fffe⟩], by decide⟩)], []) := by
    decide +kernel
  obtain ⟨-, hclose⟩ := h.elim rfl hencode rfl hread rfl
  have hmiddle := (List.forall₂_cons.mp (List.forall₂_cons.mp hclose).2).1
  have hstep : (⟨0x3f7fff00⟩ : Binary32).value < 1 := by
    rw [← value_one.2]
    exact (lt_iff (by decide) value_one.1).mp (by decide +kernel)
  have hvalue : (⟨0x4b007fff⟩ : Binary32).value = 8421375 := by
    have := (ofNat_exact (show 8421375 ≤ 2 ^ 24 by norm_num)).2
    rwa [show Binary32.ofNat 8421375 = ⟨0x4b007fff⟩ by decide +kernel] at this
  have hback : (⟨0x4b008000⟩ : Binary32).value = 8421376 := by
    have := (ofNat_exact (show 8421376 ≤ 2 ^ 24 by norm_num)).2
    rwa [show Binary32.ofNat 8421376 = ⟨0x4b008000⟩ by decide +kernel] at this
  rw [hvalue, hback, show (8421376 - 8421375 : ℚ) = 1 by norm_num, abs_one] at hmiddle
  linarith

theorem specks_not_faithful : FiniteValues specks.data ∧ ¬ Faithful .uint8 specks := by
  refine ⟨by decide, fun h => ?_⟩
  have hencode : encode [("w", specks)] (some .uint8) = .ok ([0, 255],
      [⟨"w", .float32, [2], some ⟨.uint8, some .zero, some .zero⟩⟩]) := by decide +kernel
  have hread : readEntries [⟨"w", .float32, [2], some ⟨.uint8, some .zero, some .zero⟩⟩]
      [0, 255] = .ok ([("w", ⟨[2], .float32 [.zero, .zero], by decide⟩)], []) := by decide +kernel
  obtain ⟨-, hclose⟩ := h.elim rfl hencode rfl hread rfl
  have hlast := (List.forall₂_cons.mp (List.forall₂_cons.mp hclose).2).1
  have hpos : Binary32.zero.value < (⟨100⟩ : Binary32).value :=
    (lt_iff (by decide) (by decide)).mp (by decide +kernel)
  rw [value_zero.2] at hlast hpos
  rw [zero_sub, abs_neg, abs_of_pos hpos] at hlast
  linarith

/-- **The promise is broken** in three ways: the greatest number comes back infinite, a number comes back
as its neighbour which is more than a step away, and a number comes back as zero from a scale whose step
is zero. -/
theorem scales_not_faithful :
    (FiniteValues peak.data ∧ ¬ Faithful .uint16 peak) ∧
    (FiniteValues dense.data ∧ ¬ Faithful .uint16 dense) ∧
    (FiniteValues specks.data ∧ ¬ Faithful .uint8 specks) :=
  ⟨peak_not_faithful, dense_not_faithful, specks_not_faithful⟩

end TexelFlow.Weight
