import TexelFlow.Weight.Codec
import TexelFlow.Proofs.Named
import TexelFlow.Proofs.Checked
import Mathlib.Data.List.Nodup
import Mathlib.Data.Nat.Bitwise

/-!
# Unquantized weights are stored without loss

The bytes of a tensor are read back from their front, whatever follows them, and what is read from the
front of some bytes writes that front again. Both directions go through `take`: it succeeds on exactly
the windows that are there. Two things are lost where they are not excluded: a text of four gigabytes or
more does not fit its length, and a truth value that is stored as another byte than zero or one comes
back as one.

## Main statements

* `readPlain_bytesOfPlain`, `bytesOfPlain_of_readPlain` — the elements of one tensor, both ways.
* `readEntries_written`, `written_of_readEntries` — the tensors of a manifest, both ways.
* `codec_lossless` — what is encoded is decoded, and what is decoded is encoded again.

## §1 — words
## §2 — windows and texts
## §3 — the elements of a tensor
## §4 — entries
## §5 — the codec
-/

namespace TexelFlow.Weight

/-! ## §1 — words -/

/-- Four bytes weigh in at powers of 256. -/
theorem word32_toNat (a b c d : UInt8) :
    (word32 a b c d).toNat = a.toNat + 256 * b.toNat + 65536 * c.toNat + 16777216 * d.toNat := by
  have ha := a.toNat_lt
  have hb := b.toNat_lt
  have hc := c.toNat_lt
  have hd := d.toNat_lt
  have shift : ∀ (x : UInt8) (k : Nat), k ≤ 24 → (x.toNat <<< k) % 2 ^ 32 = 2 ^ k * x.toNat := by
    intro x k hk
    rw [Nat.shiftLeft_eq, Nat.mul_comm, Nat.mod_eq_of_lt]
    calc 2 ^ k * x.toNat < 2 ^ k * 2 ^ 8 := Nat.mul_lt_mul_of_pos_left x.toNat_lt (Nat.two_pow_pos k)
      _ = 2 ^ (k + 8) := (Nat.pow_add 2 k 8).symm
      _ ≤ 2 ^ 32 := Nat.pow_le_pow_right (by decide) (by omega)
  -- from the low end: each shifted byte stands clear of what is below it
  have h1 : a.toNat ||| 2 ^ 8 * b.toNat = 2 ^ 8 * b.toNat + a.toNat := by
    rw [Nat.or_comm, ← Nat.two_pow_add_eq_or_of_lt (by omega)]
  have h2 : (2 ^ 8 * b.toNat + a.toNat) ||| 2 ^ 16 * c.toNat =
      2 ^ 16 * c.toNat + (2 ^ 8 * b.toNat + a.toNat) := by
    rw [Nat.or_comm, ← Nat.two_pow_add_eq_or_of_lt (by omega)]
  have h3 : (2 ^ 16 * c.toNat + (2 ^ 8 * b.toNat + a.toNat)) ||| 2 ^ 24 * d.toNat =
      2 ^ 24 * d.toNat + (2 ^ 16 * c.toNat + (2 ^ 8 * b.toNat + a.toNat)) := by
    rw [Nat.or_comm, ← Nat.two_pow_add_eq_or_of_lt (by omega)]
  unfold word32
  simp only [UInt32.toNat_or, UInt32.toNat_shiftLeft, UInt8.toNat_toUInt32]
  rw [show (8 : UInt32).toNat % 32 = 8 from rfl, show (16 : UInt32).toNat % 32 = 16 from rfl,
    show (24 : UInt32).toNat % 32 = 24 from rfl, shift b 8 (by omega), shift c 16 (by omega),
    shift d 24 (by omega), h1, h2, h3]
  omega

theorem byte_toNat (w : UInt32) {k : UInt32} (hk : k.toNat < 32) :
    (w >>> k).toUInt8.toNat = w.toNat / 2 ^ k.toNat % 256 := by
  rw [UInt32.toNat_toUInt8, UInt32.toNat_shiftRight, Nat.mod_eq_of_lt hk, Nat.shiftRight_eq_div_pow]

theorem word32_bytes (w : UInt32) :
    word32 w.toUInt8 (w >>> 8).toUInt8 (w >>> 16).toUInt8 (w >>> 24).toUInt8 = w := by
  have hw := w.toNat_lt
  apply UInt32.toNat_inj.mp
  rw [word32_toNat, UInt32.toNat_toUInt8, byte_toNat w (by decide), byte_toNat w (by decide),
    byte_toNat w (by decide)]
  simp only [UInt32.reduceToNat]
  omega

theorem bytesOf32_word32 (a b c d : UInt8) : bytesOf32 (word32 a b c d) = [a, b, c, d] := by
  have hw := word32_toNat a b c d
  have ha := a.toNat_lt
  have hb := b.toNat_lt
  have hc := c.toNat_lt
  have hd := d.toNat_lt
  unfold bytesOf32
  generalize word32 a b c d = w at hw
  have h0 : w.toUInt8 = a := by
    apply UInt8.toNat_inj.mp
    rw [UInt32.toNat_toUInt8]
    omega
  have h1 : (w >>> 8).toUInt8 = b := by
    apply UInt8.toNat_inj.mp
    rw [byte_toNat w (by decide)]
    simp only [UInt32.reduceToNat]
    omega
  have h2 : (w >>> 16).toUInt8 = c := by
    apply UInt8.toNat_inj.mp
    rw [byte_toNat w (by decide)]
    simp only [UInt32.reduceToNat]
    omega
  have h3 : (w >>> 24).toUInt8 = d := by
    apply UInt8.toNat_inj.mp
    rw [byte_toNat w (by decide)]
    simp only [UInt32.reduceToNat]
    omega
  rw [h0, h1, h2, h3]

@[simp] theorem length_bytesOf32 (w : UInt32) : (bytesOf32 w).length = 4 := rfl

theorem words32_flatMap (ws : List UInt32) : words32 (ws.flatMap bytesOf32) = ws := by
  induction ws with
  | nil => rfl
  | cons w ws ih =>
    have hword := word32_bytes w
    rw [List.flatMap_cons]
    unfold bytesOf32 at ih ⊢
    simp only [List.cons_append, List.nil_append, words32]
    rw [hword, ih]

theorem flatMap_words32 (n : Nat) {bytes : Bytes} (h : bytes.length = n * 4) :
    (words32 bytes).flatMap bytesOf32 = bytes ∧ (words32 bytes).length = n := by
  induction n generalizing bytes with
  | zero =>
    rw [Nat.zero_mul, List.length_eq_zero_iff] at h
    subst h
    exact ⟨rfl, rfl⟩
  | succ n ih =>
    match bytes, h with
    | a :: b :: c :: d :: rest, h =>
      simp only [List.length_cons] at h
      obtain ⟨hrest, hlen⟩ := ih (show rest.length = n * 4 by omega)
      rw [words32, List.flatMap_cons, hrest, bytesOf32_word32, List.length_cons, hlen]
      exact ⟨rfl, rfl⟩
    | [], h | [_], h | [_, _], h | [_, _, _], h =>
      simp only [List.length_cons, List.length_nil] at h
      omega

/-! ## §2 — windows and texts -/

variable {name : String} {bytes window rest : Bytes}

/-- **A window is taken** exactly where it is there. -/
theorem take_eq_ok_iff {n : Nat} :
    take name n bytes = .ok (window, rest) ↔ bytes = window ++ rest ∧ window.length = n := by
  unfold take
  dsimp only
  split
  · rename_i hlt
    constructor
    · intro h
      cases h
    · rintro ⟨rfl, rfl⟩
      rw [List.length_append] at hlt
      omega
  · rename_i hle
    rw [List.splitAt_eq]
    constructor
    · intro h
      obtain ⟨rfl, rfl⟩ := Prod.mk.inj (Except.ok.inj h)
      exact ⟨(List.take_append_drop n bytes).symm, List.length_take_of_le (Nat.not_lt.mp hle)⟩
    · rintro ⟨rfl, rfl⟩
      rw [List.take_left, List.drop_left]

theorem take_append (name : String) (window rest : Bytes) :
    take name window.length (window ++ rest) = .ok (window, rest) :=
  take_eq_ok_iff.mpr ⟨rfl, rfl⟩

end TexelFlow.Weight

namespace TexelFlow.Utf8

/-- The bytes of an array, as a list: the loop collects them from the end. -/
theorem toList_loop (bytes : ByteArray) (i : Nat) (done : List UInt8) :
    ByteArray.toList.loop bytes i done = done.reverse ++ bytes.data.toList.drop i := by
  induction i, done using ByteArray.toList.loop.induct bytes with
  | case1 i done hlt ih =>
    have hi : i < bytes.data.toList.length := hlt
    have hget : bytes.get! i = bytes.data.toList[i] := by
      show bytes.data[i]! = _
      rw [getElem!_pos bytes.data i hlt]
      rfl
    rw [ByteArray.toList.loop, if_pos hlt, ih, hget, List.drop_eq_getElem_cons hi,
      List.reverse_cons, List.append_assoc]
    rfl
  | case2 i done hge =>
    have hi : bytes.data.toList.length ≤ i := Nat.not_lt.mp hge
    rw [ByteArray.toList.loop, if_neg hge, List.drop_eq_nil_of_le hi, List.append_nil]

theorem toList_eq (bytes : ByteArray) : bytes.toList = bytes.data.toList := by
  unfold ByteArray.toList
  rw [toList_loop]
  rfl

/-- A text is read back from its bytes. -/
theorem decode_encode (s : String) : decode (encode s) = .ok s := by
  unfold decode encode
  have hbytes : (⟨s.toUTF8.toList.toArray⟩ : ByteArray) = s.toByteArray := by
    rw [toList_eq]
    rfl
  rw [hbytes]
  unfold String.fromUTF8?
  rw [dif_pos s.isValidUTF8]
  rfl

/-- What is read as a text is written back. -/
theorem encode_of_decode {bytes : List UInt8} {s : String} (h : decode bytes = .ok s) :
    encode s = bytes := by
  unfold decode at h
  split at h
  · rename_i t ht
    cases h
    unfold String.fromUTF8? at ht
    split at ht
    · cases ht
      unfold encode
      rw [toList_eq]
      rfl
    · cases ht
  · cases h

end TexelFlow.Utf8

namespace TexelFlow.Weight

variable {name : String} {bytes rest : Bytes}

/-- The length of a text fits the four bytes in front of it. -/
def Short (s : String) : Prop := (Utf8.encode s).length < 2 ^ 32

instance (s : String) : Decidable (Short s) := inferInstanceAs (Decidable (_ < _))

theorem words32_header (n : Nat) (h : n < 2 ^ 32) :
    ((words32 (bytesOf32 (UInt32.ofNat n))).headD 0).toNat = n := by
  have hwords := words32_flatMap [UInt32.ofNat n]
  rw [List.flatMap_singleton] at hwords
  rw [hwords, List.headD_cons, UInt32.toNat_ofNat_of_lt' h]

/-- Texts are read back, whatever follows them. -/
theorem readTexts_bytesOfText {texts : List String} (h : ∀ s ∈ texts, Short s) :
    readTexts name texts.length (texts.flatMap bytesOfText ++ rest) = .ok (texts, rest) := by
  induction texts with
  | nil => rfl
  | cons s texts ih =>
    have hs : Short s := h s List.mem_cons_self
    have ih := ih fun s' hs' => h s' (List.mem_cons_of_mem _ hs')
    -- header, body, the other texts, the rest
    have hsplit : (s :: texts).flatMap bytesOfText ++ rest =
        bytesOf32 (UInt32.ofNat (Utf8.encode s).length) ++
          (Utf8.encode s ++ (texts.flatMap bytesOfText ++ rest)) := by
      rw [List.flatMap_cons]
      unfold bytesOfText
      simp only [List.append_assoc]
    have hheader := take_append name
      (bytesOf32 (UInt32.ofNat (Utf8.encode s).length))
      (Utf8.encode s ++ (texts.flatMap bytesOfText ++ rest))
    rw [length_bytesOf32] at hheader
    have hbody := take_append name (Utf8.encode s) (texts.flatMap bytesOfText ++ rest)
    rw [hsplit, List.length_cons, readTexts, hheader]
    dsimp only [bind, Except.bind]
    rw [words32_header _ hs, hbody]
    dsimp only
    rw [Utf8.decode_encode]
    dsimp only
    rw [ih]
    rfl

/-- Texts that were read are written back. -/
theorem bytesOfText_of_readTexts {count : Nat} {texts : List String}
    (h : readTexts name count bytes = .ok (texts, rest)) :
    texts.length = count ∧ bytes = texts.flatMap bytesOfText ++ rest := by
  induction count generalizing bytes texts with
  | zero =>
    obtain ⟨rfl, rfl⟩ := Prod.mk.inj (Except.ok.inj h)
    exact ⟨rfl, rfl⟩
  | succ count ih =>
    rw [readTexts] at h
    obtain ⟨⟨header, afterHeader⟩, hheader, h⟩ := Outcome.bind_eq_ok_iff.mp h
    obtain ⟨⟨body, afterBody⟩, hbody, h⟩ := Outcome.bind_eq_ok_iff.mp h
    dsimp only at hbody h
    split at h
    · cases h
    · rename_i s hs
      obtain ⟨⟨others, last⟩, hothers, h⟩ := Outcome.bind_eq_ok_iff.mp h
      obtain ⟨rfl, rfl⟩ := Prod.mk.inj (Except.ok.inj h)
      obtain ⟨rfl, hfour⟩ := take_eq_ok_iff.mp hheader
      obtain ⟨rfl, hlength⟩ := take_eq_ok_iff.mp hbody
      obtain ⟨hcount, rfl⟩ := ih hothers
      refine ⟨by rw [List.length_cons, hcount], ?_⟩
      -- the header is the length of the body, which is the text
      have hwhole := flatMap_words32 1 (show header.length = 1 * 4 by omega)
      obtain ⟨w, hw⟩ := List.length_eq_one_iff.mp hwhole.2
      have hword : bytesOf32 w = header := by
        have := hwhole.1
        rwa [hw, List.flatMap_singleton] at this
      rw [hw, List.headD_cons] at hlength
      have hback : UInt32.ofNat body.length = w := by
        rw [hlength, UInt32.ofNat_toNat]
      rw [List.flatMap_cons]
      unfold bytesOfText
      simp only [Utf8.encode_of_decode hs, hback, hword, List.append_assoc]

/-! ## §3 — the elements of a tensor -/

/-- Bytes that an element takes in memory. -/
def room : DataType → Nat
  | .float32 => 4
  | .int32 => 4
  | .bool => 1
  | .string => textRoom

/-- Elements that memory can hold: their room can be addressed. A list of elements in a running
program always is, so this is no restriction on the tensors there are. -/
def Held (data : TensorData) : Prop := data.length * room data.dtype ≤ Size.addressable

instance (data : TensorData) : Decidable (Held data) := inferInstanceAs (Decidable (_ ≤ _))

/-- Every text among the elements is short. -/
def ShortTexts : TensorData → Prop
  | .string v => ∀ s ∈ v, Short s
  | _ => True

instance (data : TensorData) : Decidable (ShortTexts data) :=
  match data with
  | .string v => inferInstanceAs (Decidable (∀ s ∈ v, Short s))
  | .float32 _ | .int32 _ | .bool _ => inferInstanceAs (Decidable True)

theorem length_flatMap_bytesOf32 (ws : List UInt32) :
    (ws.flatMap bytesOf32).length = ws.length * 4 := by
  induction ws with
  | nil => rfl
  | cons w ws ih =>
    rw [List.flatMap_cons, List.length_append, length_bytesOf32, ih, List.length_cons]
    omega

/-- The words of a list are taken off the front, whatever follows them. -/
theorem take_words {α : Type} (name : String) (word : α → UInt32) (v : List α) (rest : Bytes) :
    take name (v.length * 4) ((v.map word).flatMap bytesOf32 ++ rest) =
      .ok ((v.map word).flatMap bytesOf32, rest) := by
  have hlength := length_flatMap_bytesOf32 (v.map word)
  rw [List.length_map] at hlength
  rw [← hlength]
  exact take_append name _ rest

/-- The list is made again of its words. -/
theorem map_words32 {α : Type} {word : α → UInt32} {back : UInt32 → α} (h : ∀ a, back (word a) = a)
    (v : List α) : (words32 ((v.map word).flatMap bytesOf32)).map back = v := by
  rw [words32_flatMap, List.map_map]
  exact (List.map_congr_left fun a _ => h a).trans (List.map_id v)

/-- The bytes of elements that memory can hold are counted. -/
theorem mul_of_held {n : Nat} (h : n * 4 ≤ Size.addressable) : Size.mul n 4 = .ok (n * 4) :=
  Size.fit_of_lt (h.trans_lt (by decide))

theorem bytesOfPlain_float32 (v : List Binary32) :
    bytesOfPlain (.float32 v) = (v.map Binary32.bits).flatMap bytesOf32 := by
  rw [List.flatMap_map]
  rfl

theorem bytesOfPlain_int32 (v : List Int32) :
    bytesOfPlain (.int32 v) = (v.map Int32.toUInt32).flatMap bytesOf32 := by
  rw [List.flatMap_map]
  rfl

/-- **The elements of a tensor are read back** from their bytes, whatever follows them. -/
theorem readPlain_bytesOfPlain {data : TensorData} (hheld : Held data) (hshort : ShortTexts data) :
    readPlain name data.dtype data.length (bytesOfPlain data ++ rest) = .ok (data, rest) := by
  unfold Held at hheld
  cases data with
  | float32 v =>
    have hlength : Size.mul v.length 4 = .ok (v.length * 4) := mul_of_held hheld
    rw [bytesOfPlain_float32]
    dsimp only [TensorData.dtype, TensorData.length, readPlain]
    rw [Outcome.bind_of_eq_ok hlength, Outcome.bind_of_eq_ok (take_words name Binary32.bits v rest)]
    dsimp only
    rw [map_words32 fun _ => rfl]
    rfl
  | int32 v =>
    have hlength : Size.mul v.length 4 = .ok (v.length * 4) := mul_of_held hheld
    rw [bytesOfPlain_int32]
    dsimp only [TensorData.dtype, TensorData.length, readPlain]
    rw [Outcome.bind_of_eq_ok hlength, Outcome.bind_of_eq_ok (take_words name Int32.toUInt32 v rest)]
    dsimp only
    rw [map_words32 fun _ => rfl]
    rfl
  | bool v =>
    have hwindow := take_append name (bytesOfPlain (.bool v)) rest
    have hlength : (bytesOfPlain (.bool v)).length = v.length := List.length_map _
    rw [hlength] at hwindow
    dsimp only [TensorData.dtype, TensorData.length, readPlain]
    rw [hwindow]
    dsimp only [bind, Except.bind, bytesOfPlain]
    have hback : (v.map fun b => if b then (1 : UInt8) else 0).map (· != 0) = v := by
      rw [List.map_map]
      conv_rhs => rw [← List.map_id v]
      apply List.map_congr_left
      intro b _
      cases b <;> rfl
    rw [hback]
    rfl
  | string v =>
    dsimp only [TensorData.dtype, TensorData.length, readPlain]
    have hroom : Size.reserve v.length textRoom = .ok () := Size.reserve_eq_ok_iff.mpr hheld
    rw [Outcome.bind_of_eq_ok hroom]
    unfold bytesOfPlain
    rw [readTexts_bytesOfText hshort]
    rfl

/-- A window of whole words, and the words it is made of. -/
theorem words_of_take {count : Nat} {window : Bytes}
    (h : take name (count * 4) bytes = .ok (window, rest)) :
    bytes = (words32 window).flatMap bytesOf32 ++ rest := by
  obtain ⟨rfl, hlength⟩ := take_eq_ok_iff.mp h
  rw [(flatMap_words32 _ hlength).1]

/-- **The elements that were read are written back**, where every truth value is stored as zero or
one. -/
theorem bytesOfPlain_of_readPlain {dtype : DataType} {count : Nat} {data : TensorData}
    (h : readPlain name dtype count bytes = .ok (data, rest))
    (hbool : dtype = .bool → ∀ b ∈ bytes.take count, b = 0 ∨ b = 1) :
    data.dtype = dtype ∧ bytes = bytesOfPlain data ++ rest := by
  cases dtype with
  | float32 =>
    obtain ⟨length, hlength, h⟩ := Outcome.bind_eq_ok_iff.mp h
    obtain ⟨-, rfl⟩ := Size.mul_eq_ok_iff.mp hlength
    obtain ⟨⟨window, after⟩, hwindow, h⟩ := Outcome.bind_eq_ok_iff.mp h
    obtain ⟨rfl, rfl⟩ := Prod.mk.inj (Except.ok.inj h)
    refine ⟨rfl, ?_⟩
    rw [bytesOfPlain_float32, List.map_map]
    have hid : Binary32.bits ∘ Binary32.mk = id := rfl
    rw [hid, List.map_id]
    exact words_of_take hwindow
  | int32 =>
    obtain ⟨length, hlength, h⟩ := Outcome.bind_eq_ok_iff.mp h
    obtain ⟨-, rfl⟩ := Size.mul_eq_ok_iff.mp hlength
    obtain ⟨⟨window, after⟩, hwindow, h⟩ := Outcome.bind_eq_ok_iff.mp h
    obtain ⟨rfl, rfl⟩ := Prod.mk.inj (Except.ok.inj h)
    refine ⟨rfl, ?_⟩
    rw [bytesOfPlain_int32, List.map_map]
    have hid : Int32.toUInt32 ∘ UInt32.toInt32 = id := rfl
    rw [hid, List.map_id]
    exact words_of_take hwindow
  | bool =>
    obtain ⟨⟨window, after⟩, hwindow, h⟩ := Outcome.bind_eq_ok_iff.mp h
    obtain ⟨rfl, rfl⟩ := Prod.mk.inj (Except.ok.inj h)
    obtain ⟨rfl, hlength⟩ := take_eq_ok_iff.mp hwindow
    refine ⟨rfl, ?_⟩
    have hbits : ∀ b ∈ window, b = 0 ∨ b = 1 := by
      have := hbool rfl
      rwa [← hlength, List.take_left] at this
    have hback : bytesOfPlain (.bool (window.map (· != 0))) = window := by
      unfold bytesOfPlain
      dsimp only
      rw [List.map_map]
      conv_rhs => rw [← List.map_id window]
      apply List.map_congr_left
      intro b hb
      rcases hbits b hb with rfl | rfl <;> rfl
    rw [hback]
  | string =>
    obtain ⟨_, -, h⟩ := Outcome.bind_eq_ok_iff.mp h
    obtain ⟨⟨texts, after⟩, htexts, h⟩ := Outcome.bind_eq_ok_iff.mp h
    obtain ⟨rfl, rfl⟩ := Prod.mk.inj (Except.ok.inj h)
    exact ⟨rfl, (bytesOfText_of_readTexts htexts).2⟩

/-! ## §4 — entries -/

/-- The entry of a tensor that is stored by its own type. -/
def plainEntry (e : String × Tensor) : Entry := ⟨e.1, e.2.dtype, e.2.shape, none⟩

/-- The bytes of tensors that are stored by their own types. -/
def plainBytes (tensors : List (String × Tensor)) : Bytes :=
  tensors.flatMap fun e => bytesOfPlain e.2.data

/-- Every truth value of the entries is stored as zero or one. -/
def PlainBools : List Entry → Bytes → Prop
  | [], _ => True
  | e :: rest, bytes =>
    (e.dtype = .bool → ∀ b ∈ bytes.take e.shape.count, b = 0 ∨ b = 1) ∧
      match readEntry e bytes with
      | .ok (_, after) => PlainBools rest after
      | .error _ => True

theorem readEntry_written {e : String × Tensor} (hheld : Held e.2.data)
    (hshort : ShortTexts e.2.data) :
    readEntry (plainEntry e) (bytesOfPlain e.2.data ++ rest) = .ok (e.2, rest) := by
  have hread : readPlain e.1 e.2.data.dtype e.2.data.length (bytesOfPlain e.2.data ++ rest) =
      .ok (e.2.data, rest) := readPlain_bytesOfPlain hheld hshort
  have hmake : Tensor.make e.1 e.2.shape e.2.data = .ok e.2 := Tensor.make_eq_ok_iff.mpr ⟨rfl, rfl⟩
  unfold readEntry plainEntry Tensor.dtype
  dsimp only
  rw [Outcome.bind_of_eq_ok e.2.filled, Outcome.bind_of_eq_ok hread]
  dsimp only
  rw [hmake]
  rfl

theorem written_of_readEntry {e : Entry} {t : Tensor} (h : readEntry e bytes = .ok (t, rest))
    (hplain : e.quantization = none)
    (hbool : e.dtype = .bool → ∀ b ∈ bytes.take e.shape.count, b = 0 ∨ b = 1) :
    e = plainEntry (e.name, t) ∧ bytes = bytesOfPlain t.data ++ rest := by
  unfold readEntry at h
  rw [hplain] at h
  obtain ⟨count, hcount, h⟩ := Outcome.bind_eq_ok_iff.mp h
  obtain ⟨⟨data, after⟩, hread, h⟩ := Outcome.bind_eq_ok_iff.mp h
  obtain ⟨made, hmake, h⟩ := Outcome.bind_eq_ok_iff.mp h
  obtain ⟨rfl, rfl⟩ := Prod.mk.inj (Except.ok.inj h)
  obtain ⟨hshape, hdata⟩ := Tensor.make_eq_ok_iff.mp hmake
  have hcount : e.shape.count = count := by rw [Shape.count_eq_prod, Shape.prod_of_counted hcount]
  obtain ⟨hdtype, rfl⟩ := bytesOfPlain_of_readPlain hread (hcount ▸ hbool)
  refine ⟨?_, by rw [hdata]⟩
  unfold plainEntry Tensor.dtype
  dsimp only
  rw [hshape, hdata, hdtype, ← hplain]

/-- **The tensors of a manifest are read back**, and no byte is left. -/
theorem readEntries_written {tensors : List (String × Tensor)}
    (h : ∀ e ∈ tensors, Held e.2.data ∧ ShortTexts e.2.data) :
    readEntries (tensors.map plainEntry) (plainBytes tensors) = .ok (tensors, []) := by
  induction tensors with
  | nil => rfl
  | cons e tensors ih =>
    obtain ⟨hheld, hshort⟩ := h e List.mem_cons_self
    have ih := ih fun e' he' => h e' (List.mem_cons_of_mem _ he')
    unfold plainBytes at ih ⊢
    rw [List.map_cons, List.flatMap_cons, readEntries, readEntry_written hheld hshort]
    dsimp only [bind, Except.bind]
    rw [ih]
    rfl

/-- Truth values are written as zeros and ones. -/
theorem plainBools_written {tensors : List (String × Tensor)}
    (h : ∀ e ∈ tensors, Held e.2.data ∧ ShortTexts e.2.data) :
    PlainBools (tensors.map plainEntry) (plainBytes tensors) := by
  induction tensors with
  | nil => trivial
  | cons e tensors ih =>
    obtain ⟨hheld, hshort⟩ := h e List.mem_cons_self
    have ih := ih fun e' he' => h e' (List.mem_cons_of_mem _ he')
    unfold plainBytes at ih ⊢
    rw [List.map_cons, List.flatMap_cons]
    refine ⟨?_, by rw [readEntry_written hheld hshort]; exact ih⟩
    intro hdtype b hb
    have hdtype : e.2.data.dtype = .bool := hdtype
    have hfilled : e.2.data.length = (plainEntry e).shape.count := by
      rw [Shape.count_eq_prod, ← Shape.prod_of_counted e.2.filled]
      rfl
    generalize e.2.data = data at hdtype hfilled hb
    cases data with
    | bool v =>
      have hlength : (bytesOfPlain (.bool v)).length = (plainEntry e).shape.count := by
        rw [← hfilled]
        exact List.length_map _
      rw [← hlength, List.take_left] at hb
      obtain ⟨value, -, rfl⟩ := List.mem_map.mp hb
      cases value
      · exact .inl rfl
      · exact .inr rfl
    | float32 | int32 | string => cases hdtype

/-- **The tensors that were read from a manifest are written back**. -/
theorem written_of_readEntries {entries : List Entry} {tensors : List (String × Tensor)}
    (h : readEntries entries bytes = .ok (tensors, rest))
    (hplain : ∀ e ∈ entries, e.quantization = none) (hbools : PlainBools entries bytes) :
    entries = tensors.map plainEntry ∧ bytes = plainBytes tensors ++ rest := by
  induction entries generalizing bytes tensors with
  | nil =>
    obtain ⟨rfl, rfl⟩ := Prod.mk.inj (Except.ok.inj h)
    exact ⟨rfl, rfl⟩
  | cons e entries ih =>
    rw [readEntries] at h
    obtain ⟨⟨t, after⟩, hread, h⟩ := Outcome.bind_eq_ok_iff.mp h
    obtain ⟨⟨others, last⟩, hothers, h⟩ := Outcome.bind_eq_ok_iff.mp h
    obtain ⟨rfl, rfl⟩ := Prod.mk.inj (Except.ok.inj h)
    obtain ⟨hbool, hbools⟩ := hbools
    rw [hread] at hbools
    obtain ⟨hentry, rfl⟩ := written_of_readEntry hread (hplain e List.mem_cons_self) hbool
    obtain ⟨hentries, rfl⟩ := ih hothers (fun e' he' => hplain e' (List.mem_cons_of_mem _ he')) hbools
    refine ⟨?_, ?_⟩
    · rw [List.map_cons, ← hentries, ← hentry]
    · unfold plainBytes
      rw [List.flatMap_cons, List.append_assoc]

/-! ## §5 — the codec -/

theorem writeTensor_none (name : String) (t : Tensor) :
    writeTensor name t none = .ok (bytesOfPlain t.data, plainEntry (name, t)) := by
  unfold writeTensor plainEntry
  cases t.data <;> rfl

theorem encode_none (tensors : List (String × Tensor)) :
    encode tensors none = .ok (plainBytes tensors, tensors.map plainEntry) := by
  have hwritten : (tensors.mapM fun (e : String × Tensor) => writeTensor e.1 e.2 none) =
      Except.ok (tensors.map fun e => (bytesOfPlain e.2.data, plainEntry e)) := by
    apply Outcome.mapM_eq_ok_iff.mpr
    rw [List.forall₂_map_right_iff, List.forall₂_same]
    intro e _
    exact writeTensor_none e.1 e.2
  have hbytes : (tensors.map fun e => (bytesOfPlain e.2.data, plainEntry e)).flatMap Prod.fst =
      plainBytes tensors := by
    rw [List.flatMap_map]
    rfl
  have hentries : (tensors.map fun e => (bytesOfPlain e.2.data, plainEntry e)).map Prod.snd =
      tensors.map plainEntry := by
    rw [List.map_map]
    rfl
  unfold encode
  rw [hwritten]
  dsimp only [bind, Except.bind]
  rw [hbytes, hentries]
  rfl

theorem decode_of_readEntries {entries : List Entry} {tensors : List (String × Tensor)}
    (h : readEntries entries bytes = .ok (tensors, rest)) :
    decode bytes entries = .ok (Named.ofList tensors) := by
  unfold decode
  rw [h]
  rfl

/-- Tensors of distinct names are held under their names. -/
theorem find?_ofList_iff_mem {tensors : List (String × Tensor)} (h : (tensors.map Prod.fst).Nodup)
    {key : String} {t : Tensor} :
    (Named.ofList tensors).find? key = some t ↔ (key, t) ∈ tensors := by
  apply Named.find?_ofList_eq_some_iff
  intro k a b ha hb
  exact (Prod.mk.inj (List.inj_on_of_nodup_map h ha hb rfl)).2

/-- Decoding these entries uses up these bytes. -/
def Consumes (bytes : Bytes) (entries : List Entry) : Prop :=
  ∃ tensors, readEntries entries bytes = .ok (tensors, [])

/-- The tensors that a map holds for the entries of a manifest, in its order. -/
def inManifestOrder (entries : List Entry) (tensors : Tensors) : Option (List (String × Tensor)) :=
  entries.mapM fun e => (tensors.find? e.name).map fun t => (e.name, t)

theorem inManifestOrder_of_names {tensors : List (String × Tensor)} {decoded : Tensors}
    (h : ∀ e ∈ tensors, decoded.find? e.1 = some e.2) :
    inManifestOrder (tensors.map plainEntry) decoded = some tensors := by
  unfold inManifestOrder
  induction tensors with
  | nil => rfl
  | cons e tensors ih =>
    have hfound : decoded.find? (plainEntry e).name = some e.2 := h e List.mem_cons_self
    have ih := ih fun e' he' => h e' (List.mem_cons_of_mem _ he')
    rw [List.map_cons, List.mapM_cons, hfound, ih]
    rfl

/-- Encoding tensors gives bytes, the truth values among them zeros and ones, and entries that decode,
with no byte left, to exactly these tensors. -/
def DecodesBack (tensors : List (String × Tensor)) : Prop :=
  ∃ bytes entries decoded, encode tensors none = .ok (bytes, entries) ∧ PlainBools entries bytes ∧
    Consumes bytes entries ∧ decode bytes entries = .ok decoded ∧
      ∀ name t, decoded.find? name = some t ↔ (name, t) ∈ tensors

/-- Decoding bytes gives tensors that encode, in the order of the manifest, to exactly these bytes and
entries. -/
def EncodesBack (entries : List Entry) (bytes : Bytes) : Prop :=
  ∃ decoded tensors, decode bytes entries = .ok decoded ∧
    inManifestOrder entries decoded = some tensors ∧ encode tensors none = .ok (bytes, entries)

/-- **The unquantized codec is lossless.** What is encoded is decoded to the same tensors, every bit of
them; and bytes that decoding uses up, with truth values stored as zero or one, are encoded again from
what was decoded, together with their entries. -/
theorem codec_lossless :
    (∀ tensors : List (String × Tensor), (tensors.map Prod.fst).Nodup →
      (∀ e ∈ tensors, Held e.2.data ∧ ShortTexts e.2.data) → DecodesBack tensors) ∧
    (∀ (entries : List Entry) (bytes : Bytes), (entries.map Entry.name).Nodup →
      (∀ e ∈ entries, e.quantization = none) → Consumes bytes entries → PlainBools entries bytes →
        EncodesBack entries bytes) := by
  constructor
  · intro tensors hnames hstored
    have hread := readEntries_written hstored
    exact ⟨_, _, _, encode_none tensors, plainBools_written hstored, ⟨tensors, hread⟩,
      decode_of_readEntries hread, fun name t => find?_ofList_iff_mem hnames⟩
  · rintro entries bytes hnames hplain ⟨tensors, hread⟩ hbools
    obtain ⟨rfl, hbytes⟩ := written_of_readEntries hread hplain hbools
    rw [List.append_nil] at hbytes
    subst hbytes
    rw [List.map_map] at hnames
    have hnames : (tensors.map Prod.fst).Nodup := hnames
    have hfound : ∀ e ∈ tensors, (Named.ofList tensors).find? e.1 = some e.2 :=
      fun e he => (find?_ofList_iff_mem hnames).mpr he
    exact ⟨_, tensors, decode_of_readEntries hread, inManifestOrder_of_names hfound,
      encode_none tensors⟩

/-- Four tensors of four types: a NaN with a payload and a negative zero, truth values, texts of
which one is empty, and a scalar. -/
def mixed : List (String × Tensor) :=
  [("w", ⟨[2, 1], .float32 [⟨0xffc00123⟩, ⟨0x80000000⟩], by decide⟩),
    ("flags", ⟨[3], .bool [true, false, true], by decide⟩),
    ("names", ⟨[1, 2], .string ["é", ""], by decide⟩),
    ("n", ⟨[], .int32 [-2], by decide⟩)]

/-- The bytes of these tensors. -/
def mixedBytes : Bytes :=
  [0x23, 0x01, 0xc0, 0xff, 0, 0, 0, 0x80] ++ [1, 0, 1] ++ [2, 0, 0, 0, 0xc3, 0xa9, 0, 0, 0, 0] ++
    [0xfe, 0xff, 0xff, 0xff]

theorem mixed_lossless :
    ((mixed.map Prod.fst).Nodup ∧ (∀ e ∈ mixed, Held e.2.data ∧ ShortTexts e.2.data) ∧
      DecodesBack mixed) ∧
    (((mixed.map plainEntry).map Entry.name).Nodup ∧
      (∀ e ∈ mixed.map plainEntry, e.quantization = none) ∧
      Consumes mixedBytes (mixed.map plainEntry) ∧ PlainBools (mixed.map plainEntry) mixedBytes ∧
      EncodesBack (mixed.map plainEntry) mixedBytes) := by
  have hnames : (mixed.map Prod.fst).Nodup := by decide
  have hstored : ∀ e ∈ mixed, Held e.2.data ∧ ShortTexts e.2.data := by decide +kernel
  have hbytes : mixedBytes = plainBytes mixed := by decide +kernel
  have hread : readEntries (mixed.map plainEntry) mixedBytes = .ok (mixed, []) := by decide +kernel
  have hplain : ∀ e ∈ mixed.map plainEntry, e.quantization = none := by decide
  have hbools : PlainBools (mixed.map plainEntry) mixedBytes := by
    rw [hbytes]
    exact plainBools_written hstored
  exact ⟨⟨hnames, hstored, codec_lossless.1 mixed hnames hstored⟩, hnames, hplain, ⟨mixed, hread⟩,
    hbools, codec_lossless.2 _ _ hnames hplain ⟨mixed, hread⟩ hbools⟩

end TexelFlow.Weight
