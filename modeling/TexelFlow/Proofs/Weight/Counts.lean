import TexelFlow.Proofs.Weight.Manifest
import Mathlib.Algebra.Group.Action.Defs
import Mathlib.Algebra.Order.BigOperators.Group.List
import Mathlib.Algebra.Order.Ring.Nat

/-!
# Sizes of weights

Reading an entry computes with three numbers: its element count, the bytes of its elements, and for
texts the room to hold them. All three are products of numbers that the manifest is free to choose, and
all three are formed before a byte is looked at. Where they fit, a shortage of bytes is a shortage and a
tensor has the elements its shape counts. Where one does not, that is a breach, however few bytes are left.

## Main statements

* `readEntry_of_width`, `readEntry_of_texts`, `readEntry_of_unread` — an entry by how its elements stand.
* `exists_breach_of_not_counted` — an entry whose sizes do not fit.
* `readEntries_eq_error_iff` — a manifest fails with the error of the first entry that does.
* `exactSizes_iff` — the sizes are exact where those of every entry that is reached fit, and only there.

## §1 — the sizes of an entry
## §2 — one entry
## §3 — entries that are reached
## §4 — exact sizes
-/

namespace TexelFlow.Weight

/-! ## §1 — the sizes of an entry -/

/-- Bytes that each element of an entry takes up. Texts differ in theirs, and only float32 and int32 are
quantized. -/
def Entry.width? (e : Entry) : Option Nat :=
  match e.quantization with
  | none => e.dtype.byteSize
  | some q => if e.dtype = .float32 ∨ e.dtype = .int32 then some q.storage.byteSize else none

/-- The elements are texts. -/
def Entry.HoldsTexts (e : Entry) : Prop := e.quantization = none ∧ e.dtype = .string

instance (e : Entry) : Decidable e.HoldsTexts := inferInstanceAs (Decidable (_ ∧ _))

/-- The exact sizes of an entry fit: words hold the counts and the bytes, memory the texts. -/
structure Entry.Counted (e : Entry) : Prop where
  /-- Words hold the element count, and those of all leading extents. -/
  count : e.shape.Counted
  /-- A word holds the bytes of the elements. -/
  bytes : ∀ w, e.width? = some w → e.shape.prod * w < Size.modulus
  /-- The room for the texts can be addressed. -/
  texts : e.HoldsTexts → e.shape.prod * textRoom ≤ Size.addressable

variable {e : Entry} {w : Nat} {bytes left : Bytes}

/-! ## §2 — one entry -/

/-- The elements of a window whose elements are stored by their own type. -/
def plainOf (dtype : DataType) (window : Bytes) : TensorData :=
  match dtype with
  | .float32 => .float32 ((words32 window).map Binary32.mk)
  | .int32 => .int32 ((words32 window).map UInt32.toInt32)
  | .bool => .bool (window.map (· != 0))
  | .string => .string []

/-- The tensor of an entry from its window, where all elements take up as many bytes. -/
def tensorOf (e : Entry) (window : Bytes) : Outcome Tensor :=
  match e.quantization with
  | some q => quantizedOf e.name e.dtype q window >>= Tensor.make e.name e.shape
  | none => Tensor.make e.name e.shape (plainOf e.dtype window)

/-- **Elements of one width**: their bytes are counted and taken, and the rest is done with them. -/
theorem readEntry_of_width (hcount : e.shape.Counted) (h : e.width? = some w) (bytes : Bytes) :
    readEntry e bytes = Size.mul e.shape.prod w >>= fun length => take e.name length bytes >>= fun p =>
      tensorOf e p.1 >>= fun t => .ok (t, p.2) := by
  have hlt := hcount.prod_lt
  rw [readEntry_eq, Outcome.bind_of_eq_ok hcount.counted]
  unfold readData tensorOf
  unfold Entry.width? at h
  cases hq : e.quantization with
  | none =>
    rw [hq] at h
    dsimp only at h ⊢
    unfold readPlain plainOf
    cases hdtype : e.dtype with
    | float32 | int32 =>
      rw [hdtype] at h
      cases h
      simp only [bind_assoc, pure_bind]
    | bool =>
      rw [hdtype] at h
      cases h
      -- a byte for each element: no product is formed, and none would be too large
      rw [Outcome.bind_of_eq_ok (Size.mul_eq_ok_iff.mpr ⟨by rwa [Nat.mul_one], Nat.mul_one _⟩)]
      simp only [bind_assoc, pure_bind]
    | string =>
      rw [hdtype] at h
      cases h
  | some q =>
    rw [hq] at h
    dsimp only at h ⊢
    split at h
    · rename_i hnumeric
      cases h
      rw [readQuantized_eq, if_neg (by rintro ⟨hf, hi⟩; exact hnumeric.elim hf hi)]
      simp only [bind_assoc]
      rfl
    · cases h

theorem readEntry_of_texts (hcount : e.shape.Counted) (h : e.HoldsTexts) (bytes : Bytes) :
    readEntry e bytes = Size.reserve e.shape.prod textRoom >>= fun _ =>
      readTexts e.name e.shape.prod bytes >>= fun p =>
        Tensor.make e.name e.shape (.string p.1) >>= fun t => .ok (t, p.2) := by
  obtain ⟨hq, hdtype⟩ := h
  rw [readEntry_eq, Outcome.bind_of_eq_ok hcount.counted]
  unfold readData readPlain
  rw [hq, hdtype]
  simp only [bind_assoc, pure_bind]

/-- An entry of neither kind is refused before a byte is read. -/
theorem readEntry_of_unread (hcount : e.shape.Counted) (hwidth : e.width? = none) (htexts : ¬ e.HoldsTexts)
    (bytes : Bytes) : readEntry e bytes = .error (.quantization e.name (.dtype e.dtype)) := by
  rw [readEntry_eq, Outcome.bind_of_eq_ok hcount.counted]
  unfold readData
  unfold Entry.width? at hwidth
  cases hq : e.quantization with
  | none =>
    rw [hq] at hwidth
    have hstring : e.dtype = .string := by
      cases hdtype : e.dtype <;> rw [hdtype] at hwidth <;> first | rfl | cases hwidth
    exact absurd ⟨hq, hstring⟩ htexts
  | some q =>
    rw [hq] at hwidth
    dsimp only at hwidth ⊢
    split at hwidth
    · cases hwidth
    · rename_i hother
      rw [readQuantized_eq, if_pos (not_or.mp hother)]
      rfl

/-- **An entry whose sizes do not fit** is a breach, whatever bytes are left. -/
theorem exists_breach_of_not_counted (h : ¬ e.Counted) (left : Bytes) :
    ∃ breach, readEntry e left = .error (.breach breach) := by
  by_cases hcount : e.shape.Counted
  · by_cases hbytes : ∀ w, e.width? = some w → e.shape.prod * w < Size.modulus
    · have htexts : ¬ (e.HoldsTexts → e.shape.prod * textRoom ≤ Size.addressable) :=
        fun htexts => h ⟨hcount, hbytes, htexts⟩
      obtain ⟨htexts, hlarge⟩ := Classical.not_imp.mp htexts
      refine ⟨.capacity, ?_⟩
      rw [readEntry_of_texts hcount htexts,
        Size.reserve_eq_error_iff.mpr ⟨Nat.not_le.mp hlarge, rfl⟩]
      rfl
    · obtain ⟨w, hw⟩ := not_forall.mp hbytes
      obtain ⟨hw, hlarge⟩ := Classical.not_imp.mp hw
      refine ⟨.overflow, ?_⟩
      rw [readEntry_of_width hcount hw, Size.mul_eq_error_iff.mpr ⟨Nat.not_lt.mp hlarge, rfl⟩]
      rfl
  · refine ⟨.overflow, ?_⟩
    rw [readEntry_eq, Shape.counted_eq_error_iff.mpr ⟨hcount, rfl⟩]
    rfl

/-- What can be wrong with a window is its parameters or its number of elements. -/
theorem tensorOf_eq_error (hcount : e.shape.Counted) {err : Error} (h : tensorOf e bytes = .error err) :
    (∃ fault, err = .quantization e.name fault) ∨ ∃ n, err = .mismatch e.name e.shape e.shape.prod n := by
  have hmake : ∀ data, Tensor.make e.name e.shape data = .error err →
      ∃ n, err = .mismatch e.name e.shape e.shape.prod n := by
    intro data h
    unfold Tensor.make at h
    split at h
    · rename_i hfails
      rw [hcount.counted] at hfails
      cases hfails
    · rename_i expected hcounted
      obtain rfl := Shape.prod_of_counted hcounted
      split at h
      · cases h
      · exact ⟨_, (Except.error.inj h).symm⟩
  unfold tensorOf at h
  split at h
  · rcases Outcome.bind_eq_error_iff.mp h with h | ⟨data, -, h⟩
    · unfold quantizedOf at h
      split at h
      · split at h
        · exact .inl ⟨_, (Except.error.inj h).symm⟩
        · cases h
      · dsimp only at h
        split at h <;> cases h
      · exact .inl ⟨_, (Except.error.inj h).symm⟩
    · exact .inr (hmake data h)
  · exact .inr (hmake _ h)

/-- Texts run short, or one of them is none. -/
theorem readTexts_eq_error {name : String} {count : Nat} {err : Error}
    (h : readTexts name count bytes = .error err) :
    (∃ needed available, err = .truncated name needed available) ∨
      ∃ reason, err = .model (.weightText name reason) := by
  have htake : ∀ n (bytes : Bytes), take name n bytes = .error err →
      ∃ needed available, err = .truncated name needed available := by
    intro n bytes h
    unfold take at h
    dsimp only at h
    split at h
    · exact ⟨_, _, (Except.error.inj h).symm⟩
    · cases h
  induction count generalizing bytes with
  | zero => cases h
  | succ count ih =>
    rw [readTexts] at h
    rcases Outcome.bind_eq_error_iff.mp h with h | ⟨header, -, h⟩
    · exact .inl (htake _ _ h)
    · rcases Outcome.bind_eq_error_iff.mp h with h | ⟨body, -, h⟩
      · exact .inl (htake _ _ h)
      · dsimp only at h
        split at h
        · exact .inr ⟨_, (Except.error.inj h).symm⟩
        · rcases Outcome.bind_eq_error_iff.mp h with h | ⟨others, -, h⟩
          · exact ih h
          · cases h

/-- Every text takes up the four bytes of its length. -/
theorem le_of_readTexts {name : String} {count : Nat} {texts : List String} {rest : Bytes}
    (h : readTexts name count bytes = .ok (texts, rest)) : count * 4 ≤ bytes.length := by
  obtain ⟨rfl, rfl⟩ := bytesOfText_of_readTexts h
  have hfour : ∀ n ∈ texts.map fun s => (bytesOfText s).length, 4 ≤ n := by
    intro n hn
    obtain ⟨s, -, rfl⟩ := List.mem_map.mp hn
    show 4 ≤ (bytesOf32 _ ++ Utf8.encode s).length
    rw [List.length_append, length_bytesOf32]
    exact Nat.le_add_right ..
  have hsum := List.card_nsmul_le_sum _ 4 hfour
  rw [List.length_map, smul_eq_mul] at hsum
  rw [List.length_append, List.length_flatMap]
  omega

/-! ## §3 — entries that are reached -/

/-- Reading a manifest gets to an entry, with these bytes left: all entries before it are read. -/
inductive Reached : List Entry → Bytes → Entry → Bytes → Prop where
  /-- The first entry is. -/
  | here (e : Entry) (entries : List Entry) (bytes : Bytes) : Reached (e :: entries) bytes e bytes
  /-- Behind an entry that is read, so is every entry that reading the others gets to. -/
  | later {first e : Entry} {entries : List Entry} {bytes after left : Bytes} {t : Tensor} :
      readEntry first bytes = .ok (t, after) → Reached entries after e left →
      Reached (first :: entries) bytes e left

variable {entries : List Entry}

theorem Reached.mem (h : Reached entries bytes e left) : e ∈ entries := by
  induction h with
  | here => exact List.mem_cons_self
  | later _ _ ih => exact List.mem_cons_of_mem _ ih

/-- **A manifest fails** with the error of an entry that is reached. -/
theorem readEntries_eq_error_iff {err : Error} :
    readEntries entries bytes = .error err ↔
      ∃ e left, Reached entries bytes e left ∧ readEntry e left = .error err := by
  constructor
  · intro h
    induction entries generalizing bytes with
    | nil => cases h
    | cons first entries ih =>
      rw [readEntries] at h
      rcases Outcome.bind_eq_error_iff.mp h with h | ⟨⟨t, after⟩, hread, h⟩
      · exact ⟨first, bytes, .here .., h⟩
      · rcases Outcome.bind_eq_error_iff.mp h with h | ⟨others, -, h⟩
        · obtain ⟨e, left, hreached, herror⟩ := ih h
          exact ⟨e, left, .later hread hreached, herror⟩
        · cases h
  · rintro ⟨e, left, hreached, herror⟩
    induction hreached with
    | here =>
      rw [readEntries, herror]
      rfl
    | later hread _ ih =>
      rw [readEntries, hread]
      show readEntries _ _ >>= _ = _
      rw [ih herror]
      rfl

/-- Where a manifest is read, every entry of it is reached, and read. -/
theorem forall₂_of_readEntries {tensors : List (String × Tensor)} {rest : Bytes}
    (h : readEntries entries bytes = .ok (tensors, rest)) :
    List.Forall₂ (fun e p => ∃ left after, Reached entries bytes e left ∧
      readEntry e left = .ok (p.2, after)) entries tensors := by
  induction entries generalizing bytes tensors with
  | nil =>
    obtain ⟨rfl, rfl⟩ := Prod.mk.inj (Except.ok.inj h)
    exact .nil
  | cons first entries ih =>
    rw [readEntries] at h
    obtain ⟨⟨t, after⟩, hread, h⟩ := Outcome.bind_eq_ok_iff.mp h
    obtain ⟨⟨others, last⟩, hothers, h⟩ := Outcome.bind_eq_ok_iff.mp h
    obtain ⟨rfl, rfl⟩ := Prod.mk.inj (Except.ok.inj h)
    refine .cons ⟨bytes, after, .here .., hread⟩ ((ih hothers).imp ?_)
    rintro e p ⟨left, after', hreached, hread'⟩
    exact ⟨left, after', .later hread hreached, hread'⟩

theorem decode_eq_error_iff {err : Error} :
    decode bytes entries = .error err ↔
      ∃ e left, Reached entries bytes e left ∧ readEntry e left = .error err := by
  rw [← readEntries_eq_error_iff]
  unfold decode
  rw [Outcome.bind_eq_error_iff]
  constructor
  · rintro (h | ⟨p, -, h⟩)
    · exact h
    · cases h
  · exact .inl

/-! ## §4 — exact sizes -/

/-- Decoding fails at an entry that is reached, with its error. -/
def FailsAt (entries : List Entry) (bytes : Bytes) (e : Entry) (left : Bytes) (err : Error) : Prop :=
  readEntry e left = .error err ∧ decode bytes entries = .error err

/-- The sizes that decoding computes with are exact. -/
structure ExactSizes (bytes : Bytes) (entries : List Entry) : Prop where
  /-- Nothing is asked of memory that it cannot be asked. -/
  lawful : ∀ breach, decode bytes entries ≠ .error (.breach breach)
  /-- Sizes that do not fit are an error. -/
  counted : ∀ decoded, decode bytes entries = .ok decoded → ∀ e ∈ entries, e.Counted
  /-- Where fewer bytes are left than the elements take up, that is the error. -/
  short : ∀ e left w, Reached entries bytes e left → e.width? = some w →
    left.length < e.shape.prod * w →
      ∃ needed, FailsAt entries bytes e left (.truncated e.name needed left.length)
  /-- Where fewer bytes are left than the lengths of texts alone take up, it is this error, unless a
  text that is still there is none. -/
  shortTexts : ∀ e left, Reached entries bytes e left → e.HoldsTexts →
    left.length < e.shape.prod * 4 →
      (∃ needed available, FailsAt entries bytes e left (.truncated e.name needed available)) ∨
      ∃ reason, FailsAt entries bytes e left (.model (.weightText e.name reason))
  /-- Every tensor has the product of its extents as elements. -/
  filled : ∀ decoded, decode bytes entries = .ok decoded → ∀ name t, decoded.find? name = some t →
    t.data.length = t.shape.prod

namespace Entry.Counted

variable (h : e.Counted)
include h

/-- The window of an entry whose sizes fit. -/
theorem readEntry_eq (hw : e.width? = some w) (left : Bytes) :
    readEntry e left = take e.name (e.shape.prod * w) left >>= fun p =>
      tensorOf e p.1 >>= fun t => .ok (t, p.2) := by
  rw [readEntry_of_width h.count hw, Outcome.bind_of_eq_ok (Size.mul_eq_ok_iff.mpr ⟨h.bytes w hw, rfl⟩)]

/-- The texts of an entry whose sizes fit. -/
theorem readEntry_eq_texts (htexts : e.HoldsTexts) (left : Bytes) :
    readEntry e left = readTexts e.name e.shape.prod left >>= fun p =>
      Tensor.make e.name e.shape (.string p.1) >>= fun t => .ok (t, p.2) := by
  rw [readEntry_of_texts h.count htexts,
    Outcome.bind_of_eq_ok (Size.reserve_eq_ok_iff.mpr (h.texts htexts))]

/-- An entry whose sizes fit is no breach. -/
theorem lawful (breach : Breach) : readEntry e left ≠ .error (.breach breach) := by
  intro herror
  cases hwidth : e.width? with
  | some w =>
    rw [h.readEntry_eq hwidth] at herror
    rcases Outcome.bind_eq_error_iff.mp herror with herror | ⟨p, -, herror⟩
    · unfold take at herror
      dsimp only at herror
      split at herror <;> cases herror
    · rcases Outcome.bind_eq_error_iff.mp herror with herror | ⟨t, -, herror⟩
      · rcases tensorOf_eq_error h.count herror with ⟨fault, hfault⟩ | ⟨n, hn⟩
        · cases hfault
        · cases hn
      · cases herror
  | none =>
    by_cases htexts : e.HoldsTexts
    · rw [h.readEntry_eq_texts htexts] at herror
      rcases Outcome.bind_eq_error_iff.mp herror with herror | ⟨⟨texts, rest⟩, hread, herror⟩
      · rcases readTexts_eq_error herror with ⟨_, _, htruncated⟩ | ⟨_, htext⟩
        · cases htruncated
        · cases htext
      · -- as many texts were read as the shape counts
        have hlength : texts.length = e.shape.prod := (bytesOfText_of_readTexts hread).1
        have hfilled : e.shape.counted = .ok (TensorData.string texts).length :=
          h.count.counted.trans (congrArg Except.ok hlength.symm)
        have hmake : Tensor.make e.name e.shape (.string texts) = .ok ⟨e.shape, .string texts, hfilled⟩ :=
          Tensor.make_eq_ok_iff.mpr ⟨rfl, rfl⟩
        dsimp only at herror
        rw [hmake] at herror
        cases herror
    · rw [readEntry_of_unread h.count hwidth htexts] at herror
      cases herror

/-- **A shortage** of bytes is an error. -/
theorem short (hw : e.width? = some w) (hlt : left.length < e.shape.prod * w) :
    ∃ needed, readEntry e left = .error (.truncated e.name needed left.length) := by
  have htake : take e.name (e.shape.prod * w) left =
      .error (.truncated e.name (e.shape.prod * w) left.length) := if_pos hlt
  exact ⟨_, by rw [h.readEntry_eq hw, htake]; rfl⟩

/-- A shortage of texts is one too, or an earlier text is none. -/
theorem shortTexts (htexts : e.HoldsTexts) (hlt : left.length < e.shape.prod * 4) :
    (∃ needed available, readEntry e left = .error (.truncated e.name needed available)) ∨
      ∃ reason, readEntry e left = .error (.model (.weightText e.name reason)) := by
  have hread := h.readEntry_eq_texts htexts left
  cases hanswer : readTexts e.name e.shape.prod left with
  | ok answer =>
    -- texts that are read have left their lengths behind
    have hle := le_of_readTexts hanswer
    omega
  | error err =>
    rw [hanswer] at hread
    rcases readTexts_eq_error hanswer with ⟨needed, available, rfl⟩ | ⟨reason, rfl⟩
    · exact .inl ⟨needed, available, hread⟩
    · exact .inr ⟨reason, hread⟩

end Entry.Counted

/-- **The sizes are exact** where those of every entry that is reached fit, and only there. -/
theorem exactSizes_iff :
    ExactSizes bytes entries ↔ ∀ e left, Reached entries bytes e left → e.Counted := by
  constructor
  · intro hexact e left hreached
    by_contra hnot
    obtain ⟨breach, herror⟩ := exists_breach_of_not_counted hnot left
    exact hexact.lawful breach (decode_eq_error_iff.mpr ⟨e, left, hreached, herror⟩)
  · intro hcounted
    refine ⟨?_, ?_, ?_, ?_, ?_⟩
    · intro breach herror
      obtain ⟨e, left, hreached, hbreach⟩ := decode_eq_error_iff.mp herror
      exact (hcounted e left hreached).lawful breach hbreach
    · intro decoded hdecode e he
      obtain ⟨tensors, rest, hread, -⟩ := decode_eq_ok_iff.mp hdecode
      obtain ⟨p, -, left, after, hreached, -⟩ :=
        Outcome.exists_of_forall₂ (forall₂_of_readEntries hread) he
      exact hcounted e left hreached
    · intro e left w hreached hw hlt
      obtain ⟨needed, herror⟩ := (hcounted e left hreached).short hw hlt
      exact ⟨needed, herror, decode_eq_error_iff.mpr ⟨e, left, hreached, herror⟩⟩
    · intro e left hreached htexts hlt
      rcases (hcounted e left hreached).shortTexts htexts hlt with
        ⟨needed, available, herror⟩ | ⟨reason, herror⟩
      · exact .inl ⟨needed, available, herror, decode_eq_error_iff.mpr ⟨e, left, hreached, herror⟩⟩
      · exact .inr ⟨reason, herror, decode_eq_error_iff.mpr ⟨e, left, hreached, herror⟩⟩
    · exact fun decoded _ name t _ => (Shape.prod_of_counted t.filled).symm

theorem assorted_exactSizes : ExactSizes assortedBytes assorted := by
  have hall : ∀ e ∈ assorted, (∀ n ∈ e.shape, 0 < n) ∧ e.shape.prod ≤ 3 ∧
      ∀ w, e.width? = some w → w ≤ 4 := by decide
  refine exactSizes_iff.mpr fun e left hreached => ?_
  obtain ⟨hpos, hprod, hwidth⟩ := hall e hreached.mem
  refine ⟨?_, fun w hw => ?_, fun _ => ?_⟩
  · exact (Shape.counted_iff_of_pos hpos).mpr (Nat.lt_of_le_of_lt hprod (by decide))
  · exact Nat.lt_of_le_of_lt (Nat.mul_le_mul hprod (hwidth w hw)) (by decide)
  · exact Nat.le_trans (Nat.mul_le_mul_right _ hprod) (by decide)

/-- Texts that no memory has room for: two to the sixty-second. -/
def hoard : Entry := ⟨"s", .string, [4611686018427387904], none⟩

/-- More reals than a word counts: two to the sixty-fourth. -/
def square : Entry := ⟨"w", .float32, [4294967296, 4294967296], none⟩

/-- Without a byte, room is asked for the texts of one of these entries, and the elements of the other are
counted. -/
theorem sizes_not_exact : ¬ ExactSizes [] [hoard] ∧ ¬ ExactSizes [] [square] := by
  constructor
  · intro h
    have hdecode : decode [] [hoard] = .error (.breach .capacity) := by decide +kernel
    exact h.lawful _ hdecode
  · intro h
    have hdecode : decode [] [square] = .error (.breach .overflow) := by decide +kernel
    exact h.lawful _ hdecode

end TexelFlow.Weight
