import TexelFlow.Proofs.Weight.Lossless

/-!
# Reading takes a window off the front

Every reader of the weight bytes takes a window off the front and hands the rest on. Whatever follows
the window, it reads the same; and if the bytes end inside the window, it reports a shortage and
nothing else: all that comes before the cut is read as before, so no other complaint can come first.
Both properties pass from two readers to the one that runs them in turn, which is how they reach a
whole manifest, texts with lengths of their own among its entries.

## Main statements

* `Windowed.bind` — two readers in turn.
* `readEntries_windowed` — a manifest.
* `decode_decidedBy` — decoding is decided by as many bytes as the entries take up.

## §1 — windows
## §2 — the elements of a tensor
## §3 — bytes taken up
## §4 — a manifest
-/

namespace TexelFlow.Weight

/-! ## §1 — windows -/

section Windows

variable {α β : Type}

/-- An answer that reports a shortage of bytes. -/
def RunsShort (answer : Outcome α) : Prop :=
  ∃ name needed available, available < needed ∧ answer = .error (.truncated name needed available)

/-- A reader takes a window off the front: it does so whatever follows, and it runs short of bytes
where the window is cut. -/
structure Takes (read : Bytes → Outcome (α × Bytes)) (window : Bytes) (a : α) : Prop where
  /-- The bytes after the window are handed on. -/
  whole : ∀ rest, read (window ++ rest) = .ok (a, rest)
  /-- A cut anywhere inside the window is a shortage. -/
  cut : ∀ front missing, window = front ++ missing → missing ≠ [] → RunsShort (read front)

/-- Whatever a reader reads, it takes as a window. -/
def Windowed (read : Bytes → Outcome (α × Bytes)) : Prop :=
  ∀ bytes a rest, read bytes = .ok (a, rest) → ∃ window, bytes = window ++ rest ∧ Takes read window a

theorem RunsShort.bind {answer : Outcome α} (h : RunsShort answer) (f : α → Outcome β) :
    RunsShort (answer >>= f) := by
  obtain ⟨name, needed, available, hlt, rfl⟩ := h
  exact ⟨name, needed, available, hlt, rfl⟩

variable {read : Bytes → Outcome (α × Bytes)} {next : α → Bytes → Outcome (β × Bytes)}

/-- **Two readers in turn** take two windows, one behind the other. -/
theorem Takes.bind {first second : Bytes} {a : α} {b : β} (hread : Takes read first a)
    (hnext : Takes (next a) second b) :
    Takes (fun bytes => read bytes >>= fun p => next p.1 p.2) (first ++ second) b where
  whole rest := by
    show read (first ++ second ++ rest) >>= _ = _
    rw [List.append_assoc, hread.whole]
    exact hnext.whole rest
  cut front missing hsplit hmissing := by
    show RunsShort (read front >>= _)
    -- the cut is behind the first window or inside it
    rcases List.append_eq_append_iff.mp hsplit with ⟨tail, rfl, hsecond⟩ | ⟨gone, hfirst, -⟩
    · rw [hread.whole]
      exact hnext.cut tail missing hsecond hmissing
    · by_cases hgone : gone = []
      · have hfront : front = first := by rw [hfirst, hgone, List.append_nil]
        have hmissing' : second = [] ++ missing := by
          rw [hfront] at hsplit
          rw [List.append_cancel_left hsplit, List.nil_append]
        rw [hfront, ← List.append_nil first, hread.whole]
        exact hnext.cut [] missing hmissing' hmissing
      · exact (hread.cut front gone hfirst hgone).bind _

theorem Windowed.bind (hread : Windowed read) (hnext : ∀ a, Windowed (next a)) :
    Windowed fun bytes => read bytes >>= fun p => next p.1 p.2 := by
  intro bytes b rest h
  obtain ⟨⟨a, between⟩, ha, hb⟩ := Outcome.bind_eq_ok_iff.mp h
  obtain ⟨first, rfl, hfirst⟩ := hread _ _ _ ha
  obtain ⟨second, rfl, hsecond⟩ := hnext a _ _ _ hb
  exact ⟨first ++ second, (List.append_assoc ..).symm, hfirst.bind hsecond⟩

/-- An answer that needs no bytes takes none. -/
theorem windowed_of_answer (answer : Outcome α) :
    Windowed fun bytes => answer >>= fun a => .ok (a, bytes) := by
  intro bytes a rest h
  obtain ⟨a', ha, h⟩ := Outcome.bind_eq_ok_iff.mp h
  obtain ⟨rfl, rfl⟩ := Prod.mk.inj (Except.ok.inj h)
  refine ⟨[], rfl, fun rest => by rw [ha]; rfl, fun front missing hnil hmissing => ?_⟩
  exact absurd (List.append_eq_nil_iff.mp hnil.symm).2 hmissing

theorem windowed_of_ok (a : α) : Windowed fun bytes => .ok (a, bytes) := windowed_of_answer (.ok a)

/-- What is read may be put into another form. -/
theorem Windowed.map (hread : Windowed read) (f : α → β) :
    Windowed fun bytes => read bytes >>= fun p => .ok (f p.1, p.2) :=
  hread.bind fun a => windowed_of_ok (f a)

theorem windowed_of_error (e : Error) : Windowed fun _ => (.error e : Outcome (α × Bytes)) :=
  windowed_of_answer (.error e)

/-- What is known before a byte is read may decide how they are read. -/
theorem windowed_after {γ : Type} (known : Outcome γ) {read : γ → Bytes → Outcome (α × Bytes)}
    (h : ∀ c, Windowed (read c)) : Windowed fun bytes => known >>= fun c => read c bytes := by
  cases known with
  | error e => exact windowed_of_error e
  | ok c => exact h c

theorem take_windowed (name : String) (n : Nat) : Windowed (take name n) := by
  intro bytes window rest h
  obtain ⟨rfl, hlength⟩ := take_eq_ok_iff.mp h
  refine ⟨window, rfl, fun rest => take_eq_ok_iff.mpr ⟨rfl, hlength⟩, ?_⟩
  rintro front missing rfl hmissing
  have hpos : 0 < missing.length := List.length_pos_iff.mpr hmissing
  rw [List.length_append] at hlength
  have hshort : front.length < n := by omega
  exact ⟨name, n, front.length, hshort, if_pos hshort⟩

end Windows

/-! ## §2 — the elements of a tensor -/

variable {name : String}

/-- What is read behind the body of a text: the other texts. -/
def textsBehind (name : String) (count : Nat) (body bytes : Bytes) : Outcome (List String × Bytes) :=
  match Utf8.decode body with
  | .error fault => .error (.model (.weightText name fault.message))
  | .ok text => readTexts name count bytes >>= fun p => .ok (text :: p.1, p.2)

theorem readTexts_windowed (name : String) (count : Nat) : Windowed (readTexts name count) := by
  induction count with
  | zero => exact windowed_of_ok []
  | succ count ih =>
    have hbody : ∀ body : Bytes, Windowed (textsBehind name count body) := by
      intro body
      unfold textsBehind
      cases Utf8.decode body with
      | error fault => exact windowed_of_error _
      | ok text => exact ih.map fun texts => text :: texts
    have hheader : ∀ header : Bytes, Windowed fun bytes =>
        take name ((words32 header).headD 0).toNat bytes >>= fun p => textsBehind name count p.1 p.2 :=
      fun header => (take_windowed name _).bind hbody
    exact (take_windowed name 4).bind hheader

theorem readPlain_windowed (name : String) (dtype : DataType) (count : Nat) :
    Windowed (readPlain name dtype count) := by
  cases dtype with
  | float32 =>
    let form (window : Bytes) : TensorData := .float32 ((words32 window).map Binary32.mk)
    exact windowed_after (Size.mul count 4) fun length => (take_windowed name length).map form
  | int32 =>
    let form (window : Bytes) : TensorData := .int32 ((words32 window).map UInt32.toInt32)
    exact windowed_after (Size.mul count 4) fun length => (take_windowed name length).map form
  | bool =>
    let form (window : Bytes) : TensorData := .bool (window.map (· != 0))
    exact (take_windowed name count).map form
  | string =>
    exact windowed_after (Size.reserve count textRoom) fun _ =>
      (readTexts_windowed name count).map TensorData.string

/-- What quantized elements are read as from their window. -/
def quantizedOf (name : String) (dtype : DataType) (q : Quantization) (window : Bytes) :
    Outcome TensorData :=
  match q.storage, q.scale, q.min with
  | .float16, _, _ =>
    if dtype ≠ .float32 then .error (.quantization name (.halfPrecision dtype))
    else .ok (.float32 ((words16 window).map Binary16.toBinary32))
  | storage, some scale, some min =>
    let values := (rawIntegers storage window).map (dequantize scale min)
    if dtype = .int32 then .ok (.int32 (values.map fun v => v.round.toInt32))
    else .ok (.float32 values)
  | storage, _, _ => .error (.quantization name (.parameters storage.title))

/-- Quantized elements take one window; all else is said about it. -/
theorem readQuantized_eq (name : String) (dtype : DataType) (q : Quantization) (count : Nat)
    (bytes : Bytes) :
    readQuantized name dtype q count bytes =
      if dtype ≠ .float32 ∧ dtype ≠ .int32 then .error (.quantization name (.dtype dtype))
      else Size.mul count q.storage.byteSize >>= fun length => take name length bytes >>= fun p =>
        quantizedOf name dtype q p.1 >>= fun data => .ok (data, p.2) := by
  unfold readQuantized
  dsimp only
  split
  · rfl
  · refine congrArg _ (funext fun length => ?_)
    cases take name length bytes with
    | error e => rfl
    | ok p =>
      obtain ⟨window, rest⟩ := p
      obtain ⟨storage, scale, min⟩ := q
      dsimp only [bind, Except.bind, quantizedOf]
      cases storage <;> cases scale <;> cases min <;> dsimp only <;> split <;> rfl

theorem readQuantized_windowed (name : String) (dtype : DataType) (q : Quantization) (count : Nat) :
    Windowed (readQuantized name dtype q count) := by
  have heq := funext fun bytes => readQuantized_eq name dtype q count bytes
  rw [heq]
  split
  · exact windowed_of_error _
  · exact windowed_after _ fun length => (take_windowed name length).bind fun window => windowed_of_answer _

/-- So many elements of an entry, before they are put under its shape. -/
def readData (e : Entry) (count : Nat) (bytes : Bytes) : Outcome (TensorData × Bytes) :=
  match e.quantization with
  | some q => readQuantized e.name e.dtype q count bytes
  | none => readPlain e.name e.dtype count bytes

theorem readEntry_eq (e : Entry) (bytes : Bytes) :
    readEntry e bytes = e.shape.counted >>= fun count => readData e count bytes >>= fun p =>
      Tensor.make e.name e.shape p.1 >>= fun t => .ok (t, p.2) := by
  unfold readEntry readData
  cases e.quantization <;> rfl

theorem readData_windowed (e : Entry) (count : Nat) : Windowed (readData e count) := by
  unfold readData
  cases e.quantization with
  | some q => exact readQuantized_windowed e.name e.dtype q count
  | none => exact readPlain_windowed e.name e.dtype count

theorem readEntry_windowed (e : Entry) : Windowed (readEntry e) := by
  have heq := funext (readEntry_eq e)
  have hmake : ∀ data : TensorData, Windowed fun bytes =>
      Tensor.make e.name e.shape data >>= fun t => .ok (t, bytes) :=
    fun data => windowed_of_answer _
  rw [heq]
  exact windowed_after e.shape.counted fun count => (readData_windowed e count).bind hmake

/-! ## §3 — bytes taken up -/

/-- Bytes that the elements of an entry take up: what their storage takes for each of them, or what
they take when they are written by their own type. -/
def storedSize (e : Entry) (data : TensorData) : Nat :=
  match e.quantization with
  | some q => data.length * q.storage.byteSize
  | none => (bytesOfPlain data).length

theorem length_of_readPlain {dtype : DataType} {count : Nat} {data : TensorData} {bytes rest : Bytes}
    (h : readPlain name dtype count bytes = .ok (data, rest)) :
    bytes.length = (bytesOfPlain data).length + rest.length := by
  by_cases hbool : dtype = .bool
  · subst hbool
    obtain ⟨⟨window, after⟩, hwindow, h⟩ := Outcome.bind_eq_ok_iff.mp h
    obtain ⟨rfl, rfl⟩ := Prod.mk.inj (Except.ok.inj h)
    obtain ⟨rfl, -⟩ := take_eq_ok_iff.mp hwindow
    simp only [bytesOfPlain, List.length_append, List.length_map]
  · obtain ⟨-, hbytes⟩ := bytesOfPlain_of_readPlain h fun hdtype => absurd hdtype hbool
    rw [hbytes, List.length_append]

theorem length_words16 (bytes : Bytes) : (words16 bytes).length = bytes.length / 2 := by
  induction bytes using words16.induct with
  | case1 a b rest ih =>
    rw [words16, List.length_cons, ih]
    simp only [List.length_cons]
    omega
  | case2 bytes hpair =>
    match bytes, hpair with
    | [], _ | [_], _ => simp [words16]
    | a :: b :: rest, hpair => exact absurd rfl (hpair a b rest)

/-- Every stored element becomes one element. -/
theorem length_of_quantizedOf {dtype : DataType} {q : Quantization} {window : Bytes}
    {data : TensorData} (h : quantizedOf name dtype q window = .ok data) :
    data.length = window.length / q.storage.byteSize := by
  obtain ⟨storage, scale, min⟩ := q
  unfold quantizedOf at h
  dsimp only at h ⊢
  split at h
  · split at h
    · cases h
    · obtain rfl := Except.ok.inj h
      show ((words16 window).map Binary16.toBinary32).length = window.length / 2
      rw [List.length_map, length_words16]
  · have hraw : ∀ scale min, ((rawIntegers storage window).map (dequantize scale min)).length =
        window.length / storage.byteSize := by
      intro scale min
      unfold rawIntegers
      cases storage with
      | uint8 => simp only [List.length_map, Storage.byteSize, Nat.div_one]
      | uint16 => simp only [List.length_map, length_words16, Storage.byteSize]
      | float16 => simp only [List.length_map, length_words16, Storage.byteSize]
    split at h
    · obtain rfl := Except.ok.inj h
      show (List.map _ _).length = _
      rw [List.length_map]
      exact hraw _ _
    · obtain rfl := Except.ok.inj h
      exact hraw _ _
  · cases h

theorem length_of_readQuantized {dtype : DataType} {q : Quantization} {count : Nat}
    {data : TensorData} {bytes rest : Bytes}
    (h : readQuantized name dtype q count bytes = .ok (data, rest)) :
    bytes.length = data.length * q.storage.byteSize + rest.length := by
  rw [readQuantized_eq] at h
  split at h
  · cases h
  · obtain ⟨length, hlength, h⟩ := Outcome.bind_eq_ok_iff.mp h
    obtain ⟨-, rfl⟩ := Size.mul_eq_ok_iff.mp hlength
    obtain ⟨⟨window, after⟩, hwindow, h⟩ := Outcome.bind_eq_ok_iff.mp h
    obtain ⟨_, hdata, h⟩ := Outcome.bind_eq_ok_iff.mp h
    obtain ⟨rfl, rfl⟩ := Prod.mk.inj (Except.ok.inj h)
    obtain ⟨rfl, htaken⟩ := take_eq_ok_iff.mp hwindow
    have hwhole : window.length / q.storage.byteSize * q.storage.byteSize = window.length := by
      rw [htaken]
      cases q.storage <;> simp only [Storage.byteSize] <;> omega
    rw [length_of_quantizedOf hdata, hwhole, List.length_append]

theorem length_of_readEntry {e : Entry} {t : Tensor} {bytes rest : Bytes}
    (h : readEntry e bytes = .ok (t, rest)) :
    bytes.length = storedSize e t.data + rest.length := by
  rw [readEntry_eq] at h
  obtain ⟨count, -, h⟩ := Outcome.bind_eq_ok_iff.mp h
  obtain ⟨⟨data, after⟩, hread, h⟩ := Outcome.bind_eq_ok_iff.mp h
  obtain ⟨made, hmake, h⟩ := Outcome.bind_eq_ok_iff.mp h
  obtain ⟨rfl, rfl⟩ := Prod.mk.inj (Except.ok.inj h)
  obtain ⟨-, rfl⟩ := Tensor.make_eq_ok_iff.mp hmake
  unfold readData at hread
  unfold storedSize
  cases hq : e.quantization with
  | some q =>
    rw [hq] at hread
    exact length_of_readQuantized hread
  | none =>
    rw [hq] at hread
    exact length_of_readPlain hread

/-! ## §4 — a manifest -/

/-- Bytes that the entries of a manifest take up with these tensors. -/
def storedSizes (entries : List Entry) (tensors : List (String × Tensor)) : Nat :=
  (entries.zipWith (fun e t => storedSize e t.2.data) tensors).sum

theorem readEntries_windowed (entries : List Entry) : Windowed (readEntries entries) := by
  induction entries with
  | nil => exact windowed_of_ok []
  | cons e entries ih =>
    have hrest : ∀ t : Tensor, Windowed fun bytes =>
        readEntries entries bytes >>= fun p => .ok ((e.name, t) :: p.1, p.2) :=
      fun t => ih.map fun tensors => (e.name, t) :: tensors
    exact (readEntry_windowed e).bind hrest

theorem length_of_readEntries {entries : List Entry} {tensors : List (String × Tensor)}
    {bytes rest : Bytes} (h : readEntries entries bytes = .ok (tensors, rest)) :
    bytes.length = storedSizes entries tensors + rest.length := by
  induction entries generalizing bytes tensors with
  | nil =>
    obtain ⟨rfl, rfl⟩ := Prod.mk.inj (Except.ok.inj h)
    exact (Nat.zero_add _).symm
  | cons e entries ih =>
    rw [readEntries] at h
    obtain ⟨⟨t, after⟩, hread, h⟩ := Outcome.bind_eq_ok_iff.mp h
    obtain ⟨⟨others, last⟩, hothers, h⟩ := Outcome.bind_eq_ok_iff.mp h
    obtain ⟨rfl, rfl⟩ := Prod.mk.inj (Except.ok.inj h)
    have hone := length_of_readEntry hread
    have hrest := ih hothers
    unfold storedSizes at hrest ⊢
    rw [List.zipWith_cons_cons, List.sum_cons]
    dsimp only at hone hrest ⊢
    omega

theorem decode_eq_ok_iff {bytes : Bytes} {entries : List Entry} {decoded : Tensors} :
    decode bytes entries = .ok decoded ↔
      ∃ tensors rest, readEntries entries bytes = .ok (tensors, rest) ∧
        decoded = Named.ofList tensors := by
  unfold decode
  rw [Outcome.bind_eq_ok_iff]
  constructor
  · rintro ⟨⟨tensors, rest⟩, hread, h⟩
    exact ⟨tensors, rest, hread, (Except.ok.inj h).symm⟩
  · rintro ⟨tensors, rest, hread, rfl⟩
    exact ⟨(tensors, rest), hread, rfl⟩

/-- The first `n` bytes decide what these entries decode to: they are enough, and fewer are not. -/
structure DecidedBy (bytes : Bytes) (entries : List Entry) (decoded : Tensors) (n : Nat) : Prop where
  /-- There are so many bytes. -/
  within : n ≤ bytes.length
  /-- Whatever follows them, the same is decoded. -/
  enough : ∀ other, bytes.take n <+: other → decode other entries = .ok decoded
  /-- Wherever the bytes end before, they run short. -/
  needed : ∀ front, front <+: bytes → front.length < n → RunsShort (decode front entries)

/-- **Decoding is decided by a definite front** of the bytes: as many as the entries take up, one after
the other, with what they decode to. -/
theorem decode_decidedBy {bytes : Bytes} {entries : List Entry} {decoded : Tensors}
    (h : decode bytes entries = .ok decoded) :
    ∃ tensors, readEntries entries bytes = .ok (tensors, bytes.drop (storedSizes entries tensors)) ∧
      decoded = Named.ofList tensors ∧
      DecidedBy bytes entries decoded (storedSizes entries tensors) := by
  obtain ⟨tensors, rest, hread, rfl⟩ := decode_eq_ok_iff.mp h
  obtain ⟨window, rfl, htakes⟩ := readEntries_windowed entries _ _ _ hread
  have hsize : storedSizes entries tensors = window.length := by
    have hlength := length_of_readEntries hread
    rw [List.length_append] at hlength
    omega
  refine ⟨tensors, by rw [hsize, List.drop_left]; exact hread, rfl, ?_⟩
  rw [hsize]
  refine ⟨?_, ?_, ?_⟩
  · rw [List.length_append]
    omega
  · rw [List.take_left]
    rintro _ ⟨rest, rfl⟩
    exact decode_eq_ok_iff.mpr ⟨tensors, rest, htakes.whole rest, rfl⟩
  · intro front hfront hlt
    -- a front that is shorter than the window is a front of the window
    have hprefix : front <+: window :=
      List.prefix_of_prefix_length_le hfront (List.prefix_append window rest) (by omega)
    obtain ⟨missing, rfl⟩ := hprefix
    rw [List.length_append] at hlt
    have hmissing : missing ≠ [] := List.ne_nil_of_length_pos (by omega)
    exact (htakes.cut front missing rfl hmissing).bind _

/-- Four entries: plain, on an affine scale, in half precision, and texts. -/
def assorted : List Entry :=
  [⟨"w", .float32, [1], none⟩,
    ⟨"q", .int32, [3], some ⟨.uint8, some ⟨0x3f000000⟩, some ⟨0xbf800000⟩⟩⟩,
    ⟨"h", .float32, [2], some ⟨.float16, none, none⟩⟩,
    ⟨"s", .string, [2], none⟩]

/-- What they decode to from the bytes below. -/
def assortedTensors : List (String × Tensor) :=
  [("w", ⟨[1], .float32 [⟨0x3fc00000⟩], by decide⟩),
    ("q", ⟨[3], .int32 [-1, 0, 127], by decide⟩),
    ("h", ⟨[2], .float32 [⟨0x3f800000⟩, ⟨0xc0000000⟩], by decide⟩),
    ("s", ⟨[2], .string ["é", ""], by decide⟩)]

/-- Their bytes, and two more. -/
def assortedBytes : Bytes :=
  [0, 0, 0xc0, 0x3f] ++ [0, 2, 255] ++ [0, 0x3c, 0, 0xc0] ++
    [2, 0, 0, 0, 0xc3, 0xa9, 0, 0, 0, 0] ++ [7, 7]

theorem assorted_decidedBy :
    decode assortedBytes assorted = .ok (Named.ofList assortedTensors) ∧
      DecidedBy assortedBytes assorted (Named.ofList assortedTensors) 21 := by
  have hread : readEntries assorted assortedBytes = .ok (assortedTensors, [7, 7]) := by
    decide +kernel
  have h : decode assortedBytes assorted = .ok (Named.ofList assortedTensors) :=
    decode_eq_ok_iff.mpr ⟨_, _, hread, rfl⟩
  obtain ⟨tensors, hread', -, hdecided⟩ := decode_decidedBy h
  have htensors : tensors = assortedTensors := by
    rw [hread] at hread'
    exact (Prod.mk.inj (Except.ok.inj hread')).1.symm
  have hsize : storedSizes assorted assortedTensors = 21 := by decide +kernel
  rw [htensors, hsize] at hdecided
  exact ⟨h, hdecided⟩

end TexelFlow.Weight
