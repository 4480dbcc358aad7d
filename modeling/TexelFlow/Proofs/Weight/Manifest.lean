import TexelFlow.Proofs.Operator.Infer
import TexelFlow.Proofs.Weight.Window
import TexelFlow.Store.Artifacts

/-!
# Decoding yields the manifest

The ranges of the entries lie one behind the other from the first byte on, in the order of the manifest
and across its groups. Each entry alone, with the bytes of its own range alone, decodes to the tensor
that is held under its name: of its type and its shape, and of nothing else the manifest or the bytes say. It
has as many elements as the product of its extents, because a shape whose elements are not counted is not
decoded.

## Main statements

* `exists_ranges` — the ranges of a manifest.
* `decode_yields` — one tensor for each entry, with the elements its shape asks for.

## §1 — types
## §2 — ranges
## §3 — the weights of a model
-/

namespace TexelFlow.Weight

/-! ## §1 — types -/

variable {name : String} {bytes rest : Bytes} {data : TensorData}

theorem dtype_of_readPlain {dtype : DataType} {count : Nat}
    (h : readPlain name dtype count bytes = .ok (data, rest)) : data.dtype = dtype := by
  by_cases hbool : dtype = .bool
  · subst hbool
    obtain ⟨⟨window, after⟩, -, h⟩ := Outcome.bind_eq_ok_iff.mp h
    obtain ⟨rfl, -⟩ := Prod.mk.inj (Except.ok.inj h)
    rfl
  · exact (bytesOfPlain_of_readPlain h fun hdtype => absurd hdtype hbool).1

/-- Only float32 and int32 are quantized, and what is read is of the type asked for. -/
theorem dtype_of_readQuantized {dtype : DataType} {q : Quantization} {count : Nat}
    (h : readQuantized name dtype q count bytes = .ok (data, rest)) : data.dtype = dtype := by
  rw [readQuantized_eq] at h
  split at h
  · cases h
  · rename_i hnumeric
    obtain ⟨_, -, h⟩ := Outcome.bind_eq_ok_iff.mp h
    obtain ⟨⟨window, after⟩, -, h⟩ := Outcome.bind_eq_ok_iff.mp h
    obtain ⟨_, hdata, h⟩ := Outcome.bind_eq_ok_iff.mp h
    obtain ⟨rfl, -⟩ := Prod.mk.inj (Except.ok.inj h)
    unfold quantizedOf at hdata
    split at hdata
    · split at hdata
      · cases hdata
      · rename_i hfloat
        obtain rfl := Except.ok.inj hdata
        exact (not_not.mp hfloat).symm
    · dsimp only at hdata
      split at hdata
      · rename_i hint
        obtain rfl := Except.ok.inj hdata
        exact hint.symm
      · rename_i hint
        obtain rfl := Except.ok.inj hdata
        exact (not_not.mp fun hfloat => hnumeric ⟨hfloat, hint⟩).symm
    · cases hdata

theorem readEntry_descriptor {e : Entry} {t : Tensor} (h : readEntry e bytes = .ok (t, rest)) :
    t.dtype = e.dtype ∧ t.shape = e.shape := by
  rw [readEntry_eq] at h
  obtain ⟨count, -, h⟩ := Outcome.bind_eq_ok_iff.mp h
  obtain ⟨⟨data, after⟩, hread, h⟩ := Outcome.bind_eq_ok_iff.mp h
  obtain ⟨made, hmake, h⟩ := Outcome.bind_eq_ok_iff.mp h
  obtain ⟨rfl, rfl⟩ := Prod.mk.inj (Except.ok.inj h)
  obtain ⟨hshape, rfl⟩ := Tensor.make_eq_ok_iff.mp hmake
  refine ⟨?_, hshape⟩
  show made.data.dtype = e.dtype
  unfold readData at hread
  cases hq : e.quantization with
  | some q =>
    rw [hq] at hread
    exact dtype_of_readQuantized hread
  | none =>
    rw [hq] at hread
    exact dtype_of_readPlain hread

/-! ## §2 — ranges -/

/-- A tensor is an entry's own: of its type and shape, and what the entry alone decodes to from the
bytes of its own range alone, all of which it takes up. -/
structure Own (e : Entry) (range : Bytes) (t : Tensor) : Prop where
  /-- The declared type. -/
  dtype : t.dtype = e.dtype
  /-- The declared shape. -/
  shape : t.shape = e.shape
  /-- The range is what the entry takes up. -/
  size : range.length = storedSize e t.data
  /-- No other byte and no other entry is looked at. -/
  alone : decode range [e] = .ok (Named.ofList [(e.name, t)])

theorem own_of_takes {e : Entry} {range : Bytes} {t : Tensor} (h : Takes (readEntry e) range t) :
    Own e range t := by
  have hread : readEntry e range = .ok (t, []) := by
    have := h.whole []
    rwa [List.append_nil] at this
  obtain ⟨hdtype, hshape⟩ := readEntry_descriptor hread
  refine ⟨hdtype, hshape, length_of_readEntry hread, decode_eq_ok_iff.mpr ⟨_, [], ?_, rfl⟩⟩
  rw [readEntries, hread]
  rfl

/-- **The ranges of a manifest** lie one behind the other, and each entry's tensor is its own. -/
theorem exists_ranges {entries : List Entry} {tensors : List (String × Tensor)}
    (h : readEntries entries bytes = .ok (tensors, rest)) :
    tensors.map Prod.fst = entries.map Entry.name ∧
    ∃ ranges : List Bytes, bytes = ranges.flatten ++ rest ∧
      List.Forall₂ (fun e range => ∃ t, (e.name, t) ∈ tensors ∧ Own e range t) entries ranges := by
  induction entries generalizing bytes tensors with
  | nil =>
    obtain ⟨rfl, rfl⟩ := Prod.mk.inj (Except.ok.inj h)
    exact ⟨rfl, [], rfl, .nil⟩
  | cons e entries ih =>
    rw [readEntries] at h
    obtain ⟨⟨t, after⟩, hread, h⟩ := Outcome.bind_eq_ok_iff.mp h
    obtain ⟨⟨others, last⟩, hothers, h⟩ := Outcome.bind_eq_ok_iff.mp h
    obtain ⟨rfl, rfl⟩ := Prod.mk.inj (Except.ok.inj h)
    obtain ⟨range, rfl, htakes⟩ := readEntry_windowed e _ _ _ hread
    obtain ⟨hnames, ranges, hafter, hranges⟩ := ih hothers
    refine ⟨by rw [List.map_cons, List.map_cons, hnames], range :: ranges, ?_, .cons ?_ ?_⟩
    · rw [List.flatten_cons, List.append_assoc, ← hafter]
    · exact ⟨t, List.mem_cons_self, own_of_takes htakes⟩
    · refine hranges.imp ?_
      rintro e' range' ⟨t', hmem, hown⟩
      exact ⟨t', List.mem_cons_of_mem _ hmem, hown⟩

/-! ## §3 — the weights of a model -/

/-- The weights are those of the manifest: there is one for each entry, held under its name, which is
the entry's own with a range of bytes that starts where that of the entry before it ends. -/
structure Yields (entries : List Entry) (bytes : Bytes) (weights : Tensors) : Prop where
  /-- One tensor for each entry, and no other. -/
  names : weights.names.Perm (entries.map Entry.name)
  /-- The ranges, one behind the other from the first byte on. -/
  ranges : ∃ ranges : List Bytes, ranges.flatten <+: bytes ∧
    List.Forall₂ (fun e range => ∃ t, weights.find? e.name = some t ∧ Own e range t) entries ranges

/-- Every weight has as many elements as the product of the extents its entry declares. -/
def Filled (entries : List Entry) (weights : Tensors) : Prop :=
  ∀ e ∈ entries, ∀ t, weights.find? e.name = some t → t.data.length = e.shape.prod

theorem yields_of_readEntries {entries : List Entry} {tensors : List (String × Tensor)}
    (hnames : (entries.map Entry.name).Nodup)
    (h : readEntries entries bytes = .ok (tensors, rest)) :
    Yields entries bytes (Named.ofList tensors) := by
  obtain ⟨hsame, ranges, hbytes, hranges⟩ := exists_ranges h
  rw [← hsame] at hnames
  refine ⟨?_, ranges, ⟨rest, hbytes.symm⟩, hranges.imp ?_⟩
  · rw [← hsame]
    exact Named.names_ofList_perm hnames
  · rintro e range ⟨t, hmem, hown⟩
    exact ⟨t, (find?_ofList_iff_mem hnames).mpr hmem, hown⟩

/-- A weight fills the shape that its entry declares, as it fills its own. -/
theorem Yields.filled {entries : List Entry} {weights : Tensors} (h : Yields entries bytes weights) :
    Filled entries weights := by
  intro e he t hfind
  obtain ⟨ranges, -, hranges⟩ := h.ranges
  obtain ⟨range, -, t', hfind', hown⟩ := Outcome.exists_of_forall₂ hranges he
  obtain rfl : t' = t := Option.some.inj (hfind'.symm.trans hfind)
  rw [← hown.shape, Shape.prod_of_counted t'.filled]

/-- **Decoding yields the manifest.** Where the names are distinct, the decoded weights are those of the
manifest, each from its own range, and each has the product of its declared extents as elements. -/
theorem decode_yields {a : Artifacts} {model : LoadedModel}
    (hnames : (a.description.entries.map Entry.name).Nodup) (h : a.decode = .ok model) :
    model.description = a.description ∧ Yields a.description.entries a.bytes model.weights ∧
    Filled a.description.entries model.weights := by
  obtain ⟨weights, hweights, h⟩ := Outcome.bind_eq_ok_iff.mp h
  obtain rfl := Except.ok.inj h
  obtain ⟨tensors, rest, hread, rfl⟩ := decode_eq_ok_iff.mp hweights
  have hyields := yields_of_readEntries hnames hread
  exact ⟨rfl, hyields, hyields.filled⟩

/-- Artifacts of four weights in two groups. -/
def assortedArtifacts : Artifacts :=
  ⟨⟨none, .graph [], none, [⟨["a.bin"], assorted.take 3⟩, ⟨["b.bin"], assorted.drop 3⟩]⟩,
    assortedBytes⟩

theorem assorted_yields :
    (assortedArtifacts.description.entries.map Entry.name).Nodup ∧
    assortedArtifacts.decode = .ok ⟨assortedArtifacts.description, Named.ofList assortedTensors⟩ ∧
    Yields assorted assortedBytes (Named.ofList assortedTensors) ∧
    Filled assorted (Named.ofList assortedTensors) := by
  have hentries : assortedArtifacts.description.entries = assorted := rfl
  have hnames : (assortedArtifacts.description.entries.map Entry.name).Nodup := by decide
  have hread : readEntries assorted assortedBytes = .ok (assortedTensors, [7, 7]) := by
    decide +kernel
  have h : assortedArtifacts.decode =
      .ok ⟨assortedArtifacts.description, Named.ofList assortedTensors⟩ := by
    unfold Artifacts.decode
    rw [hentries, show decode assortedArtifacts.bytes assorted = .ok (Named.ofList assortedTensors)
      from decode_eq_ok_iff.mpr ⟨_, _, hread, rfl⟩]
    rfl
  obtain ⟨-, hyields, hfilled⟩ := decode_yields hnames h
  exact ⟨hnames, h, hyields, hfilled⟩

end TexelFlow.Weight
