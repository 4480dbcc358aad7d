import Mathlib
import TexelFlow.Proofs.Store.Files
import TexelFlow.Proofs.Weight.Lossless
import TexelFlow.Store.Registry

/-!
# What was saved is loaded again

Saving writes the description and then all weights in one shard beside it, and loading reads the description
and the shards it names. On faithful files this gives the model back: the same topology, signature, entries
and weights. It takes that the shard is another file than the description, which is so unless the file of
the description has the name of the shard; then the weights are written over it.

## Main statements

* `Artifacts.load_of_read` — what loading gives where description and shard are there.
* `Handler.load_of_save` — what was saved is loaded again.

## §1 — computations on files
## §2 — loading
## §3 — saving
-/

namespace TexelFlow

open TexelFlow.Path (IsName fileName)

/-! ## §1 — computations on files -/

section Succeeding

variable {σ α β : Type} {s s' : σ} {a : α} {b : β}

/-- What a computation on files comes to, and the files it leaves. -/
def outcomeOn (x : ExceptT Error (StateM σ) α) (s : σ) : Outcome α × σ := x.run s

/-- A computation on files succeeds with a result and leaves some files. -/
def Succeeds (x : ExceptT Error (StateM σ) α) (s : σ) (a : α) (s' : σ) : Prop :=
  outcomeOn x s = (.ok a, s')

/-- Two computations succeed exactly when the first does and the second does on what it leaves. -/
theorem succeeds_bind_iff {x : ExceptT Error (StateM σ) α} {f : α → ExceptT Error (StateM σ) β} :
    Succeeds (x >>= f) s b s' ↔ ∃ a r, Succeeds x s a r ∧ Succeeds (f a) r b s' := by
  have hrun : outcomeOn (x >>= f) s =
      (ExceptT.bindCont f (outcomeOn x s).1 : StateM σ _) (outcomeOn x s).2 := rfl
  unfold Succeeds
  rw [hrun]
  rcases outcomeOn x s with ⟨e | a, r⟩
  · constructor
    · intro h
      cases h
    · rintro ⟨a, r', h, -⟩
      cases h
  · constructor
    · intro h
      exact ⟨a, r, rfl, h⟩
    · rintro ⟨a', r', h, h'⟩
      cases h
      exact h'

theorem succeeds_pure (a : α) (s : σ) : Succeeds (pure a : ExceptT Error (StateM σ) α) s a s := rfl

/-- A step without files succeeds where it has a result. -/
theorem succeeds_lift_iff {x : Outcome α} :
    Succeeds (liftM x : ExceptT Error (StateM σ) α) s a s' ↔ x = .ok a ∧ s = s' := by
  cases x with
  | error e => exact iff_of_false (fun h => by cases h) fun h => by cases h.1
  | ok a' => exact ⟨fun h => by cases h; exact ⟨rfl, rfl⟩, fun h => by cases h.1; cases h.2; rfl⟩

variable [FileAccess (StateM σ)] {path : String} {bytes : List UInt8}

theorem succeeds_fetch_iff : Succeeds (Artifacts.fetch path) s bytes s' ↔
    (FileAccess.read path : StateM σ _) s = (.ok bytes, s') := by
  have hrun : outcomeOn (Artifacts.fetch path) s =
      (((FileAccess.read path : StateM σ _) s).1.mapError (.file path),
        ((FileAccess.read path : StateM σ _) s).2) := rfl
  unfold Succeeds
  rw [hrun]
  rcases (FileAccess.read path : StateM σ _) s with ⟨e | y, r⟩
  · exact iff_of_false (fun h => by cases h) fun h => by cases h
  · exact ⟨fun h => by cases h; rfl, fun h => by cases h; rfl⟩

theorem succeeds_store_iff {u : Unit} : Succeeds (Artifacts.store path bytes) s u s' ↔
    (FileAccess.write path bytes : StateM σ _) s = (.ok (), s') := by
  have hrun : outcomeOn (Artifacts.store path bytes) s =
      (((FileAccess.write path bytes : StateM σ _) s).1.mapError (.file path),
        ((FileAccess.write path bytes : StateM σ _) s).2) := rfl
  unfold Succeeds
  rw [hrun]
  rcases (FileAccess.write path bytes : StateM σ _) s with ⟨e | y, r⟩
  · exact iff_of_false (fun h => by cases h) fun h => by cases h
  · exact ⟨fun h => by cases h; rfl, fun h => by cases h; rfl⟩

end Succeeding

namespace Artifacts

/-! ## §2 — loading -/

section Loading

variable {d : Model.Description}

theorem entries_inOneShard : (inOneShard d).entries = d.entries := by
  show (if d.entries = [] then [] else [⟨[shardName], d.entries⟩] : List Weight.Group).flatMap
    (·.weights) = _
  split
  · rename_i h
    exact h.symm
  · exact List.append_nil d.entries

theorem validate_inOneShard : (inOneShard d).validate = d.validate := by
  unfold Model.Description.validate
  rw [entries_inOneShard]
  rfl

theorem shards_inOneShard : shards (inOneShard d) = if d.entries = [] then [] else [shardName] := by
  unfold shards inOneShard
  dsimp only
  split
  · rfl
  · rfl

/-- The document of a description that is read back and does not contradict itself. -/
theorem parse_inOneShard (hvalid : d.validate = .ok ())
    (hreads : Json.read Model.Description.reader (inOneShard d).toJson.pretty = .ok (inOneShard d)) :
    Model.Description.parse (inOneShard d).toJson.pretty = .ok (inOneShard d) := by
  unfold Model.Description.parse
  rw [hreads]
  dsimp only
  rw [validate_inOneShard, hvalid]
  rfl

/-- The bytes that are loaded for a description: without weights there is no shard to read. -/
def loadedBytes (d : Model.Description) (bytes : List UInt8) : List UInt8 :=
  if d.entries = [] then [] else bytes

variable {σ : Type} [FileAccess (StateM σ)] {s : σ} {path : String} {bytes : List UInt8}

/-- **Where description and shard are there**, loading gives them. -/
theorem load_of_read (hvalid : d.validate = .ok ())
    (hreads : Json.read Model.Description.reader (inOneShard d).toJson.pretty = .ok (inOneShard d))
    (hdocument : (FileAccess.read path : StateM σ _) s =
      (.ok (Utf8.encode (inOneShard d).toJson.pretty), s))
    (hshard : (FileAccess.read (Path.beside path shardName) : StateM σ _) s = (.ok bytes, s)) :
    Succeeds (load path) s ⟨inOneShard d, loadedBytes d bytes⟩ s := by
  have htext : textOf path (Utf8.encode (inOneShard d).toJson.pretty) = .ok (inOneShard d).toJson.pretty := by
    unfold textOf
    rw [Utf8.decode_encode]
    rfl
  have hparts : ∃ parts, Succeeds ((shards (inOneShard d)).mapM fun shard => fetch (Path.beside path shard))
      s parts s ∧ parts.flatten = loadedBytes d bytes := by
    unfold loadedBytes
    rw [shards_inOneShard]
    split
    · exact ⟨[], succeeds_pure _ _, rfl⟩
    · refine ⟨[bytes], ?_, List.append_nil bytes⟩
      rw [List.mapM_cons, List.mapM_nil]
      refine succeeds_bind_iff.mpr ⟨bytes, s, succeeds_fetch_iff.mpr hshard, ?_⟩
      exact succeeds_bind_iff.mpr ⟨[], s, succeeds_pure _ _, succeeds_pure _ _⟩
  obtain ⟨parts, hparts, hflatten⟩ := hparts
  unfold load
  refine succeeds_bind_iff.mpr ⟨_, s, succeeds_fetch_iff.mpr hdocument, ?_⟩
  refine succeeds_bind_iff.mpr ⟨_, s, succeeds_lift_iff.mpr ⟨htext, rfl⟩, ?_⟩
  refine succeeds_bind_iff.mpr ⟨_, s, succeeds_lift_iff.mpr ⟨parse_inOneShard hvalid hreads, rfl⟩, ?_⟩
  refine succeeds_bind_iff.mpr ⟨parts, s, hparts, ?_⟩
  rw [hflatten]
  exact succeeds_pure _ _

end Loading

/-! ## §3 — saving -/

/-- **Two artifacts are of one model**: topology, signature and entries are the same, and the weights that
are decoded. -/
structure SameModel (a b : Artifacts) : Prop where
  /-- The topology is the same. -/
  topology : b.description.topology = a.description.topology
  /-- The signature is the same. -/
  signature : b.description.signature = a.description.signature
  /-- The entries are the same, in the same order. -/
  entries : b.description.entries = a.description.entries
  /-- The weights are the same. -/
  weights : ∀ model, a.decode = .ok model →
    ∃ model', b.decode = .ok model' ∧ model'.weights = model.weights

theorem decode_loadedBytes (d : Model.Description) (bytes : List UInt8) :
    Weight.decode (loadedBytes d bytes) d.entries = Weight.decode bytes d.entries := by
  unfold loadedBytes
  split
  · rename_i h
    rw [h]
    rfl
  · rfl

/-- Artifacts in one shard are of the same model. -/
theorem sameModel_inOneShard (a : Artifacts) :
    a.SameModel ⟨inOneShard a.description, loadedBytes a.description a.bytes⟩ := by
  refine ⟨rfl, rfl, entries_inOneShard, fun model h => ?_⟩
  unfold decode at h ⊢
  obtain ⟨weights, hweights, h⟩ := Outcome.bind_eq_ok_iff.mp h
  obtain rfl := Outcome.pure_eq_ok_iff.mp h
  rw [entries_inOneShard, decode_loadedBytes, hweights]
  exact ⟨_, rfl, rfl⟩

theorem isName_shardName : IsName shardName := ⟨by decide, by decide, by decide⟩

end Artifacts

open Artifacts in
/-- **What was saved is loaded again**, unless the file of the description has the name of the shard; then it
holds the bytes of the weights. -/
theorem Handler.load_of_save {σ : Type} [FileAccess (StateM σ)] (hfaithful : FileAccess.Faithful σ)
    {a : Artifacts} {url : String} {handler : Handler} (hclaim : Router.files.claim url = some handler)
    (hvalid : a.description.validate = .ok ())
    (hreads : Json.read Model.Description.reader (inOneShard a.description).toJson.pretty =
      .ok (inOneShard a.description))
    {s s' : σ} (hsave : Succeeds (handler.save a) s () s') :
    ∃ path, filePath? url = some path ∧
      (fileName path ≠ shardName → ∃ b, Succeeds handler.load s' b s' ∧ a.SameModel b) ∧
      (fileName path = shardName → (FileAccess.read path : StateM σ _) s' = (.ok a.bytes, s')) := by
  obtain ⟨path, hpath, rfl⟩ := Option.map_eq_some_iff.mp hclaim
  obtain ⟨_, r, hdocument, hshard⟩ := succeeds_bind_iff.mp hsave
  have hdocument := succeeds_store_iff.mp hdocument
  have hshard := succeeds_store_iff.mp hshard
  have hread := hfaithful.read_beside _ _ _ _ _ _ _ isName_shardName hdocument hshard
  refine ⟨path, hpath, fun hname => ?_, fun hname => ?_⟩
  · rw [if_neg hname] at hread
    exact ⟨_, load_of_read hvalid hreads hread (hfaithful.read_written _ _ _ _ hshard),
      sameModel_inOneShard a⟩
  · rw [if_pos hname] at hread
    exact hread

/-- A layer stack without layers, with one weight in a shard of its own. -/
def flagged : Artifacts := ⟨⟨none, .layers [], none, [⟨["a"], [⟨"k", .bool, [], none⟩]⟩]⟩, [1]⟩

/-- The files that saving it leaves. -/
def flaggedFiles : Files :=
  ⟨(Named.empty.insert "model.json"
      (.file (Utf8.encode (Artifacts.inOneShard flagged.description).toJson.pretty))).insert
    "weights.bin" (.file [1])⟩

set_option maxRecDepth 20000 in
/-- Its document is read back. -/
theorem flagged_reads :
    Json.read Model.Description.reader (Artifacts.inOneShard flagged.description).toJson.pretty =
      .ok (Artifacts.inOneShard flagged.description) := by cbv

/-- One weight, saved where there was no file, is loaded again. -/
theorem flagged_loaded :
    FileAccess.Faithful Files ∧ Router.files.claim "model.json" = some (.file "model.json") ∧
    flagged.description.validate = .ok () ∧
    Json.read Model.Description.reader (Artifacts.inOneShard flagged.description).toJson.pretty =
      .ok (Artifacts.inOneShard flagged.description) ∧
    Succeeds ((Handler.file "model.json").save flagged) Files.empty () flaggedFiles ∧
    ∃ b, Succeeds (Handler.file "model.json").load flaggedFiles b flaggedFiles ∧ flagged.SameModel b := by
  have hclaim : Router.files.claim "model.json" = some (.file "model.json") := rfl
  have hvalid : flagged.description.validate = .ok () := rfl
  have hsave : Succeeds ((Handler.file "model.json").save flagged) Files.empty () flaggedFiles := rfl
  refine ⟨Files.faithful, hclaim, hvalid, flagged_reads, hsave, ?_⟩
  obtain ⟨path, hpath, hloaded, -⟩ :=
    Handler.load_of_save Files.faithful hclaim hvalid flagged_reads hsave
  obtain rfl := Option.some.inj hpath
  exact hloaded (by decide)

/-- Saved as a file that has the name of the shard, it is not: the file holds the byte of the weight, which is
no document. -/
theorem flagged_overwritten :
    FileAccess.Faithful Files ∧ Router.files.claim "file://weights.bin" = some (.file "weights.bin") ∧
    flagged.description.validate = .ok () ∧ (∃ model, flagged.decode = .ok model) ∧
    Json.read Model.Description.reader (Artifacts.inOneShard flagged.description).toJson.pretty =
      .ok (Artifacts.inOneShard flagged.description) ∧
    ∃ after, Succeeds ((Handler.file "weights.bin").save flagged) Files.empty () after ∧
      ¬ ∃ b after', Succeeds (Handler.file "weights.bin").load after b after' := by
  refine ⟨Files.faithful, rfl, rfl, ⟨_, rfl⟩, flagged_reads,
    ⟨Named.empty.insert "weights.bin" (.file [1])⟩, rfl, ?_⟩
  rintro ⟨b, after', h⟩
  obtain ⟨bytes, r, hfetch, h⟩ := succeeds_bind_iff.mp h
  obtain ⟨text, r', htext, h⟩ := succeeds_bind_iff.mp h
  obtain ⟨d, r'', hparse, -⟩ := succeeds_bind_iff.mp h
  obtain rfl : [1] = bytes := Except.ok.inj (congrArg Prod.fst (succeeds_fetch_iff.mp hfetch))
  have htext' : Artifacts.textOf "weights.bin" [1] = .ok "\x01" := by rfl
  obtain rfl := Except.ok.inj (htext'.symm.trans (succeeds_lift_iff.mp htext).1)
  have hfault : Model.Description.parse "\x01" = .error (.json .malformed) := by cbv
  cases hfault.symm.trans (succeeds_lift_iff.mp hparse).1

end TexelFlow
