import TexelFlow.Proofs.Graph.Built
import TexelFlow.Proofs.Named

/-!
# What readers give

A reader either refuses a draft or gives data, and what all of its data have in common is settled where the
scalars are read: containers hold what their members' reader gives, and a record is gathered field by field,
so a property that every field keeps is one of the record. The extents that a description declares are read
as signed words, which is therefore so in every graph that is built from a description.

## Main statements

* `Json.Reader.gives_record` — a record has what all of its fields keep.
* `Graph.signed_of_parse` — the graph of a description that was read declares signed words.

## §1 — readers
## §2 — descriptions
## §3 — graphs
-/

namespace TexelFlow

/-! ## §1 — readers -/

namespace Json.Reader

variable {α σ : Type} {r : Reader α} {p : α → Prop}

/-- All that a reader gives has a property. -/
def Gives (r : Reader α) (p : α → Prop) : Prop := ∀ d a, r d = .ok a → p a

theorem gives_integer : Gives integer fun n => n < Size.signedModulus := by
  intro d n h
  unfold integer at h
  split at h
  · split at h
    · rename_i hlt
      obtain rfl := Except.ok.inj h
      exact Int.ofNat_lt.mpr hlt
    · cases h
  · obtain rfl := Except.ok.inj h
    have hend : (0 : Int) < Size.signedModulus := by decide
    omega
  · cases h

theorem gives_optional (h : r.Gives p) : Gives (optional r) fun o => ∀ a ∈ o, p a := by
  intro d o ho a ha
  unfold optional at ho
  split at ho
  · obtain rfl := Except.ok.inj ho
    cases ha
  · cases ho
  · cases hd : r d with
    | error fault =>
      rw [hd] at ho
      cases ho
    | ok a' =>
      rw [hd] at ho
      obtain rfl := Except.ok.inj ho
      obtain rfl := Option.some.inj ha
      exact h d _ hd

theorem gives_list (h : r.Gives p) : Gives (list r) fun as => ∀ a ∈ as, p a := by
  intro d as has a ha
  unfold list at has
  split at has
  · obtain ⟨values, hvalues, has⟩ := Outcome.bind_eq_ok_iff.mp has
    obtain ⟨_, -, has⟩ := Outcome.bind_eq_ok_iff.mp has
    obtain rfl := Outcome.pure_eq_ok_iff.mp has
    obtain ⟨item, -, hitem⟩ := Outcome.exists_of_mem_results hvalues ha
    exact h item a hitem
  · cases has

theorem gives_named (h : r.Gives p) : Gives (named r) fun m => ∀ e ∈ m.entries, p e.2 := by
  intro d m hm
  unfold named at hm
  split at hm
  · obtain ⟨m', hfold, hm⟩ := Outcome.bind_eq_ok_iff.mp hm
    obtain ⟨_, -, hm⟩ := Outcome.bind_eq_ok_iff.mp hm
    obtain rfl := Outcome.pure_eq_ok_iff.mp hm
    refine Outcome.inv_of_foldlM (fun m : Named α => ∀ e ∈ m.entries, p e.2) hfold nofun ?_
    rintro m ⟨name, item⟩ m' hentries hstep
    obtain ⟨key, -, hstep⟩ := Outcome.bind_eq_ok_iff.mp hstep
    obtain ⟨a, ha, hstep⟩ := Outcome.bind_eq_ok_iff.mp hstep
    obtain rfl := Outcome.pure_eq_ok_iff.mp hstep
    intro e he
    rcases Named.mem_place he with rfl | he
    · exact h item a ha
    · exact hentries e he
  · cases hm

/-- A field keeps a property when writing what its reader gives does. -/
theorem inv_of_set {inv : σ → Prop} {name : String} {mayMiss : Bool} {get : σ → Option α}
    {put : σ → α → σ} (h : r.Gives p) (hput : ∀ s a, inv s → p a → inv (put s a)) :
    ∀ d s s', inv s → (Field.of name mayMiss r get put).set d s = .ok s' → inv s' := by
  intro d s s' hs hset
  obtain ⟨a, ha, hset⟩ := Outcome.bind_eq_ok_iff.mp hset
  obtain rfl := Outcome.pure_eq_ok_iff.mp hset
  exact hput s a hs (h d a ha)

/-- A field that is written beside a property keeps it. -/
theorem inv_of_set_beside {inv : σ → Prop} {name : String} {mayMiss : Bool} {get : σ → Option α}
    {put : σ → α → σ} (hput : ∀ s a, inv s → inv (put s a)) :
    ∀ d s s', inv s → (Field.of name mayMiss r get put).set d s = .ok s' → inv s' :=
  inv_of_set (p := fun _ => True) (fun _ _ _ => trivial) fun s a hs _ => hput s a hs

theorem inv_of_gatherItems {inv : σ → Prop} {ending : Ending} {fields : List (Field σ)}
    {items : List Draft} {s s' : σ} (h : gatherItems ending fields items s = .ok s') (hs : inv s)
    (hset : ∀ f ∈ fields, ∀ d s s', inv s → f.set d s = .ok s' → inv s') : inv s' := by
  induction fields generalizing items s with
  | nil =>
    cases items with
    | nil =>
      unfold gatherItems at h
      split at h
      · obtain rfl := Except.ok.inj h
        exact hs
      · cases h
    | cons d items => cases h
  | cons f fields ih =>
    have hrest : ∀ f' ∈ fields, ∀ d s s', inv s → f'.set d s = .ok s' → inv s' :=
      fun f' hf' => hset f' (List.mem_cons_of_mem f hf')
    cases items with
    | nil =>
      unfold gatherItems at h
      obtain ⟨_, -, h⟩ := Outcome.bind_eq_ok_iff.mp h
      split at h
      · exact ih h hs hrest
      · cases h
    | cons d items =>
      unfold gatherItems at h
      obtain ⟨next, hnext, h⟩ := Outcome.bind_eq_ok_iff.mp h
      exact ih h (hset f List.mem_cons_self d s next hs hnext) hrest

/-- **A record has what all of its fields keep.** -/
theorem gives_record (inv : σ → Prop) {fields : List (Field σ)} {start : σ}
    {finish : σ → Except Fault α} (hstart : inv start)
    (hset : ∀ f ∈ fields, ∀ d s s', inv s → f.set d s = .ok s' → inv s')
    (hfinish : ∀ s a, inv s → finish s = .ok a → p a) : Gives (record fields start finish) p := by
  intro d a h
  unfold record at h
  split at h
  · obtain ⟨s, hfold, h⟩ := Outcome.bind_eq_ok_iff.mp h
    obtain ⟨_, -, h⟩ := Outcome.bind_eq_ok_iff.mp h
    refine hfinish s a (Outcome.inv_of_foldlM inv hfold hstart ?_) h
    rintro s ⟨name, item⟩ s' hs hstep
    obtain ⟨key, -, hstep⟩ := Outcome.bind_eq_ok_iff.mp hstep
    split at hstep
    · rename_i f hfind
      split at hstep
      · cases hstep
      · exact hset f (List.mem_of_find?_eq_some hfind) item s s' hs hstep
    · obtain ⟨_, -, hstep⟩ := Outcome.bind_eq_ok_iff.mp hstep
      obtain rfl := Outcome.pure_eq_ok_iff.mp hstep
      exact hs
  · obtain ⟨s, hgather, h⟩ := Outcome.bind_eq_ok_iff.mp h
    exact hfinish s a (inv_of_gatherItems hgather hstart hset) h
  · cases h

end Json.Reader

/-! ## §2 — descriptions -/

namespace Model

open Json (Reader)

/-- No extent that a specification declares is beyond the signed words. -/
def TensorSpec.Signed (spec : TensorSpec) : Prop :=
  ∀ dims ∈ spec.shape, ∀ extent ∈ dims, extent < Size.signedModulus

/-- No extent that a signature declares for an input is beyond the signed words. -/
def Signature.Signed (signature : Signature) : Prop := ∀ e ∈ signature.inputs.entries, e.2.Signed

theorem TensorSpec.gives_reader : Reader.Gives reader Signed := by
  refine Reader.gives_record (fun s : Fields => ∀ dims ∈ s.shape.join, ∀ extent ∈ dims,
    extent < Size.signedModulus) nofun ?_ ?_
  · simp only [List.forall_mem_cons]
    refine ⟨Reader.inv_of_set_beside fun s a hs => hs, Reader.inv_of_set_beside fun s a hs => hs, ?_, nofun⟩
    exact Reader.inv_of_set (Reader.gives_optional (Reader.gives_list Reader.gives_integer))
      fun s shape _ hshape => hshape
  · intro s spec hs h
    obtain ⟨name, -, h⟩ := Outcome.bind_eq_ok_iff.mp h
    obtain rfl := Outcome.pure_eq_ok_iff.mp h
    exact hs

theorem Signature.gives_reader : Reader.Gives reader Signed := by
  refine Reader.gives_record (fun s : Fields => ∀ inputs ∈ s.inputs, ∀ e ∈ inputs.entries, e.2.Signed)
    nofun ?_ ?_
  · simp only [List.forall_mem_cons]
    refine ⟨?_, Reader.inv_of_set_beside fun s a hs => hs, nofun⟩
    refine Reader.inv_of_set (Reader.gives_named TensorSpec.gives_reader) fun s inputs _ hinputs => ?_
    intro inputs' h
    obtain rfl := Option.some.inj h
    exact hinputs
  · intro s signature hs h
    obtain rfl := Outcome.pure_eq_ok_iff.mp h
    intro e he
    cases hinputs : s.inputs with
    | none =>
      rw [hinputs] at he
      cases he
    | some inputs =>
      rw [hinputs] at he
      exact hs inputs hinputs e he

theorem Description.gives_reader :
    Reader.Gives reader fun d => ∀ signature ∈ d.signature, signature.Signed := by
  refine Reader.gives_record (fun s : Fields => ∀ signature ∈ s.signature.join, signature.Signed)
    nofun ?_ ?_
  · simp only [List.forall_mem_cons]
    refine ⟨Reader.inv_of_set_beside fun s a hs => hs, Reader.inv_of_set_beside fun s a hs => hs, ?_,
      Reader.inv_of_set_beside fun s a hs => hs, nofun⟩
    exact Reader.inv_of_set (Reader.gives_optional Signature.gives_reader) fun s signature _ h => h
  · intro s d hs h
    obtain ⟨topology, -, h⟩ := Outcome.bind_eq_ok_iff.mp h
    obtain rfl := Outcome.pure_eq_ok_iff.mp h
    exact hs

/-- A description that was read declares signed words. -/
theorem Description.signed_of_parse {text : String} {d : Description} (h : parse text = .ok d) :
    ∀ signature ∈ d.signature, signature.Signed := by
  unfold parse at h
  split at h
  · exact absurd h (by simp)
  · rename_i d' hread
    obtain ⟨_, -, h⟩ := Outcome.bind_eq_ok_iff.mp h
    obtain rfl := Outcome.pure_eq_ok_iff.mp h
    obtain ⟨d', hreader, hread⟩ := Outcome.bind_eq_ok_iff.mp hread
    split at hread
    · obtain rfl := Except.ok.inj hread
      exact gives_reader _ _ hreader
    · cases hread

end Model

/-! ## §3 — graphs -/

namespace Graph

open Model (Description)

variable {g : Graph}

/-- The signature of a graph declares signed words. -/
def Signed (g : Graph) : Prop := ∀ signature ∈ g.signature, signature.Signed

/-- **The graph of a description that was read** declares signed words. -/
theorem signed_of_parse {text : String} {d : Description} {weights : Tensors}
    (hd : Description.parse text = .ok d) (h : ofDescription d weights = .ok g) : g.Signed := by
  unfold Signed
  rw [signature_of_description h]
  exact Description.signed_of_parse hd

end Graph

end TexelFlow
