import TexelFlow.Schedule.Basic
import TexelFlow.Proofs.Checked
import TexelFlow.Proofs.Named

/-!
# What binding binds

Binding takes each input through the same checks, in one order: it must be given, have a leading axis
to lose where axes are stripped, and have the type, the declared extents and the shape that the
schedule was made for. Stripping an extent of one keeps the number of elements, so the tensor can always
be reshaped, and whatever binding refuses, it refuses as a fault of the inputs.

## Main statements

* `bind_eq_ok` — every input is bound, to a tensor of its shape and type, and nothing else is.
* `bind_eq_error` — what is refused is refused as a fault of the inputs.
-/

namespace TexelFlow

namespace InputSpec

variable {i : InputSpec} {batch : Batch} {shape shape' : Shape} {t t' : Tensor} {error : Error}

/-- Stripping keeps the number of elements, and whether they are counted. -/
theorem counted_of_strip (h : i.strip batch shape = .ok shape') : shape'.counted = shape.counted := by
  unfold strip at h
  split at h
  · cases h
    rfl
  · cases h
    exact (Shape.counted_one_cons _).symm
  · cases h

theorem strip_eq_error (h : i.strip batch shape = .error error) : ∃ fault, error = .input fault := by
  unfold strip at h
  split at h
  · cases h
  · cases h
  · cases h
    exact ⟨_, rfl⟩

theorem checkDeclared_eq_error (h : i.checkDeclared shape = .error error) :
    ∃ fault, error = .input fault := by
  unfold checkDeclared at h
  split at h
  · cases h
  · split at h
    · cases h
      exact ⟨_, rfl⟩
    · split at h
      · cases h
        exact ⟨_, rfl⟩
      · cases h

/-- A prepared tensor has the type of its input. -/
theorem prepare_eq_ok (h : i.prepare batch t = .ok t') : t'.dtype = i.dtype := by
  unfold prepare at h
  obtain ⟨shape, -, h⟩ := Outcome.bind_eq_ok_iff.mp h
  obtain ⟨u, -, h⟩ := Outcome.bind_eq_ok_iff.mp h
  obtain ⟨hdtype, h⟩ := Outcome.check_eq_ok_iff.mp h
  obtain ⟨_, -, h⟩ := Outcome.bind_eq_ok_iff.mp h
  obtain rfl := Outcome.pure_eq_ok_iff.mp h
  exact Classical.not_not.mp hdtype

/-- Preparing moves no elements. -/
theorem data_of_prepare (h : i.prepare batch t = .ok t') :
    t'.data = t.data ∧ i.strip batch t.shape = .ok t'.shape := by
  unfold prepare at h
  obtain ⟨shape, hstrip, h⟩ := Outcome.bind_eq_ok_iff.mp h
  obtain ⟨u, hreshape, h⟩ := Outcome.bind_eq_ok_iff.mp h
  obtain ⟨-, h⟩ := Outcome.check_eq_ok_iff.mp h
  obtain ⟨_, -, h⟩ := Outcome.bind_eq_ok_iff.mp h
  obtain rfl := Outcome.pure_eq_ok_iff.mp h
  obtain ⟨hshape, hdata⟩ := Tensor.make_eq_ok_iff.mp hreshape
  exact ⟨hdata, by rw [hshape, hstrip]⟩

theorem prepare_eq_error (h : i.prepare batch t = .error error) : ∃ fault, error = .input fault := by
  unfold prepare at h
  rcases Outcome.bind_eq_error_iff.mp h with h | ⟨shape, hstrip, h⟩
  · exact strip_eq_error h
  -- the elements fill the stripped shape, so reshaping does not fail
  have hfilled : shape.counted = .ok t.data.length := by rw [counted_of_strip hstrip, t.filled]
  have hreshape : t.reshape i.name shape = .ok ⟨shape, t.data, hfilled⟩ :=
    Tensor.make_eq_ok_iff.mpr ⟨rfl, rfl⟩
  rw [hreshape] at h
  rcases Outcome.bind_eq_error_iff.mp h with h | ⟨u, -, h⟩
  · cases h
  rcases Outcome.check_eq_error_iff.mp h with ⟨-, rfl⟩ | ⟨-, h⟩
  · exact ⟨_, rfl⟩
  rcases Outcome.bind_eq_error_iff.mp h with h | ⟨_, -, h⟩
  · exact checkDeclared_eq_error h
  · exact absurd h (by simp)

end InputSpec

namespace Schedule

variable {s : Schedule} {given bound : Tensors}

theorem bindOne_eq_ok {i : InputSpec} {name : String} {t : Tensor}
    (h : s.bindOne given i = .ok (name, t)) :
    i.node = name ∧ t.shape = i.shape ∧ t.dtype = i.dtype := by
  unfold bindOne at h
  obtain ⟨_, -, h⟩ := Outcome.bind_eq_ok_iff.mp h
  obtain ⟨u, hprepare, h⟩ := Outcome.bind_eq_ok_iff.mp h
  obtain ⟨hshape, h⟩ := Outcome.check_eq_ok_iff.mp h
  obtain ⟨rfl, rfl⟩ := Prod.mk.inj (Outcome.pure_eq_ok_iff.mp h)
  exact ⟨rfl, Classical.not_not.mp hshape, InputSpec.prepare_eq_ok hprepare⟩

theorem bindOne_eq_error {i : InputSpec} {error : Error} (h : s.bindOne given i = .error error) :
    ∃ fault, error = .input fault := by
  unfold bindOne at h
  rcases Outcome.bind_eq_error_iff.mp h with h | ⟨u, -, h⟩
  · unfold InputSpec.pick at h
    split at h
    · cases h
    · cases h
      exact ⟨_, rfl⟩
  rcases Outcome.bind_eq_error_iff.mp h with h | ⟨v, -, h⟩
  · exact InputSpec.prepare_eq_error h
  rcases Outcome.check_eq_error_iff.mp h with ⟨-, rfl⟩ | ⟨-, h⟩
  · exact ⟨_, rfl⟩
  · exact absurd h (by simp)

/-- **Every input is bound** to a tensor of its shape and type, and nothing else is bound. -/
theorem bind_eq_ok (h : s.bind given = .ok bound) :
    (∀ i ∈ s.inputs, ∃ t, bound.find? i.node = some t) ∧
    ∀ name t, bound.find? name = some t →
      ∃ i ∈ s.inputs, i.node = name ∧ t.shape = i.shape ∧ t.dtype = i.dtype := by
  unfold bind at h
  obtain ⟨-, h⟩ := Outcome.check_eq_ok_iff.mp h
  obtain ⟨entries, hentries, h⟩ := Outcome.bind_eq_ok_iff.mp h
  obtain rfl := Outcome.pure_eq_ok_iff.mp h
  constructor
  · intro i hi
    obtain ⟨⟨name, t⟩, hmem, hone⟩ := Outcome.exists_result_of_mem hentries hi
    obtain ⟨rfl, -⟩ := bindOne_eq_ok hone
    exact Named.exists_find?_ofList hmem
  · intro name t ht
    obtain ⟨i, hi, hone⟩ := Outcome.exists_of_mem_results hentries (Named.mem_of_find?_ofList ht)
    exact ⟨i, hi, bindOne_eq_ok hone⟩

/-- **What binding refuses** is a fault of the inputs. -/
theorem bind_eq_error {error : Error} (h : s.bind given = .error error) :
    ∃ fault, error = .input fault := by
  unfold bind at h
  rcases Outcome.check_eq_error_iff.mp h with ⟨-, rfl⟩ | ⟨-, h⟩
  · exact ⟨_, rfl⟩
  rcases Outcome.bind_eq_error_iff.mp h with h | ⟨entries, -, h⟩
  · obtain ⟨i, -, hone⟩ := Outcome.exists_of_mapM_eq_error h
    exact bindOne_eq_error hone
  · exact absurd h (by simp)

end Schedule

end TexelFlow
