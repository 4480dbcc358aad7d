import TexelFlow.Error
import Mathlib.Data.List.Forall2

/-!
# Outcomes of sequences

When steps that can fail stand one behind the other, the whole has a result exactly when every step
has one. These are the rules by which results are taken apart.

## Main statements

* `bind_eq_ok_iff` — two steps.
* `check_eq_ok_iff` — a check and a step.
* `mapM_eq_ok_iff` — one step for each member of a list.
* `exists_grid_eq_ok`, `length_of_grid` — one step for each point of a grid.
-/

namespace TexelFlow.Outcome

variable {ε α β : Type}

/-- Two steps give a result exactly when the first gives one and the second does so on it. -/
theorem bind_eq_ok_iff {x : Except ε α} {f : α → Except ε β} {b : β} :
    x >>= f = .ok b ↔ ∃ a, x = .ok a ∧ f a = .ok b := by
  cases x with
  | error e => simp [bind, Except.bind]
  | ok a => simp [bind, Except.bind]

theorem bind_of_eq_ok {x : Except ε α} {a : α} (h : x = .ok a) (f : α → Except ε β) :
    x >>= f = f a := by
  rw [h]
  rfl

/-- Two steps fail exactly when one of them does. -/
theorem bind_eq_error_iff {x : Except ε α} {f : α → Except ε β} {e : ε} :
    x >>= f = .error e ↔ x = .error e ∨ ∃ a, x = .ok a ∧ f a = .error e := by
  cases x with
  | error e' => simp [bind, Except.bind]
  | ok a => simp [bind, Except.bind]

/-- Two steps have one image with either second step that has one behind each result of the first. -/
theorem map_bind_congr {γ : Type} {x : Except ε α} {f g : α → Except ε β} {image : β → γ}
    (h : ∀ a, (f a).map image = (g a).map image) : (x >>= f).map image = (x >>= g).map image := by
  cases x with
  | error e => rfl
  | ok a => exact h a

/-- What has come out well is a result. -/
theorem exists_of_isOk {x : Except ε α} (h : x.isOk = true) : ∃ a, x = .ok a := by
  cases x with
  | error e => cases h
  | ok a => exact ⟨a, rfl⟩

@[simp] theorem pure_eq_ok_iff {a b : α} : (pure a : Except ε α) = .ok b ↔ a = b := by
  simp [pure, Except.pure]

@[simp] theorem pure_eq_error_iff {a : α} {e : ε} : (pure a : Except ε α) = .error e ↔ False := by
  simp [pure, Except.pure]

@[simp] theorem throw_eq_ok_iff {e : ε} {b : α} : (throw e : Except ε α) = .ok b ↔ False := by
  simp [throw, throwThe, MonadExceptOf.throw]

/-- A check in front of a step passes when its condition does not hold. -/
theorem check_eq_ok_iff {c : Prop} [Decidable c] {e : ε} {f : α → Except ε β} {x : Except ε β}
    {b : β} : (if c then throw e >>= f else x) = .ok b ↔ ¬ c ∧ x = .ok b := by
  by_cases h : c
  · simp [h, bind, Except.bind, throw, throwThe, MonadExceptOf.throw]
  · simp [h]

@[simp] theorem throw_eq_error_iff {e e' : ε} : (throw e : Except ε α) = .error e' ↔ e = e' := by
  simp [throw, throwThe, MonadExceptOf.throw]

/-- A check in front of a step fails with its own error or with that of the step. -/
theorem check_eq_error_iff {c : Prop} [Decidable c] {e e' : ε} {f : α → Except ε β}
    {x : Except ε β} :
    (if c then throw e >>= f else x) = .error e' ↔ c ∧ e = e' ∨ ¬ c ∧ x = .error e' := by
  by_cases h : c
  · simp [h, bind, Except.bind, throw, throwThe, MonadExceptOf.throw]
  · simp [h]

/-- Reading an error differently keeps results. -/
theorem mapError_eq_ok_iff {ε' : Type} {f : ε → ε'} {x : Except ε α} {a : α} :
    x.mapError f = .ok a ↔ x = .ok a := by
  cases x <;> simp [Except.mapError]

/-- What every step keeps, all of them keep. -/
theorem inv_of_foldlM {σ : Type} (inv : σ → Prop) {f : σ → β → Except ε σ} {xs : List β} {s s' : σ}
    (h : xs.foldlM f s = .ok s') (hs : inv s) (hf : ∀ s x s', inv s → f s x = .ok s' → inv s') :
    inv s' := by
  induction xs generalizing s with
  | nil =>
    obtain rfl := Except.ok.inj h
    exact hs
  | cons x xs ih =>
    rw [List.foldlM_cons] at h
    obtain ⟨next, hnext, h⟩ := bind_eq_ok_iff.mp h
    exact ih h (hf s x next hs hnext)

/-- A step for every member of a list gives results exactly when each of them gives its own. -/
theorem mapM_eq_ok_iff {f : α → Except ε β} {xs : List α} {ys : List β} :
    xs.mapM f = .ok ys ↔ List.Forall₂ (fun x y => f x = .ok y) xs ys := by
  induction xs generalizing ys with
  | nil =>
    rw [List.mapM_nil, pure_eq_ok_iff, List.forall₂_nil_left_iff]
    exact eq_comm
  | cons x xs ih =>
    rw [List.mapM_cons, bind_eq_ok_iff, List.forall₂_cons_left_iff]
    constructor
    · rintro ⟨y, hy, hrest⟩
      obtain ⟨ys', hys, hcons⟩ := bind_eq_ok_iff.mp hrest
      exact ⟨y, ys', hy, ih.mp hys, (pure_eq_ok_iff.mp hcons).symm⟩
    · rintro ⟨y, ys', hy, hys, rfl⟩
      exact ⟨y, hy, bind_eq_ok_iff.mpr ⟨ys', ih.mpr hys, rfl⟩⟩

/-- Steps that agree on a list agree for all of it. -/
theorem mapM_congr {f g : α → Except ε β} {xs : List α} (h : ∀ x ∈ xs, f x = g x) :
    xs.mapM f = xs.mapM g := by
  induction xs with
  | nil => rfl
  | cons x xs ih =>
    rw [List.mapM_cons, List.mapM_cons, h x List.mem_cons_self,
      ih fun x' hx' => h x' (List.mem_cons_of_mem _ hx')]

/-- A member of one of two related lists is related to one of the other. -/
theorem exists_of_forall₂ {R : α → β → Prop} {xs : List α} {ys : List β} (h : List.Forall₂ R xs ys) {x : α}
    (hx : x ∈ xs) : ∃ y ∈ ys, R x y := by
  induction h with
  | nil => exact absurd hx List.not_mem_nil
  | cons hxy _ ih =>
    rcases List.mem_cons.mp hx with rfl | hx
    · exact ⟨_, List.mem_cons_self, hxy⟩
    · obtain ⟨y, hy, hxy⟩ := ih hx
      exact ⟨y, List.mem_cons_of_mem _ hy, hxy⟩

/-- Every result belongs to a member of the list. -/
theorem exists_of_mem_results {f : α → Except ε β} {xs : List α} {ys : List β}
    (h : xs.mapM f = .ok ys) {y : β} (hy : y ∈ ys) : ∃ x ∈ xs, f x = .ok y :=
  exists_of_forall₂ (mapM_eq_ok_iff.mp h).flip hy

/-- Every member of the list has its result. -/
theorem exists_result_of_mem {f : α → Except ε β} {xs : List α} {ys : List β}
    (h : xs.mapM f = .ok ys) {x : α} (hx : x ∈ xs) : ∃ y ∈ ys, f x = .ok y :=
  exists_of_forall₂ (mapM_eq_ok_iff.mp h) hx

/-- The results of a list are those of its members. -/
theorem mem_results_iff {f : α → Except ε β} {xs : List α} {ys : List β} (h : xs.mapM f = .ok ys) {y : β} :
    y ∈ ys ↔ ∃ x ∈ xs, f x = .ok y := by
  refine ⟨exists_of_mem_results h, ?_⟩
  rintro ⟨x, hx, hy⟩
  obtain ⟨y', hy', hx'⟩ := exists_result_of_mem h hx
  exact Except.ok.inj (hx'.symm.trans hy) ▸ hy'

/-- Where a list of steps fails, one of them does. -/
theorem exists_of_mapM_eq_error {f : α → Except ε β} {xs : List α} {e : ε}
    (h : xs.mapM f = .error e) : ∃ x ∈ xs, f x = .error e := by
  induction xs with
  | nil =>
    rw [List.mapM_nil] at h
    exact absurd h (by simp)
  | cons x xs ih =>
    rw [List.mapM_cons] at h
    rcases bind_eq_error_iff.mp h with hx | ⟨y, -, h⟩
    · exact ⟨x, List.mem_cons_self, hx⟩
    · rcases bind_eq_error_iff.mp h with hrest | ⟨ys, -, h⟩
      · obtain ⟨x', hx', hf⟩ := ih hrest
        exact ⟨x', List.mem_cons_of_mem _ hx', hf⟩
      · exact absurd h (by simp)

/-- Where every step of a list has a result, the list has its results. -/
theorem exists_mapM_eq_ok {f : α → Except ε β} {xs : List α} (h : ∀ x ∈ xs, ∃ y, f x = .ok y) :
    ∃ ys, xs.mapM f = .ok ys := by
  cases hxs : xs.mapM f with
  | ok ys => exact ⟨ys, rfl⟩
  | error e =>
    obtain ⟨x, hx, hfx⟩ := exists_of_mapM_eq_error hxs
    obtain ⟨y, hy⟩ := h x hx
    rw [hfx] at hy
    cases hy

/-- Where every step of a list has a result of a kind, the list has results of that kind. -/
theorem exists_mapM_of_forall {f : α → Except ε β} {P : α → β → Prop} {xs : List α}
    (h : ∀ x ∈ xs, ∃ y, f x = .ok y ∧ P x y) : ∃ ys, xs.mapM f = .ok ys ∧ List.Forall₂ P xs ys := by
  induction xs with
  | nil => exact ⟨[], rfl, .nil⟩
  | cons x xs ih =>
    obtain ⟨y, hy, hxy⟩ := h x List.mem_cons_self
    obtain ⟨ys, hys, hrest⟩ := ih fun x' hx' => h x' (List.mem_cons_of_mem _ hx')
    refine ⟨y :: ys, ?_, .cons hxy hrest⟩
    rw [List.mapM_cons, bind_of_eq_ok hy, bind_of_eq_ok hys]
    rfl

/-- Checks of every member of a list pass exactly when each of them does. -/
theorem forM_eq_ok_iff {f : α → Except ε Unit} {xs : List α} :
    xs.forM f = .ok () ↔ ∀ x ∈ xs, f x = .ok () := by
  induction xs with
  | nil => exact iff_of_true rfl (fun _ h => absurd h List.not_mem_nil)
  | cons x xs ih =>
    show (f x >>= fun _ => xs.forM f) = .ok () ↔ _
    rw [bind_eq_ok_iff, List.forall_mem_cons, ih]
    exact ⟨fun ⟨(), h⟩ => h, fun h => ⟨(), h⟩⟩

theorem length_of_mapM {f : α → Except ε β} {xs : List α} {ys : List β} (h : xs.mapM f = .ok ys) :
    ys.length = xs.length :=
  (mapM_eq_ok_iff.mp h).length_eq.symm

/-! ## Grids -/

variable {γ δ : Type} {f : α → β → γ → Except ε δ} {as : List α} {bs : List β} {cs : List γ}
  {rows : List (List (List δ))}

/-- A step for every point of a grid: rows, columns, and layers at each place. -/
def grid (f : α → β → γ → Except ε δ) (as : List α) (bs : List β) (cs : List γ) :
    Except ε (List (List (List δ))) :=
  as.mapM fun a => bs.mapM fun b => cs.mapM fun c => f a b c

/-- Where every point has a result, the grid has its results. -/
theorem exists_grid_eq_ok (h : ∀ a ∈ as, ∀ b ∈ bs, ∀ c ∈ cs, ∃ d, f a b c = .ok d) :
    ∃ rows, grid f as bs cs = .ok rows :=
  exists_mapM_eq_ok fun a ha => exists_mapM_eq_ok fun b hb => exists_mapM_eq_ok fun c hc =>
    h a ha b hb c hc

theorem length_flatten_of_forall {lists : List (List α)} {n : Nat} (h : ∀ l ∈ lists, l.length = n) :
    lists.flatten.length = lists.length * n := by
  induction lists with
  | nil => rw [List.length_nil, Nat.zero_mul]; rfl
  | cons l lists ih =>
    have ih := ih fun l' hl' => h l' (List.mem_cons_of_mem _ hl')
    rw [List.flatten_cons, List.length_append, h l List.mem_cons_self, ih, List.length_cons,
      Nat.succ_mul, Nat.add_comm]

/-- The results of a grid, one behind the other, are as many as its points. -/
theorem length_of_grid (h : grid f as bs cs = .ok rows) :
    rows.flatten.flatten.length = as.length * bs.length * cs.length := by
  have hrows : ∀ row ∈ rows, row.length = bs.length ∧ ∀ column ∈ row, column.length = cs.length := by
    intro row hrow
    obtain ⟨a, -, ha⟩ := exists_of_mem_results h hrow
    refine ⟨length_of_mapM ha, fun column hcolumn => ?_⟩
    obtain ⟨b, -, hb⟩ := exists_of_mem_results ha hcolumn
    exact length_of_mapM hb
  have hcolumns : ∀ column ∈ rows.flatten, column.length = cs.length := by
    intro column hcolumn
    obtain ⟨row, hrow, hcolumn⟩ := List.mem_flatten.mp hcolumn
    exact (hrows row hrow).2 column hcolumn
  rw [length_flatten_of_forall hcolumns, length_flatten_of_forall fun row hrow => (hrows row hrow).1,
    length_of_mapM h]

end TexelFlow.Outcome
