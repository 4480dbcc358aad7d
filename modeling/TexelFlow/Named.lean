/-!
# Named — finite maps keyed by name, in name order

A `Named α` is a list of entries strictly increasing in their names, so one set of entries has one
representation and iteration follows the names' order (by code point, which is also the order of
their UTF-8 bytes).

## Main statements

* `find?_insert` — a name reads back what was last written under it, every other name is untouched.
* `Named.ext` — two maps with the same answers are equal.
-/

namespace TexelFlow

/-- A finite map from names to `α`. -/
structure Named (α : Type) where
  /-- The entries, in strictly increasing order of their names. -/
  entries : List (String × α)
  /-- The order is strict: no name occurs twice. -/
  sorted : entries.Pairwise (fun a b => a.1 < b.1)

namespace Named

variable {α β : Type}

instance [DecidableEq α] : DecidableEq (Named α) := fun a b =>
  if h : a.entries = b.entries then
    isTrue (by cases a; cases b; cases h; rfl)
  else
    isFalse (fun e => h (congrArg entries e))

/-- The map without entries. -/
def empty : Named α := ⟨[], .nil⟩

instance : Inhabited (Named α) := ⟨empty⟩

/-- Look a name up in a list of entries. -/
def lookup (name : String) : List (String × α) → Option α
  | [] => none
  | (k, v) :: rest => if k = name then some v else lookup name rest

/-- The value under a name. -/
def find? (m : Named α) (name : String) : Option α := lookup name m.entries

/-- Whether a name has a value. -/
def contains (m : Named α) (name : String) : Bool := (m.find? name).isSome

/-- The names, in order. -/
def names (m : Named α) : List String := m.entries.map Prod.fst

/-- Write an entry at its place among ordered entries, over an older one of the same name. -/
def place (name : String) (value : α) : List (String × α) → List (String × α)
  | [] => [(name, value)]
  | (k, v) :: rest =>
    if name < k then (name, value) :: (k, v) :: rest
    else if name = k then (name, value) :: rest
    else (k, v) :: place name value rest

/-- Names that are neither below nor equal are above. -/
theorem lt_of_not_lt_of_ne {a b : String} (h : ¬ a < b) (hne : a ≠ b) : b < a :=
  Classical.byContradiction fun hba =>
    hne (String.le_antisymm (String.not_lt.1 hba) (String.not_lt.1 h))

theorem mem_place {name : String} {value : α} {entries : List (String × α)} {e : String × α}
    (h : e ∈ place name value entries) : e = (name, value) ∨ e ∈ entries := by
  induction entries with
  | nil => simpa [place] using h
  | cons head rest ih =>
    obtain ⟨k, v⟩ := head
    simp only [place] at h
    split at h
    · simpa using h
    · split at h
      · rcases List.mem_cons.1 h with h | h
        · exact .inl h
        · exact .inr (List.mem_cons_of_mem _ h)
      · rcases List.mem_cons.1 h with h | h
        · exact .inr (h ▸ List.mem_cons_self)
        · rcases ih h with h | h
          · exact .inl h
          · exact .inr (List.mem_cons_of_mem _ h)

theorem place_sorted (name : String) (value : α) (entries : List (String × α))
    (h : entries.Pairwise (fun a b => a.1 < b.1)) :
    (place name value entries).Pairwise (fun a b => a.1 < b.1) := by
  induction entries with
  | nil => simp [place]
  | cons head rest ih =>
    obtain ⟨k, v⟩ := head
    have hk := (List.pairwise_cons.1 h).1
    have hrest := (List.pairwise_cons.1 h).2
    simp only [place]
    split
    · rename_i hlt
      refine List.pairwise_cons.2 ⟨fun b hb => ?_, h⟩
      rcases List.mem_cons.1 hb with hb | hb
      · exact hb ▸ hlt
      · exact String.lt_trans hlt (hk b hb)
    · split
      · rename_i heq
        exact List.pairwise_cons.2 ⟨fun b hb => heq ▸ hk b hb, hrest⟩
      · rename_i hlt hne
        refine List.pairwise_cons.2 ⟨fun b hb => ?_, ih hrest⟩
        rcases mem_place hb with hb | hb
        · exact hb ▸ lt_of_not_lt_of_ne hlt hne
        · exact hk b hb

/-- Write a value under a name, over any older one. -/
def insert (m : Named α) (name : String) (value : α) : Named α :=
  ⟨place name value m.entries, place_sorted name value m.entries m.sorted⟩

theorem lookup_place (name key : String) (value : α) (entries : List (String × α)) :
    lookup key (place name value entries) = if name = key then some value else lookup key entries := by
  induction entries with
  | nil => simp [place, lookup]
  | cons head rest ih =>
    obtain ⟨k, v⟩ := head
    simp only [place]
    split
    · simp [lookup]
    · split
      · rename_i heq
        subst heq
        by_cases h : name = key <;> simp [lookup, h]
      · rename_i hne
        by_cases hk : k = key
        · have : name ≠ key := fun e => hne (e.trans hk.symm)
          simp [lookup, hk, this]
        · simp [lookup, hk, ih]

/-- A name reads back what was last written under it, every other name is untouched. -/
@[simp] theorem find?_insert (m : Named α) (name key : String) (value : α) :
    (m.insert name value).find? key = if name = key then some value else m.find? key :=
  lookup_place name key value m.entries

@[simp] theorem find?_empty (key : String) : (empty : Named α).find? key = none := rfl

/-- Write the entries of a list one after the other: the last one of a name stands. -/
def ofList (entries : List (String × α)) : Named α :=
  entries.foldl (fun m e => m.insert e.1 e.2) empty

/-- Apply a function to every value. -/
def map (f : α → β) (m : Named α) : Named β :=
  ⟨m.entries.map (fun e => (e.1, f e.2)), by
    rw [List.pairwise_map]; exact m.sorted.imp (fun h => h)⟩

/-- Number of entries. -/
def size (m : Named α) : Nat := m.entries.length

theorem lookup_isSome_of_mem {name : String} {value : α} {entries : List (String × α)}
    (h : (name, value) ∈ entries) : (lookup name entries).isSome := by
  induction entries with
  | nil => cases h
  | cons head rest ih =>
    obtain ⟨k, v⟩ := head
    by_cases hk : k = name
    · simp [lookup, hk]
    · rcases List.mem_cons.1 h with h | h
      · exact absurd (congrArg Prod.fst h).symm hk
      · simpa [lookup, hk] using ih h

theorem mem_of_lookup {name : String} {value : α} {entries : List (String × α)}
    (h : lookup name entries = some value) : (name, value) ∈ entries := by
  induction entries with
  | nil => simp [lookup] at h
  | cons head rest ih =>
    obtain ⟨k, v⟩ := head
    by_cases hk : k = name
    · simp [lookup, hk] at h
      simp [hk, h]
    · simp [lookup, hk] at h
      exact List.mem_cons_of_mem _ (ih h)

theorem lookup_eq_some_of_mem {name : String} {value : α} {entries : List (String × α)}
    (hs : entries.Pairwise (fun a b => a.1 < b.1)) (h : (name, value) ∈ entries) :
    lookup name entries = some value := by
  induction entries with
  | nil => cases h
  | cons head rest ih =>
    obtain ⟨k, v⟩ := head
    have hk := (List.pairwise_cons.1 hs).1
    rcases List.mem_cons.1 h with h | h
    · cases h; simp [lookup]
    · have : k < name := hk _ h
      have hne : k ≠ name := fun e => String.lt_irrefl _ (e ▸ this)
      simp [lookup, hne, ih (List.pairwise_cons.1 hs).2 h]

/-- An entry is held exactly when its name reads back its value. -/
theorem mem_entries_iff {m : Named α} {name : String} {value : α} :
    (name, value) ∈ m.entries ↔ m.find? name = some value :=
  ⟨lookup_eq_some_of_mem m.sorted, mem_of_lookup⟩

theorem lookup_eq_none_of_forall_lt {name : String} {entries : List (String × α)}
    (h : ∀ e ∈ entries, name < e.1) : lookup name entries = none := by
  induction entries with
  | nil => rfl
  | cons head rest ih =>
    obtain ⟨k, v⟩ := head
    have hk : name < k := h (k, v) List.mem_cons_self
    have hne : k ≠ name := fun e => String.lt_irrefl _ (e ▸ hk)
    simp [lookup, hne, ih fun e he => h e (List.mem_cons_of_mem _ he)]

theorem entries_eq_of_lookup_eq {a b : List (String × α)} (ha : a.Pairwise (fun x y => x.1 < y.1))
    (hb : b.Pairwise (fun x y => x.1 < y.1)) (h : ∀ k, lookup k a = lookup k b) : a = b := by
  induction a generalizing b with
  | nil =>
    cases b with
    | nil => rfl
    | cons head rest => have := h head.1; simp [lookup] at this
  | cons ea ra ih =>
    cases b with
    | nil => have := h ea.1; simp [lookup] at this
    | cons eb rb =>
      obtain ⟨ka, va⟩ := ea
      obtain ⟨kb, vb⟩ := eb
      have hka := (List.pairwise_cons.1 ha).1
      have hkb := (List.pairwise_cons.1 hb).1
      have key : ka = kb := by
        rcases Classical.em (ka < kb) with hlt | hnlt
        · have below : ∀ e ∈ (kb, vb) :: rb, ka < e.1 := fun e he => by
            rcases List.mem_cons.1 he with he | he
            · exact he ▸ hlt
            · exact String.lt_trans hlt (hkb e he)
          have := h ka
          rw [lookup_eq_none_of_forall_lt below] at this
          simp [lookup] at this
        · rcases Classical.em (ka = kb) with heq | hne
          · exact heq
          · have hgt := lt_of_not_lt_of_ne hnlt hne
            have below : ∀ e ∈ (ka, va) :: ra, kb < e.1 := fun e he => by
              rcases List.mem_cons.1 he with he | he
              · exact he ▸ hgt
              · exact String.lt_trans hgt (hka e he)
            have := h kb
            rw [lookup_eq_none_of_forall_lt below] at this
            simp [lookup] at this
      subst key
      have hv : va = vb := by simpa [lookup] using h ka
      subst hv
      congr 1
      refine ih (List.pairwise_cons.1 ha).2 (List.pairwise_cons.1 hb).2 fun k => ?_
      by_cases hk : ka = k
      · subst hk
        rw [lookup_eq_none_of_forall_lt hka, lookup_eq_none_of_forall_lt hkb]
      · simpa [lookup, hk] using h k

/-- Two maps with the same answers are equal. -/
theorem ext {a b : Named α} (h : ∀ k, a.find? k = b.find? k) : a = b := by
  have := entries_eq_of_lookup_eq a.sorted b.sorted h
  cases a; cases b; cases this; rfl

end Named

end TexelFlow
