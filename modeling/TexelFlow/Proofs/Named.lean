import TexelFlow.Named
import Mathlib.Data.List.Induction

/-!
# Maps written entry by entry

`Named.ofList` writes entries one after the other. What it holds under a name is one of the entries
listed under it, so where all entries of a name agree the list and the map hold the same.

## Main statements

* `find?_ofList_eq_some_iff` — the map of an agreeing list holds exactly its entries.
* `names_ofList_perm` — its names are the listed ones.
-/

namespace TexelFlow.Named

variable {α : Type}

/-- Entries written onto a map: the last one of a name stands, and names not written stay. -/
theorem find?_foldl_insert (entries : List (String × α)) (m : Named α) (key : String) :
    (entries.foldl (fun m e => m.insert e.1 e.2) m).find? key =
      (lookup key entries.reverse).or (m.find? key) := by
  -- from the end, where the entry that stands was written
  induction entries using List.reverseRecOn with
  | nil => rfl
  | append_singleton entries e ih =>
    rw [List.foldl_append, List.foldl_cons, List.foldl_nil, find?_insert, ih, List.reverse_append]
    obtain ⟨k, v⟩ := e
    by_cases h : k = key
    · simp [lookup, h]
    · simp [lookup, h]

/-- What a listed map holds under a name is the last entry of that name. -/
theorem find?_ofList (entries : List (String × α)) (key : String) :
    (ofList entries).find? key = lookup key entries.reverse := by
  unfold ofList
  rw [find?_foldl_insert, find?_empty, Option.or_none]

/-- What a listed map holds is listed. -/
theorem mem_of_find?_ofList {entries : List (String × α)} {key : String} {value : α}
    (h : (ofList entries).find? key = some value) : (key, value) ∈ entries := by
  rw [find?_ofList] at h
  exact List.mem_reverse.mp (mem_of_lookup h)

/-- A listed name is held. -/
theorem exists_find?_ofList {entries : List (String × α)} {key : String} {value : α}
    (h : (key, value) ∈ entries) : ∃ v, (ofList entries).find? key = some v := by
  rw [find?_ofList]
  exact Option.isSome_iff_exists.mp (lookup_isSome_of_mem (List.mem_reverse.mpr h))

/-- **The map of an agreeing list** holds exactly its entries. -/
theorem find?_ofList_eq_some_iff {entries : List (String × α)}
    (agree : ∀ k a b, (k, a) ∈ entries → (k, b) ∈ entries → a = b) {key : String} {value : α} :
    (ofList entries).find? key = some value ↔ (key, value) ∈ entries := by
  constructor
  · exact mem_of_find?_ofList
  · intro h
    obtain ⟨v, hv⟩ := exists_find?_ofList h
    rw [hv, agree key v value (mem_of_find?_ofList hv) h]

/-- A listed map holds the listed names. -/
theorem contains_ofList_iff {entries : List (String × α)} {key : String} :
    (ofList entries).contains key ↔ key ∈ entries.map Prod.fst := by
  rw [contains, Option.isSome_iff_exists, List.mem_map]
  constructor
  · rintro ⟨value, hvalue⟩
    exact ⟨(key, value), mem_of_find?_ofList hvalue, rfl⟩
  · rintro ⟨⟨key', value⟩, hmem, rfl⟩
    exact exists_find?_ofList hmem

theorem mem_names_iff {m : Named α} {key : String} : key ∈ m.names ↔ m.contains key := by
  unfold names contains
  constructor
  · intro h
    obtain ⟨⟨k, a⟩, hmem, rfl⟩ := List.mem_map.mp h
    rw [mem_entries_iff.mp hmem]
    rfl
  · intro h
    obtain ⟨a, ha⟩ := Option.isSome_iff_exists.mp h
    exact List.mem_map.mpr ⟨(key, a), mem_entries_iff.mpr ha, rfl⟩

theorem names_nodup (m : Named α) : m.names.Nodup :=
  (List.pairwise_map.mpr m.sorted).imp fun hlt => fun heq => String.lt_irrefl _ (heq ▸ hlt)

/-- The names of a listed map are the listed ones. -/
theorem names_ofList_perm {entries : List (String × α)} (h : (entries.map Prod.fst).Nodup) :
    (ofList entries).names.Perm (entries.map Prod.fst) := by
  refine (List.perm_ext_iff_of_nodup (names_nodup _) h).mpr fun key => ?_
  rw [mem_names_iff, contains_ofList_iff]

end TexelFlow.Named
