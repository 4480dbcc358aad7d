import TexelFlow.Proofs.Outcome
import TexelFlow.Proofs.Store.Path
import TexelFlow.Store.Files

/-!
# What was written is read back

Writing a file walks to its directory and puts the file there. A directory is never replaced, so every walk
that goes through before goes through afterwards and comes to the same spot. What is read from the written
path is what was written; and of two files that are written one after the other in one directory, the first
is still there unless the second has its name.

## Main statements

* `FileAccess.Faithful` — what files are relied on for.
* `Files.write_eq_ok` — writing is walking to a spot and putting a file there.
* `Files.faithful` — trees of files are faithful.

## §1 — faithful files
## §2 — walking
## §3 — writing
## §4 — trees are faithful
-/

namespace TexelFlow

open TexelFlow.Path (IsName fileName)

/-! ## §1 — faithful files -/

/-- **Faithful files**: what was written is read back, and a file beside it takes its place only if it has
its name. -/
structure FileAccess.Faithful (σ : Type) [FileAccess (StateM σ)] : Prop where
  /-- What was written is read back, and reading leaves the files as they are. -/
  read_written : ∀ path bytes (s s' : σ), (write path bytes : StateM σ _) s = (.ok (), s') →
    (read path : StateM σ _) s' = (.ok bytes, s')
  /-- A file is still there after another one was written beside it, unless that one has its name. -/
  read_beside : ∀ path name bytes bytes' (s s' s'' : σ), IsName name →
    (write path bytes : StateM σ _) s = (.ok (), s') →
    (write (Path.beside path name) bytes' : StateM σ _) s' = (.ok (), s'') →
      (read path : StateM σ _) s'' = (.ok (if fileName path = name then bytes' else bytes), s'')

namespace Files

/-! ## §2 — walking -/

variable {f f' : Files} {s t : Spot} {segment : List Char}

theorem enter_eq_ok_iff {u : Unit} : f.enter s = .ok u ↔ f.item? s = some .directory := by
  unfold enter
  split
  · rename_i h
    simp [h]
  · rename_i bytes h
    simp [h]
  · rename_i h
    simp [h]

/-- A segment that names nothing stays where it is. -/
theorem step_filler (hfiller : Path.isFiller segment = true) (h : f.step s segment = .ok t) : t = s := by
  unfold step at h
  obtain ⟨-, -, h⟩ := Outcome.bind_eq_ok_iff.mp h
  unfold Path.isFiller at hfiller
  rw [if_pos hfiller] at h
  exact (Outcome.pure_eq_ok_iff.mp h).symm

/-- A name goes down from a directory. -/
theorem step_name {name : String} (hname : IsName name) (h : f.step s name.toList = .ok t) :
    t = s.down name := by
  unfold step at h
  obtain ⟨-, -, h⟩ := Outcome.bind_eq_ok_iff.mp h
  have hfiller := hname.not_filler
  unfold Path.isFiller at hfiller
  rw [if_neg (by rw [hfiller]; decide), if_neg hname.not_above, String.ofList_toList] at h
  obtain ⟨-, h⟩ := Outcome.check_eq_ok_iff.mp h
  exact (Outcome.pure_eq_ok_iff.mp h).symm

/-- The spot below a directory. -/
theorem Spot.down_eq_below {name : String} {trail : List String} (h : s.down name = .below trail) :
    ∃ rest, s = .below rest ∧ trail = name :: rest := by
  unfold down at h
  split at h
  · rename_i rest
    exact ⟨rest, rfl, (Spot.below.inj h).symm⟩
  · cases h

/-- Where all directories stay, a step goes where it went. -/
theorem step_of_opens (hopens : ∀ s, f.item? s = some .directory → f'.item? s = some .directory)
    (h : f.step s segment = .ok t) : f'.step s segment = .ok t := by
  unfold step at h ⊢
  obtain ⟨u, hu, h⟩ := Outcome.bind_eq_ok_iff.mp h
  exact Outcome.bind_eq_ok_iff.mpr ⟨u, enter_eq_ok_iff.mpr (hopens s (enter_eq_ok_iff.mp hu)), h⟩

/-- **Where all directories stay**, a walk goes where it went. -/
theorem walk_of_opens (hopens : ∀ s, f.item? s = some .directory → f'.item? s = some .directory)
    {segments : List (List Char)} (h : segments.foldlM f.step s = .ok t) :
    segments.foldlM f'.step s = .ok t := by
  induction segments generalizing s with
  | nil => exact h
  | cons segment rest ih =>
    rw [List.foldlM_cons] at h ⊢
    obtain ⟨s', hstep, hrest⟩ := Outcome.bind_eq_ok_iff.mp h
    exact Outcome.bind_eq_ok_iff.mpr ⟨s', step_of_opens hopens hstep, ih hrest⟩

theorem locate_eq_ok_iff {path : String} : f.locate path = .ok t ↔
    check path = .ok () ∧ (Path.segments path).foldlM f.step (start path) = .ok t := by
  unfold locate
  rw [Outcome.bind_eq_ok_iff]
  exact ⟨fun ⟨u, hcheck, h⟩ => ⟨hcheck, h⟩, fun ⟨hcheck, h⟩ => ⟨(), hcheck, h⟩⟩

/-- Segments that name nothing stay where they are. -/
theorem walk_fillers {fillers : List (List Char)}
    (hfillers : ∀ segment ∈ fillers, Path.isFiller segment = true)
    (h : fillers.foldlM f.step s = .ok t) : t = s := by
  induction fillers generalizing s with
  | nil => exact (Outcome.pure_eq_ok_iff.mp h).symm
  | cons segment rest ih =>
    obtain ⟨hsegment, hrest⟩ := List.forall_mem_cons.mp hfillers
    rw [List.foldlM_cons] at h
    obtain ⟨s', hstep, h⟩ := Outcome.bind_eq_ok_iff.mp h
    rw [ih hrest h, step_filler hsegment hstep]

/-! ## §3 — writing -/

variable {path : String} {bytes : List UInt8} {trail : List String}

/-- What a written file is: the walk along its path ends at a name in a directory, where no directory
stands, and the file is put there. -/
structure Written (f : Files) (path : String) (bytes : List UInt8) (trail : List String)
    (f' : Files) : Prop where
  /-- The path ends with a name. -/
  named : IsName (fileName path)
  /-- The walk ends at that name. -/
  located : f.locate path = .ok (.below (fileName path :: trail))
  /-- No directory stands there. -/
  free : f.item? (.below (fileName path :: trail)) ≠ some .directory
  /-- The file is put there. -/
  files : f' = ⟨f.items.insert (key (fileName path :: trail)) (.file bytes)⟩

/-- A walk that ends at a name went through its directory. -/
theorem exists_above {above : List (List Char)} {name : String} (hname : IsName name)
    (h : (above ++ [name.toList]).foldlM f.step s = .ok t) :
    ∃ r, above.foldlM f.step s = .ok r ∧ f.step r name.toList = .ok t ∧ t = r.down name := by
  rw [List.foldlM_append] at h
  obtain ⟨r, habove, h⟩ := Outcome.bind_eq_ok_iff.mp h
  rw [List.foldlM_cons] at h
  obtain ⟨t', hstep, h⟩ := Outcome.bind_eq_ok_iff.mp h
  obtain rfl := Outcome.pure_eq_ok_iff.mp h
  exact ⟨r, habove, hstep, step_name hname hstep⟩

/-- A file is put at a name in a directory. -/
theorem put_eq_ok (h : f.put s bytes = .ok f') :
    f.item? s ≠ some .directory ∧ ∃ trail, s = .below trail ∧
      f' = ⟨f.items.insert (key trail) (.file bytes)⟩ := by
  unfold put at h
  split at h
  · cases h
  · rename_i hfree
    cases h
    exact ⟨hfree, _, rfl, rfl⟩
  · cases h

/-- **Writing** is walking to a spot and putting a file there. -/
theorem write_eq_ok (h : f.write path bytes = .ok f') : ∃ trail, f.Written path bytes trail f' := by
  obtain ⟨above, hsegments⟩ := Path.exists_segments path
  have hplain : '/' ∉ (fileName path).toList :=
    Path.not_mem_segment (show (fileName path).toList ∈ Path.segments path from hsegments ▸ by simp)
  unfold write at h
  obtain ⟨u, hcheck, h⟩ := Outcome.bind_eq_ok_iff.mp h
  rw [hsegments, List.reverse_append, List.reverse_singleton, List.singleton_append] at h
  split at h
  · cases h
  · rename_i last above' hdrop
    obtain ⟨r, habove, h⟩ := Outcome.bind_eq_ok_iff.mp h
    obtain ⟨v, henter, h⟩ := Outcome.bind_eq_ok_iff.mp h
    obtain ⟨hname, h⟩ := Outcome.check_eq_ok_iff.mp h
    obtain ⟨t, hstep, hput⟩ := Outcome.bind_eq_ok_iff.mp h
    simp only [List.getLast?_append, List.getLast?_singleton, Option.some_or, Bool.or_eq_true,
      decide_eq_true_eq, not_or, Option.some.injEq] at hname
    obtain ⟨⟨hne, hpoint⟩, hpoints⟩ := hname
    rw [List.dropWhile_cons_of_neg (by simpa using hne)] at hdrop
    obtain ⟨rfl, rfl⟩ := List.cons.inj hdrop
    rw [List.reverse_reverse] at habove
    have hnamed : IsName (fileName path) := ⟨hplain, by simp [Path.isFiller, hne, hpoint], hpoints⟩
    obtain ⟨hfree, trail, rfl, hfiles⟩ := put_eq_ok hput
    obtain ⟨trail, rfl, rfl⟩ := Spot.down_eq_below (step_name hnamed hstep).symm
    refine ⟨trail, hnamed, locate_eq_ok_iff.mpr ⟨hcheck, ?_⟩, hfree, hfiles⟩
    rw [hsegments, List.foldlM_append, Outcome.bind_of_eq_ok habove, List.foldlM_cons,
      Outcome.bind_of_eq_ok hstep]
    rfl

/-! ## §4 — trees are faithful -/

theorem item?_below {name : String} {rest : List String} :
    f.item? (.below (name :: rest)) = f.items.find? (key (name :: rest)) := rfl

theorem toList_key (trail : List String) :
    (key trail).toList = Text.join '/' (trail.reverse.map String.toList) := by
  unfold key
  rw [String.toList_intercalate, Text.join_eq_intercalate]
  rfl

/-- Names in one directory have keys of their own. -/
theorem key_inj {name name' : String} (h : key (name :: trail) = key (name' :: trail)) : name = name' := by
  have htext := congrArg String.toList h
  rw [toList_key, toList_key, List.reverse_cons, List.reverse_cons, List.map_append, List.map_append,
    List.map_singleton, List.map_singleton] at htext
  refine String.toList_injective ?_
  cases hdirs : trail.reverse.map String.toList with
  | nil =>
    rw [hdirs] at htext
    exact htext
  | cons first others =>
    rw [hdirs] at htext
    have hne : first :: others ≠ [] := List.cons_ne_nil _ _
    rw [Text.join_append_singleton hne, Text.join_append_singleton hne] at htext
    exact (List.cons.inj (List.append_cancel_left htext)).2

namespace Written

variable {bytes' : List UInt8} {name : String} {trail' : List String} {f'' : Files}

/-- **Directories stay** where they are when a file is written. -/
theorem opens (h : f.Written path bytes trail f') (s : Spot) (hs : f.item? s = some .directory) :
    f'.item? s = some .directory := by
  match s with
  | .below [] => rfl
  | .below (other :: rest) =>
    -- a directory under the key of the file would have stood where the file was put
    have hkey : key (fileName path :: trail) ≠ key (other :: rest) := by
      intro hkey
      refine h.free ?_
      rw [item?_below, hkey]
      exact hs
    rw [h.files, item?_below, Named.find?_insert, if_neg hkey]
    exact hs
  | .above => rfl
  | .nowhere => cases hs

/-- A walk that ended at the file still does when another one was written. -/
theorem locate_eq (h : f.Written path bytes trail f') {other : String} {t : Spot}
    (hlocated : f.locate other = .ok t) : f'.locate other = .ok t := by
  obtain ⟨hcheck, hwalk⟩ := locate_eq_ok_iff.mp hlocated
  exact locate_eq_ok_iff.mpr ⟨hcheck, walk_of_opens h.opens hwalk⟩

/-- **What was written** is read back. -/
theorem read_eq (h : f.Written path bytes trail f') : f'.read path = .ok bytes := by
  unfold read
  rw [Outcome.bind_of_eq_ok (h.locate_eq h.located), h.files, item?_below, Named.find?_insert, if_pos rfl]
  rfl

/-- A file beside a written one is written in the same directory. -/
theorem beside_located (h : f.Written path bytes trail f') (hname : IsName name)
    (h' : f'.Written (Path.beside path name) bytes' trail' f'') :
    fileName (Path.beside path name) = name ∧ trail' = trail := by
  obtain ⟨base, fillers, hsegments, hfillers, hbeside, habsolute⟩ :=
    Path.exists_segments_beside h.named hname
  have hfile : fileName (Path.beside path name) = name := by
    unfold fileName
    rw [hbeside]
    simp
  refine ⟨hfile, ?_⟩
  -- both walks come to the directory along the same segments
  obtain ⟨-, hwalk⟩ := locate_eq_ok_iff.mp h.located
  rw [hsegments] at hwalk
  obtain ⟨r, habove, -, hr⟩ := exists_above h.named hwalk
  rw [List.foldlM_append] at habove
  obtain ⟨r', hbase, hrest⟩ := Outcome.bind_eq_ok_iff.mp habove
  obtain rfl := walk_fillers hfillers hrest
  obtain ⟨-, hwalk'⟩ := locate_eq_ok_iff.mp h'.located
  rw [hbeside, hfile] at hwalk'
  obtain ⟨r'', habove', -, hr''⟩ := exists_above hname hwalk'
  have hstart : start (Path.beside path name) = start path := by
    unfold start
    rw [habsolute]
  rw [hstart] at habove'
  obtain rfl := Except.ok.inj ((walk_of_opens h.opens hbase).symm.trans habove')
  obtain ⟨rest, rfl, htrail⟩ := Spot.down_eq_below hr.symm
  obtain ⟨rest', hsame, htrail'⟩ := Spot.down_eq_below hr''.symm
  obtain rfl := Spot.below.inj hsame
  exact (List.cons.inj htrail').2.trans (List.cons.inj htrail).2.symm

/-- **A file beside a written one** takes its place only if it has its name. -/
theorem read_beside (h : f.Written path bytes trail f') (hname : IsName name)
    (h' : f'.Written (Path.beside path name) bytes' trail' f'') :
    f''.read path = .ok (if fileName path = name then bytes' else bytes) := by
  obtain ⟨hfile, rfl⟩ := h.beside_located hname h'
  have hkey : key (name :: trail') = key (fileName path :: trail') ↔ fileName path = name :=
    ⟨fun hkey => (key_inj hkey).symm, fun hsame => by rw [hsame]⟩
  unfold read
  rw [Outcome.bind_of_eq_ok (h'.locate_eq (h.locate_eq h.located)), h'.files, hfile, item?_below,
    Named.find?_insert]
  by_cases hsame : fileName path = name
  · rw [if_pos (hkey.mpr hsame), if_pos hsame]
    rfl
  · rw [if_neg (mt hkey.mp hsame), if_neg hsame, h.files, Named.find?_insert, if_pos rfl]
    rfl

end Written

/-- **Trees of files are faithful.** -/
theorem faithful : FileAccess.Faithful Files := by
  have hwritten : ∀ {path bytes} {f f' : Files},
      (FileAccess.write path bytes : StateM Files _) f = (.ok (), f') →
      ∃ trail, f.Written path bytes trail f' := by
    intro path bytes f f' h
    unfold FileAccess.write instFileAccessStateM at h
    dsimp only at h
    split at h
    · rename_i f₁ hwrite
      cases h
      exact write_eq_ok hwrite
    · cases h
  refine ⟨fun path bytes f f' h => ?_, fun path name bytes bytes' f f' f'' hname h h' => ?_⟩
  · obtain ⟨trail, h⟩ := hwritten h
    exact congrArg (·, f') h.read_eq
  · obtain ⟨trail, h⟩ := hwritten h
    obtain ⟨trail', h'⟩ := hwritten h'
    exact congrArg (·, f'') (h.read_beside hname h')

end Files

end TexelFlow
