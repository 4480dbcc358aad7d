import TexelFlow.Proofs.Text.Pieces
import TexelFlow.Store.Path
import Mathlib.Data.List.DropRight

/-!
# Files that stand beside each other

A path ends with the name of its file, and a file beside it has the same path up to that name, but for
segments that name nothing. Such segments are kept in front of the directory's name and dropped behind it.

## Main statements

* `exists_segments_beside` — the segments of a path and of one beside it.

## §1 — names of files
## §2 — paths beside each other
-/

namespace TexelFlow

/-! ## §1 — names of files -/

namespace Path

/-- A name of a file: it is not empty, no point or pair of points, and has no slash. -/
structure IsName (name : String) : Prop where
  /-- There is no slash in it. -/
  plain : '/' ∉ name.toList
  /-- It names something. -/
  not_filler : isFiller name.toList = false
  /-- It is not the directory above. -/
  not_above : name.toList ≠ ['.', '.']

/-- The name of the file that a path leads to. -/
def fileName (path : String) : String := String.ofList ((segments path).getLast?.getD [])

variable {path name : String}

theorem IsName.ne_nil (h : IsName name) : name.toList ≠ [] := by
  intro hnil
  have := h.not_filler
  rw [hnil] at this
  cases this

theorem not_mem_segment {segment : List Char} (h : segment ∈ segments path) : '/' ∉ segment :=
  Text.not_mem_of_mem_pieces h

/-- The segments of a path end with the name of its file. -/
theorem exists_segments (path : String) : ∃ above, segments path = above ++ [(fileName path).toList] := by
  have hne : segments path ≠ [] := Text.pieces_ne_nil _ _
  refine ⟨(segments path).dropLast, ?_⟩
  unfold fileName
  rw [List.getLast?_eq_some_getLast hne, Option.getD_some, String.toList_ofList,
    List.dropLast_append_getLast]

theorem segments_of_name (h : '/' ∉ name.toList) : segments name = [name.toList] :=
  Text.pieces_of_not_mem h

theorem not_isAbsolute_of_name (h : '/' ∉ name.toList) : isAbsolute name = false := by
  unfold isAbsolute
  rw [decide_eq_false_iff_not]
  intro hhead
  exact h (List.mem_of_head? hhead)

theorem toList_eq_join (path : String) : path.toList = Text.join '/' (segments path) :=
  (Text.join_pieces _ _).symm

/-- A path is absolute if its first segment of several is empty. -/
theorem isAbsolute_eq {head : List Char} {rest : List (List Char)} (h : segments path = head :: rest)
    (hrest : rest ≠ []) : isAbsolute path = decide (head = []) := by
  have hhead : '/' ∉ head := not_mem_segment (show head ∈ segments path from h ▸ List.mem_cons_self)
  obtain ⟨second, others, rfl⟩ := List.exists_cons_of_ne_nil hrest
  unfold isAbsolute
  rw [toList_eq_join, h, Text.join_cons_cons]
  cases head with
  | nil => rfl
  | cons c more =>
    have hc : c ≠ '/' := fun hc => hhead (hc ▸ List.mem_cons_self)
    simp [hc]

/-! ## §2 — paths beside each other -/

/-- A path seen from a directory that is not the root has one segment more. -/
theorem segments_within {ps : List (List Char)} {last : List Char}
    (hplain : ∀ piece ∈ ps ++ [last], '/' ∉ piece)
    (hlast : last ≠ []) (hname : '/' ∉ name.toList) :
    segments (within (String.ofList (Text.join '/' (ps ++ [last]))) name) = ps ++ [last] ++ [name.toList] := by
  have hend : (Text.join '/' (ps ++ [last])).getLast? ≠ some '/' := by
    rw [Text.getLast?_join hlast]
    intro h
    exact hplain last (by simp) (List.mem_of_getLast? h)
  have hne : String.ofList (Text.join '/' (ps ++ [last])) ≠ "" := by
    intro h
    have hnil := congrArg String.toList h
    rw [String.toList_ofList] at hnil
    have hlast' : (Text.join '/' (ps ++ [last])).getLast? = last.getLast? := Text.getLast?_join hlast
    rw [hnil] at hlast'
    exact hlast (List.getLast?_eq_none_iff.mp hlast'.symm)
  unfold within
  rw [not_isAbsolute_of_name hname, if_neg Bool.false_ne_true, String.toList_ofList,
    if_neg (by simp [hne, hend])]
  unfold segments
  rw [String.toList_append, String.toList_append, String.toList_ofList]
  have hjoin : Text.join '/' (ps ++ [last]) ++ "/".toList ++ name.toList =
      Text.join '/' (ps ++ [last] ++ [name.toList]) := by
    rw [Text.join_append_singleton (List.append_ne_nil_of_right_ne_nil ps (List.cons_ne_nil last [])),
      List.append_assoc]
    rfl
  rw [hjoin]
  refine Text.pieces_join (fun piece hpiece => ?_) (by simp)
  rcases List.mem_append.mp hpiece with hpiece | hpiece
  · exact hplain piece hpiece
  · exact List.mem_singleton.mp hpiece ▸ hname

/-- The directory of a path that is a name is the one where paths start. -/
theorem directory_of_single {last : List Char} (h : segments path = [last]) (hlast : last ≠ []) :
    directory path = "" := by
  unfold directory parent?
  rw [h]
  dsimp only
  rw [List.reverse_nil, List.dropWhile_nil]
  dsimp only
  rw [if_neg hlast]
  rfl

/-- The directory of a path is what stands in front of its name, but for segments that name nothing. -/
theorem directory_of_append {head last : List Char} {mid : List (List Char)}
    (h : segments path = head :: (mid ++ [last])) (hlast : isFiller last = false) :
    directory path = if head = [] ∧ mid.rdropWhile isFiller = [] then "/"
      else String.ofList (Text.join '/' (head :: mid.rdropWhile isFiller)) := by
  unfold directory parent?
  rw [h]
  dsimp only
  rw [List.reverse_append, List.reverse_singleton, List.singleton_append,
    List.dropWhile_cons_of_neg (by rw [hlast]; decide)]
  dsimp only
  change (if (decide (head = []) && decide (mid.rdropWhile isFiller = [])) = true then some "/"
    else some (String.ofList (Text.join '/' (head :: mid.rdropWhile isFiller)))).getD "." = _
  by_cases hroot : head = [] ∧ mid.rdropWhile isFiller = []
  · rw [if_pos (by simpa using hroot), if_pos hroot]
    rfl
  · rw [if_neg (by simpa using hroot), if_neg hroot]
    rfl

section Segments

variable {head last : List Char} {mid : List (List Char)}

/-- Beside a path that is a name there is a name. -/
theorem beside_single (h : segments path = [last]) (hlast : last ≠ []) (hname : '/' ∉ name.toList) :
    beside path name = name := by
  unfold beside within
  rw [directory_of_single h hlast, not_isAbsolute_of_name hname]
  exact String.empty_append

variable (h : segments path = head :: (mid ++ [last])) (hlast : isFiller last = false)
  (hname : '/' ∉ name.toList)
include h hlast hname

/-- Beside a file in the root. -/
theorem segments_beside_root (hroot : head = [] ∧ mid.rdropWhile isFiller = []) :
    segments (beside path name) = [[], name.toList] := by
  unfold beside within
  rw [directory_of_append h hlast, if_pos hroot, not_isAbsolute_of_name hname, if_neg Bool.false_ne_true,
    if_pos (by decide)]
  have hslash : ("/" ++ name).toList = [] ++ '/' :: name.toList := String.toList_append
  unfold segments
  rw [hslash, Text.pieces_append List.not_mem_nil, Text.pieces_of_not_mem hname]

/-- Beside a file in a directory that has a name, segments that name nothing behind it left out. -/
theorem segments_beside_named (hroot : ¬ (head = [] ∧ mid.rdropWhile isFiller = [])) :
    segments (beside path name) = head :: mid.rdropWhile isFiller ++ [name.toList] := by
  have hplain : ∀ piece ∈ head :: mid.rdropWhile isFiller, '/' ∉ piece := by
    intro piece hpiece
    refine not_mem_segment (show piece ∈ segments path from h ▸ ?_)
    rcases List.mem_cons.mp hpiece with rfl | hpiece
    · exact List.mem_cons_self
    · exact List.mem_cons_of_mem _ (List.mem_append_left _ ((List.rdropWhile_prefix _ _).subset hpiece))
  -- the last segment that is kept names something
  obtain ⟨ps, final, hdirs, hfinal⟩ :
      ∃ ps final, head :: mid.rdropWhile isFiller = ps ++ [final] ∧ final ≠ [] := by
    by_cases hkept : mid.rdropWhile isFiller = []
    · exact ⟨[], head, by rw [hkept]; rfl, fun hhead => hroot ⟨hhead, hkept⟩⟩
    · refine ⟨head :: (mid.rdropWhile isFiller).dropLast, (mid.rdropWhile isFiller).getLast hkept, ?_, ?_⟩
      · rw [List.cons_append, List.dropLast_append_getLast]
      · intro hnil
        have hend := List.rdropWhile_last_not isFiller mid hkept
        rw [hnil] at hend
        exact hend rfl
  unfold beside
  rw [directory_of_append h hlast, if_neg hroot]
  rw [hdirs] at hplain ⊢
  exact segments_within hplain hfinal hname

end Segments

/-- **The segments of a path and of one beside it** are alike up to their names and segments that name
nothing, and both paths are absolute or none is. -/
theorem exists_segments_beside (hpath : IsName (fileName path)) (hname : IsName name) :
    ∃ base fillers, segments path = base ++ fillers ++ [(fileName path).toList] ∧
      (∀ segment ∈ fillers, isFiller segment = true) ∧
      segments (beside path name) = base ++ [name.toList] ∧
      isAbsolute (beside path name) = isAbsolute path := by
  obtain ⟨above, hsegments⟩ := exists_segments path
  cases above with
  | nil =>
    have hbeside := beside_single hsegments hpath.ne_nil hname.plain
    have hplain : '/' ∉ path.toList := by
      rw [toList_eq_join, hsegments]
      exact hpath.plain
    rw [hbeside]
    refine ⟨[], [], hsegments, fun _ h => absurd h List.not_mem_nil, segments_of_name hname.plain, ?_⟩
    rw [not_isAbsolute_of_name hname.plain, not_isAbsolute_of_name hplain]
  | cons head mid =>
    by_cases hroot : head = [] ∧ mid.rdropWhile isFiller = []
    · have hbeside := segments_beside_root hsegments hpath.not_filler hname.plain hroot
      obtain ⟨rfl, hmid⟩ := hroot
      refine ⟨[[]], mid, hsegments, List.rdropWhile_eq_nil_iff.mp hmid, hbeside, ?_⟩
      rw [isAbsolute_eq hbeside (by simp), isAbsolute_eq hsegments (by simp)]
    · have hbeside := segments_beside_named hsegments hpath.not_filler hname.plain hroot
      refine ⟨head :: mid.rdropWhile isFiller, mid.rtakeWhile isFiller, ?_,
        fun _ h => List.mem_rtakeWhile_imp h, hbeside, ?_⟩
      · rw [hsegments]
        exact congrArg (head :: · ++ _) List.rdropWhile_append_rtakeWhile.symm
      · rw [isAbsolute_eq hbeside (by simp), isAbsolute_eq hsegments (by simp)]

end Path

end TexelFlow
