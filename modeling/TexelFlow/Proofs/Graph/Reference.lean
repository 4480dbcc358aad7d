import Mathlib.Data.Finset.Card
import Mathlib.Data.Finset.Dedup
import TexelFlow.Graph.Reference
import TexelFlow.Proofs.Named
import TexelFlow.Proofs.Outcome
import TexelFlow.Proofs.Text.Numeral
import TexelFlow.Proofs.Text.Pieces

/-!
# The grammar of references

A text has one part, two parts or three, with colons between them, or it has too many colons. Where it has more
than one part the last one must be a numeral, and that is all that can be wrong with it: parts may be empty, and
a numeral may have a sign and leading zeros. Colons and numerals share no character, so a text is a spelling of
one reference at most, and printing a reference whose names have no colon gives one.

A memo holds exactly the texts that were read through it and could be, each with its reference. Whatever was
read before, reading through it is reading.

## Main statements

* `parse_eq_ok_iff`, `parse_eq_error_iff` — what is read, what is refused, and why.
* `parse_print` — what is printed is read back.
* `Memo.find?_after` — what a memo holds after a sequence of readings.
* `read_by_grammar` — references are read by their grammar, with a memo or without.

## §1 — the parts of a text
## §2 — spellings
## §3 — readings through a memo
## §4 — references are read by their grammar
-/

namespace TexelFlow.Reference

variable {text node output index : String} {r : Reference}

/-! ## §1 — the parts of a text -/

/-- The colons of a text. -/
def colons (text : String) : Nat := text.toList.count ':'

/-- What stands behind the last colon of a text. -/
def behindColon (text : String) : List Char := text.toList.rtakeWhile (· ≠ ':')

/-- A text by its parts, which have no colon, as far as a reference has parts. -/
inductive Parts : String → Prop
  | one {node : String} (hnode : ':' ∉ node.toList) : Parts node
  | two {node index : String} (hnode : ':' ∉ node.toList) (hindex : ':' ∉ index.toList) :
      Parts (node ++ ":" ++ index)
  | three {node output index : String} (hnode : ':' ∉ node.toList) (houtput : ':' ∉ output.toList)
      (hindex : ':' ∉ index.toList) : Parts (node ++ ":" ++ output ++ ":" ++ index)
  | more {text : String} (h : 2 < colons text) : Parts text

theorem toList_append_colon (front back : String) :
    (front ++ ":" ++ back).toList = front.toList ++ ':' :: back.toList := by
  rw [String.toList_append, String.toList_append, List.append_assoc]
  rfl

theorem colons_eq_zero (h : ':' ∉ text.toList) : colons text = 0 := List.count_eq_zero.mpr h

theorem colons_append (front back : String) :
    colons (front ++ ":" ++ back) = colons front + colons back + 1 := by
  unfold colons
  rw [toList_append_colon, List.count_append, List.count_cons_self, Nat.add_assoc]

theorem behindColon_append (front : String) (h : ':' ∉ index.toList) :
    behindColon (front ++ ":" ++ index) = index.toList := by
  unfold behindColon
  rw [toList_append_colon]
  exact Text.rtakeWhile_append _ h

theorem pieces_two (hnode : ':' ∉ node.toList) (hindex : ':' ∉ index.toList) :
    Text.pieces ':' (node ++ ":" ++ index).toList = [node.toList, index.toList] := by
  rw [toList_append_colon, Text.pieces_append hnode, Text.pieces_of_not_mem hindex]

theorem pieces_three (hnode : ':' ∉ node.toList) (houtput : ':' ∉ output.toList)
    (hindex : ':' ∉ index.toList) :
    Text.pieces ':' (node ++ ":" ++ output ++ ":" ++ index).toList =
      [node.toList, output.toList, index.toList] := by
  rw [toList_append_colon, toList_append_colon, List.append_assoc, List.cons_append,
    Text.pieces_append hnode, Text.pieces_append houtput, Text.pieces_of_not_mem hindex]

/-- **Every text** has one part, two or three, or too many colons. -/
theorem parts (text : String) : Parts text := by
  have hcut := Text.pieces_eq_iff.mp (Eq.refl (Text.pieces ':' text.toList))
  have hlength : (Text.pieces ':' text.toList).length = colons text + 1 := Text.length_pieces _ _
  generalize Text.pieces ':' text.toList = pieces at hcut hlength
  obtain ⟨hne, hplain, hjoin⟩ := hcut
  match pieces with
  | [] => exact absurd rfl hne
  | [node] =>
    exact .one (hjoin ▸ hplain node List.mem_cons_self)
  | [node, index] =>
    have htext : text = String.ofList node ++ ":" ++ String.ofList index := by
      rw [← String.toList_inj, toList_append_colon, String.toList_ofList, String.toList_ofList, ← hjoin]
      rfl
    rw [htext]
    exact .two (by simpa using hplain node (by simp)) (by simpa using hplain index (by simp))
  | [node, output, index] =>
    have htext : text = String.ofList node ++ ":" ++ String.ofList output ++ ":" ++ String.ofList index := by
      rw [← String.toList_inj, toList_append_colon, toList_append_colon, String.toList_ofList,
        String.toList_ofList, String.toList_ofList, ← hjoin, List.append_assoc]
      rfl
    rw [htext]
    exact .three (by simpa using hplain node (by simp)) (by simpa using hplain output (by simp))
      (by simpa using hplain index (by simp))
  | _ :: _ :: _ :: _ :: _ =>
    refine .more ?_
    rw [List.length_cons, List.length_cons, List.length_cons, List.length_cons] at hlength
    omega

/-! ## §2 — spellings -/

/-- **The grammar of references**: the texts that spell each. Names have no colon and may be empty. -/
inductive Spelling : String → Reference → Prop
  /-- The node alone, whose first output is meant. -/
  | alone {node : String} (hnode : ':' ∉ node.toList) : Spelling node ⟨node, 0, none⟩
  /-- The node and the index of an output. -/
  | indexed {node index : String} {n : Nat} (hnode : ':' ∉ node.toList)
      (hindex : Size.Numeral index.toList n) : Spelling (node ++ ":" ++ index) ⟨node, n, none⟩
  /-- The node, the name of an output and its index. -/
  | named {node output index : String} {n : Nat} (hnode : ':' ∉ node.toList) (houtput : ':' ∉ output.toList)
      (hindex : Size.Numeral index.toList n) :
      Spelling (node ++ ":" ++ output ++ ":" ++ index) ⟨node, n, some output⟩

theorem not_mem_numeral {n : Nat} (h : Size.Numeral index.toList n) : ':' ∉ index.toList :=
  h.not_mem (by decide) (by decide)

theorem readIndex_eq_ok_iff {digits : List Char} {n : Nat} :
    readIndex text digits = .ok n ↔ Size.Numeral digits n := by
  have hparse : Size.parse (String.ofList digits) = .ok n ↔ Size.Numeral digits n := by
    rw [Size.parse_eq_ok_iff, String.toList_ofList]
  rw [← hparse]
  unfold readIndex
  split
  · rename_i h
    rw [h]
    simp
  · rename_i h
    rw [h]
    simp

theorem readIndex_eq_error_iff {digits : List Char} {e : Error} : readIndex text digits = .error e ↔
    (¬ ∃ n, Size.Numeral digits n) ∧ e = .graph (.badReference text .index) := by
  have hok : ∀ n, readIndex text digits = .ok n ↔ Size.Numeral digits n := fun _ => readIndex_eq_ok_iff
  unfold readIndex at hok ⊢
  split
  · rename_i n h
    rw [h] at hok
    exact iff_of_false (by simp) fun hnone => hnone.1 ⟨n, (hok n).mp rfl⟩
  · rename_i h
    rw [h] at hok
    constructor
    · intro he
      refine ⟨?_, (Except.error.inj he).symm⟩
      rintro ⟨n, hn⟩
      cases (hok n).mpr hn
    · rintro ⟨-, rfl⟩
      rfl

/-- A text without a colon is the reference to its node. -/
theorem parse_of_not_mem (hnode : ':' ∉ node.toList) : parse node = .ok (.first node) := by
  unfold parse
  rw [Text.pieces_of_not_mem hnode]
  dsimp only
  rw [String.ofList_toList]

theorem parse_two (hnode : ':' ∉ node.toList) (hindex : ':' ∉ index.toList) :
    parse (node ++ ":" ++ index) =
      readIndex (node ++ ":" ++ index) index.toList >>= fun n => pure ⟨node, n, none⟩ := by
  unfold parse
  rw [pieces_two hnode hindex]
  dsimp only
  rw [String.ofList_toList]

theorem parse_three (hnode : ':' ∉ node.toList) (houtput : ':' ∉ output.toList)
    (hindex : ':' ∉ index.toList) :
    parse (node ++ ":" ++ output ++ ":" ++ index) =
      readIndex (node ++ ":" ++ output ++ ":" ++ index) index.toList >>= fun n =>
        pure ⟨node, n, some output⟩ := by
  unfold parse
  rw [pieces_three hnode houtput hindex]
  dsimp only
  rw [String.ofList_toList, String.ofList_toList]

theorem parse_more (h : 2 < colons text) : parse text = .error (.graph (.badReference text .parts)) := by
  have hlength : (Text.pieces ':' text.toList).length = colons text + 1 := Text.length_pieces _ _
  unfold parse
  split
  case h_4 => rfl
  all_goals
    rename_i hpieces
    rw [hpieces] at hlength
    simp only [List.length_cons, List.length_nil] at hlength
    omega

/-- **A text is read** to the reference it is a spelling of, and to no other. -/
theorem parse_eq_ok_iff : parse text = .ok r ↔ Spelling text r := by
  constructor
  · intro h
    cases parts text with
    | one hnode =>
      rw [parse_of_not_mem hnode] at h
      obtain rfl := Except.ok.inj h
      exact .alone hnode
    | two hnode hindex =>
      rw [parse_two hnode hindex] at h
      obtain ⟨n, hn, h⟩ := Outcome.bind_eq_ok_iff.mp h
      obtain rfl := Outcome.pure_eq_ok_iff.mp h
      exact .indexed hnode (readIndex_eq_ok_iff.mp hn)
    | three hnode houtput hindex =>
      rw [parse_three hnode houtput hindex] at h
      obtain ⟨n, hn, h⟩ := Outcome.bind_eq_ok_iff.mp h
      obtain rfl := Outcome.pure_eq_ok_iff.mp h
      exact .named hnode houtput (readIndex_eq_ok_iff.mp hn)
    | more hcolons =>
      rw [parse_more hcolons] at h
      cases h
  · intro h
    cases h with
    | alone hnode => exact parse_of_not_mem hnode
    | indexed hnode hindex =>
      rw [parse_two hnode (not_mem_numeral hindex), readIndex_eq_ok_iff.mpr hindex]
      rfl
    | named hnode houtput hindex =>
      rw [parse_three hnode houtput (not_mem_numeral hindex), readIndex_eq_ok_iff.mpr hindex]
      rfl

/-- A text with one or two colons needs a numeral behind the last one, and lacks it. -/
def LacksIndex (text : String) : Prop :=
  (colons text = 1 ∨ colons text = 2) ∧ ¬ ∃ n, Size.Numeral (behindColon text) n

/-- **A text is refused** for its index or for its colons. -/
theorem parse_eq_error_iff {e : Error} : parse text = .error e ↔
    LacksIndex text ∧ e = .graph (.badReference text .index) ∨
      2 < colons text ∧ e = .graph (.badReference text .parts) := by
  unfold LacksIndex
  cases parts text with
  | one hnode =>
    rw [parse_of_not_mem hnode, colons_eq_zero hnode]
    simp
  | two hnode hindex =>
    rw [parse_two hnode hindex, Outcome.bind_eq_error_iff, readIndex_eq_error_iff,
      behindColon_append _ hindex, colons_append, colons_eq_zero hnode, colons_eq_zero hindex]
    simp
  | three hnode houtput hindex =>
    rw [parse_three hnode houtput hindex, Outcome.bind_eq_error_iff, readIndex_eq_error_iff,
      behindColon_append _ hindex, colons_append, colons_append, colons_eq_zero hnode,
      colons_eq_zero houtput, colons_eq_zero hindex]
    simp
  | more hcolons =>
    rw [parse_more hcolons]
    have hmany : ¬ (colons text = 1 ∨ colons text = 2) := by omega
    simp only [hmany, hcolons, false_and, false_or, true_and, Except.error.injEq]
    exact eq_comm

/-- A text is read when it has no colon, or one or two and a numeral behind the last one. -/
theorem exists_parse_iff : (∃ r, parse text = .ok r) ↔
    colons text = 0 ∨ (colons text = 1 ∨ colons text = 2) ∧ ∃ n, Size.Numeral (behindColon text) n := by
  have hrefused : (∃ r, parse text = .ok r) ↔ ¬ ∃ e, parse text = .error e := by
    cases parse text with
    | ok r => simp
    | error e => simp
  simp only [hrefused, parse_eq_error_iff, LacksIndex, exists_or, exists_and_left, exists_eq, and_true]
  by_cases hnumeral : ∃ n, Size.Numeral (behindColon text) n
  · simp only [hnumeral, not_true_eq_false, and_false, false_or, and_true]
    omega
  · simp only [hnumeral, not_false_eq_true, and_true, and_false, or_false]
    omega

/-- A reference that can be printed: names without a colon, and an index that a word holds. -/
structure Printable (r : Reference) : Prop where
  /-- There is no colon in the name of the node. -/
  node : ':' ∉ r.node.toList
  /-- There is none in the name of the output. -/
  output : ∀ output, r.output = some output → ':' ∉ output.toList
  /-- A word holds the index. -/
  index : r.index < Size.modulus

/-- What is printed is a spelling. -/
theorem Printable.spelling (h : r.Printable) : Spelling r.print r := by
  obtain ⟨node, index, output⟩ := r
  have hindex := Size.numeral_toString h.index
  cases output with
  | none => exact .indexed h.node hindex
  | some output => exact .named h.node (h.output output rfl) hindex

/-- **What is printed is read back.** -/
theorem parse_print (h : r.Printable) : parse r.print = .ok r := parse_eq_ok_iff.mpr h.spelling

/-! ## §3 — readings through a memo -/

namespace Memo

variable {m : Memo} {texts : List String} {key : String}

/-- The memo that readings leave behind, one after the other. -/
def after (m : Memo) (texts : List String) : Memo := texts.foldl (fun m text => (m.parse text).2) m

/-- What readings give, one after the other. -/
def answers (m : Memo) : List String → List (Outcome Reference)
  | [] => []
  | text :: rest => (m.parse text).1 :: answers (m.parse text).2 rest

/-- What cannot be read leaves the memo. -/
theorem parse_of_error {e : Error} (h : Reference.parse text = .error e) (m : Memo) :
    m.parse text = (.error e, m) := by
  have hnew : m.known.find? text = none := by
    rw [Option.eq_none_iff_forall_ne_some]
    intro r hr
    have := m.faithful text r hr
    rw [h] at this
    cases this
  unfold Memo.parse
  split
  · rename_i hr
    rw [hnew] at hr
    cases hr
  · split
    · rename_i e' he
      rw [h] at he
      rw [Except.error.inj he]
    · rename_i he
      rw [h] at he
      cases he

/-- **A reading** adds its text and the reference that is read, and nothing else. -/
theorem find?_parse (m : Memo) (text key : String) : (m.parse text).2.known.find? key =
    if text = key then (Reference.parse text).toOption else m.known.find? key := by
  unfold Memo.parse
  split
  · rename_i r hr
    split
    · rename_i hkey
      rw [← hkey, hr, m.faithful text r hr]
      rfl
    · rfl
  · rename_i hnew
    split
    · rename_i e he
      split
      · rename_i hkey
        rw [← hkey, hnew, he]
        rfl
      · rfl
    · rename_i r hr
      rw [Named.find?_insert, hr]
      rfl

/-- Readings through a memo give what readings give. -/
theorem answers_eq (m : Memo) (texts : List String) : m.answers texts = texts.map Reference.parse := by
  induction texts generalizing m with
  | nil => rfl
  | cons text rest ih => rw [answers, ih, parse_fst, List.map_cons]

/-- **After a sequence of readings** a memo holds what was read in it, beside what it held. -/
theorem find?_after (m : Memo) (texts : List String) (key : String) : (m.after texts).known.find? key =
    if key ∈ texts then (Reference.parse key).toOption else m.known.find? key := by
  induction texts generalizing m with
  | nil => rfl
  | cons text rest ih =>
    have hafter : m.after (text :: rest) = (m.parse text).2.after rest := rfl
    rw [hafter, ih, find?_parse]
    by_cases hrest : key ∈ rest
    · rw [if_pos hrest, if_pos (List.mem_cons_of_mem _ hrest)]
    · rw [if_neg hrest]
      by_cases hkey : text = key
      · rw [if_pos hkey, if_pos (hkey ▸ List.mem_cons_self), hkey]
      · rw [if_neg hkey, if_neg (List.not_mem_cons_of_ne_of_not_mem (Ne.symm hkey) hrest)]

/-- The names of a memo that was empty are the texts that could be read. -/
theorem mem_names_after : key ∈ (after .empty texts).known.names ↔
    key ∈ texts ∧ (Reference.parse key).isOk := by
  have hisSome : (Reference.parse key).toOption.isSome = (Reference.parse key).isOk := by
    cases Reference.parse key with
    | ok r => rfl
    | error e => rfl
  rw [Named.mem_names_iff, Named.contains, find?_after, ← hisSome]
  by_cases hkey : key ∈ texts
  · simp only [hkey, if_true, true_and]
  · simp [hkey, empty]

/-- **A memo has as many references** as different texts that could be read. -/
theorem size_after (texts : List String) :
    (after .empty texts).size = (texts.filter fun text => (Reference.parse text).isOk).toFinset.card := by
  have hnames : (after .empty texts).known.names.toFinset =
      (texts.filter fun text => (Reference.parse text).isOk).toFinset := by
    ext key
    rw [List.mem_toFinset, List.mem_toFinset, List.mem_filter, mem_names_after]
  rw [← hnames, List.toFinset_card_of_nodup (Named.names_nodup _), Named.names, List.length_map]
  rfl

end Memo

/-! ## §4 — references are read by their grammar -/

/-- What reading promises about a text. -/
structure Grammatical (text : String) : Prop where
  /-- It is read exactly when it has no colon, or one or two and a numeral behind the last one. -/
  accepted : (∃ r, parse text = .ok r) ↔
    colons text = 0 ∨ (colons text = 1 ∨ colons text = 2) ∧ ∃ n, Size.Numeral (behindColon text) n
  /-- It is read to the reference it is a spelling of. -/
  read : ∀ r, parse text = .ok r ↔ Spelling text r
  /-- It is refused for its index where it lacks one, and else for its colons. -/
  refused : ∀ e, parse text = .error e ↔
    LacksIndex text ∧ e = .graph (.badReference text .index) ∨
      2 < colons text ∧ e = .graph (.badReference text .parts)

/-- What a memo promises to a sequence of readings on it. -/
structure Memo.Transparent (texts : List String) : Prop where
  /-- Every reading gives what it gives without a memo. -/
  alike : answers .empty texts = texts.map Reference.parse
  /-- A reading behind them that fails leaves the memo. -/
  failed : ∀ text e, ((after .empty texts).parse text).1 = .error e →
    ((after .empty texts).parse text).2 = after .empty texts
  /-- There are as many references as different texts that could be read. -/
  size : (after .empty texts).size = (texts.filter fun text => (Reference.parse text).isOk).toFinset.card

theorem Memo.transparent_texts (texts : List String) : Memo.Transparent texts := by
  refine ⟨answers_eq _ _, fun text e h => ?_, size_after texts⟩
  rw [parse_fst] at h
  rw [parse_of_error h]

/-- **References are read by their grammar**, each text by itself; what is printed is read back; and a memo makes
no difference, whatever sequence of texts is read through it. -/
theorem read_by_grammar :
    (∀ text, Grammatical text) ∧
    (∀ r : Reference, r.Printable → parse r.print = .ok r) ∧
    ∀ texts : List String, Memo.Transparent texts :=
  ⟨fun _ => ⟨exists_parse_iff, fun _ => parse_eq_ok_iff, fun _ => parse_eq_error_iff⟩,
    fun _ => parse_print, Memo.transparent_texts⟩

/-- An output without a name, its index with a sign and leading zeros, and a memo that is asked for it in two
spellings and for what is no reference. -/
theorem spellings_read :
    parse "split::+007" = .ok ⟨"split", 7, some ""⟩ ∧
    Printable ⟨"split", 7, some ""⟩ ∧ parse (print ⟨"split", 7, some ""⟩) = .ok ⟨"split", 7, some ""⟩ ∧
    (Memo.after .empty ["split::+007", "split:x", "split::7", "split::+007"]).size = 2 ∧
    ((Memo.after .empty ["split::+007"]).parse "split:x").1 =
      .error (.graph (.badReference "split:x" .index)) ∧
    ((Memo.after .empty ["split::+007"]).parse "split:x").2 = Memo.after .empty ["split::+007"] := by
  obtain ⟨htexts, hprinted, hmemos⟩ := read_by_grammar
  have hindex : Size.Numeral "+007".toList 7 := Size.parse_eq_ok_iff.mp (by decide)
  have hspelling : Spelling ("split" ++ ":" ++ "" ++ ":" ++ "+007") ⟨"split", 7, some ""⟩ :=
    .named (by decide) (by decide) hindex
  have htext : "split" ++ ":" ++ "" ++ ":" ++ "+007" = "split::+007" := by decide
  have hprintable : Printable ⟨"split", 7, some ""⟩ :=
    ⟨by decide, fun output h => Option.some.inj h ▸ by decide, by decide⟩
  have hfails : ((Memo.after .empty ["split::+007"]).parse "split:x").1 =
      .error (.graph (.badReference "split:x" .index)) := by
    rw [Memo.parse_fst]
    decide
  rw [htext] at hspelling
  exact ⟨((htexts _).read _).mpr hspelling, hprintable, hprinted _ hprintable,
    (hmemos _).size.trans (by decide), hfails, (hmemos _).failed _ _ hfails⟩

end TexelFlow.Reference
