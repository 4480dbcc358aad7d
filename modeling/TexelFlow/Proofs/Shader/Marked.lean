import TexelFlow.Shader.Program
import TexelFlow.Proofs.Outcome
import Mathlib.Data.List.Basic

/-!
# What the text of a shader tells its pipeline

A pipeline is told of slots, stages and targets by attributes, and an attribute starts with an at-sign.
The character behind it already says which attribute it is: a group and a binding for every slot, and a
location for every target. So the marks of a text, which are these characters in their order, count its
slots and its targets, whatever else the text holds. Names, numbers and operators have no at-sign, which
is read off the tree of a shader part by part.

## Main statements

* `Decl.text_marked`, `Shader.text_marked` — the marks of a text are those of its tree.
* `shader_tells` — the marks of the shader of a pass.
* `shader_text_injective` — shaders of one text read equally many textures and write equally many targets.

## §1 — marks
## §2 — numbers
## §3 — trees without at-signs
## §4 — the marks of a tree
## §5 — the marks of the shader of a pass
-/

namespace TexelFlow.Wgsl

/-! ## §1 — marks -/

/-- The characters behind the at-signs of a text. -/
def marks : List Char → List Char
  | [] => []
  | c :: rest => (if c = '@' then rest.take 1 else []) ++ marks rest

/-- A text without at-signs. -/
def Unmarked (text : String) : Prop := '@' ∉ text.toList

instance (text : String) : Decidable (Unmarked text) := inferInstanceAs (Decidable (_ ∉ _))

/-- A text has these marks, in front of whatever follows it. -/
def Marked (text : String) (ms : List Char) : Prop :=
  ∀ rest, marks (text.toList ++ rest) = ms ++ marks rest

variable {a b : String} {ms ms' : List Char} {texts : List String}

theorem Marked.append (ha : Marked a ms) (hb : Marked b ms') : Marked (a ++ b) (ms ++ ms') := by
  intro rest
  rw [String.toList_append, List.append_assoc, ha, hb, List.append_assoc]

theorem Unmarked.marked (h : Unmarked a) : Marked a [] := by
  unfold Unmarked at h
  unfold Marked
  generalize a.toList = text at h
  intro rest
  induction text with
  | nil => rfl
  | cons c text ih =>
    rw [List.mem_cons, not_or] at h
    rw [List.cons_append, marks, if_neg (Ne.symm h.1), ih h.2]
    rfl

/-- The marks of a text are its own. -/
theorem Marked.eq (h : Marked a ms) : marks a.toList = ms := by
  have := h []
  rwa [List.append_nil, marks, List.append_nil] at this

theorem unmarked_append : Unmarked (a ++ b) ↔ Unmarked a ∧ Unmarked b := by
  unfold Unmarked
  rw [String.toList_append, List.mem_append, not_or]

theorem unmarked_join : Unmarked (String.join texts) ↔ ∀ t ∈ texts, Unmarked t := by
  unfold Unmarked
  rw [String.toList_join, List.mem_flatMap]
  simp only [not_exists, not_and]

theorem unmarked_intercalate (ha : Unmarked a) (h : ∀ t ∈ texts, Unmarked t) :
    Unmarked (a.intercalate texts) := by
  induction texts with
  | nil => exact (by decide : Unmarked "")
  | cons t texts ih =>
    have hrest := ih fun t ht => h t (List.mem_cons_of_mem _ ht)
    cases texts with
    | nil => rw [String.intercalate_singleton]; exact h t List.mem_cons_self
    | cons u texts =>
      rw [String.intercalate_cons_cons, unmarked_append, unmarked_append]
      exact ⟨⟨h t List.mem_cons_self, ha⟩, hrest⟩

/-- Capitals are letters. -/
theorem toUpper_eq_at {c : Char} (h : c.toUpper = '@') : c = '@' := by
  unfold Char.toUpper at h
  split at h
  · rename_i hc
    have hval := congrArg (fun d => d.val.toNat) h
    have hlow := UInt32.le_iff_toNat_le.mp hc.1
    have hhigh := UInt32.le_iff_toNat_le.mp hc.2
    simp at hval hlow hhigh
    omega
  · exact h

theorem unmarked_toUpper (h : Unmarked a) : Unmarked (a.map Char.toUpper) := by
  unfold Unmarked at h ⊢
  rw [String.toList_map]
  intro hmem
  obtain ⟨c, hc, hat⟩ := List.mem_map.mp hmem
  rw [toUpper_eq_at hat] at hc
  exact h hc

theorem Marked.append_unmarked (ha : Marked a ms) (hb : Unmarked b) : Marked (a ++ b) ms := by
  have := ha.append hb.marked
  rwa [List.append_nil] at this

theorem Unmarked.append_marked (ha : Unmarked a) (hb : Marked b ms) : Marked (a ++ b) ms :=
  ha.marked.append hb

section Lists

variable {α : Type} {xs : List α} {text : α → String} {part : α → List Char}

theorem marked_join (h : ∀ x ∈ xs, Marked (text x) (part x)) :
    Marked (String.join (xs.map text)) (xs.flatMap part) := by
  induction xs with
  | nil => exact (by decide : Unmarked "").marked
  | cons x xs ih =>
    rw [List.map_cons, String.join_cons, List.flatMap_cons]
    exact (h x List.mem_cons_self).append (ih fun y hy => h y (List.mem_cons_of_mem _ hy))

theorem marked_intercalate (ha : Unmarked a) (h : ∀ x ∈ xs, Marked (text x) (part x)) :
    Marked (a.intercalate (xs.map text)) (xs.flatMap part) := by
  induction xs with
  | nil => exact (by decide : Unmarked "").marked
  | cons x xs ih =>
    have hx := h x List.mem_cons_self
    have hrest := ih fun y hy => h y (List.mem_cons_of_mem _ hy)
    cases xs with
    | nil => rwa [List.map_singleton, String.intercalate_singleton, List.flatMap_singleton]
    | cons y xs =>
      rw [List.map_cons, List.map_cons, String.intercalate_cons_cons, List.flatMap_cons]
      exact (hx.append_unmarked ha).append hrest

end Lists

/-! ## §2 — numbers -/

theorem not_mem_toDigits (n : Nat) : '@' ∉ Nat.toDigits 10 n := by
  intro h
  have := Nat.isDigit_of_mem_toDigits (by decide) (by decide) h
  exact absurd this (by decide)

theorem unmarked_nat (n : Nat) : Unmarked (toString n) := by
  show '@' ∉ n.repr.toList
  rw [Nat.toList_repr]
  exact not_mem_toDigits n

theorem unmarked_int (n : Int) : Unmarked (toString n) := by
  cases n with
  | ofNat n => exact unmarked_nat n
  | negSucc n => exact unmarked_append.mpr ⟨by decide, unmarked_nat (n + 1)⟩

/-- A decimal is written in digits, signs, points and letters. -/
theorem unmarked_write (style : Decimal.Style) (negative : Bool) (d : Decimal.Digits) :
    Unmarked (style.write negative d) := by
  have hdigits := not_mem_toDigits d.digits
  have hexponent : ∀ n, '@' ∉ style.exponent n := by
    intro n
    have hn : '@' ∉ (toString n).toList := unmarked_int n
    unfold Decimal.Style.exponent
    rw [List.mem_cons, not_or]
    refine ⟨by decide, ?_⟩
    split
    · rw [List.mem_cons, not_or]
      exact ⟨by decide, hn⟩
    · exact hn
  have hsign : ∀ body : List Char, '@' ∉ body → '@' ∉ if negative then '-' :: body else body := by
    intro body hbody
    split
    · rw [List.mem_cons, not_or]
      exact ⟨by decide, hbody⟩
    · exact hbody
  unfold Unmarked Decimal.Style.write
  dsimp only
  rw [String.toList_ofList]
  refine hsign _ ?_
  generalize Nat.toDigits 10 d.digits = text at hdigits
  split
  · split
    · simp [hdigits]
    · split
      · have htake : ∀ n, '@' ∉ text.take n := fun n h => hdigits (List.mem_of_mem_take h)
        have hdrop : ∀ n, '@' ∉ text.drop n := fun n h => hdigits (List.mem_of_mem_drop h)
        simp [htake, hdrop]
      · simp [hdigits]
  · split
    · rw [List.mem_cons, not_or] at hdigits ⊢
      exact ⟨hdigits.1, hexponent _⟩
    · rw [List.mem_cons, not_or] at hdigits
      simp [hdigits.1, hdigits.2, hexponent]
    · exact List.not_mem_nil

theorem unmarked_real (style : Decimal.Style) (x : Binary32) : Unmarked (style.text32 x) := by
  unfold Decimal.Style.text32 Decimal.Style.text
  split
  · decide
  · split <;> decide
  · split <;> decide
  · exact unmarked_write _ _ _

/-! ## §3 — trees without at-signs -/

/-- No record of a type has an at-sign in its name. -/
def Kind.unmarked : Kind → Bool
  | .vec _ item => item.unmarked
  | .array item _ => item.unmarked
  | .record name => Unmarked name
  | _ => true

theorem Kind.text_unmarked {kind : Kind} (h : kind.unmarked) : Unmarked kind.text := by
  induction kind with
  | vec size item ih =>
    have hitem : Unmarked (toString item.text) := ih h
    simp +decide only [Kind.text, unmarked_append, unmarked_nat, hitem]
  | array item length ih =>
    have hitem : Unmarked (toString item.text) := ih h
    simp +decide only [Kind.text, unmarked_append, unmarked_nat, hitem]
  | record name => exact of_decide_eq_true h
  | u32 | i32 | f32 | layers => exact (by decide)

mutual

/-- No name of an expression has an at-sign. -/
def Expr.unmarked : Expr → Bool
  | .name s => Unmarked s
  | .unsigned _ => true
  | .signed _ => true
  | .real _ => true
  | .binary _ a b => a.unmarked && b.unmarked
  | .broken _ a b => a.unmarked && b.unmarked
  | .group e => e.unmarked
  | .call function args => Unmarked function && Expr.allUnmarked args
  | .make kind args => kind.unmarked && Expr.allUnmarked args
  | .rows kind args => kind.unmarked && Expr.allUnmarked args
  | .member e part => e.unmarked && Unmarked part
  | .item e i => e.unmarked && i.unmarked

/-- Nor has one of some expressions. -/
def Expr.allUnmarked : List Expr → Bool
  | [] => true
  | e :: rest => e.unmarked && Expr.allUnmarked rest

end

theorem unmarked_indent (level : Nat) : Unmarked (indent level) := by
  unfold Unmarked indent
  rw [String.toList_ofList]
  simp

theorem Op.text_unmarked (op : Op) : Unmarked op.text := by
  cases op <;> decide

mutual

/-- **The text of an expression** has no at-sign where no name has one. -/
theorem Expr.text_unmarked (level : Nat) : (e : Expr) → e.unmarked → Unmarked (e.text level)
  | .name s, h => of_decide_eq_true h
  | .unsigned n, _ => by
    rw [Expr.text]
    exact unmarked_append.mpr ⟨unmarked_nat n, by decide⟩
  | .signed n, _ => by
    rw [Expr.text]
    exact unmarked_nat n
  | .real x, _ => by
    rw [Expr.text]
    exact unmarked_real _ x
  | .binary op a b, h => by
    rw [Expr.unmarked, Bool.and_eq_true] at h
    have ha := Expr.text_unmarked level a h.1
    have hb := Expr.text_unmarked level b h.2
    simp +decide only [Expr.text, unmarked_append, Op.text_unmarked, ha, hb]
  | .broken op a b, h => by
    rw [Expr.unmarked, Bool.and_eq_true] at h
    have ha := Expr.text_unmarked level a h.1
    have hb := Expr.text_unmarked (level + 1) b h.2
    simp +decide only [Expr.text, unmarked_append, unmarked_indent, Op.text_unmarked, ha, hb]
  | .group e, h => by
    rw [Expr.unmarked] at h
    have he := Expr.text_unmarked level e h
    simp +decide only [Expr.text, unmarked_append, he]
  | .call function args, h => by
    rw [Expr.unmarked, Bool.and_eq_true] at h
    have hfunction : Unmarked function := of_decide_eq_true h.1
    have hargs := unmarked_intercalate (a := ", ") (by decide) (Expr.texts_unmarked level args h.2)
    simp +decide only [Expr.text, unmarked_append, hfunction, hargs]
  | .make kind args, h => by
    rw [Expr.unmarked, Bool.and_eq_true] at h
    have hkind := Kind.text_unmarked h.1
    have hargs := unmarked_intercalate (a := ", ") (by decide) (Expr.texts_unmarked level args h.2)
    simp +decide only [Expr.text, unmarked_append, hkind, hargs]
  | .rows kind args, h => by
    rw [Expr.unmarked, Bool.and_eq_true] at h
    have hkind := Kind.text_unmarked h.1
    have hargs := Expr.texts_unmarked (level + 1) args h.2
    have hrows : Unmarked (String.join ((Expr.texts (level + 1) args).map fun row =>
        indent (level + 1) ++ row ++ ",\n")) := by
      rw [unmarked_join]
      intro t ht
      obtain ⟨row, hrow, rfl⟩ := List.mem_map.mp ht
      have := hargs row hrow
      simp +decide only [unmarked_append, unmarked_indent, this]
    simp +decide only [Expr.text, unmarked_append, unmarked_indent, hkind, hrows]
  | .member e part, h => by
    rw [Expr.unmarked, Bool.and_eq_true] at h
    have he := Expr.text_unmarked level e h.1
    have hpart : Unmarked part := of_decide_eq_true h.2
    simp +decide only [Expr.text, unmarked_append, he, hpart]
  | .item e i, h => by
    rw [Expr.unmarked, Bool.and_eq_true] at h
    have he := Expr.text_unmarked level e h.1
    have hi := Expr.text_unmarked level i h.2
    simp +decide only [Expr.text, unmarked_append, he, hi]

/-- The same of several expressions. -/
theorem Expr.texts_unmarked (level : Nat) :
    (es : List Expr) → Expr.allUnmarked es → ∀ t ∈ Expr.texts level es, Unmarked t
  | [], _ => by
    intro t ht
    rw [Expr.texts] at ht
    cases ht
  | e :: rest, h => by
    rw [Expr.allUnmarked, Bool.and_eq_true] at h
    intro t ht
    rw [Expr.texts] at ht
    rcases List.mem_cons.mp ht with rfl | ht
    · exact Expr.text_unmarked level e h.1
    · exact Expr.texts_unmarked level rest h.2 t ht

end

mutual

/-- No name of a statement has an at-sign. -/
def Stmt.unmarked : Stmt → Bool
  | .bind name value => Unmarked name && value.unmarked
  | .var name value => Unmarked name && value.unmarked
  | .declare name kind => Unmarked name && kind.unmarked
  | .assign target value => target.unmarked && value.unmarked
  | .increase target value => target.unmarked && value.unmarked
  | .countTo name limit body => Unmarked name && limit.unmarked && Stmt.allUnmarked body
  | .onlyIf condition body => condition.unmarked && Stmt.allUnmarked body
  | .skip => true
  | .give value => value.unmarked

/-- Nor has one of some statements. -/
def Stmt.allUnmarked : List Stmt → Bool
  | [] => true
  | s :: rest => s.unmarked && Stmt.allUnmarked rest

end

theorem unmarked_line (level : Nat) : Unmarked (line level a) ↔ Unmarked a := by
  simp +decide only [line, unmarked_append, unmarked_indent, true_and, and_true]

mutual

/-- **The text of a statement** has no at-sign where no name has one. -/
theorem Stmt.text_unmarked (level : Nat) : (s : Stmt) → s.unmarked → Unmarked (s.text level)
  | .bind name value, h => by
    rw [Stmt.unmarked, Bool.and_eq_true, decide_eq_true_eq] at h
    have hvalue := value.text_unmarked level h.2
    simp +decide only [Stmt.text, unmarked_line, unmarked_append, h.1, hvalue]
  | .var name value, h => by
    rw [Stmt.unmarked, Bool.and_eq_true, decide_eq_true_eq] at h
    have hvalue := value.text_unmarked level h.2
    simp +decide only [Stmt.text, unmarked_line, unmarked_append, h.1, hvalue]
  | .declare name kind, h => by
    rw [Stmt.unmarked, Bool.and_eq_true, decide_eq_true_eq] at h
    have hkind := Kind.text_unmarked h.2
    simp +decide only [Stmt.text, unmarked_line, unmarked_append, h.1, hkind]
  | .assign target value, h => by
    rw [Stmt.unmarked, Bool.and_eq_true] at h
    have htarget := target.text_unmarked level h.1
    have hvalue := value.text_unmarked level h.2
    simp +decide only [Stmt.text, unmarked_line, unmarked_append, htarget, hvalue]
  | .increase target value, h => by
    rw [Stmt.unmarked, Bool.and_eq_true] at h
    have htarget := target.text_unmarked level h.1
    have hvalue := value.text_unmarked level h.2
    simp +decide only [Stmt.text, unmarked_line, unmarked_append, htarget, hvalue]
  | .countTo name limit body, h => by
    rw [Stmt.unmarked, Bool.and_eq_true, Bool.and_eq_true, decide_eq_true_eq] at h
    have hlimit := limit.text_unmarked level h.1.2
    have hbody := Stmt.texts_unmarked (level + 1) body h.2
    simp +decide only [Stmt.text, unmarked_line, unmarked_append, h.1.1, hlimit, hbody]
  | .onlyIf condition body, h => by
    rw [Stmt.unmarked, Bool.and_eq_true] at h
    have hcondition := condition.text_unmarked level h.1
    have hbody := Stmt.texts_unmarked (level + 1) body h.2
    simp +decide only [Stmt.text, unmarked_line, unmarked_append, hcondition, hbody]
  | .skip, _ => by
    simp +decide only [Stmt.text, unmarked_line]
  | .give value, h => by
    rw [Stmt.unmarked] at h
    have hvalue := value.text_unmarked level h
    simp +decide only [Stmt.text, unmarked_line, unmarked_append, hvalue]

/-- The same of several statements. -/
theorem Stmt.texts_unmarked (level : Nat) :
    (ss : List Stmt) → Stmt.allUnmarked ss → Unmarked (Stmt.texts level ss)
  | [], _ => by
    rw [Stmt.texts]
    decide
  | s :: rest, h => by
    rw [Stmt.allUnmarked, Bool.and_eq_true] at h
    rw [Stmt.texts, unmarked_append]
    exact ⟨Stmt.text_unmarked level s h.1, Stmt.texts_unmarked level rest h.2⟩

end

theorem Stmt.allUnmarked_append {left right : List Stmt} :
    Stmt.allUnmarked (left ++ right) = (Stmt.allUnmarked left && Stmt.allUnmarked right) := by
  induction left with
  | nil => rfl
  | cons s left ih => rw [List.cons_append, Stmt.allUnmarked, Stmt.allUnmarked, ih, Bool.and_assoc]

/-! ## §4 — the marks of a tree -/

/-- The marks of what the pipeline is told of a value. -/
def noteMarks (note : Option String) : List Char := marks (noteText note).toList

/-- The marks of what it is told of a function. -/
def stageMarks : Option String → List Char
  | some stage => marks (line 0 stage).toList
  | none => []

/-- What ends in no at-sign takes no mark from what follows. -/
theorem marked_end {c : Char} (hc : c ≠ '@') (hb : b.toList = [c]) :
    Marked (a ++ b) (marks (a ++ b).toList) := by
  intro rest
  rw [String.toList_append, hb]
  generalize a.toList = text
  induction text with
  | nil => simp only [List.nil_append, List.cons_append, marks, if_neg hc]
  | cons x text ih =>
    have htake : (text ++ [c] ++ rest).take 1 = (text ++ [c]).take 1 := by
      cases text <;> rfl
    rw [List.cons_append, List.cons_append, marks, marks, ih, htake, List.append_assoc]

theorem noteText_marked (note : Option String) : Marked (noteText note) (noteMarks note) := by
  cases note with
  | none => exact Unmarked.marked (by decide)
  | some a => exact marked_end (c := ' ') (by decide) rfl

/-- No name of a value and its type has an at-sign. -/
def Param.unmarked (p : Param) : Bool := Unmarked p.name && p.kind.unmarked

theorem Param.text_marked {p : Param} (h : p.unmarked) : Marked p.text (noteMarks p.note) := by
  unfold Param.unmarked at h
  rw [Bool.and_eq_true, decide_eq_true_eq] at h
  have hkind := Kind.text_unmarked h.2
  have hrest : Unmarked (p.name ++ (": " ++ p.kind.text)) := by
    simp +decide only [unmarked_append, h.1, hkind]
  have := (noteText_marked p.note).append hrest.marked
  rwa [List.append_nil, ← String.append_assoc, ← String.append_assoc] at this

/-- No name of a declaration has an at-sign. -/
def Decl.unmarked : Decl → Bool
  | .remark text => Unmarked text
  | .blank => true
  | .const name kind value => Unmarked name && kind.unmarked && value.unmarked
  | .texture _ name => Unmarked name
  | .block _ name kind => Unmarked name && kind.unmarked
  | .record name parts => Unmarked name && parts.all Param.unmarked
  | .function _ name params result body =>
    Unmarked name && params.all Param.unmarked && result.kind.unmarked && Stmt.allUnmarked body

/-- **What the pipeline is told** by a declaration: of a slot its group and its binding, else what is
said of its stage and its values. -/
def Decl.marks : Decl → List Char
  | .texture _ _ => ['g', 'b']
  | .block _ _ _ => ['g', 'b']
  | .record _ parts => parts.flatMap fun p => noteMarks p.note
  | .function stage _ params result _ =>
    stageMarks stage ++ params.flatMap (fun p => noteMarks p.note) ++ noteMarks result.note
  | _ => []

theorem line_marked (level : Nat) (h : Marked a ms) : Marked (line level a) ms :=
  ((unmarked_indent level).append_marked h).append_unmarked (by decide)

theorem slotText_marked (binding : Nat) : Marked (slotText binding) ['g', 'b'] := by
  have hstart : Marked "@group(0) @binding(" ['g', 'b'] := fun rest => rfl
  exact (hstart.append_unmarked (unmarked_nat binding)).append_unmarked (by decide)

/-- **The marks of a declaration's text** are what it tells the pipeline, where no name has an at-sign. -/
theorem Decl.text_marked {d : Decl} (h : d.unmarked) : Marked d.text d.marks := by
  cases d with
  | remark text =>
    have htext : Unmarked text := of_decide_eq_true h
    exact line_marked 0 ((by decide : Unmarked "// ").append_marked htext.marked)
  | blank => exact Unmarked.marked (by decide)
  | const name kind value =>
    rw [Decl.unmarked, Bool.and_eq_true, Bool.and_eq_true, decide_eq_true_eq] at h
    have hkind := Kind.text_unmarked h.1.2
    have hvalue := value.text_unmarked 0 h.2
    refine Unmarked.marked ?_
    simp +decide only [Decl.text, unmarked_line, unmarked_append, h.1.1, hkind, hvalue]
  | texture binding name =>
    have hname : Unmarked name := of_decide_eq_true h
    have hrest : Unmarked ("var " ++ (name ++ (": " ++ (Kind.layers.text ++ ";")))) := by
      simp +decide only [unmarked_append, hname]
    simp only [Decl.text, String.append_assoc]
    exact line_marked 0 ((slotText_marked binding).append_unmarked hrest)
  | block binding name kind =>
    rw [Decl.unmarked, Bool.and_eq_true, decide_eq_true_eq] at h
    have hkind := Kind.text_unmarked h.2
    have hrest : Unmarked ("var<uniform> " ++ (name ++ (": " ++ (kind.text ++ ";")))) := by
      simp +decide only [unmarked_append, h.1, hkind]
    simp only [Decl.text, String.append_assoc]
    exact line_marked 0 ((slotText_marked binding).append_unmarked hrest)
  | record name parts =>
    rw [Decl.unmarked, Bool.and_eq_true, decide_eq_true_eq, List.all_eq_true] at h
    have hopen : Unmarked (line 0 ("struct " ++ name ++ " \x7b")) := by
      simp +decide only [unmarked_line, unmarked_append, h.1]
    have hparts := marked_join fun p hp =>
      line_marked 1 ((Param.text_marked (h.2 p hp)).append_unmarked (b := ",") (by decide))
    exact (hopen.append_marked hparts).append_unmarked (by decide)
  | function stage name params result body =>
    rw [Decl.unmarked, Bool.and_eq_true, Bool.and_eq_true, Bool.and_eq_true, decide_eq_true_eq,
      List.all_eq_true] at h
    obtain ⟨⟨⟨hname, hparams⟩, hresult⟩, hbody⟩ := h
    have hstage : Marked (match stage with
        | some s => line 0 s
        | none => "") (stageMarks stage) := by
      cases stage with
      | none => exact Unmarked.marked (by decide)
      | some s => exact marked_end (c := '\n') (by decide) rfl
    have hparams := marked_intercalate (a := ", ") (by decide) fun p hp => Param.text_marked (hparams p hp)
    have hkind := Kind.text_unmarked hresult
    have hrest : Unmarked (result.kind.text ++ " \x7b") := by
      simp +decide only [unmarked_append, hkind]
    have hopen : Unmarked ("fn " ++ name ++ "(") := by
      simp +decide only [unmarked_append, hname]
    have hbody := Stmt.texts_unmarked 1 body hbody
    have hhead := line_marked 0 ((((hopen.append_marked hparams).append_unmarked
      (b := ") -> ") (by decide)).append (noteText_marked result.note)).append_unmarked hrest)
    rw [← String.append_assoc] at hhead
    have := ((hstage.append hhead).append_unmarked hbody).append_unmarked (b := line 0 "\x7d") (by decide)
    rwa [← List.append_assoc] at this

/-- **What the pipeline is told** by a shader. -/
def Shader.marks (s : Shader) : List Char := s.flatMap Decl.marks

/-- **The marks of a shader's text** are what it tells the pipeline, where no name has an at-sign. -/
theorem Shader.text_marked {s : Shader} (h : s.all Decl.unmarked) : Marked s.text s.marks := by
  rw [List.all_eq_true] at h
  exact marked_join fun d hd => Decl.text_marked (h d hd)

/-! ## §5 — the marks of the shader of a pass -/

/-- Declarations without at-signs in their names, and what they tell the pipeline. -/
def Tells (decls : List Decl) (ms : List Char) : Prop := decls.all Decl.unmarked ∧ Shader.marks decls = ms

theorem Tells.append {left right : List Decl} (ha : Tells left ms) (hb : Tells right ms') :
    Tells (left ++ right) (ms ++ ms') := by
  refine ⟨?_, ?_⟩
  · rw [List.all_append, ha.1, hb.1]
    rfl
  · rw [Shader.marks, List.flatMap_append, ← ha.2, ← hb.2]
    rfl

theorem Tells.cons {d : Decl} {decls : List Decl} (hd : d.unmarked) (h : Tells decls ms) :
    Tells (d :: decls) (d.marks ++ ms) := by
  refine ⟨?_, ?_⟩
  · rw [List.all_cons, hd, h.1]
    rfl
  · rw [Shader.marks, List.flatMap_cons, ← h.2]
    rfl

/-- What tells nothing adds nothing. -/
theorem Tells.quiet {d : Decl} {decls : List Decl} (hd : d.unmarked) (hm : d.marks = [])
    (h : Tells decls ms) : Tells (d :: decls) ms := by
  have := Tells.cons hd h
  rwa [hm] at this

theorem layoutConstants_tell {start : String} (h : Unmarked start) (l : Layout) :
    Tells (layoutConstants start l) [] := by
  refine ⟨?_, rfl⟩
  simp +decide only [layoutConstants, constant, List.all_cons, List.all_nil, Decl.unmarked, unmarked_append,
    Kind.unmarked, Expr.unmarked, h]

theorem Expr.unmarked_div (x y : Expr) : (x / y).unmarked = (x.unmarked && y.unmarked) := rfl

section Textures

variable {role : String} (hrole : Unmarked role)

include hrole

theorem roleConstant_unmarked (part : String) (hpart : Unmarked part) :
    (roleConstant role part).unmarked := by
  simp only [roleConstant, v, Expr.unmarked, unmarked_append, unmarked_toUpper hrole, hpart, and_self,
    decide_true]

theorem loadGroup_unmarked : (loadGroup role).unmarked := by
  have hwidth := roleConstant_unmarked hrole "_TEX_W" (by decide)
  have hheight := roleConstant_unmarked hrole "_TEX_H" (by decide)
  have hlayers := roleConstant_unmarked hrole "_LPS" (by decide)
  simp +decide only [loadGroup, function, Decl.unmarked, result, param, Param.unmarked, vec4, Kind.unmarked,
    Stmt.allUnmarked, Stmt.unmarked, Expr.unmarked_div, Expr.unmarked, Expr.allUnmarked, v, paren, cast,
    unmarked_append, hrole, hwidth, hheight, hlayers, List.all_cons, List.all_nil]

theorem loadChannel_unmarked : (loadChannel role).unmarked := by
  simp +decide only [loadChannel, function, Decl.unmarked, result, param, Param.unmarked, Kind.unmarked,
    Stmt.allUnmarked, Stmt.unmarked, Expr.unmarked_div, Expr.unmarked, Expr.allUnmarked, v, u,
    unmarked_append, hrole, List.all_cons, List.all_nil]

/-- A texture that is read takes one slot. -/
theorem textureInput_tells (binding : Nat) (l : Layout) :
    Tells (textureInput binding role l) ['g', 'b'] := by
  have hconstants := layoutConstants_tell (unmarked_toUpper hrole) l
  have hslot : Tells [.blank, .texture binding (role ++ "_tex")] ['g', 'b'] := by
    refine ⟨?_, rfl⟩
    simp +decide only [List.all_cons, List.all_nil, Decl.unmarked, unmarked_append, hrole]
  have hloads : Tells [.blank, loadGroup role, .blank, loadChannel role] [] := by
    refine ⟨?_, rfl⟩
    rw [List.all_cons, List.all_cons, List.all_cons, List.all_cons, loadGroup_unmarked hrole,
      loadChannel_unmarked hrole]
    rfl
  exact (hslot.append hconstants).append hloads

end Textures

/-- What the pipeline is told of some slots. -/
def slotMarks (slots : Nat) : List Char := (List.replicate slots ['g', 'b']).flatten

theorem textureInputs_tell {roles : List String} {layouts : List Layout}
    (hroles : ∀ role ∈ roles, Unmarked role) (hlength : roles.length = layouts.length) (binding : Nat) :
    Tells (textureInputs binding roles layouts) (slotMarks roles.length) := by
  induction roles generalizing layouts binding with
  | nil => exact ⟨rfl, rfl⟩
  | cons role roles ih =>
    cases layouts with
    | nil => cases hlength
    | cons l layouts =>
      have hrest := ih (fun r hr => hroles r (List.mem_cons_of_mem _ hr)) (Nat.succ.inj hlength)
        (binding + 1)
      exact (textureInput_tells (hroles role List.mem_cons_self) binding l).append hrest

theorem roles_unmarked (pass : Pass) : ∀ role ∈ pass.roles, Unmarked role := by
  cases pass with
  | convolution g a depthwise hasBias => cases hasBias <;> simp +decide [Pass.roles]
  | _ => simp +decide [Pass.roles]

theorem allUnmarked_flatten {blocks : List (List Stmt)} (h : ∀ block ∈ blocks, Stmt.allUnmarked block) :
    Stmt.allUnmarked blocks.flatten := by
  induction blocks with
  | nil => rfl
  | cons block blocks ih =>
    rw [List.flatten_cons, Stmt.allUnmarked_append, h block List.mem_cons_self,
      ih fun b hb => h b (List.mem_cons_of_mem _ hb)]
    rfl

theorem axisShare_unmarked (outputStride operandStride : Nat) :
    Stmt.allUnmarked (axisShare outputStride operandStride) := by
  unfold axisShare
  split <;> rfl

theorem operandIndex_unmarked {role : String} (hrole : Unmarked role) (operand output : Shape) :
    (operandIndex role operand output).unmarked := by
  have hshares : Stmt.allUnmarked (output.strides.mapIdx fun axis stride =>
      axisShare stride (operandStride operand output axis)).flatten := by
    refine allUnmarked_flatten fun block hblock => ?_
    obtain ⟨axis, hi, rfl⟩ := List.mem_mapIdx.mp hblock
    exact axisShare_unmarked _ _
  have hname : Unmarked ("index_" ++ role) := unmarked_append.mpr ⟨by decide, hrole⟩
  unfold operandIndex function
  simp only [Decl.unmarked]
  rw [Stmt.allUnmarked_append, Stmt.allUnmarked_append, hshares, decide_eq_true hname]
  rfl

theorem pairwise_tells (op : Operator) (lhs rhs output : Layout) :
    Tells (pairwise op lhs rhs output).1 [] ∧ Stmt.allUnmarked (pairwise op lhs rhs output).2 := by
  have hlhs := operandIndex_unmarked (by decide : Unmarked "lhs") lhs.shape output.shape
  have hrhs := operandIndex_unmarked (by decide : Unmarked "rhs") rhs.shape output.shape
  unfold pairwise
  split
  · exact ⟨⟨rfl, rfl⟩, rfl⟩
  · refine ⟨⟨?_, rfl⟩, rfl⟩
    rw [List.all_cons, List.all_cons, hlhs, hrhs]
    rfl

/-- **A pass** tells the pipeline nothing of its own. -/
theorem body_tells {op : Operator} {pass : Pass} {inputs : List Layout} {output : Layout}
    {decls : List Decl} {statements : List Stmt}
    (h : body op pass inputs output = .ok (decls, statements)) :
    Tells decls [] ∧ Stmt.allUnmarked statements := by
  cases pass with
  | pairwise =>
    obtain ⟨lhs, -, h⟩ := Outcome.bind_eq_ok_iff.mp h
    obtain ⟨rhs, -, h⟩ := Outcome.bind_eq_ok_iff.mp h
    -- where the indices of operands are looked at, only their numbers are
    have hpair : pairwise op lhs rhs output = (decls, statements) := by
      dsimp only at h
      split at h
      · obtain ⟨-, -, h⟩ := Outcome.bind_eq_ok_iff.mp h
        obtain ⟨-, -, h⟩ := Outcome.bind_eq_ok_iff.mp h
        exact Outcome.pure_eq_ok_iff.mp h
      · exact Outcome.pure_eq_ok_iff.mp h
    have := pairwise_tells op lhs rhs output
    rwa [hpair] at this
  | relu =>
    cases h
    exact ⟨⟨rfl, rfl⟩, rfl⟩
  | convolution g a depthwise hasBias =>
    cases h
    refine ⟨⟨rfl, rfl⟩, ?_⟩
    cases a <;> cases depthwise <;> cases hasBias <;> rfl
  | resize p inH inW =>
    cases h
    exact ⟨⟨rfl, rfl⟩, rfl⟩

theorem drawParams_tell : Tells drawParams ['g', 'b'] := ⟨rfl, rfl⟩

theorem vertexStage_marks : vertexStage.marks = ['v', 'b', 'b'] := by decide

theorem location_marks (i : Nat) : noteMarks (some s!"@location({i})") = ['l'] := by
  have hstart : Marked "@location(" ['l'] := fun rest => rfl
  exact (((hstart.append_unmarked (unmarked_nat i)).append_unmarked (b := ")") (by decide)).append_unmarked
    (b := " ") (by decide)).eq

theorem allUnmarked_map {α : Type} {f : α → Stmt} (h : ∀ x, (f x).unmarked) (xs : List α) :
    Stmt.allUnmarked (xs.map f) := by
  induction xs with
  | nil => rfl
  | cons x xs ih =>
    rw [List.map_cons, Stmt.allUnmarked, h x, ih]
    rfl

theorem output_unmarked (i : Nat) : Unmarked s!"out{i}" :=
  unmarked_append.mpr ⟨by decide, unmarked_nat i⟩

theorem fragmentOutput_unmarked (targets : Nat) : (fragmentOutput targets).unmarked := by
  have hparts : ∀ i : Nat, Param.unmarked ⟨some s!"@location({i})", s!"out{i}", vec4⟩ := by
    intro i
    rw [Param.unmarked, decide_eq_true (output_unmarked i)]
    rfl
  unfold fragmentOutput
  rw [Decl.unmarked, List.all_map, decide_eq_true (by decide : Unmarked "FragmentOutput"), Bool.true_and,
    List.all_eq_true]
  exact fun i _ => hparts i

theorem fragmentOutput_marks (targets : Nat) :
    (fragmentOutput targets).marks = List.replicate targets 'l' := by
  have hparts : ∀ indices : List Nat, (indices.flatMap fun i => noteMarks (some s!"@location({i})")) =
      List.replicate indices.length 'l' := by
    intro indices
    induction indices with
    | nil => rfl
    | cons i rest ih =>
      rw [List.flatMap_cons, location_marks, ih]
      rfl
  unfold fragmentOutput
  rw [Decl.marks, List.flatMap_map, hparts, List.length_range]

theorem fragmentStage_marks (targets : Nat) : (fragmentStage targets).marks = ['f', 'b'] := rfl

theorem fragmentStage_unmarked (targets : Nat) : (fragmentStage targets).unmarked := by
  have hwrites : Stmt.allUnmarked ((List.range targets).map fun i =>
      .assign (.member (v "out") s!"out{i}")
        (.call "output_texel" [v "s", .member (v "params") "group_offset" + u i])) := by
    refine allUnmarked_map (fun i => ?_) _
    have hout : (Expr.member (v "out") s!"out{i}").unmarked := by
      rw [Expr.unmarked, decide_eq_true (output_unmarked i)]
      rfl
    rw [Stmt.unmarked, hout]
    rfl
  unfold fragmentStage
  simp only [Decl.unmarked]
  rw [Stmt.allUnmarked_append, Stmt.allUnmarked_append, hwrites]
  rfl

variable {op : Operator} {pass : Pass} {inputs : List Layout} {output : Layout} {s : Shader}

/-- **The shader of a pass** tells the pipeline of a slot for the parameters of the draw, of one for
every texture that it reads, of its stages, and of a location for every target. -/
theorem shader_tells (h : shader op pass inputs output = .ok s) (hop : Unmarked op.name)
    (hlength : pass.roles.length = inputs.length) :
    Tells s (slotMarks (1 + inputs.length) ++ ['v', 'b', 'b'] ++ List.replicate output.renderTargets 'l'
      ++ ['f', 'b']) := by
  obtain ⟨⟨decls, statements⟩, hbody, h⟩ := Outcome.bind_eq_ok_iff.mp h
  obtain rfl := Outcome.pure_eq_ok_iff.mp h
  obtain ⟨hdecls, hstatements⟩ := body_tells hbody
  have htitle : Tells [.remark (op.name ++ " program")] [] := by
    refine ⟨?_, rfl⟩
    simp +decide only [List.all_cons, List.all_nil, Decl.unmarked, unmarked_append, hop]
  have hinputs := textureInputs_tell (roles_unmarked pass) hlength 1
  have houtput := layoutConstants_tell (by decide : Unmarked "OUT") output
  have hcompute : (function "compute" [param "s" .u32, param "g" .u32] vec4 statements).unmarked := by
    rw [function, Decl.unmarked, hstatements]
    rfl
  have hnone : Tells [] [] := ⟨rfl, rfl⟩
  have hblank : Tells [.blank] [] := ⟨rfl, rfl⟩
  have hstages := Tells.quiet (d := .blank) rfl rfl <| .quiet hcompute rfl <| .quiet (d := .blank) rfl rfl <|
    .cons (d := vertexStage) rfl <| .quiet (d := .blank) rfl rfl <|
    .cons (fragmentOutput_unmarked output.renderTargets) <| .quiet (d := .blank) rfl rfl <|
    .quiet (d := outputTexel) rfl rfl <| .quiet (d := .blank) rfl rfl <|
    .cons (fragmentStage_unmarked output.renderTargets) hnone
  have hshader := (((((htitle.append drawParams_tell).append hinputs).append hdecls).append hblank).append
    houtput).append hstages
  refine ⟨hshader.1, hshader.2.trans ?_⟩
  rw [vertexStage_marks, fragmentOutput_marks, fragmentStage_marks, hlength, Nat.add_comm 1]
  simp only [List.append_nil, List.nil_append, List.append_assoc]
  rfl

/-- The marks of the text of a pass's shader. -/
theorem marks_text (h : shader op pass inputs output = .ok s) (hop : Unmarked op.name)
    (hlength : pass.roles.length = inputs.length) :
    marks s.text.toList = slotMarks (1 + inputs.length) ++ ['v', 'b', 'b']
      ++ List.replicate output.renderTargets 'l' ++ ['f', 'b'] := by
  obtain ⟨hnames, hmarks⟩ := shader_tells h hop hlength
  rw [(Shader.text_marked hnames).eq, hmarks]

theorem count_slotMarks (slots : Nat) :
    (slotMarks slots).count 'g' = slots ∧ (slotMarks slots).count 'l' = 0 := by
  induction slots with
  | zero => exact ⟨rfl, rfl⟩
  | succ slots ih =>
    have hstep : slotMarks (slots + 1) = ['g', 'b'] ++ slotMarks slots := rfl
    rw [hstep, List.count_append, List.count_append, ih.1, ih.2]
    exact ⟨Nat.add_comm 1 slots, rfl⟩

/-- **Text fixes slots and targets.** Two shaders with one text read equally many textures and write
equally many targets. -/
theorem shader_text_injective {op' : Operator} {pass' : Pass} {inputs' : List Layout} {output' : Layout}
    {s' : Shader} (h : shader op pass inputs output = .ok s)
    (h' : shader op' pass' inputs' output' = .ok s')
    (hop : Unmarked op.name) (hop' : Unmarked op'.name)
    (hlength : pass.roles.length = inputs.length) (hlength' : pass'.roles.length = inputs'.length)
    (htext : s.text = s'.text) :
    inputs.length = inputs'.length ∧ output.renderTargets = output'.renderTargets := by
  have hmarks := marks_text h hop hlength
  rw [htext, marks_text h' hop' hlength'] at hmarks
  have hslots := congrArg (List.count 'g') hmarks
  have htargets := congrArg (List.count 'l') hmarks
  simp [List.count_append, count_slotMarks, List.count_replicate] at hslots htargets
  omega

end TexelFlow.Wgsl
