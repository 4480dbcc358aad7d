import TexelFlow.Graph.Build
import TexelFlow.Proofs.Outcome

/-!
# Reading operation graphs

References are read through a memo, and a builder hands its memo on from build to build. The memo holds
only what reading gives, so it makes no difference to any result: a reading has one result, whatever was
read before. What an operation graph is read to is then said entry by entry.

## Main statements

* `reads_readNodes` — the nodes of an operation graph, entry by entry.
* `Builder.build_fst` — a builder builds what a fresh one builds.

## §1 — readings
## §2 — nodes
## §3 — builders
-/

namespace TexelFlow.Graph

open Model (NodeEntry Description)

/-! ## §1 — readings -/

variable {α β : Type}

/-- A reading has a result, whatever was read before. -/
def Reads (x : Reading α) (result : Outcome α) : Prop := ∀ memo, (x.run memo).1 = result

theorem reads_pure (a : α) : Reads (pure a) (.ok a) := fun _ => rfl

theorem reads_lift (x : Outcome α) : Reads (liftM x) x := by
  intro memo
  cases x with
  | ok a => rfl
  | error e => rfl

/-- Readings one after the other. -/
theorem Reads.bind {x : Reading α} {a : Outcome α} {f : α → Reading β} {g : α → Outcome β}
    (hx : Reads x a) (hf : ∀ v, Reads (f v) (g v)) : Reads (x >>= f) (a >>= g) := by
  intro memo
  have hrun : (x >>= f).run memo =
      (ExceptT.bindCont f (x.run memo).1 : StateM Reference.Memo _) (x.run memo).2 := rfl
  rw [hrun, hx memo]
  cases a with
  | error e => rfl
  | ok v => exact hf v _

theorem reads_readReference (text : String) : Reads (readReference text) (Reference.parse text) :=
  fun memo => memo.parse_fst text

/-! ## §2 — nodes -/

/-- The references of a node, less those that only order nodes. -/
def parseInputs (texts : List String) : Outcome (List Reference) :=
  (texts.filter fun text => !isControl text).mapM Reference.parse

theorem reads_readInputs (texts : List String) : Reads (readInputs texts) (parseInputs texts) := by
  unfold parseInputs
  induction texts with
  | nil => exact reads_pure []
  | cons text rest ih =>
    unfold readInputs
    by_cases h : isControl text
    · rw [if_pos h, List.filter_cons_of_neg (by simp [h])]
      exact ih
    · rw [if_neg h, List.filter_cons_of_pos (by simp [h]), List.mapM_cons]
      exact (reads_readReference text).bind fun r => ih.bind fun rs => reads_pure (r :: rs)

/-- What an entry of an operation graph is read to: its node, and its tensor if it is a constant. -/
def readEntry (weights : Tensors) (entry : NodeEntry) : Outcome (Node × List (String × Tensor)) := do
  let inputs ← parseInputs entry.input
  let constant ← readConstant weights entry
  let node ← readOperation entry inputs
  return (node, constant)

/-- **An operation graph is read** entry by entry. -/
theorem reads_readNodes (weights : Tensors) (entries : List NodeEntry) :
    Reads (readNodes weights entries) (do
      let pairs ← entries.mapM (readEntry weights)
      return (pairs.map Prod.fst, pairs.flatMap Prod.snd)) := by
  induction entries with
  | nil => exact reads_pure ([], [])
  | cons entry rest ih =>
    have hall := (reads_readInputs entry.input).bind fun inputs =>
      (reads_lift (readConstant weights entry)).bind fun constant =>
        (reads_lift (readOperation entry inputs)).bind fun node =>
          ih.bind fun p => reads_pure (node :: p.1, constant ++ p.2)
    rw [List.mapM_cons]
    intro memo
    refine (hall memo).trans ?_
    unfold readEntry
    simp only [bind_assoc, pure_bind]
    rfl

/-! ## §3 — builders -/

/-- The graph of an operation graph, whatever was read before. -/
theorem ofNodes_fst (entries : List NodeEntry) (weights : Tensors)
    (signature : Option Model.Signature) (memo : Reference.Memo) :
    (ofNodes entries weights signature memo).1 = (do
      let pairs ← entries.mapM (readEntry weights)
      assemble (pairs.map Prod.fst) (.ofList (pairs.flatMap Prod.snd)) signature) := by
  have hrun : (ofNodes entries weights signature memo).1 =
      ((readNodes weights entries).run memo).1 >>= fun p => assemble p.1 (.ofList p.2) signature := rfl
  rw [hrun, reads_readNodes weights entries memo, bind_assoc]
  simp only [pure_bind]

/-- **A builder builds what a fresh one builds**, whatever it built before. -/
theorem Builder.build_fst (b : Builder) (d : Description) (weights : Tensors) :
    (b.build d weights).1 = ofDescription d weights := by
  unfold ofDescription build
  split
  · exact (ofNodes_fst _ _ _ _).trans (ofNodes_fst _ _ _ _).symm
  · rfl

end TexelFlow.Graph
