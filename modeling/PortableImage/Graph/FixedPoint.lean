import PortableImage.Graph.Marking
/-!
# The fixed point

The analysis takes the worklist as one batch, in the order of keys, expands all of it, and then
takes over the results one by one.  When nothing is left to expand it rescans what is pending, and
it is complete when a rescan lets nothing fire.

Cancellation is looked at before each batch and before each expansion.  Whether the analysis ends
depends on the expander, which may create nodes; so the number of rounds is bounded from outside.
-/

namespace PortableImage.Graph

inductive Verdict (ε : Type)
  /-- Nothing is left to expand and nothing pending can fire. -/
  | completed
  /-- The cancellation flag was seen. -/
  | cancelled
  /-- A node could not be expanded. -/
  | failed (fault : ε)
  /-- The bound on the number of rounds was too low. -/
  | exhausted
  deriving DecidableEq

/-- What came of a node of a batch. -/
inductive Attempt (ε : Type)
  | skipped
  | failed (fault : ε)
  | expanded (expansion : Expansion)

variable {κ σ ε : Type}

/-- Expands the nodes of a batch one after another, except those behind a cancellation. -/
def expandBatch (expander : Expander κ σ ε) : List Handle → Site κ σ →
    List (Handle × Attempt ε) × Site κ σ
  | [], site => ([], site)
  | node :: batch, site =>
    if site.cancelled then
      let later := expandBatch expander batch site
      ((node, .skipped) :: later.1, later.2)
    else
      match expander node site with
      | (.ok expansion, site) =>
        let later := expandBatch expander batch site
        ((node, .expanded expansion) :: later.1, later.2)
      | (.error fault, site) =>
        let later := expandBatch expander batch site
        ((node, .failed fault) :: later.1, later.2)

/-- Whether the key of a node comes first; unknown handles come before all keys. -/
def keyLE [LE κ] [DecidableLE κ] (arena : Arena κ) (a b : Handle) : Bool :=
  match arena.key? a, arena.key? b with
  | none, _ => true
  | some _, none => false
  | some a, some b => a ≤ b

section KeyOrder

variable [LE κ] [DecidableLE κ] [Std.IsLinearOrder κ] (arena : Arena κ)

theorem keyLE_trans (a b c : Handle) (hab : keyLE arena a b) (hbc : keyLE arena b c) :
    keyLE arena a c := by
  unfold keyLE at hab hbc ⊢
  cases ha : arena.key? a with
  | none => rfl
  | some first =>
    cases hb : arena.key? b with
    | none =>
      rw [ha, hb] at hab
      cases hab
    | some second =>
      cases hc : arena.key? c with
      | none =>
        rw [hb, hc] at hbc
        cases hbc
      | some third =>
        rw [ha, hb] at hab
        rw [hb, hc] at hbc
        exact decide_eq_true (Std.le_trans (of_decide_eq_true hab) (of_decide_eq_true hbc))

theorem keyLE_total (a b : Handle) : keyLE arena a b || keyLE arena b a := by
  unfold keyLE
  cases ha : arena.key? a with
  | none => rfl
  | some first =>
    cases hb : arena.key? b with
    | none => rfl
    | some second =>
      rw [Bool.or_eq_true]
      exact (Std.le_total (a := first) (b := second)).imp decide_eq_true decide_eq_true

end KeyOrder

namespace Analysis

/-- Takes over the results of a batch up to the first node that was skipped or failed. -/
def settle (analysis : Analysis κ σ) : List (Handle × Attempt ε) →
    Option (Verdict ε) × Analysis κ σ
  | [] => (none, analysis)
  | (_, .skipped) :: _ => (some .cancelled, analysis)
  | (_, .failed fault) :: _ => (some (.failed fault), analysis)
  | (node, .expanded expansion) :: later => settle (analysis.absorb node expansion) later

variable [LE κ] [DecidableLE κ]

/-- The nodes of the worklist that still have to be expanded, in the order of their keys. -/
def batch (analysis : Analysis κ σ) : List Handle :=
  (analysis.worklist.filter fun node => analysis.arena.progress node < .expanded).mergeSort
    (keyLE analysis.arena)

def round (expander : Expander κ σ ε) (analysis : Analysis κ σ) :
    Option (Verdict ε) × Analysis κ σ :=
  let attempts := expandBatch expander analysis.batch analysis.toSite
  let taken := { analysis with
    toSite := attempts.2
    worklist := []
    batchCount := analysis.batchCount + 1 }
  taken.settle attempts.1

/-- Runs the analysis to its end, in at most the given number of rounds. -/
def saturate (expander : Expander κ σ ε) : Nat → Analysis κ σ → Verdict ε × Analysis κ σ
  | 0, analysis => (.exhausted, analysis)
  | bound + 1, analysis =>
    if analysis.worklist.isEmpty then
      let rescanned := analysis.rescan
      if rescanned.1 = 0 then (.completed, rescanned.2)
      else saturate expander bound rescanned.2
    else if analysis.cancelled then (.cancelled, analysis)
    else
      match analysis.round expander with
      | (some verdict, analysis) => (verdict, analysis)
      | (none, analysis) => saturate expander bound analysis

end Analysis

end PortableImage.Graph
