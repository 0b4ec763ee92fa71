import PortableImage.Graph.Expansion
/-!
# Marking

An analysis marks what is needed.  Newly marked nodes wait in the worklist to be expanded, and
guarded dependencies wait in `pending` for their guards.  A guard is looked at again whenever it may
have come further: when it is marked, when it is expanded, and at the end by a rescan of all that is
pending.

Marking follows the dependencies that fire from the last one found, so a stack of targets suffices.
Each target on the stack used to be a pending dependency, which is why it terminates.
-/

namespace PortableImage.Graph

/-- A guarded dependency of a node that has been expanded. -/
structure Deferred where
  source : Handle
  dependency : GuardedDependency
  deriving DecidableEq

namespace Deferred

/-- The edge that stands for the dependency once it has fired. -/
def edge (deferred : Deferred) : Edge :=
  ⟨deferred.source, deferred.dependency.target, deferred.dependency.reason⟩

def target (deferred : Deferred) : Handle := deferred.dependency.target

def guard (deferred : Deferred) : Handle := deferred.dependency.guard

end Deferred

structure Counts where
  marked : Nat
  expanded : Nat
  edges : Nat
  deferred : Nat
  activated : Nat
  batches : Nat
  rescans : Nat
  deriving DecidableEq

/-- What an analysis keeps between two steps. -/
structure Agenda where
  /-- Marked nodes that wait to be expanded. -/
  worklist : List Handle := []
  /-- Guarded dependencies that have not fired, in the order in which they were found. -/
  pending : List Deferred := []
  /-- Edges in the order in which they came into force. -/
  edges : List Edge := []
  markedCount : Nat := 0
  expandedCount : Nat := 0
  deferredCount : Nat := 0
  activatedCount : Nat := 0
  batchCount : Nat := 0
  rescanCount : Nat := 0

namespace Agenda

def counts (agenda : Agenda) : Counts where
  marked := agenda.markedCount
  expanded := agenda.expandedCount
  edges := agenda.edges.length
  deferred := agenda.deferredCount
  activated := agenda.activatedCount
  batches := agenda.batchCount
  rescans := agenda.rescanCount

end Agenda

/-- A site with an analysis of its arena. -/
structure Analysis (κ σ : Type) extends Site κ σ, Agenda

namespace Analysis

variable {κ σ : Type}

/-- Whether the guard of a dependency has come far enough. -/
def satisfied (analysis : Analysis κ σ) (dependency : GuardedDependency) : Bool :=
  dependency.threshold ≤ analysis.arena.progress dependency.guard

/-- Lets dependencies fire: their edges come into force. -/
def fire (analysis : Analysis κ σ) (fired : List Deferred) : Analysis κ σ :=
  { analysis with
    edges := analysis.edges ++ fired.map Deferred.edge
    activatedCount := analysis.activatedCount + fired.length }

/-- Whether a pending dependency waits for a node that has come far enough. -/
def firesAt (analysis : Analysis κ σ) (node : Handle) (deferred : Deferred) : Bool :=
  deferred.guard = node && analysis.satisfied deferred.dependency

/-- Lets the dependencies fire that waited for a node; the answer is where they lead. -/
def fireAt (analysis : Analysis κ σ) (node : Handle) : List Handle × Analysis κ σ :=
  let fired := analysis.pending.filter (analysis.firesAt node)
  (fired.map Deferred.target,
    { analysis with pending := analysis.pending.filter fun deferred =>
        !analysis.firesAt node deferred }.fire fired)

theorem length_fireAt (analysis : Analysis κ σ) (node : Handle) :
    (analysis.fireAt node).1.length + (analysis.fireAt node).2.pending.length =
      analysis.pending.length := by
  have h := List.length_eq_countP_add_countP (analysis.firesAt node) (l := analysis.pending)
  simp only [List.countP_eq_length_filter] at h
  simp only [fireAt, fire, List.length_map]
  rw [h]
  congr 2
  apply List.filter_congr
  simp

/-- Marks a node that was not needed before and puts it on the worklist. -/
def enter (analysis : Analysis κ σ) (node : Handle) : Analysis κ σ :=
  { analysis with
    arena := analysis.arena.raise node .marked
    worklist := analysis.worklist ++ [node]
    markedCount := analysis.markedCount + 1 }

/-- Marks the nodes of a stack, and what that makes needed in turn. -/
def markAll (analysis : Analysis κ σ) : List Handle → Analysis κ σ
  | [] => analysis
  | node :: stack =>
    if analysis.arena.isFresh node then
      let fired := (analysis.enter node).fireAt node
      markAll fired.2 (fired.1.reverse ++ stack)
    else markAll analysis stack
termination_by stack => stack.length + analysis.pending.length
decreasing_by
  · have h := length_fireAt (analysis.enter node) node
    have hpending : (analysis.enter node).pending = analysis.pending := rfl
    rw [hpending] at h
    simp only [List.length_append, List.length_reverse, List.length_cons]
    omega
  · simp

/-- Marks a node, and what that makes needed in turn. -/
def mark (analysis : Analysis κ σ) (node : Handle) : Analysis κ σ := analysis.markAll [node]

def markEach (analysis : Analysis κ σ) (nodes : List Handle) : Analysis κ σ :=
  nodes.foldl mark analysis

/-- Lets a guarded dependency of a node fire at once or wait for its guard. -/
def consider (source : Handle) (analysis : Analysis κ σ) (dependency : GuardedDependency) :
    Analysis κ σ :=
  if analysis.satisfied dependency then
    (analysis.fire [⟨source, dependency⟩]).mark dependency.target
  else
    { analysis with
      pending := analysis.pending ++ [⟨source, dependency⟩]
      deferredCount := analysis.deferredCount + 1 }

/-- Records that a node is expanded, with the edges to what it always needs. -/
def conclude (analysis : Analysis κ σ) (node : Handle) (recorded : List Edge) : Analysis κ σ :=
  { analysis with
    arena := (analysis.arena.recordDependencies node recorded).2.raise node .expanded
    edges := analysis.edges ++ recorded
    expandedCount := analysis.expandedCount + 1 }

/-- Takes over the expansion of a node. -/
def absorb (analysis : Analysis κ σ) (node : Handle) (expansion : Expansion) : Analysis κ σ :=
  let recorded := expansion.always.map fun dependency =>
    Edge.mk node dependency.target dependency.reason
  let reached := analysis.markEach (expansion.always.map Dependency.target)
  let considered := expansion.guarded.foldl (consider node) reached
  let fired := (considered.conclude node recorded).fireAt node
  fired.2.markEach fired.1

/-- Lets every pending dependency fire whose guard has come far enough, guard by guard; the answer
is how many there were. -/
def rescan (analysis : Analysis κ σ) : Nat × Analysis κ σ :=
  let ready := fun deferred : Deferred => analysis.satisfied deferred.dependency
  let fired := (analysis.pending.filter ready).mergeSort fun a b => a.guard.index ≤ b.guard.index
  let rest := { analysis with
    pending := analysis.pending.filter fun deferred => !ready deferred
    rescanCount := analysis.rescanCount + 1 }
  (fired.length, (rest.fire fired).markEach (fired.map Deferred.target))

end Analysis

end PortableImage.Graph
