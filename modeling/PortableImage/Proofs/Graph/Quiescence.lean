import PortableImage.Proofs.Graph.Termination
/-!
# Quiescence

An expander may do more than name targets: it can move the work on any node forward, and so can the
host between two computations.  The analysis is not told.  A dependency whose guard has come far
enough behind its back stays pending until the next rescan, and what it leads to may again be
expanded by an expander of this kind.  A completed analysis is quiescent all the same, because it
only ends with a rescan that let nothing fire.
-/

namespace PortableImage.Graph.Analysis

variable {κ σ ε : Type}

/-- Nothing is left to expand, and every guard is short of the threshold it is waited for with. -/
structure Quiescent (analysis : Analysis κ σ) : Prop where
  worklist : analysis.worklist = []
  pending : ∀ deferred ∈ analysis.pending,
    analysis.arena.progress deferred.guard < deferred.dependency.threshold

theorem satisfied_eq_false_iff {analysis : Analysis κ σ} {dependency : GuardedDependency} :
    analysis.satisfied dependency = false ↔
      analysis.arena.progress dependency.guard < dependency.threshold := by
  rw [satisfied, decide_eq_false_iff_not, Progress.le_iff, Progress.lt_iff]
  omega

/-- A rescan with an empty worklist that lets nothing fire leaves a quiescent analysis. -/
theorem quiescent_rescan {analysis : Analysis κ σ} (hworklist : analysis.worklist = [])
    (hzero : analysis.rescan.1 = 0) : analysis.rescan.2.Quiescent := by
  obtain ⟨hsite, hrest, hpending⟩ := rescan_eq_zero hzero
  refine ⟨hrest.trans hworklist, fun deferred hmem => ?_⟩
  have hwaits := satisfied_eq_false_iff.mp (hpending deferred hmem)
  rwa [hsite]

theorem Quiescent.idle {analysis : Analysis κ σ} (h : analysis.Quiescent) : analysis.Idle :=
  fun deferred hmem => satisfied_eq_false_iff.mpr (h.pending deferred hmem)

variable [LE κ] [DecidableLE κ] {expander : Expander κ σ ε} {analysis after : Analysis κ σ}

/-- Whatever has been done to an analysis and to its arena before, and whatever the expander does to
the arena on the way: when a computation completes, nothing waits in the worklist and no pending
dependency has a guard that has come far enough. -/
theorem quiescent_of_saturate {bound : Nat}
    (h : analysis.saturate expander bound = (.completed, after)) : after.Quiescent := by
  -- Only the last rescan counts, so the induction carries no invariant from round to round.
  induction bound generalizing analysis with
  | zero => cases h
  | succ bound ih =>
    rw [saturate] at h
    by_cases hworklist : analysis.worklist.isEmpty
    · rw [if_pos hworklist] at h
      by_cases hzero : analysis.rescan.1 = 0
      · simp only [if_pos hzero] at h
        obtain rfl := (Prod.mk.inj h).2
        exact quiescent_rescan (List.isEmpty_iff.mp hworklist) hzero
      · simp only [if_neg hzero] at h
        exact ih h
    · rw [if_neg hworklist] at h
      by_cases hcancelled : analysis.cancelled
      · rw [if_pos hcancelled] at h
        cases h
      · rw [if_neg hcancelled] at h
        cases hround : analysis.round expander with
        | mk verdict next =>
          rw [hround] at h
          cases verdict with
          | some verdict =>
            obtain ⟨rfl, rfl⟩ := Prod.mk.inj h
            exact absurd (congrArg Prod.fst hround) (round_ne_completed expander analysis)
          | none => exact ih h

/-- A quiescent analysis is complete as it stands: computing it again only counts a rescan. -/
theorem Quiescent.saturate (h : analysis.Quiescent) (bound : Nat) :
    analysis.saturate expander (bound + 1) =
      (.completed, { analysis with rescanCount := analysis.rescanCount + 1 }) := by
  rw [Analysis.saturate, if_pos (List.isEmpty_iff.mpr h.worklist), h.idle.rescan]
  rfl

section Meddler

/-- The first node needs the fourth, and the second once the third is expanded.  Expanding the fourth
node raises the third, which is on no worklist. -/
def meddler : Expander Nat Unit Empty := fun node => do
  match node.index with
  | 0 => return {
      always := [⟨⟨3⟩, "next"⟩]
      guarded := [⟨⟨1⟩, ⟨2⟩, .expanded, "behind"⟩, ⟨⟨4⟩, ⟨1⟩, .emitted, "idle"⟩] }
  | 3 =>
    modify fun site => { site with arena := site.arena.raise ⟨2⟩ .expanded }
    return {}
  | _ => return {}

def meddled : Analysis Nat Unit :=
  ({ arena := ((∅ : Arena Nat).internEach [0, 1, 2, 3, 4]).2, store := () } :
    Analysis Nat Unit).mark ⟨0⟩

/-- The second node is only found by a rescan; the fifth stays behind its guard. -/
theorem quiescent_of_saturate_meddled :
    (meddled.saturate meddler 6).1 = .completed ∧
      (meddled.saturate meddler 6).2.Quiescent ∧
      (meddled.saturate meddler 6).2.arena.progress ⟨1⟩ = .expanded ∧
      (meddled.saturate meddler 6).2.pending.map Deferred.target = [⟨4⟩] := by
  have hcompleted : (meddled.saturate meddler 6).1 = .completed := by decide +kernel
  exact ⟨hcompleted, quiescent_of_saturate (Prod.ext hcompleted rfl), by decide +kernel,
    by decide +kernel⟩

end Meddler

end PortableImage.Graph.Analysis
