import PortableImage.Proofs.Graph.Passage
/-!
# Attention to guards

An analysis looks at a guard whenever it moves the work on it forward: when it marks it and when it
has expanded it.  That is enough as long as nobody else moves work forward.  Then nothing that could
fire is left pending from one moment to the next, in whatever order guards and dependencies come up,
and a rescan only confirms that there is nothing to do.
-/

namespace PortableImage.Graph

variable {κ σ ε : Type}

/-- On known nodes the expander moves no work at all.  It may create nodes, fail and cancel. -/
def Expander.Still (expander : Expander κ σ ε) : Prop :=
  ∀ node (site : Site κ σ), (site.arena.key? node).isSome →
    ∀ other, (expander node site).2.arena.progress other = site.arena.progress other

namespace Expander.Still

variable {expander : Expander κ σ ε}

theorem forward (h : expander.Still) : expander.Forward := by
  intro node site hknown other
  rw [h node site hknown other]
  exact Nat.le_refl _

theorem expandBatch (h : expander.Still) {batch : List Handle} {site : Site κ σ}
    (hmarked : ∀ node ∈ batch, (site.arena.progress node).isMarked) (other : Handle) :
    (Graph.expandBatch expander batch site).2.arena.progress other =
      site.arena.progress other := by
  revert other
  refine expandBatch_kept (I := fun left => ∀ other,
    left.arena.progress other = site.arena.progress other) ?_ fun _ => rfl
  intro node hnode left hleft other
  have hknown : (left.arena.key? node).isSome := by
    apply Arena.isSome_key?_of_isMarked
    rw [hleft]
    exact hmarked node hnode
  rw [h node left hknown, hleft]

end Expander.Still

/-- The moments of an analysis, with the results of the current batch that have not been taken over.
Between any two moments the host or another thread may do to the site what they like, as long as
they move no work. -/
inductive Undisturbed [LE κ] [DecidableLE κ] (expander : Expander κ σ ε) :
    List (Handle × Attempt ε) → Analysis κ σ → Prop
  | start (site : Site κ σ) : Undisturbed expander [] { toSite := site }
  | outside {left analysis} (site : Site κ σ)
      (hprogress : ∀ node, site.arena.progress node = analysis.arena.progress node)
      (h : Undisturbed expander left analysis) :
      Undisturbed expander left { analysis with toSite := site }
  | root {analysis} (node : Handle) (h : Undisturbed expander [] analysis) :
      Undisturbed expander [] (analysis.mark node)
  | batch {analysis} (h : Undisturbed expander [] analysis) :
      Undisturbed expander (expandBatch expander analysis.batch analysis.toSite).1
        { analysis with
          toSite := (expandBatch expander analysis.batch analysis.toSite).2
          worklist := []
          batchCount := analysis.batchCount + 1 }
  | absorb {node expansion left analysis}
      (h : Undisturbed expander ((node, .expanded expansion) :: left) analysis) :
      Undisturbed expander left (analysis.absorb node expansion)
  /-- The batch is cut off at a node that was skipped or failed. -/
  | cut {left analysis} (h : Undisturbed expander left analysis) : Undisturbed expander [] analysis
  | rescan {analysis} (h : Undisturbed expander [] analysis) :
      Undisturbed expander [] analysis.rescan.2

namespace Undisturbed

open Analysis (Passes Drawn)

variable [LE κ] [DecidableLE κ] {expander : Expander κ σ ε} {left : List (Handle × Attempt ε)}
  {analysis before after : Analysis κ σ} {called : List Handle} {fired : List Nat}

/-- At every moment nothing that is pending could fire, and what is left of the batch was drawn from
the worklist. -/
theorem idle_and_drawn (hstill : expander.Still) (h : Undisturbed expander left analysis) :
    analysis.Idle ∧ ∃ drawn, Drawn drawn analysis ∧ ∀ node ∈ left.map Prod.fst, node ∈ drawn := by
  induction h with
  | start site =>
    exact ⟨fun _ hmem => (List.not_mem_nil hmem).elim, [], .initial site,
      fun _ hmem => (List.not_mem_nil hmem).elim⟩
  | @outside left analysis site hprogress _ ih =>
    obtain ⟨hidle, drawn, hdrawn, hleft⟩ := ih
    refine ⟨fun deferred hmem => ?_, drawn, hdrawn.forward site fun node => ?_, hleft⟩
    · rw [← hidle deferred hmem]
      exact Analysis.satisfied_congr (hprogress _)
    · rw [hprogress]
      exact Nat.le_refl _
  | root node _ ih =>
    obtain ⟨hidle, drawn, hdrawn, hleft⟩ := ih
    exact ⟨hidle.markAll [node], drawn, hdrawn.mark node, hleft⟩
  | @batch analysis _ ih =>
    obtain ⟨hidle, drawn, hdrawn, _⟩ := ih
    have hprogress := hstill.expandBatch fun _ => hdrawn.isMarked_of_batch
    refine ⟨fun deferred hmem => ?_, _, (hdrawn.take (analysis.batchCount + 1)).forward _ ?_, ?_⟩
    · rw [← hidle deferred hmem]
      exact Analysis.satisfied_congr (hprogress _)
    · intro node
      rw [hprogress]
      exact Nat.le_refl _
    · intro node hnode
      rw [map_fst_expandBatch] at hnode
      exact List.mem_append_right _ ((Analysis.batch_subperm analysis).subset hnode)
  | @absorb node expansion left analysis _ ih =>
    obtain ⟨hidle, drawn, hdrawn, hleft⟩ := ih
    exact ⟨hidle.absorb node expansion, drawn,
      hdrawn.absorb (hleft node List.mem_cons_self) expansion,
      fun other hother => hleft other (List.mem_cons_of_mem _ hother)⟩
  | cut _ ih =>
    obtain ⟨hidle, drawn, hdrawn, _⟩ := ih
    exact ⟨hidle, drawn, hdrawn, fun _ hmem => (List.not_mem_nil hmem).elim⟩
  | rescan _ ih =>
    obtain ⟨hidle, drawn, hdrawn, hleft⟩ := ih
    refine ⟨?_, drawn, hdrawn.rescan, hleft⟩
    rw [hidle.rescan]
    exact hidle

theorem settle (h : Undisturbed expander left analysis) :
    Undisturbed expander [] (analysis.settle left).2 := by
  induction left generalizing analysis with
  | nil => exact h
  | cons attempt left ih =>
    obtain ⟨node, attempt⟩ := attempt
    cases attempt with
    | skipped | failed => exact h.cut
    | expanded expansion => exact ih h.absorb

/-- A computation goes from moment to moment. -/
theorem passes (h : Undisturbed expander [] before)
    (hpasses : Passes expander called fired before after) : Undisturbed expander [] after := by
  induction hpasses with
  | refl => exact h
  | rescan _ _ ih => exact (ih h).rescan
  | round _ _ _ ih => exact (ih h).batch.settle

theorem eq_zero_of_passes (hstill : expander.Still) (h : Undisturbed expander [] before)
    (hpasses : Passes expander called fired before after) : ∀ count ∈ fired, count = 0 := by
  induction hpasses with
  | refl => exact fun _ h => by cases h
  | rescan hpasses _ ih =>
    intro count hcount
    rcases List.mem_append.mp hcount with hcount | hcount
    · exact ih h count hcount
    · rw [List.mem_singleton.mp hcount, ((h.passes hpasses).idle_and_drawn hstill).1.rescan]
  | round _ _ _ ih => exact ih h

end Undisturbed

/-- A computation that has no use for rescans. -/
structure Attentive [LE κ] [DecidableLE κ] (expander : Expander κ σ ε) (analysis : Analysis κ σ)
    (bound : Nat) : Prop where
  rescans : ∀ count ∈ analysis.rescans expander bound, count = 0
  /-- If it completes, then with its only rescan. -/
  completed : (analysis.saturate expander bound).1 = .completed →
    analysis.rescans expander bound = [0] ∧
      (analysis.saturate expander bound).2.rescanCount = analysis.rescanCount + 1
  cut_off : (analysis.saturate expander bound).1 ≠ .completed →
    analysis.rescans expander bound = [] ∧
      (analysis.saturate expander bound).2.rescanCount = analysis.rescanCount
  moment : Undisturbed expander [] (analysis.saturate expander bound).2

section Attention

variable [LE κ] [DecidableLE κ] {expander : Expander κ σ ε} {left : List (Handle × Attempt ε)}
  {analysis : Analysis κ σ}

theorem Undisturbed.attentive (hstill : expander.Still) (h : Undisturbed expander [] analysis)
    (bound : Nat) : Attentive expander analysis bound := by
  have hpasses := Analysis.passes_saturate expander bound analysis
  have hzero := h.eq_zero_of_passes hstill hpasses
  have hcount := hpasses.rescanCount
  obtain ⟨busy, hbusy, hcases⟩ := Analysis.rescans_cases expander bound analysis
  -- No rescan is busy.
  have hnone : busy = [] := by
    refine List.eq_nil_iff_forall_not_mem.mpr fun count hmem => hbusy count hmem (hzero count ?_)
    rcases hcases with ⟨_, hrescans⟩ | ⟨_, hrescans⟩
    · rw [hrescans]
      exact List.mem_append_left _ hmem
    · rwa [hrescans]
  subst hnone
  refine ⟨hzero, fun hcompleted => ?_, fun hcut => ?_, h.passes hpasses⟩
  · rcases hcases with ⟨_, hrescans⟩ | ⟨hne, _⟩
    · rw [hrescans] at hcount
      exact ⟨hrescans, hcount⟩
    · exact absurd hcompleted hne
  · rcases hcases with ⟨hcompleted, _⟩ | ⟨_, hrescans⟩
    · exact absurd hcompleted hcut
    · rw [hrescans] at hcount
      exact ⟨hrescans, hcount⟩

/-- If nobody but the analysis moves work forward, then at every moment each pending dependency has
a guard short of its threshold, a rescan only counts itself, and all computations that follow are
attentive. -/
theorem Undisturbed.redundant (hstill : expander.Still) (h : Undisturbed expander left analysis) :
    (∀ deferred ∈ analysis.pending,
      analysis.arena.progress deferred.guard < deferred.dependency.threshold) ∧
    analysis.rescan = (0, { analysis with rescanCount := analysis.rescanCount + 1 }) ∧
    (left = [] → ∀ bound, Attentive expander analysis bound) := by
  have hidle := (h.idle_and_drawn hstill).1
  refine ⟨fun deferred hmem => Analysis.satisfied_eq_false_iff.mp (hidle deferred hmem),
    hidle.rescan, fun hleft bound => ?_⟩
  subst hleft
  exact h.attentive hstill bound

end Attention

section Chained

/-- What node 0 needs: node 1 once node 0 itself is expanded, node 0 once node 1 is marked, and
node 2 once node 1 is expanded. -/
def chainNeeds : Expansion where
  guarded := [⟨⟨1⟩, ⟨0⟩, .expanded, "self"⟩, ⟨⟨0⟩, ⟨1⟩, .marked, "back"⟩,
    ⟨⟨2⟩, ⟨1⟩, .expanded, "body"⟩]

/-- Node 2 fails, and the other nodes need nothing. -/
def chained : Expander Nat Unit String := fun node site =>
  match node.index with
  | 0 => (.ok chainNeeds, site)
  | 2 => (.error "stuck", site)
  | _ => (.ok {}, site)

theorem still_chained : chained.Still := by
  intro node site _ other
  unfold chained
  split <;> rfl

def chainRooted : Analysis Nat Unit :=
  ({ arena := (Arena.empty.internEach [0, 1, 2]).2, store := () } : Analysis Nat Unit).mark ⟨0⟩

/-- A computation has failed at node 2. -/
def chainFailed : Analysis Nat Unit := (chainRooted.saturate chained 3).2

/-- All dependencies fire in the first computation, which comes to no rescan, one of them while the
target of another is marked.  The second computation has one rescan. -/
theorem redundant_chained :
    (chainRooted.saturate chained 3).1 = .failed "stuck" ∧
      chainRooted.rescans chained 3 = [] ∧ chainFailed.activatedCount = 3 ∧
      (chainFailed.saturate chained 3).1 = .completed ∧ chainFailed.rescans chained 3 = [0] := by
  have hfailed : (chainRooted.saturate chained 3).1 = .failed "stuck" := by decide +kernel
  have hcompleted : (chainFailed.saturate chained 3).1 = .completed := by decide +kernel
  have hstart : Undisturbed chained [] chainRooted := .root ⟨0⟩ (.start _)
  have hfirst := (hstart.redundant still_chained).2.2 rfl 3
  have hsecond := (hfirst.moment.redundant still_chained).2.2 rfl 3
  have hcut : (chainRooted.saturate chained 3).1 ≠ .completed := by
    rw [hfailed]
    exact fun h => by cases h
  exact ⟨hfailed, (hfirst.cut_off hcut).1, by decide +kernel, hcompleted,
    (hsecond.completed hcompleted).1⟩

end Chained

end PortableImage.Graph
