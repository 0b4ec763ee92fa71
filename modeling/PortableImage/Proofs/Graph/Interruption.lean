import PortableImage.Proofs.Graph.Renumbering
/-!
# Interruptions

The cancellation flag is looked at between batches and before each expansion, and it may go up during
any of them.  So an interrupted analysis is compared with the same analysis left alone: as long as no
expansion has been skipped, the two are equal but for the flag, and a batch that was cut short ends in
a cancellation unless a node before the cut has failed.
-/

namespace PortableImage.Graph

variable {κ σ ε : Type}

/-- The same site with the flag down. -/
def Site.calm (site : Site κ σ) : Site κ σ := { site with cancelled := false }

/-- The same analysis with the flag down. -/
def Analysis.calm (analysis : Analysis κ σ) : Analysis κ σ := { analysis with cancelled := false }

/-- The other expander answers the same and leaves the same, but for the flag, which it never
raises. -/
def Expander.Mutes (steady expander : Expander κ σ ε) : Prop :=
  ∀ node (site : Site κ σ), site.cancelled = false →
    steady node site = ((expander node site).1, (expander node site).2.calm)

theorem Site.calm_of_not_cancelled {site : Site κ σ} (h : site.cancelled = false) :
    site.calm = site := by
  rw [Site.calm, ← h]

namespace Analysis

@[simp] theorem calm_toSite (analysis : Analysis κ σ) :
    analysis.calm.toSite = analysis.toSite.calm := rfl

section Marking

/-! Marking does not look at the flag. -/

theorem calm_markAll (analysis : Analysis κ σ) (stack : List Handle) :
    (analysis.markAll stack).calm = analysis.calm.markAll stack := by
  fun_induction markAll analysis stack with
  | case1 analysis => rw [markAll]
  | case2 analysis node stack hfresh fired ih =>
    have hcalm : analysis.calm.arena.isFresh node := hfresh
    rw [ih, markAll, if_pos hcalm]
    rfl
  | case3 analysis node stack hfresh ih =>
    have hcalm : ¬ analysis.calm.arena.isFresh node := hfresh
    rw [ih, markAll, if_neg hcalm]

theorem calm_mark (analysis : Analysis κ σ) (node : Handle) :
    (analysis.mark node).calm = analysis.calm.mark node :=
  calm_markAll analysis [node]

theorem calm_markEach (analysis : Analysis κ σ) (nodes : List Handle) :
    (analysis.markEach nodes).calm = analysis.calm.markEach nodes := by
  induction nodes generalizing analysis with
  | nil => rfl
  | cons node nodes ih =>
    show ((analysis.mark node).markEach nodes).calm = (analysis.calm.mark node).markEach nodes
    rw [ih, calm_mark]

theorem calm_consider (source : Handle) (analysis : Analysis κ σ)
    (dependency : GuardedDependency) :
    (consider source analysis dependency).calm = consider source analysis.calm dependency := by
  have hsame : analysis.calm.satisfied dependency = analysis.satisfied dependency := rfl
  unfold consider
  rw [hsame]
  split
  · exact calm_mark _ _
  · rfl

theorem calm_considerEach (source : Handle) (analysis : Analysis κ σ)
    (dependencies : List GuardedDependency) :
    (dependencies.foldl (consider source) analysis).calm =
      dependencies.foldl (consider source) analysis.calm := by
  induction dependencies generalizing analysis with
  | nil => rfl
  | cons dependency dependencies ih => rw [List.foldl_cons, List.foldl_cons, ih, calm_consider]

theorem calm_absorb (analysis : Analysis κ σ) (node : Handle) (expansion : Expansion) :
    (analysis.absorb node expansion).calm = analysis.calm.absorb node expansion := by
  have hconsidered (nodes : List Handle) :
      (expansion.guarded.foldl (consider node) (analysis.markEach nodes)).calm =
        expansion.guarded.foldl (consider node) (analysis.calm.markEach nodes) := by
    rw [calm_considerEach, calm_markEach]
  unfold absorb
  simp only [calm_markEach, ← hconsidered]
  rfl

theorem calm_rescan (analysis : Analysis κ σ) :
    analysis.calm.rescan = (analysis.rescan.1, analysis.rescan.2.calm) := by
  unfold rescan
  simp only [calm_markEach]
  rfl

theorem calm_settle (analysis : Analysis κ σ) (attempts : List (Handle × Attempt ε)) :
    analysis.calm.settle attempts =
      ((analysis.settle attempts).1, (analysis.settle attempts).2.calm) := by
  fun_induction settle analysis attempts with
  | case1 | case2 | case3 => rfl
  | case4 analysis node expansion later ih =>
    rw [settle, ← calm_absorb, ih]

end Marking

/-- A batch that was cut short is cancelled, unless a failure before the cut comes first; then what
was cut off does not count. -/
theorem settle_cut (left right : Analysis κ σ) (settled rest rest' : List (Handle × Attempt ε))
    (node : Handle) :
    (left.settle (settled ++ (node, .skipped) :: rest)).1 = some .cancelled ∨
      ∃ verdict, (left.settle (settled ++ (node, .skipped) :: rest)).1 = some verdict ∧
        (right.settle (settled ++ rest')).1 = some verdict := by
  induction settled generalizing left right with
  | nil => exact .inl rfl
  | cons attempt settled ih =>
    obtain ⟨first, attempt⟩ := attempt
    cases attempt with
    | skipped => exact .inl rfl
    | failed fault => exact .inr ⟨.failed fault, rfl, rfl⟩
    | expanded expansion => exact ih (left.absorb first expansion) (right.absorb first expansion)

end Analysis

section Batches

variable {expander steady : Expander κ σ ε}

def Attempt.ofAnswer : Except ε Expansion → Attempt ε
  | .ok expansion => .expanded expansion
  | .error fault => .failed fault

theorem expandBatch_cons_of_not_cancelled (expander : Expander κ σ ε) (node : Handle)
    (batch : List Handle) {site : Site κ σ} (h : site.cancelled = false) :
    expandBatch expander (node :: batch) site =
      ((node, .ofAnswer (expander node site).1) ::
          (expandBatch expander batch (expander node site).2).1,
        (expandBatch expander batch (expander node site).2).2) := by
  rw [expandBatch, h, if_neg Bool.false_ne_true]
  cases expander node site with
  | mk answer left => cases answer <;> rfl

/-- A batch is expanded as without the flag, up to where the flag cuts it short. -/
theorem expandBatch_calm (hmutes : steady.Mutes expander) (batch : List Handle)
    (site : Site κ σ) :
    expandBatch steady batch site.calm =
        ((expandBatch expander batch site).1, (expandBatch expander batch site).2.calm) ∨
      ∃ (taken : List (Handle × Attempt ε)) (node : Handle)
        (rest rest' : List (Handle × Attempt ε)),
        (expandBatch expander batch site).1 = taken ++ (node, .skipped) :: rest ∧
          (expandBatch steady batch site.calm).1 = taken ++ rest' := by
  induction batch generalizing site with
  | nil => exact .inl rfl
  | cons node batch ih =>
    cases hcancelled : site.cancelled with
    | true =>
      right
      refine ⟨[], node, (expandBatch expander batch site).1, _, ?_, rfl⟩
      rw [expandBatch, if_pos hcancelled, List.nil_append]
    | false =>
      have hcalm := Site.calm_of_not_cancelled hcancelled
      have hleft := expandBatch_cons_of_not_cancelled expander node batch hcancelled
      have hright := expandBatch_cons_of_not_cancelled steady node batch hcancelled
      rw [hmutes node site hcancelled] at hright
      rw [hcalm, hleft, hright]
      rcases ih (expander node site).2 with hequal | ⟨taken, cut, rest, rest', hcut, htaken⟩
      · left
        rw [hequal]
      · right
        refine ⟨(node, .ofAnswer (expander node site).1) :: taken, cut, rest, rest', ?_, ?_⟩
        · rw [hcut, List.cons_append]
        · rw [htaken, List.cons_append]

end Batches

namespace Analysis

variable [LE κ] [DecidableLE κ] {expander steady : Expander κ σ ε}

/-- A round that is not cancelled comes to the verdict of the round without the flag, and leaves the
same analysis behind unless that verdict is final. -/
theorem round_calm (hmutes : steady.Mutes expander) (analysis : Analysis κ σ) :
    (analysis.round expander).1 = some .cancelled ∨
      (analysis.round expander).1 = (analysis.calm.round steady).1 ∧
        ((analysis.round expander).1 = none →
          (analysis.round expander).2.calm = (analysis.calm.round steady).2) := by
  have hbatch : analysis.calm.batch = analysis.batch := rfl
  unfold round
  rw [hbatch, calm_toSite]
  rcases expandBatch_calm hmutes analysis.batch analysis.toSite with hequal |
    ⟨settled, node, rest, rest', hleft, hright⟩
  · right
    rw [hequal]
    have hsettle := calm_settle { analysis with
      toSite := (expandBatch expander analysis.batch analysis.toSite).2
      worklist := []
      batchCount := analysis.batchCount + 1 } (expandBatch expander analysis.batch analysis.toSite).1
    exact ⟨(congrArg Prod.fst hsettle).symm, fun _ => (congrArg Prod.snd hsettle).symm⟩
  · simp only [hleft, hright]
    rcases settle_cut _ _ settled rest rest' node with hcancelled | ⟨verdict, hfirst, hsecond⟩
    · exact .inl hcancelled
    · right
      refine ⟨hfirst.trans hsecond.symm, fun hnone => ?_⟩
      rw [hfirst] at hnone
      cases hnone

/-- An analysis is cancelled, or it comes to the verdict to which it comes without the flag; and if it
completes, it is the same analysis. -/
theorem saturate_calm (hmutes : steady.Mutes expander) (analysis : Analysis κ σ) (bound : Nat) :
    (analysis.saturate expander bound).1 = .cancelled ∨
      (analysis.saturate expander bound).1 = (analysis.calm.saturate steady bound).1 ∧
        ((analysis.saturate expander bound).1 = .completed →
          (analysis.saturate expander bound).2.calm = (analysis.calm.saturate steady bound).2) := by
  induction bound generalizing analysis with
  | zero => exact .inr ⟨rfl, fun h => by cases h⟩
  | succ bound ih =>
    have hworklist : analysis.calm.worklist = analysis.worklist := rfl
    rw [saturate, saturate, hworklist]
    by_cases hempty : analysis.worklist.isEmpty
    · rw [if_pos hempty, if_pos hempty, calm_rescan]
      by_cases hzero : analysis.rescan.1 = 0
      · simp only [if_pos hzero]
        exact .inr ⟨trivial, fun _ => trivial⟩
      · simp only [if_neg hzero]
        exact ih analysis.rescan.2
    · rw [if_neg hempty, if_neg hempty]
      by_cases hcancelled : analysis.cancelled
      · rw [if_pos hcancelled]
        exact .inl rfl
      · have hcalm : ¬ analysis.calm.cancelled := Bool.false_ne_true
        rw [if_neg hcancelled, if_neg hcalm]
        have hround := round_calm hmutes analysis
        have hfinal := round_ne_completed expander analysis
        cases hleft : analysis.round expander with
        | mk verdict next =>
          rw [hleft] at hround hfinal
          rcases hround with hstopped | ⟨hverdict, hnext⟩
          · obtain rfl : verdict = some .cancelled := hstopped
            exact .inl rfl
          · cases hright : analysis.calm.round steady with
            | mk verdict' next' =>
              rw [hright] at hverdict hnext
              obtain rfl : verdict = verdict' := hverdict
              cases verdict with
              | some verdict =>
                exact .inr ⟨rfl, fun hcompleted => absurd (congrArg some hcompleted) hfinal⟩
              | none =>
                obtain rfl : next.calm = next' := hnext rfl
                exact ih next

/-- Where the flag is never raised, nothing is cancelled. -/
theorem calm_ne_cancelled (hmutes : steady.Mutes expander) (analysis : Analysis κ σ)
    (bound : Nat) : (analysis.calm.saturate steady bound).1 ≠ .cancelled := by
  have hdown : steady.Keeps fun site => site.cancelled = false := by
    refine ⟨fun _ node site hsite => ?_, fun _ _ _ hmoved hold => hmoved.cancelled.trans hold⟩
    rw [hmutes node site hsite]
    rfl
  have hcarried {verdict : Verdict ε} {after : Analysis κ σ}
      (hsaturate : analysis.calm.saturate steady bound = (verdict, after)) :
      after.cancelled = false :=
    @Expander.Carries.saturate κ σ ε steady (fun _ site => site.cancelled = false) [] _ _
      analysis.calm after verdict hdown bound rfl hsaturate
  have hafter := hcarried rfl
  intro hstopped
  rw [cancelled_of_saturate hstopped] at hafter
  cases hafter

section Unfinished

/-! An analysis brings no node further than to be expanded, however it ends. -/

omit [LE κ] [DecidableLE κ] in
theorem Spread.progress_le_expanded {due entered : List Handle} {found fired : List Deferred}
    {before after : Analysis κ σ} (h : Spread due found before after entered fired)
    (hbefore : ∀ node, before.arena.progress node ≤ .expanded) (node : Handle) :
    after.arena.progress node ≤ .expanded := by
  rw [h.progress]
  split
  · decide
  · exact hbefore node

omit [LE κ] [DecidableLE κ] in
theorem progress_absorb_le {analysis : Analysis κ σ}
    (hbefore : ∀ node, analysis.arena.progress node ≤ .expanded) (node : Handle)
    (expansion : Expansion) (other : Handle) :
    (analysis.absorb node expansion).arena.progress other ≤ .expanded := by
  obtain ⟨considered, ⟨_, _, hfirst⟩, _, _, hsecond⟩ := spread_absorb analysis node expansion
  refine hsecond.progress_le_expanded (fun other => ?_) other
  have hconsidered := hfirst.progress_le_expanded hbefore
  rw [conclude, Arena.progress_raise, Arena.progress_recordDependencies]
  split
  · rw [Progress.le_iff, Progress.level_max]
    exact Nat.max_le.mpr ⟨hconsidered other, Nat.le_refl _⟩
  · exact hconsidered other

omit [LE κ] [DecidableLE κ] in
theorem progress_settle_le {analysis : Analysis κ σ}
    (hbefore : ∀ node, analysis.arena.progress node ≤ .expanded)
    (attempts : List (Handle × Attempt ε)) (other : Handle) :
    (analysis.settle attempts).2.arena.progress other ≤ .expanded := by
  fun_induction settle analysis attempts with
  | case1 | case2 | case3 => exact hbefore other
  | case4 analysis node expansion later ih => exact ih (progress_absorb_le hbefore node expansion)

variable (hstill : ∀ node (site : Site κ σ) other,
  (expander node site).2.arena.progress other = site.arena.progress other)
include hstill

omit [LE κ] [DecidableLE κ] in
theorem progress_expandBatch (batch : List Handle) (site : Site κ σ) (other : Handle) :
    (expandBatch expander batch site).2.arena.progress other = site.arena.progress other := by
  induction batch generalizing site with
  | nil => rfl
  | cons node batch ih =>
    cases hcancelled : site.cancelled with
    | true => rw [expandBatch_of_cancelled hcancelled]
    | false =>
      rw [expandBatch_cons_of_not_cancelled expander node batch hcancelled, ih, hstill]

theorem progress_saturate_le {analysis : Analysis κ σ}
    (hbefore : ∀ node, analysis.arena.progress node ≤ .expanded) (bound : Nat) (other : Handle) :
    (analysis.saturate expander bound).2.arena.progress other ≤ .expanded := by
  induction bound generalizing analysis with
  | zero => exact hbefore other
  | succ bound ih =>
    obtain ⟨_, _, hrescan⟩ := spread_rescan analysis
    have hrescanned := hrescan.progress_le_expanded hbefore
    rw [saturate]
    by_cases hempty : analysis.worklist.isEmpty
    · rw [if_pos hempty]
      by_cases hzero : analysis.rescan.1 = 0
      · simp only [if_pos hzero]
        exact hrescanned other
      · simp only [if_neg hzero]
        exact ih hrescanned
    · rw [if_neg hempty]
      by_cases hcancelled : analysis.cancelled
      · rw [if_pos hcancelled]
        exact hbefore other
      · rw [if_neg hcancelled]
        have hround : ∀ node, (analysis.round expander).2.arena.progress node ≤ .expanded := by
          refine progress_settle_le (fun node => ?_) _
          rw [progress_expandBatch hstill]
          exact hbefore node
        cases hanswer : analysis.round expander with
        | mk verdict next =>
          rw [hanswer] at hround
          cases verdict with
          | some verdict => exact hround other
          | none => exact ih hround

end Unfinished

end Analysis

section Drawing

variable [DecidableEq κ]

/-- The expander that draws a plan, and raises the flag at some keys. -/
def FalliblePlan.interrupted (plan : FalliblePlan κ ε) (raises : κ → Bool) : Expander κ σ ε :=
  fun node site =>
    let (answer, left) := plan.expander node site
    (answer, { left with cancelled := left.cancelled || (site.arena.key? node).any raises })

theorem FalliblePlan.mutes_interrupted (plan : FalliblePlan κ ε) (raises : κ → Bool) :
    (plan.expander : Expander κ σ ε).Mutes (plan.interrupted raises) := by
  intro node site hcancelled
  have hleft : (plan.expander node site : Except ε Expansion × Site κ σ).2.cancelled = false := by
    cases hkey : site.arena.key? node with
    | some key =>
      rw [plan.governs_expander.cancelled node site (by rw [hkey]; rfl), hcancelled]
    | none =>
      rw [expander, hkey, Option.bind_none]
      show (plan.toPlan.expander node site).2.cancelled = false
      rw [Plan.expander, hkey]
      exact hcancelled
  exact Prod.ext rfl (Site.calm_of_not_cancelled hleft).symm

end Drawing

end PortableImage.Graph
