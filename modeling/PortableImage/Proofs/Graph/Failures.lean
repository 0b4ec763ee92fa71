import PortableImage.Proofs.Graph.Quiescence
/-!
# What failures leave behind

A computation takes its batch off the worklist before it knows whether all of it can be expanded.
When a node fails, the verdict is the failure, and neither this node nor those behind it in the batch
go back: they stay marked, marking them again does nothing, and no later computation comes to them.
So a computation that completes speaks for all that is marked only if none before it has failed.
-/

namespace PortableImage.Graph

variable {κ σ ε : Type}

/-- On known nodes the expander moves no work forward and does not cancel.  It may create nodes, and
it may fail on one call and answer on the next. -/
structure Expander.Bystander (expander : Expander κ σ ε) : Prop where
  progress : ∀ node (site : Site κ σ), (site.arena.key? node).isSome →
    ∀ other, (expander node site).2.arena.progress other = site.arena.progress other
  cancelled : ∀ node (site : Site κ σ), (site.arena.key? node).isSome →
    (expander node site).2.cancelled = site.cancelled

def Verdict.isFailure : Verdict ε → Bool
  | failed _ => true
  | _ => false

/-- The nodes of a batch whose attempts are not taken over: the first that was skipped or failed, and
all behind it. -/
def unsettled : List (Handle × Attempt ε) → List Handle
  | [] => []
  | (node, .skipped) :: later => node :: later.map Prod.fst
  | (node, .failed _) :: later => node :: later.map Prod.fst
  | (_, .expanded _) :: later => unsettled later

theorem map_fst_expandBatch (expander : Expander κ σ ε) (batch : List Handle) (site : Site κ σ) :
    (expandBatch expander batch site).1.map Prod.fst = batch := by
  induction batch generalizing site with
  | nil => rfl
  | cons node batch ih =>
    rw [expandBatch]
    split
    · rw [List.map_cons, ih]
    · split <;> rw [List.map_cons, ih]

/-- Without cancellation the first node of a batch is tried, and the others after it. -/
theorem expandBatch_cons (expander : Expander κ σ ε) (node : Handle) (batch : List Handle)
    {site : Site κ σ} (hcancelled : site.cancelled = false) :
    ∃ attempt : Attempt ε, attempt ≠ .skipped ∧
      expandBatch expander (node :: batch) site =
        ((node, attempt) :: (expandBatch expander batch (expander node site).2).1,
          (expandBatch expander batch (expander node site).2).2) := by
  rw [expandBatch, hcancelled, if_neg Bool.false_ne_true]
  cases expander node site with
  | mk answer left =>
    cases answer with
    | ok expansion => exact ⟨.expanded expansion, by simp, rfl⟩
    | error fault => exact ⟨.failed fault, by simp, rfl⟩

/-- Without cancellation a bystander skips no node of a batch and moves no work forward. -/
theorem Expander.Bystander.expandBatch {expander : Expander κ σ ε} (h : expander.Bystander)
    {batch : List Handle} {site : Site κ σ}
    (hmarked : ∀ node ∈ batch, site.arena.progress node = .marked)
    (hcancelled : site.cancelled = false) :
    (∀ attempt ∈ (Graph.expandBatch expander batch site).1, attempt.2 ≠ .skipped) ∧
      (∀ other, (Graph.expandBatch expander batch site).2.arena.progress other =
        site.arena.progress other) ∧
      (Graph.expandBatch expander batch site).2.cancelled = false := by
  induction batch generalizing site with
  | nil => exact ⟨by simp [Graph.expandBatch], fun _ => rfl, hcancelled⟩
  | cons node batch ih =>
    have hknown : (site.arena.key? node).isSome := by
      apply Arena.isSome_key?_of_progress
      rw [hmarked node List.mem_cons_self]
      decide
    have hprogress := h.progress node site hknown
    have hrest : ∀ other ∈ batch, (expander node site).2.arena.progress other = .marked := by
      intro other hother
      rw [hprogress]
      exact hmarked other (List.mem_cons_of_mem _ hother)
    obtain ⟨hskipped, hlater, hend⟩ := ih hrest ((h.cancelled node site hknown).trans hcancelled)
    obtain ⟨attempt, hattempt, hcons⟩ := expandBatch_cons expander node batch hcancelled
    rw [hcons]
    refine ⟨?_, fun other => (hlater other).trans (hprogress other), hend⟩
    intro other hother
    rcases List.mem_cons.mp hother with rfl | hother
    · exact hattempt
    · exact hskipped other hother

namespace Analysis

section Settling

variable {visits : List (Visit κ σ)} {lost : List Handle} {analysis : Analysis κ σ}
  {attempts : List (Handle × Attempt ε)}

/-- What is not settled of a batch waits from then on outside of the worklist. -/
theorem Tally.settle (h : Tally visits (attempts.map Prod.fst ++ lost) analysis) :
    ∃ later, Tally (visits ++ later) (unsettled attempts ++ lost) (analysis.settle attempts).2 := by
  induction attempts generalizing visits analysis with
  | nil => exact ⟨[], by rwa [List.append_nil]⟩
  | cons attempt attempts ih =>
    obtain ⟨node, attempt⟩ := attempt
    cases attempt with
    | skipped => exact ⟨[], by rwa [List.append_nil]⟩
    | failed fault => exact ⟨[], by rwa [List.append_nil]⟩
    | expanded expansion =>
      obtain ⟨later, hlater⟩ := ih (h.absorb ⟨node, analysis.toSite, expansion, analysis.toSite⟩)
      rw [List.append_assoc] at hlater
      exact ⟨_, hlater⟩

theorem cancelled_settle (analysis : Analysis κ σ) (attempts : List (Handle × Attempt ε)) :
    (analysis.settle attempts).2.cancelled = analysis.cancelled := by
  fun_induction settle analysis attempts with
  | case1 | case2 | case3 => rfl
  | case4 _ _ _ _ ih => exact ih.trans (cancelled_absorb ..)

/-- Unless a node was skipped, a batch is settled or has failed, and then something is left of it. -/
theorem settle_cases (analysis : Analysis κ σ)
    (hattempts : ∀ attempt ∈ attempts, attempt.2 ≠ .skipped) :
    (analysis.settle attempts).1 = none ∧ unsettled attempts = [] ∨
      (∃ fault, (analysis.settle attempts).1 = some (.failed fault)) ∧ unsettled attempts ≠ [] := by
  induction attempts generalizing analysis with
  | nil => exact .inl ⟨rfl, rfl⟩
  | cons attempt attempts ih =>
    obtain ⟨node, attempt⟩ := attempt
    cases attempt with
    | skipped => exact absurd rfl (hattempts _ List.mem_cons_self)
    | failed fault => exact .inr ⟨⟨fault, rfl⟩, List.cons_ne_nil _ _⟩
    | expanded expansion =>
      exact ih _ fun attempt hattempt => hattempts attempt (List.mem_cons_of_mem _ hattempt)

end Settling

variable [LE κ] [DecidableLE κ] {expander : Expander κ σ ε} {visits : List (Visit κ σ)}
  {lost : List Handle} {analysis after : Analysis κ σ}

/-- The nodes an analysis takes off the worklist without taking over their expansions. -/
def abandoned (expander : Expander κ σ ε) : Nat → Analysis κ σ → List Handle
  | 0, _ => []
  | bound + 1, analysis =>
    if analysis.worklist.isEmpty then
      let rescanned := analysis.rescan
      if rescanned.1 = 0 then [] else abandoned expander bound rescanned.2
    else if analysis.cancelled then []
    else
      match analysis.round expander with
      | (some _, _) => unsettled (expandBatch expander analysis.batch analysis.toSite).1
      | (none, analysis) => abandoned expander bound analysis

/-- A round of a bystander adds what it could not settle to what has been lost before. -/
theorem Tally.round (hbystander : expander.Bystander) (h : Tally visits lost analysis)
    (hcancelled : analysis.cancelled = false) :
    ∃ later, Tally (visits ++ later)
        (unsettled (expandBatch expander analysis.batch analysis.toSite).1 ++ lost)
        (analysis.round expander).2 ∧
      (analysis.round expander).2.cancelled = false := by
  obtain ⟨_, hprogress, hleft⟩ :=
    hbystander.expandBatch (fun _ => h.progress_of_batch) hcancelled
  have htaken := (h.take h.batch_perm (analysis.batchCount + 1)).move
    (expandBatch expander analysis.batch analysis.toSite).2 hprogress
  rw [← map_fst_expandBatch expander analysis.batch analysis.toSite] at htaken
  obtain ⟨later, hlater⟩ := htaken.settle
  rw [map_fst_expandBatch] at hlater
  exact ⟨later, hlater, (cancelled_settle _ _).trans hleft⟩

/-- What a computation of a bystander abandons is lost, and it abandons something if and only if it
fails. -/
theorem Tally.saturate (hbystander : expander.Bystander) (h : Tally visits lost analysis)
    (hcancelled : analysis.cancelled = false) (bound : Nat) :
    (∃ later, Tally (visits ++ later) (analysis.abandoned expander bound ++ lost)
        (analysis.saturate expander bound).2) ∧
      (analysis.saturate expander bound).2.cancelled = false ∧
      (analysis.abandoned expander bound ≠ [] ↔
        (analysis.saturate expander bound).1.isFailure) := by
  induction bound generalizing visits analysis with
  | zero => exact ⟨⟨[], by rwa [List.append_nil]⟩, hcancelled, by simp [abandoned, saturate]; rfl⟩
  | succ bound ih =>
    rw [Analysis.saturate, abandoned]
    obtain ⟨_, _, hspread⟩ := spread_rescan analysis
    have hrescanned := h.spread hspread
    have hrest := hspread.cancelled.trans hcancelled
    by_cases hworklist : analysis.worklist.isEmpty
    · rw [if_pos hworklist, if_pos hworklist]
      by_cases hzero : analysis.rescan.1 = 0
      · simp only [if_pos hzero]
        exact ⟨⟨[], by rwa [List.append_nil]⟩, hrest, by simp [Verdict.isFailure]⟩
      · simp only [if_neg hzero]
        exact ih hrescanned hrest
    · rw [if_neg hworklist, if_neg hworklist, hcancelled, if_neg Bool.false_ne_true,
        if_neg Bool.false_ne_true]
      obtain ⟨later, hround, hleft⟩ := h.round hbystander hcancelled
      obtain ⟨hskipped, _, _⟩ :=
        hbystander.expandBatch (fun _ => h.progress_of_batch) hcancelled
      have hcases : (analysis.round expander).1 = none ∧ _ ∨
          (∃ fault, (analysis.round expander).1 = some (.failed fault)) ∧ _ :=
        settle_cases _ hskipped
      cases hanswer : analysis.round expander with
      | mk verdict next =>
        rw [hanswer] at hround hleft hcases
        rcases hcases with ⟨rfl, hnone⟩ | ⟨⟨fault, rfl⟩, hsome⟩
        · rw [hnone, List.nil_append] at hround
          obtain ⟨⟨more, hmore⟩, hend⟩ := ih hround hleft
          exact ⟨⟨later ++ more, by rwa [← List.append_assoc]⟩, hend⟩
        · exact ⟨⟨later, hround⟩, hleft, by simp [hsome, Verdict.isFailure]⟩

end Analysis

/-- A computation of the past: its verdict, and the nodes it has abandoned. -/
structure Trial (ε : Type) where
  verdict : Verdict ε
  abandoned : List Handle

/-- What a host can come to when computations may fail: from an arena where nothing is marked it
creates nodes, adds roots, changes the store in which the expander works, and computes until the
computation returns, whatever the verdict. -/
inductive Trials [DecidableEq κ] [LE κ] [DecidableLE κ] (expander : Expander κ σ ε) :
    List (Trial ε) → Analysis κ σ → Prop
  | start (site : Site κ σ) (hunmarked : ∀ node, site.arena.progress node = .unmarked)
      (hcancelled : site.cancelled = false) : Trials expander [] { toSite := site }
  | create {trials analysis} (key : κ) (h : Trials expander trials analysis) :
      Trials expander trials { analysis with arena := (analysis.arena.intern key).2 }
  | root {trials analysis} (node : Handle) (h : Trials expander trials analysis) :
      Trials expander trials (analysis.mark node)
  | provide {trials analysis} (store : σ) (h : Trials expander trials analysis) :
      Trials expander trials { analysis with store }
  | compute {trials analysis} (bound : Nat) (h : Trials expander trials analysis)
      (hreturns : (analysis.saturate expander bound).1 ≠ .exhausted) :
      Trials expander
        (⟨(analysis.saturate expander bound).1, analysis.abandoned expander bound⟩ :: trials)
        (analysis.saturate expander bound).2

section Trials

variable [DecidableEq κ] [LE κ] [DecidableLE κ] {expander : Expander κ σ ε}
  {trials : List (Trial ε)} {analysis after : Analysis κ σ}

/-- Whatever was tried, a node that is marked and not expanded is on the worklist or was abandoned,
and a trial has abandoned something if and only if it failed. -/
theorem Trials.tally (hbystander : expander.Bystander) (h : Trials expander trials analysis) :
    (∃ visits, Analysis.Tally visits (trials.flatMap Trial.abandoned) analysis) ∧
      analysis.cancelled = false ∧
      ∀ trial ∈ trials, trial.abandoned ≠ [] ↔ trial.verdict.isFailure := by
  induction h with
  | start site hunmarked hcancelled =>
    exact ⟨⟨[], .initial hunmarked⟩, hcancelled, fun _ htrial => by cases htrial⟩
  | @create trials analysis key _ ih =>
    obtain ⟨⟨visits, htally⟩, hrest⟩ := ih
    have hprogress := (Arena.Grows.intern analysis.arena key).progress
    exact ⟨⟨visits, htally.move { analysis with arena := (analysis.arena.intern key).2 } hprogress⟩,
      hrest⟩
  | @root trials analysis node _ ih =>
    obtain ⟨⟨visits, htally⟩, hcancelled, htrials⟩ := ih
    obtain ⟨_, _, hspread⟩ := Analysis.spread_mark analysis node
    exact ⟨⟨visits, htally.spread hspread⟩, hspread.cancelled.trans hcancelled, htrials⟩
  | @provide trials analysis store _ ih =>
    obtain ⟨⟨visits, htally⟩, hrest⟩ := ih
    exact ⟨⟨visits, htally.move { analysis with store } fun _ => rfl⟩, hrest⟩
  | @compute trials analysis bound _ _ ih =>
    obtain ⟨⟨visits, htally⟩, hcancelled, htrials⟩ := ih
    obtain ⟨⟨later, hlater⟩, hleft, hfailure⟩ := htally.saturate hbystander hcancelled bound
    refine ⟨⟨_, hlater⟩, hleft, fun trial htrial => ?_⟩
    rcases List.mem_cons.mp htrial with rfl | htrial
    · exact hfailure
    · exact htrials trial htrial

/-- When a computation completes, the nodes that are marked and not expanded are exactly those that
failed trials before it have abandoned, whatever roots were added since; and all that is marked is
expanded if and only if no trial before it has failed. -/
theorem Trials.marked_iff_abandoned (hbystander : expander.Bystander)
    (h : Trials expander trials analysis) {bound : Nat}
    (hcompute : analysis.saturate expander bound = (.completed, after)) :
    (∀ node, after.arena.progress node = .marked ↔
      ∃ trial ∈ trials, trial.verdict.isFailure ∧ node ∈ trial.abandoned) ∧
    ((∀ node, (after.arena.progress node).isMarked → after.arena.progress node = .expanded) ↔
      ∀ trial ∈ trials, trial.verdict.isFailure = false) := by
  obtain ⟨⟨visits, htally⟩, hcancelled, htrials⟩ := h.tally hbystander
  obtain ⟨⟨later, hlater⟩, _, hfailure⟩ := htally.saturate hbystander hcancelled bound
  have hkept : analysis.abandoned expander bound = [] := by
    by_contra hne
    have hfails := hfailure.mp hne
    rw [hcompute] at hfails
    cases hfails
  rw [hcompute, hkept, List.nil_append] at hlater
  have hworklist : after.worklist = [] := (Analysis.quiescent_of_saturate hcompute).worklist
  have hlost (node : Handle) : after.arena.progress node = .marked ↔
      ∃ trial ∈ trials, node ∈ trial.abandoned := by
    rw [hlater.waiting, hworklist, List.append_nil, List.mem_flatMap]
  constructor
  · intro node
    rw [hlost]
    refine exists_congr fun trial => and_congr_right fun htrial => ⟨fun hnode => ?_, And.right⟩
    exact ⟨(htrials trial htrial).mp (List.ne_nil_of_mem hnode), hnode⟩
  · constructor
    · intro hexpanded trial htrial
      rw [← Bool.not_eq_true, ← htrials trial htrial, not_not]
      refine List.eq_nil_iff_forall_not_mem.mpr fun node hnode => ?_
      have hmarked := (hlost node).mpr ⟨trial, htrial, hnode⟩
      have hprogress := hexpanded node (by rw [hmarked]; rfl)
      rw [hmarked] at hprogress
      cases hprogress
    · intro hnone node hmarked
      have hle := hlater.progress_le node
      cases hprogress : after.arena.progress node with
      | unmarked => rw [hprogress] at hmarked; cases hmarked
      | expanded => rfl
      | emitted => rw [hprogress] at hle; exact absurd hle (by decide)
      | marked =>
        obtain ⟨trial, htrial, hnode⟩ := (hlost node).mp hprogress
        have hfails := (htrials trial htrial).mp (List.ne_nil_of_mem hnode)
        rw [hnone trial htrial] at hfails
        cases hfails

end Trials

namespace Analysis

section Causes

variable {expander : Expander κ σ ε} {fault : ε} {node : Handle}

theorem exists_failed_of_settle {analysis : Analysis κ σ} {attempts : List (Handle × Attempt ε)}
    (h : (analysis.settle attempts).1 = some (.failed fault)) :
    ∃ node, (node, .failed fault) ∈ attempts := by
  fun_induction settle analysis attempts with
  | case1 | case2 => cases h
  | case3 =>
    cases h
    exact ⟨_, List.mem_cons_self⟩
  | case4 _ _ _ _ ih =>
    obtain ⟨node, hnode⟩ := ih h
    exact ⟨node, List.mem_cons_of_mem _ hnode⟩

theorem exists_survey_of_failed {batch : List Handle} {site : Site κ σ}
    (h : (node, .failed fault) ∈ (expandBatch expander batch site).1) :
    ∃ before, (node, before) ∈ surveys expander batch site ∧
      (expander node before).1 = .error fault := by
  induction batch generalizing site with
  | nil => cases h
  | cons first batch ih =>
    rw [expandBatch] at h
    rw [surveys]
    by_cases hcancelled : site.cancelled
    · rw [if_pos hcancelled] at h
      -- Behind a cancellation nothing is tried.
      rcases List.mem_cons.mp h with h | h
      · cases h
      · obtain ⟨before, hbefore, _⟩ := ih h
        cases batch with
        | nil => cases hbefore
        | cons =>
          rw [surveys, if_pos hcancelled] at hbefore
          cases hbefore
    · rw [if_neg hcancelled] at h ⊢
      cases hanswer : expander first site with
      | mk answer left =>
        rw [hanswer] at h
        cases answer with
        | ok expansion =>
          rcases List.mem_cons.mp h with h | h
          · cases h
          · obtain ⟨before, hbefore, hfault⟩ := ih h
            exact ⟨before, List.mem_cons_of_mem _ hbefore, hfault⟩
        | error other =>
          rcases List.mem_cons.mp h with h | h
          · cases h
            exact ⟨site, List.mem_cons_self, by rw [hanswer]⟩
          · obtain ⟨before, hbefore, hfault⟩ := ih h
            exact ⟨before, List.mem_cons_of_mem _ hbefore, hfault⟩

variable [LE κ] [DecidableLE κ]

/-- A failure of the analysis is a failure of one of the expansions it has tried. -/
theorem exists_expansion_of_failed {bound : Nat} {analysis : Analysis κ σ}
    (h : (analysis.saturate expander bound).1 = .failed fault) :
    ∃ call ∈ analysis.expansions expander bound, (expander call.1 call.2).1 = .error fault := by
  induction bound generalizing analysis with
  | zero => cases h
  | succ bound ih =>
    rw [saturate] at h
    rw [expansions]
    by_cases hworklist : analysis.worklist.isEmpty
    · rw [if_pos hworklist] at h ⊢
      by_cases hzero : analysis.rescan.1 = 0
      · simp only [if_pos hzero] at h
        cases h
      · simp only [if_neg hzero] at h ⊢
        exact ih h
    · rw [if_neg hworklist] at h ⊢
      by_cases hcancelled : analysis.cancelled
      · rw [if_pos hcancelled] at h
        cases h
      · rw [if_neg hcancelled] at h ⊢
        cases hround : analysis.round expander with
        | mk verdict next =>
          rw [hround] at h
          cases verdict with
          | none =>
            obtain ⟨call, hcall, hfault⟩ := ih h
            exact ⟨call, List.mem_append_right _ hcall, hfault⟩
          | some verdict =>
            obtain rfl : verdict = .failed fault := h
            obtain ⟨node, hnode⟩ := exists_failed_of_settle (congrArg Prod.fst hround)
            obtain ⟨before, hbefore, hfault⟩ := exists_survey_of_failed hnode
            exact ⟨(node, before), List.mem_append_left _ hbefore, hfault⟩

end Causes

end Analysis

section Mended

/-- Fails on every node as long as the store says so. -/
def touchy : Expander Nat Bool String := fun _ => do
  if (← get).store then throw "boom" else return {}

theorem touchy_eq (node : Handle) (site : Site Nat Bool) :
    touchy node site = (if site.store then .error "boom" else .ok {}, site) := by
  show (if site.store then (throw "boom" : ExceptT String (StateM (Site Nat Bool)) Expansion)
    else pure {}) site = _
  cases site.store <;> rfl

theorem bystander_touchy : touchy.Bystander where
  progress node site _ other := by rw [touchy_eq]
  cancelled node site _ := by rw [touchy_eq]

/-- The only node is a root; it still fails. -/
def touched : Analysis Nat Bool :=
  ({ arena := (Arena.intern ∅ 0).2, store := true } : Analysis Nat Bool).mark ⟨0⟩

/-- A computation has failed, and then the cause was removed. -/
def mended : Analysis Nat Bool := { (touched.saturate touchy 2).2 with store := false }

theorem trials_mended :
    Trials touchy [⟨(touched.saturate touchy 2).1, touched.abandoned touchy 2⟩] mended :=
  .provide false (.compute 2
    (.root ⟨0⟩ (.create 0 (.start { arena := ∅, store := true } (fun _ => rfl) rfl)))
    (by decide +kernel))

theorem marked_iff_abandoned_mended :
    touched.abandoned touchy 2 = [⟨0⟩] ∧ (mended.saturate touchy 2).1 = .completed ∧
      ∀ node, (mended.saturate touchy 2).2.arena.progress node = .marked ↔ node = ⟨0⟩ := by
  have habandoned : touched.abandoned touchy 2 = [⟨0⟩] := by decide +kernel
  have hcompleted : (mended.saturate touchy 2).1 = .completed := by decide +kernel
  have hfailure : (touched.saturate touchy 2).1.isFailure := by decide +kernel
  refine ⟨habandoned, hcompleted, fun node => ?_⟩
  rw [(trials_mended.marked_iff_abandoned bystander_touchy (Prod.ext hcompleted rfl)).1]
  simp only [List.mem_singleton, exists_eq_left, habandoned, hfailure, true_and]

/-- The node that has failed stays marked, although the second computation completes. -/
theorem not_forall_expanded :
    ¬ ∀ (expander : Expander Nat Bool String) (trials : List (Trial String))
      (analysis after : Analysis Nat Bool) (bound : Nat),
      expander.Bystander → Trials expander trials analysis →
      analysis.saturate expander bound = (.completed, after) →
      ∀ node, (after.arena.progress node).isMarked → after.arena.progress node = .expanded := by
  intro h
  have hexpanded := h touchy _ mended _ 2 bystander_touchy trials_mended
    (Prod.ext (by decide +kernel) rfl) ⟨0⟩ (by decide +kernel)
  revert hexpanded
  decide +kernel

end Mended

end PortableImage.Graph
