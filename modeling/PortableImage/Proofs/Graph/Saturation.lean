import PortableImage.Proofs.Graph.Accounts
/-!
# What a completed analysis has done

A batch is taken over visit by visit, an analysis batch by batch.  Once the analysis is complete its
visits account for all of it: nothing waits, and nothing that is pending could fire.
-/

namespace PortableImage.Graph

variable {κ σ ε : Type}

/-- What the expander is asked while it expands a batch. -/
def surveys (expander : Expander κ σ ε) : List Handle → Site κ σ → List (Handle × Site κ σ)
  | [], _ => []
  | node :: batch, site =>
    if site.cancelled then [] else (node, site) :: surveys expander batch (expander node site).2

def Visit.survey (visit : Visit κ σ) : Handle × Site κ σ := (visit.node, visit.before)

namespace Analysis

theorem mark_of_not_isFresh {analysis : Analysis κ σ} {node : Handle}
    (h : analysis.arena.isFresh node = false) : analysis.mark node = analysis := by
  rw [mark, markAll, h, if_neg Bool.false_ne_true, markAll]

def absorbEach (analysis : Analysis κ σ) (visits : List (Visit κ σ)) : Analysis κ σ :=
  visits.foldl (fun analysis visit => analysis.absorb visit.node visit.expansion) analysis

theorem key?_absorb (analysis : Analysis κ σ) (node other : Handle) (expansion : Expansion) :
    (analysis.absorb node expansion).arena.key? other = analysis.arena.key? other := by
  obtain ⟨considered, ⟨_, _, hfirst⟩, _, _, hsecond⟩ := spread_absorb analysis node expansion
  rw [hsecond.key?, key?_conclude, hfirst.key?]

theorem key?_absorbEach (analysis : Analysis κ σ) (visits : List (Visit κ σ)) (node : Handle) :
    (analysis.absorbEach visits).arena.key? node = analysis.arena.key? node := by
  induction visits generalizing analysis with
  | nil => rfl
  | cons visit visits ih => exact (ih _).trans (key?_absorb ..)

theorem cancelled_absorb (analysis : Analysis κ σ) (node : Handle) (expansion : Expansion) :
    (analysis.absorb node expansion).cancelled = analysis.cancelled := by
  obtain ⟨considered, ⟨_, _, hfirst⟩, _, _, hsecond⟩ := spread_absorb analysis node expansion
  rw [hsecond.cancelled]
  exact hfirst.cancelled

/-- A batch that is settled without a verdict has been taken over visit by visit. -/
theorem settle_expandBatch {expander : Expander κ σ ε} (hquiet : expander.Quiet)
    {batch : List Handle} {site : Site κ σ} {taken after : Analysis κ σ}
    (hknown : ∀ node ∈ batch, (site.arena.key? node).isSome)
    (h : taken.settle (expandBatch expander batch site).1 = (none, after)) :
    ∃ visits : List (Visit κ σ), visits.map Visit.node = batch ∧
      visits.map Visit.survey = surveys expander batch site ∧
      after = taken.absorbEach visits ∧
      site.arena.Grows (expandBatch expander batch site).2.arena ∧
      Sources expander visits (expandBatch expander batch site).2.arena := by
  induction batch generalizing site taken with
  | nil =>
    refine ⟨[], rfl, rfl, ?_, Arena.Grows.refl _, by simp, by simp, by simp, by simp⟩
    exact (Prod.mk.inj h).2.symm
  | cons node batch ih =>
    have hnode := hknown node List.mem_cons_self
    have hgrows := hquiet.grows node site hnode
    rw [expandBatch] at h ⊢
    rw [surveys]
    by_cases hcancelled : site.cancelled
    · rw [if_pos hcancelled] at h
      cases h
    · rw [if_neg hcancelled] at h ⊢
      rw [if_neg hcancelled]
      cases hanswer : expander node site with
      | mk answer left =>
        rw [hanswer] at h hgrows
        cases answer with
        | error fault => cases h
        | ok expansion =>
          obtain ⟨visits, hnodes, hsurveys, hafter, hlater, hsources⟩ := ih
            (fun other hother => hgrows.keeps.isSome (hknown other (List.mem_cons_of_mem _ hother)))
            h
          have hnames := hquiet.names node site hnode expansion (by rw [hanswer])
          rw [hanswer] at hnames
          have hfirst : Sources expander [⟨node, site, expansion, left⟩]
              (expandBatch expander batch left).2.arena := by
            constructor <;> intro visit hvisit <;> rw [List.mem_singleton.mp hvisit]
            · exact hnode
            · exact hanswer
            · exact hnames
            · exact hlater.keeps
          refine ⟨⟨node, site, expansion, left⟩ :: visits, ?_, ?_, hafter, hgrows.trans hlater,
            hfirst.append hsources⟩
          · rw [List.map_cons, hnodes]
          · rw [List.map_cons, hsurveys]
            rfl

theorem settle_ne_completed (analysis : Analysis κ σ) (attempts : List (Handle × Attempt ε)) :
    (analysis.settle attempts).1 ≠ some .completed := by
  fun_induction settle analysis attempts with
  | case1 | case2 | case3 => simp
  | case4 _ _ _ _ ih => exact ih

variable {expander : Expander κ σ ε} {first : Arena κ} {roots batch : List Handle}
  {visits later : List (Visit κ σ)} {analysis after : Analysis κ σ}

theorem Accounts.absorbEach
    (h : Accounts expander first roots visits (later.map Visit.node ++ batch) analysis)
    (hlater : Sources expander later analysis.arena) :
    Accounts expander first roots (visits ++ later) batch (analysis.absorbEach later) := by
  induction later generalizing visits analysis with
  | nil => rwa [List.append_nil]
  | cons visit later ih =>
    have hfirst : Sources expander [visit] analysis.arena :=
      ⟨fun other hother => hlater.known other (by simp_all),
        fun other hother => hlater.answered other (by simp_all),
        fun other hother => hlater.names other (by simp_all),
        fun other hother => hlater.kept other (by simp_all)⟩
    have hrest : Sources expander later (analysis.absorb visit.node visit.expansion).arena :=
      ⟨fun other hother => hlater.known other (List.mem_cons_of_mem _ hother),
        fun other hother => hlater.answered other (List.mem_cons_of_mem _ hother),
        fun other hother => hlater.names other (List.mem_cons_of_mem _ hother),
        fun other hother => (hlater.kept other (List.mem_cons_of_mem _ hother)).trans
          (Arena.Keeps.of_key?_eq (key?_absorb analysis _ · _))⟩
    have hafter := ih (h.absorb hfirst) hrest
    rwa [List.append_assoc] at hafter

theorem Accounts.grow (h : Accounts expander first roots visits batch analysis) (site : Site κ σ)
    (hgrows : analysis.arena.Grows site.arena) :
    Accounts expander first roots visits batch { analysis with toSite := site } where
  tally := h.tally.move site hgrows.progress
  balance := by
    obtain ⟨fired, hbalance⟩ := h.balance
    refine ⟨fired, hbalance.pending, hbalance.edges, ?_, ?_⟩
    · intro deferred hmem
      have hsatisfied := hbalance.satisfied deferred hmem
      rw [satisfied] at hsatisfied ⊢
      rwa [hgrows.progress]
    · intro deferred hmem
      rw [hgrows.progress]
      exact hbalance.led deferred hmem
  grounds := {
    rooted := fun root hroot => by rw [hgrows.progress]; exact h.grounds.rooted root hroot
    always := fun visit hvisit dependency hmem => by
      rw [hgrows.progress]
      exact h.grounds.always visit hvisit dependency hmem
    least := fun S hcovers node hmarked => by
      rw [hgrows.progress] at hmarked
      exact h.grounds.least S hcovers node hmarked }
  records := {
    visited := fun visit hvisit => by rw [hgrows.recorded?]; exact h.records.visited visit hvisit
    unvisited := fun node hnode => by rw [hgrows.recorded?]; exact h.records.unvisited node hnode }
  sources := h.sources.mono hgrows.keeps

/-- The worklist may be taken as the batch, in any order. -/
theorem Accounts.take (h : Accounts expander first roots visits [] analysis)
    (hbatch : batch.Perm analysis.worklist) (count : Nat) :
    Accounts expander first roots visits batch
      { analysis with worklist := [], batchCount := count } where
  tally := by
    have htally := h.tally.take hbatch count
    rwa [List.append_nil] at htally
  balance := by
    obtain ⟨fired, hbalance⟩ := h.balance
    exact ⟨fired, hbalance.pending, hbalance.edges, hbalance.satisfied, hbalance.led⟩
  grounds := ⟨h.grounds.rooted, h.grounds.always, h.grounds.least⟩
  records := ⟨h.records.visited, h.records.unvisited⟩
  sources := h.sources

/-- A rescan that lets nothing fire leaves only what is not satisfied. -/
theorem rescan_eq_zero (h : analysis.rescan.1 = 0) :
    analysis.rescan.2.toSite = analysis.toSite ∧
      analysis.rescan.2.worklist = analysis.worklist ∧
      ∀ deferred ∈ analysis.rescan.2.pending, analysis.satisfied deferred.dependency = false := by
  simp only [rescan] at h ⊢
  rw [List.length_eq_zero_iff.mp h]
  refine ⟨rfl, rfl, fun deferred hmem => ?_⟩
  simpa using (List.mem_filter.mp hmem).2

/-- Nothing waits in an analysis that is through: what is marked has been visited. -/
theorem Tally.mem_visits (h : Tally visits [] analysis) (hworklist : analysis.worklist = [])
    {node : Handle} : (analysis.arena.progress node).isMarked ↔ node ∈ visits.map Visit.node := by
  rw [← h.expanded]
  constructor
  · intro hmarked
    have hwaiting := h.waiting node
    rw [hworklist] at hwaiting
    have hle := h.progress_le node
    cases hprogress : analysis.arena.progress node with
    | unmarked => rw [hprogress] at hmarked; cases hmarked
    | marked => exact absurd (hwaiting.mp hprogress) (by simp)
    | expanded => rfl
    | emitted => rw [hprogress] at hle; exact absurd hle (by decide)
  · intro hprogress
    rw [hprogress]
    rfl

/-- If nothing waits, a marked node has been visited, under the key it has. -/
theorem Accounts.exists_visit_of_isMarked (h : Accounts expander first roots visits [] analysis)
    (hquiet : expander.Quiet) (hworklist : analysis.worklist = []) {node : Handle} {key : κ}
    (hkey : analysis.arena.key? node = some key)
    (hmarked : (analysis.arena.progress node).isMarked) :
    ∃ visit ∈ visits, visit.node = node ∧ visit.before.arena.key? node = some key := by
  obtain ⟨visit, hvisit, rfl⟩ := List.mem_map.mp ((h.tally.mem_visits hworklist).mp hmarked)
  have hknown := h.sources.known visit hvisit
  have hgrows := hquiet.grows visit.node visit.before hknown
  rw [h.sources.answered visit hvisit] at hgrows
  obtain ⟨found, hfound⟩ := Option.isSome_iff_exists.mp hknown
  have hkept := h.sources.kept visit hvisit _ _ (hgrows.keeps _ _ hfound)
  exact ⟨visit, hvisit, rfl, by rw [hfound, ← hkept, hkey]⟩

section Closed

variable {visit : Visit κ σ} {key : κ} (h : Accounts expander first roots visits batch analysis)
  (hvisit : visit ∈ visits)
include h hvisit

/-- What a visited node always needs is marked. -/
theorem Accounts.mem_markedKeys_of_always {dependency : Dependency}
    (hdependency : dependency ∈ visit.expansion.always)
    (hkey : visit.after.arena.key? dependency.target = some key) :
    key ∈ analysis.arena.markedKeys :=
  Arena.mem_markedKeys.mpr ⟨dependency.target, h.sources.kept visit hvisit _ _ hkey,
    h.grounds.always visit hvisit dependency hdependency⟩

/-- What a visited node needs under a guard that is marked is marked, if all that may fire has fired. -/
theorem Accounts.mem_markedKeys_of_guarded
    (hsettled : ∀ deferred ∈ analysis.pending, analysis.satisfied deferred.dependency = false)
    {dependency : GuardedDependency} {guard : κ} (hdependency : dependency ∈ visit.expansion.guarded)
    (hkey : visit.after.arena.key? dependency.target = some key)
    (hguard : visit.after.arena.key? dependency.guard = some guard)
    (hthreshold : dependency.threshold = .marked) (hmarked : guard ∈ analysis.arena.markedKeys) :
    key ∈ analysis.arena.markedKeys := by
  obtain ⟨fired, hbalance⟩ := h.balance
  have hsatisfied : analysis.satisfied dependency := by
    rw [Arena.mem_markedKeys_iff (h.sources.kept visit hvisit _ _ hguard)] at hmarked
    rw [satisfied, hthreshold, decide_eq_true_eq]
    exact Progress.isMarked_iff.mp hmarked
  have hfound : Deferred.mk visit.node dependency ∈ visits.flatMap Visit.deferred := by
    rw [List.mem_flatMap]
    exact ⟨visit, hvisit, Visit.mem_deferred.mpr ⟨rfl, hdependency⟩⟩
  -- A pending dependency would have been let fire by the last rescan.
  have hfired : Deferred.mk visit.node dependency ∈ fired := by
    rcases List.mem_append.mp (hbalance.pending.mem_iff.mp hfound) with hfired | hpending
    · exact hfired
    · have hwaits := hsettled _ hpending
      rw [hsatisfied] at hwaits
      cases hwaits
  exact Arena.mem_markedKeys.mpr ⟨dependency.target, h.sources.kept visit hvisit _ _ hkey,
    hbalance.led _ hfired⟩

end Closed

theorem settle_expanded (analysis : Analysis κ σ) {attempts : List (Handle × Attempt ε)}
    (h : ∀ attempt ∈ attempts, ∃ expansion, attempt.2 = .expanded expansion) :
    (analysis.settle attempts).1 = none ∧
      (analysis.settle attempts).2.cancelled = analysis.cancelled := by
  induction attempts generalizing analysis with
  | nil => exact ⟨rfl, rfl⟩
  | cons attempt attempts ih =>
    obtain ⟨node, attempt⟩ := attempt
    obtain ⟨expansion, rfl⟩ := h _ List.mem_cons_self
    obtain ⟨hverdict, hcancelled⟩ := ih (analysis.absorb node expansion)
      fun attempt hattempt => h attempt (List.mem_cons_of_mem _ hattempt)
    exact ⟨hverdict, hcancelled.trans (cancelled_absorb ..)⟩

variable [LE κ] [DecidableLE κ]

theorem round_ne_completed (expander : Expander κ σ ε) (analysis : Analysis κ σ) :
    (analysis.round expander).1 ≠ some .completed :=
  settle_ne_completed _ _

theorem Tally.batch_perm (h : Tally visits batch analysis) :
    analysis.batch.Perm analysis.worklist := by
  unfold Analysis.batch
  rw [List.filter_eq_self.mpr]
  · exact List.mergeSort_perm _ _
  · intro node hnode
    rw [(h.waiting node).mpr (List.mem_append_right _ hnode)]
    decide

theorem Tally.progress_of_batch (h : Tally visits batch analysis) {node : Handle}
    (hnode : node ∈ analysis.batch) : analysis.arena.progress node = .marked :=
  (h.waiting node).mpr (List.mem_append_right _ (h.batch_perm.mem_iff.mp hnode))

theorem Tally.isSome_key?_of_batch (h : Tally visits batch analysis) {node : Handle}
    (hnode : node ∈ analysis.batch) : (analysis.arena.key? node).isSome := by
  apply Arena.isSome_key?_of_progress
  rw [h.progress_of_batch hnode]
  decide

theorem Accounts.round (hquiet : expander.Quiet)
    (h : Accounts expander first roots visits [] analysis)
    (hround : analysis.round expander = (none, after)) :
    ∃ later, later.map Visit.survey = surveys expander analysis.batch analysis.toSite ∧
      Accounts expander first roots (visits ++ later) [] after ∧
      analysis.arena.Keeps after.arena := by
  obtain ⟨later, hnodes, hsurveys, rfl, hgrows, hsources⟩ :=
    settle_expandBatch hquiet (fun _ => h.tally.isSome_key?_of_batch) hround
  refine ⟨later, hsurveys, Accounts.absorbEach ?_ hsources,
    hgrows.keeps.trans (Arena.Keeps.of_key?_eq (key?_absorbEach _ later))⟩
  rw [hnodes, List.append_nil]
  exact (h.take h.tally.batch_perm (analysis.batchCount + 1)).grow _ hgrows

/-- What the expander is asked in the course of an analysis. -/
def expansions (expander : Expander κ σ ε) : Nat → Analysis κ σ → List (Handle × Site κ σ)
  | 0, _ => []
  | bound + 1, analysis =>
    if analysis.worklist.isEmpty then
      let rescanned := analysis.rescan
      if rescanned.1 = 0 then [] else expansions expander bound rescanned.2
    else if analysis.cancelled then []
    else
      surveys expander analysis.batch analysis.toSite ++
        match analysis.round expander with
        | (some _, _) => []
        | (none, analysis) => expansions expander bound analysis

/-- A completed analysis is accounted for by its visits. -/
theorem Accounts.saturate (hquiet : expander.Quiet) {bound : Nat}
    (h : Accounts expander first roots visits [] analysis)
    (hsaturate : analysis.saturate expander bound = (.completed, after)) :
    ∃ later, later.map Visit.survey = analysis.expansions expander bound ∧
      Accounts expander first roots (visits ++ later) [] after ∧
      analysis.arena.Keeps after.arena ∧ after.worklist = [] ∧
      ∀ deferred ∈ after.pending, after.satisfied deferred.dependency = false := by
  induction bound generalizing visits analysis with
  | zero => cases hsaturate
  | succ bound ih =>
    rw [Analysis.saturate] at hsaturate
    rw [expansions]
    obtain ⟨_, _, hspread⟩ := spread_rescan analysis
    have hrescanned := h.spread hspread (by simp)
    rw [List.append_nil] at hrescanned
    by_cases hworklist : analysis.worklist.isEmpty
    · rw [if_pos hworklist] at hsaturate ⊢
      by_cases hzero : analysis.rescan.1 = 0
      · obtain ⟨hsite, hrest, hpending⟩ := rescan_eq_zero hzero
        simp only [if_pos hzero] at hsaturate ⊢
        obtain rfl := (Prod.mk.inj hsaturate).2
        refine ⟨[], rfl, by rwa [List.append_nil], hspread.keeps, ?_, ?_⟩
        · rw [hrest, List.isEmpty_iff.mp hworklist]
        · intro deferred hmem
          rw [satisfied, hsite]
          exact hpending deferred hmem
      · simp only [if_neg hzero] at hsaturate ⊢
        obtain ⟨later, hlater, hafter, hkeeps, hend⟩ := ih hrescanned hsaturate
        exact ⟨later, hlater, hafter, hspread.keeps.trans hkeeps, hend⟩
    · rw [if_neg hworklist] at hsaturate ⊢
      by_cases hcancelled : analysis.cancelled
      · rw [if_pos hcancelled] at hsaturate
        cases hsaturate
      · rw [if_neg hcancelled] at hsaturate ⊢
        cases hround : analysis.round expander with
        | mk verdict next =>
          rw [hround] at hsaturate
          cases verdict with
          | some verdict =>
            obtain ⟨rfl, rfl⟩ := Prod.mk.inj hsaturate
            exact absurd (congrArg Prod.fst hround) (round_ne_completed expander analysis)
          | none =>
            obtain ⟨batched, hbatched, hnext, hkept⟩ := h.round hquiet hround
            obtain ⟨later, hlater, hafter, hkeeps, hend⟩ := ih hnext hsaturate
            refine ⟨batched ++ later, ?_, ?_, hkept.trans hkeeps, hend⟩
            · rw [List.map_append, hbatched, hlater]
            · rwa [← List.append_assoc]

end Analysis

/-- On known nodes the expander answers, and it does not cancel. -/
def Expander.Steady (expander : Expander κ σ ε) : Prop :=
  ∀ node (site : Site κ σ), (site.arena.key? node).isSome → ∃ expansion left,
    expander node site = (.ok expansion, left) ∧ left.cancelled = site.cancelled

namespace Analysis

section Steadiness

variable {expander : Expander κ σ ε} (hsteady : expander.Steady) (hquiet : expander.Quiet)
include hsteady hquiet

theorem expandBatch_steady {batch : List Handle} {site : Site κ σ}
    (hknown : ∀ node ∈ batch, (site.arena.key? node).isSome) (hsite : site.cancelled = false) :
    (∀ attempt ∈ (expandBatch expander batch site).1,
      ∃ expansion, attempt.2 = .expanded expansion) ∧
    (expandBatch expander batch site).2.cancelled = false := by
  induction batch generalizing site with
  | nil => exact ⟨by simp [expandBatch], hsite⟩
  | cons node batch ih =>
    have hnode := hknown node List.mem_cons_self
    obtain ⟨expansion, left, hanswer, hleft⟩ := hsteady node site hnode
    have hgrows := hquiet.grows node site hnode
    rw [hanswer] at hgrows
    obtain ⟨hattempts, hcancelled⟩ := ih
      (fun other hother => hgrows.keeps.isSome (hknown other (List.mem_cons_of_mem _ hother)))
      (hleft.trans hsite)
    rw [expandBatch, hsite, if_neg Bool.false_ne_true, hanswer]
    refine ⟨?_, hcancelled⟩
    intro attempt hattempt
    rcases List.mem_cons.mp hattempt with rfl | hattempt
    · exact ⟨expansion, rfl⟩
    · exact hattempts attempt hattempt

variable [LE κ] [DecidableLE κ] {first : Arena κ} {roots : List Handle}
  {visits : List (Visit κ σ)} {analysis after : Analysis κ σ}

/-- With a steady expander an analysis that is not cut off is completed. -/
theorem Accounts.completed_of_steady {bound : Nat} {verdict : Verdict ε}
    (h : Accounts expander first roots visits [] analysis) (hcancelled : analysis.cancelled = false)
    (hsaturate : analysis.saturate expander bound = (verdict, after))
    (hreturns : verdict ≠ .exhausted) : verdict = .completed ∧ after.cancelled = false := by
  induction bound generalizing visits analysis with
  | zero => exact absurd (Prod.mk.inj hsaturate).1.symm hreturns
  | succ bound ih =>
    rw [Analysis.saturate] at hsaturate
    obtain ⟨_, _, hspread⟩ := spread_rescan analysis
    have hrescanned := h.spread hspread (by simp)
    rw [List.append_nil] at hrescanned
    by_cases hworklist : analysis.worklist.isEmpty
    · rw [if_pos hworklist] at hsaturate
      by_cases hzero : analysis.rescan.1 = 0
      · simp only [if_pos hzero] at hsaturate
        obtain ⟨rfl, rfl⟩ := Prod.mk.inj hsaturate
        exact ⟨rfl, hspread.cancelled.trans hcancelled⟩
      · simp only [if_neg hzero] at hsaturate
        exact ih hrescanned (hspread.cancelled.trans hcancelled) hsaturate
    · rw [if_neg hworklist, hcancelled, if_neg Bool.false_ne_true] at hsaturate
      obtain ⟨hattempts, hleft⟩ := expandBatch_steady hsteady hquiet
        (fun _ => h.tally.isSome_key?_of_batch) hcancelled
      obtain ⟨hnone, hsettled⟩ := settle_expanded { analysis with
        toSite := (expandBatch expander analysis.batch analysis.toSite).2
        worklist := []
        batchCount := analysis.batchCount + 1 } hattempts
      cases hround : analysis.round expander with
      | mk answer next =>
        obtain rfl : answer = none := (congrArg Prod.fst hround).symm.trans hnone
        rw [hround] at hsaturate
        obtain ⟨later, _, hnext, _⟩ := h.round hquiet hround
        apply ih hnext _ hsaturate
        exact (congrArg (fun pair => pair.2.cancelled) hround).symm.trans (hsettled.trans hleft)

end Steadiness

end Analysis

end PortableImage.Graph
