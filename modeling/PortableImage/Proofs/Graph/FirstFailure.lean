import PortableImage.Proofs.Graph.Failures
import PortableImage.Proofs.Graph.Renumbering
import Mathlib.Data.Set.Finite.Basic
/-!
# The first failure

A batch is expanded as a whole before anything of it is taken over, and then node after node in the
order of keys, until one has failed.  So the fault a computation ends with is that of the least
failing key in the first batch that has one, and what is then marked was needed anyway: it belongs
to the least fixed point, whatever the failing keys might have needed.
-/

namespace PortableImage.Graph

open Analysis (Accounts Sources)

variable {κ σ ε : Type}

/-- Known nodes in strictly ascending order of their keys. -/
def Arena.Ascending [LE κ] (arena : Arena κ) (nodes : List Handle) : Prop :=
  nodes.Pairwise fun a b => ∃ x y, arena.key? a = some x ∧ arena.key? b = some y ∧ x ≤ y ∧ x ≠ y

theorem Arena.Ascending.mono [LE κ] {old new : Arena κ} {nodes : List Handle}
    (h : old.Ascending nodes) (hkeeps : old.Keeps new) : new.Ascending nodes := by
  refine List.Pairwise.imp ?_ h
  rintro a b ⟨x, y, ha, hb, hxy⟩
  exact ⟨x, y, hkeeps _ _ ha, hkeeps _ _ hb, hxy⟩

namespace FalliblePlan

variable {plan : FalliblePlan κ ε} {expander : Expander κ σ ε} {first arena : Arena κ}
  {nodes batch : List Handle} {visits : List (Visit κ σ)} {visit : Visit κ σ}
  {analysis : Analysis κ σ} {key : κ}

theorem Governs.bystander (h : plan.Governs expander) : expander.Bystander where
  progress node site hknown := (h.grows node site hknown).progress
  cancelled := h.cancelled

theorem Governs.failure_of_visit (h : plan.Governs expander)
    (hsources : Sources expander visits arena) (hvisit : visit ∈ visits)
    (hkey : arena.key? visit.node = some key) : plan.failure key = none := by
  have hanswer := hsources.answered visit hvisit
  have hknown := hsources.known visit hvisit
  obtain ⟨old, hold⟩ := Option.isSome_iff_exists.mp hknown
  have hgrows := h.grows visit.node visit.before hknown
  rw [hanswer] at hgrows
  have hsame := hsources.kept visit hvisit _ _ (hgrows.keeps _ _ hold)
  obtain rfl := Option.some.inj (hsame.symm.trans hkey)
  cases hfailure : plan.failure old with
  | none => rfl
  | some fault =>
    have hfails := h.fails visit.node visit.before old fault hold hfailure
    rw [hanswer] at hfails
    cases hfails

variable [DecidableEq κ]

/-- The expander that does not fail, but answers what the plan says for the failing keys. -/
def mend (plan : FalliblePlan κ ε) (expander : Expander κ σ ε) : Expander κ σ ε := fun node site =>
  match (site.arena.key? node).bind plan.failure with
  | some _ => plan.toPlan.expander node site
  | none => expander node site

theorem mend_of_failure {node : Handle} {site : Site κ σ} (hkey : site.arena.key? node = some key)
    (hfailure : plan.failure key = none) : plan.mend expander node site = expander node site := by
  rw [mend, hkey, Option.bind_some, hfailure]

theorem Governs.follows_mend (h : plan.Governs expander) :
    plan.toPlan.Follows (plan.mend expander) := by
  intro node site key hkey
  have hknown : (site.arena.key? node).isSome := by rw [hkey]; rfl
  cases hfailure : plan.failure key with
  | some fault =>
    rw [mend, hkey, Option.bind_some, hfailure]
    exact plan.toPlan.follows_expander node site key hkey
  | none =>
    obtain ⟨expansion, hanswer, hshown⟩ := h.answers node site key hkey hfailure
    rw [mend_of_failure hkey hfailure]
    exact ⟨expansion, _, Prod.ext hanswer rfl, h.grows node site hknown,
      h.cancelled node site hknown, hshown⟩

/-- Nothing that was taken over has failed, so it might as well come from the expander that does not
fail. -/
theorem Governs.accounts_mend (h : plan.Governs expander)
    (haccounts : Accounts expander first nodes visits batch analysis) :
    Accounts (plan.mend expander) first nodes visits batch analysis where
  tally := haccounts.tally
  balance := haccounts.balance
  grounds := haccounts.grounds
  records := haccounts.records
  sources := {
    known := haccounts.sources.known
    answered := fun visit hvisit => by
      have hknown := haccounts.sources.known visit hvisit
      obtain ⟨key, hkey⟩ := Option.isSome_iff_exists.mp hknown
      have hgrows := h.grows visit.node visit.before hknown
      rw [haccounts.sources.answered visit hvisit] at hgrows
      have hafter := haccounts.sources.kept visit hvisit _ _ (hgrows.keeps _ _ hkey)
      rw [mend_of_failure hkey (h.failure_of_visit haccounts.sources hvisit hafter)]
      exact haccounts.sources.answered visit hvisit
    names := haccounts.sources.names
    kept := haccounts.sources.kept }

end FalliblePlan

section Openings

variable [DecidableEq κ]

/-- What a host can come to before its first computation, from an arena where nothing is marked: it
creates nodes and adds roots. -/
inductive Opening (first : Arena κ) : List κ → Analysis κ σ → Prop
  | start (site : Site κ σ) (harena : site.arena = first)
      (hunmarked : ∀ node, first.progress node = .unmarked) (hcancelled : site.cancelled = false) :
      Opening first [] { toSite := site }
  | create {roots analysis} (key : κ) (h : Opening first roots analysis) :
      Opening first roots { analysis with arena := (analysis.arena.intern key).2 }
  | root {roots analysis} (node : Handle) (h : Opening first roots analysis) :
      Opening first (roots ++ (analysis.arena.key? node).toList) (analysis.mark node)

variable [LE κ] [DecidableLE κ] {plan : FalliblePlan κ ε} {expander : Expander κ σ ε}
  {first : Arena κ} {roots : List κ} {analysis : Analysis κ σ}

theorem Opening.history (h : Opening first roots analysis) (expander : Expander κ σ ε) :
    History expander first roots analysis := by
  induction h with
  | start site harena hunmarked hcancelled => exact .start site harena hunmarked hcancelled
  | create key _ ih => exact .create key ih
  | root node _ ih => exact .root node ih

omit [LE κ] [DecidableLE κ] in
theorem Opening.expandedCount (h : Opening first roots analysis) : analysis.expandedCount = 0 := by
  induction h with
  | start => rfl
  | create key _ ih => exact ih
  | @root roots analysis node _ ih =>
    obtain ⟨_, _, hspread⟩ := Analysis.spread_mark analysis node
    exact hspread.expandedCount.trans ih

/-- Before the first computation nothing has been visited, and so nothing is pending. -/
theorem Opening.accounts (hgoverns : plan.Governs expander) (h : Opening first roots analysis) :
    (∃ nodes, List.Forall₂ (fun node key => analysis.arena.key? node = some key) nodes roots ∧
      Accounts expander first nodes [] [] analysis) ∧
    analysis.Idle ∧ analysis.cancelled = false := by
  obtain ⟨⟨nodes, visits, hkeys, haccounts⟩, hcancelled⟩ :=
    (h.history (plan.mend expander)).accounts hgoverns.follows_mend
  have hvisits : visits.length = 0 := haccounts.tally.expandedCount.symm.trans h.expandedCount
  obtain rfl := List.length_eq_zero_iff.mp hvisits
  refine ⟨⟨nodes, hkeys, ?_⟩, ?_, hcancelled⟩
  · exact ⟨haccounts.tally, haccounts.balance, haccounts.grounds, haccounts.records,
      by simp, by simp, by simp, by simp⟩
  · intro deferred hmem
    cases haccounts.mem_of_pending deferred hmem

end Openings

namespace Analysis

variable {expander : Expander κ σ ε} {first : Arena κ} {roots : List Handle}
  {visits : List (Visit κ σ)} {analysis after : Analysis κ σ} {fault : ε}

/-- A batch that has failed has been taken over up to the node that failed. -/
theorem settle_expandBatch_failed (hquiet : expander.Quiet) {batch : List Handle} {site : Site κ σ}
    {taken : Analysis κ σ} (hknown : ∀ node ∈ batch, (site.arena.key? node).isSome)
    (h : taken.settle (expandBatch expander batch site).1 = (some (.failed fault), after)) :
    ∃ (visits : List (Visit κ σ)) (failed : Handle) (left : List Handle) (before : Site κ σ),
      batch = visits.map Visit.node ++ failed :: left ∧ after = taken.absorbEach visits ∧
      Sources expander visits (expandBatch expander batch site).2.arena ∧
      site.arena.Grows before.arena ∧ (expander failed before).1 = .error fault := by
  induction batch generalizing site taken with
  | nil => cases h
  | cons node batch ih =>
    have hnode := hknown node List.mem_cons_self
    have hgrows := hquiet.grows node site hnode
    have hnames := hquiet.names node site hnode
    rw [expandBatch] at h ⊢
    by_cases hcancelled : site.cancelled
    · rw [if_pos hcancelled] at h
      cases h
    · rw [if_neg hcancelled] at h ⊢
      cases hanswer : expander node site with
      | mk answer left =>
        rw [hanswer] at h hgrows hnames
        cases answer with
        | error other =>
          cases h
          refine ⟨[], node, batch, site, rfl, rfl, ⟨by simp, by simp, by simp, by simp⟩,
            Arena.Grows.refl _, ?_⟩
          rw [hanswer]
        | ok expansion =>
          have hrest (other : Handle) (hother : other ∈ batch) :
              (left.arena.key? other).isSome :=
            hgrows.keeps.isSome (hknown other (List.mem_cons_of_mem _ hother))
          obtain ⟨visits, failed, unreached, before, hbatch, hafter, hsources, hbefore, hfails⟩ :=
            ih hrest h
          have hlater : left.arena.Grows (expandBatch expander batch left).2.arena :=
            grows_expandBatch hquiet hrest
          have hfirst : Sources expander [⟨node, site, expansion, left⟩]
              (expandBatch expander batch left).2.arena := by
            constructor <;> intro visit hvisit <;> rw [List.mem_singleton.mp hvisit]
            · exact hnode
            · exact hanswer
            · exact hnames expansion rfl
            · exact hlater.keeps
          refine ⟨⟨node, site, expansion, left⟩ :: visits, failed, unreached, before, ?_, hafter,
            hfirst.append hsources, hgrows.trans hbefore, hfails⟩
          rw [hbatch, List.map_cons, List.cons_append]

variable [LE κ] [DecidableLE κ]

/-- The batches an analysis takes off its worklist. -/
def batches (expander : Expander κ σ ε) : Nat → Analysis κ σ → List (List Handle)
  | 0, _ => []
  | bound + 1, analysis =>
    if analysis.worklist.isEmpty then
      let rescanned := analysis.rescan
      if rescanned.1 = 0 then [] else batches expander bound rescanned.2
    else if analysis.cancelled then []
    else
      analysis.batch ::
        match analysis.round expander with
        | (some _, _) => []
        | (none, analysis) => batches expander bound analysis

theorem Tally.ascending_batch [DecidableEq κ] [Std.IsLinearOrder κ] (h : Tally visits [] analysis) :
    analysis.arena.Ascending analysis.batch := by
  have hsorted : analysis.batch.Pairwise fun a b => keyLE analysis.arena a b :=
    List.pairwise_mergeSort (keyLE_trans analysis.arena) (keyLE_total analysis.arena) _
  have honce : analysis.batch.Nodup := h.batch_perm.nodup_iff.mpr h.waiting_once
  refine List.Pairwise.imp_of_mem ?_ (hsorted.and honce)
  rintro a b ha hb ⟨hle, hne⟩
  obtain ⟨x, hx⟩ := Option.isSome_iff_exists.mp (h.isSome_key?_of_batch ha)
  obtain ⟨y, hy, hxy⟩ := keyLE_iff.mp hle x hx
  refine ⟨x, y, hx, hy, hxy, ?_⟩
  rintro rfl
  exact hne (Arena.eq_of_key? hx hy)

/-- In a round without a verdict the expander is asked about every node of the batch. -/
theorem Tally.map_fst_surveys (hquiet : expander.Quiet) (h : Tally visits [] analysis)
    (hround : analysis.round expander = (none, after)) :
    (surveys expander analysis.batch analysis.toSite).map Prod.fst = analysis.batch := by
  obtain ⟨later, hnodes, hsurveys, _⟩ :=
    settle_expandBatch hquiet (fun _ => h.isSome_key?_of_batch) hround
  rw [← hsurveys, List.map_map]
  exact hnodes

/-- The expander has failed on a node, under the key the node has. -/
def FailsAt (expander : Expander κ σ ε) (fault : ε) (arena : Arena κ) (node : Handle) : Prop :=
  ∃ key, arena.key? node = some key ∧ ∃ before : Site κ σ, before.arena.key? node = some key ∧
    (expander node before).1 = .error fault

/-- A round that fails is accounted for by what it has taken over; the failed node and what is left
of the batch still wait. -/
theorem Accounts.round_failed (hquiet : expander.Quiet)
    (h : Accounts expander first roots visits [] analysis)
    (hround : analysis.round expander = (some (.failed fault), after)) :
    ∃ (later : List (Visit κ σ)) (failed : Handle) (left : List Handle),
      analysis.batch = later.map Visit.node ++ failed :: left ∧
      Accounts expander first roots (visits ++ later) (failed :: left) after ∧
      analysis.arena.Keeps after.arena ∧ FailsAt expander fault after.arena failed := by
  have hknown (node : Handle) (hnode : node ∈ analysis.batch) :
      (analysis.arena.key? node).isSome := h.tally.isSome_key?_of_batch hnode
  obtain ⟨later, failed, left, before, hbatch, rfl, hsources, hbefore, hfails⟩ :=
    settle_expandBatch_failed hquiet hknown hround
  have hgrows := grows_expandBatch hquiet hknown
  have hkeeps : analysis.arena.Keeps
      (({ analysis with
        toSite := (expandBatch expander analysis.batch analysis.toSite).2
        worklist := []
        batchCount := analysis.batchCount + 1 } : Analysis κ σ).absorbEach later).arena :=
    hgrows.keeps.trans (Arena.Keeps.of_key?_eq (key?_absorbEach _ later))
  refine ⟨later, failed, left, hbatch, Accounts.absorbEach ?_ hsources, hkeeps, ?_⟩
  · rw [← hbatch]
    exact (h.take h.tally.batch_perm (analysis.batchCount + 1)).grow _ hgrows
  · obtain ⟨key, hkey⟩ := Option.isSome_iff_exists.mp (hknown failed (by rw [hbatch]; simp))
    exact ⟨key, hkeeps _ _ hkey, before, hbefore.keeps _ _ hkey, hfails⟩

variable [DecidableEq κ] [Std.IsLinearOrder κ]

/-- A computation that fails has taken over all its batches but the last, and this one up to the
node that failed. -/
theorem Accounts.saturate_failed (hquiet : expander.Quiet) {bound : Nat}
    (h : Accounts expander first roots visits [] analysis)
    (hsaturate : analysis.saturate expander bound = (.failed fault, after)) :
    ∃ (later : List (Visit κ σ)) (earlier : List (List Handle)) (done : List Handle)
        (failed : Handle) (left : List Handle),
      analysis.batches expander bound = earlier ++ [done ++ failed :: left] ∧
      later.map Visit.node = earlier.flatten ++ done ∧
      Accounts expander first roots (visits ++ later) (failed :: left) after ∧
      analysis.arena.Keeps after.arena ∧ FailsAt expander fault after.arena failed ∧
      ∀ batch ∈ analysis.batches expander bound, after.arena.Ascending batch := by
  induction bound generalizing visits analysis with
  | zero => cases hsaturate
  | succ bound ih =>
    rw [Analysis.saturate] at hsaturate
    rw [batches]
    by_cases hworklist : analysis.worklist.isEmpty
    · rw [if_pos hworklist] at hsaturate ⊢
      obtain ⟨_, _, hspread⟩ := spread_rescan analysis
      have hrescanned := h.spread hspread (by simp)
      rw [List.append_nil] at hrescanned
      by_cases hzero : analysis.rescan.1 = 0
      · simp only [if_pos hzero] at hsaturate
        cases hsaturate
      · simp only [if_neg hzero] at hsaturate ⊢
        obtain ⟨later, earlier, done, failed, left, hbatches, hlater, hafter, hkeeps, hrest⟩ :=
          ih hrescanned hsaturate
        exact ⟨later, earlier, done, failed, left, hbatches, hlater, hafter,
          hspread.keeps.trans hkeeps, hrest⟩
    · rw [if_neg hworklist] at hsaturate ⊢
      by_cases hcancelled : analysis.cancelled
      · rw [if_pos hcancelled] at hsaturate
        cases hsaturate
      · rw [if_neg hcancelled] at hsaturate ⊢
        have hascending := h.tally.ascending_batch
        cases hround : analysis.round expander with
        | mk verdict next =>
          rw [hround] at hsaturate
          cases verdict with
          | some verdict =>
            obtain ⟨rfl, rfl⟩ := Prod.mk.inj hsaturate
            obtain ⟨later, failed, left, hbatch, hafter, hkeeps, hfails⟩ :=
              h.round_failed hquiet hround
            refine ⟨later, [], later.map Visit.node, failed, left, by rw [hbatch]; rfl, rfl, hafter,
              hkeeps, hfails, fun batch hmem => ?_⟩
            obtain rfl := List.mem_singleton.mp hmem
            exact hascending.mono hkeeps
          | none =>
            obtain ⟨batched, hbatched, hnext, hkept⟩ := h.round hquiet hround
            obtain ⟨later, earlier, done, failed, left, hbatches, hlater, hafter, hkeeps, hfails,
              hrest⟩ := ih hnext hsaturate
            refine ⟨batched ++ later, analysis.batch :: earlier, done, failed, left, ?_, ?_, ?_,
              hkept.trans hkeeps, hfails, fun batch hmem => ?_⟩
            · exact congrArg (analysis.batch :: ·) hbatches
            · rw [List.map_append, hlater, List.flatten_cons, List.append_assoc,
                ← h.tally.map_fst_surveys hquiet hround, ← hbatched, List.map_map]
              rfl
            · rwa [← List.append_assoc]
            · rcases List.mem_cons.mp hmem with rfl | hmem
              · exact hascending.mono (hkept.trans hkeeps)
              · exact hrest batch hmem

end Analysis

section Stopping

/-- A node that is marked and no more: nothing was recorded for it but what the host had recorded at
first, and no edge leaves it. -/
structure Analysis.Waits (first : Arena κ) (analysis : Analysis κ σ) (node : Handle) : Prop where
  progress : analysis.arena.progress node = .marked
  recorded : analysis.arena.recorded? node = first.recorded? node
  edges : ∀ edge ∈ analysis.edges, edge.source ≠ node

/-- A node that is expanded: what it always needs is marked, and its edges are recorded unless the
host had recorded others at first. -/
structure Plan.Concluded (plan : Plan κ) (first : Arena κ) (analysis : Analysis κ σ) (node : Handle)
    (key : κ) : Prop where
  known : analysis.arena.key? node = some key
  always : ∀ need ∈ plan.always key, need.target ∈ analysis.arena.markedKeys
  recorded : ∃ edges, edges.map analysis.arena.keyed? = (plan.edges key).map some ∧
    analysis.arena.recorded? node = some ((first.recorded? node).getD edges)

/-- How a computation stops at a failure, where all that can be needed is in a set of keys. -/
structure FalliblePlan.Stopped [LE κ] (plan : FalliblePlan κ ε) (first : Arena κ) (S : Set κ)
    (batches : List (List Handle)) (fault : ε) (after : Analysis κ σ) : Prop where
  ascending : ∀ batch ∈ batches, after.arena.Ascending batch
  /-- The last batch is the first with a failing key, and the fault is that of its least one. -/
  split : ∃ (earlier : List (List Handle)) (done : List Handle) (failed : Handle)
      (left : List Handle), batches = earlier ++ [done ++ failed :: left] ∧
    (∀ node ∈ earlier.flatten ++ done, after.arena.progress node = .expanded ∧
      ∃ key, after.arena.key? node = some key ∧ plan.failure key = none) ∧
    (∃ key ∈ S, after.arena.key? failed = some key ∧ plan.failure key = some fault) ∧
    ∀ node ∈ failed :: left, after.Waits first node
  concluded : ∀ node, after.arena.progress node = .expanded →
    ∃ key, plan.toPlan.Concluded first after node key
  within : ∀ key ∈ after.arena.markedKeys, key ∈ S

/-- What a computation comes to. -/
structure FalliblePlan.Outcome [LE κ] (plan : FalliblePlan κ ε) (first : Arena κ) (S : Set κ)
    (batches : List (List Handle)) (verdict : Verdict ε) (after : Analysis κ σ) : Prop where
  failed : ∀ fault, verdict = .failed fault → plan.Stopped first S batches fault after
  completed : verdict = .completed → ∀ key ∈ S, plan.failure key = none
  calm : verdict ≠ .cancelled

variable {plan : FalliblePlan κ ε} {expander : Expander κ σ ε} {first : Arena κ}
  {nodes batch : List Handle} {visits : List (Visit κ σ)} {analysis after : Analysis κ σ}
  {node : Handle} {roots : List κ} {S : Set κ}

/-- Every edge in force leaves a node that has been visited. -/
theorem Analysis.Accounts.source_mem (h : Accounts expander first nodes visits batch analysis)
    {edge : Edge} (hedge : edge ∈ analysis.edges) : edge.source ∈ visits.map Visit.node := by
  obtain ⟨fired, hbalance⟩ := h.balance
  rcases List.mem_append.mp (hbalance.edges.mem_iff.mp hedge) with hrecorded | hfired
  · obtain ⟨visit, hvisit, hmem⟩ := List.mem_flatMap.mp hrecorded
    obtain ⟨dependency, _, rfl⟩ := List.mem_map.mp hmem
    exact List.mem_map_of_mem hvisit
  · obtain ⟨deferred, hmem, rfl⟩ := List.mem_map.mp hfired
    have hfound := hbalance.pending.mem_iff.mpr (List.mem_append_left _ hmem)
    obtain ⟨visit, hvisit, hdeferred⟩ := List.mem_flatMap.mp hfound
    exact List.mem_map.mpr ⟨visit, hvisit, (Visit.mem_deferred.mp hdeferred).1.symm⟩

theorem Analysis.Accounts.waits (h : Accounts expander first nodes visits batch analysis)
    (hnode : node ∈ batch) : analysis.Waits first node := by
  have hmarked := (h.tally.waiting node).mpr (List.mem_append_left _ hnode)
  have hunvisited : node ∉ visits.map Visit.node := by
    rw [← h.tally.expanded, hmarked]
    decide
  refine ⟨hmarked, h.records.unvisited node hunvisited, ?_⟩
  rintro edge hedge rfl
  exact hunvisited (h.source_mem hedge)

theorem FalliblePlan.Governs.failure_of_failsAt (h : plan.Governs expander) {fault : ε}
    (hfails : Analysis.FailsAt expander fault analysis.arena node) :
    ∃ key, analysis.arena.key? node = some key ∧ plan.failure key = some fault := by
  obtain ⟨key, hkey, before, hbefore, hfault⟩ := hfails
  refine ⟨key, hkey, ?_⟩
  cases hfailure : plan.failure key with
  | none =>
    obtain ⟨expansion, hanswer, _⟩ := h.answers node before key hbefore hfailure
    rw [hfault] at hanswer
    cases hanswer
  | some other =>
    have hother := h.fails node before key other hbefore hfailure
    rw [hfault] at hother
    cases hother
    rfl

variable [DecidableEq κ]

theorem Analysis.Accounts.concluded (hgoverns : plan.Governs expander)
    (h : Accounts expander first nodes visits batch analysis)
    (hexpanded : analysis.arena.progress node = .expanded) :
    ∃ key, plan.toPlan.Concluded first analysis node key ∧ plan.failure key = none := by
  obtain ⟨visit, hvisit, rfl⟩ := List.mem_map.mp ((h.tally.expanded node).mp hexpanded)
  obtain ⟨key, hkey, hshown⟩ :=
    hgoverns.follows_mend.shown (hgoverns.accounts_mend h).sources hvisit
  refine ⟨key, ⟨hkey, fun need hneed => ?_, visit.edges, hshown.map_keyed? hkey,
    h.records.visited visit hvisit⟩, hgoverns.failure_of_visit h.sources hvisit hkey⟩
  obtain ⟨dependency, hmem, hshows⟩ := exists_of_mem_right hshown.always hneed
  exact Arena.mem_markedKeys.mpr
    ⟨_, hshows.target, h.grounds.always visit hvisit dependency hmem⟩

/-- Whatever the failing keys might have needed, only what is needed anyway gets marked. -/
theorem Analysis.Accounts.within (hgoverns : plan.Governs expander)
    (h : Accounts expander first nodes visits batch analysis)
    (hkeys : List.Forall₂ (fun node key => analysis.arena.key? node = some key) nodes roots)
    (hclosed : plan.toPlan.Closed roots S) {key : κ} (hkey : key ∈ analysis.arena.markedKeys) :
    key ∈ S := by
  obtain ⟨node, hnode, hmarked⟩ := Arena.mem_markedKeys.mp hkey
  have hcovers := hclosed.covers hgoverns.follows_mend (hgoverns.accounts_mend h).sources hkeys
  exact h.grounds.least _ hcovers node hmarked key hnode

variable [LE κ] [DecidableLE κ] [Std.IsLinearOrder κ]

theorem Opening.outcome (hgoverns : plan.Governs expander) (h : Opening first roots analysis)
    (hleast : IsLeast {S | plan.toPlan.Closed roots S} S) (bound : Nat) :
    plan.Outcome first S (analysis.batches expander bound) (analysis.saturate expander bound).1
      (analysis.saturate expander bound).2 := by
  obtain ⟨⟨nodes, hkeys, haccounts⟩, _, hcancelled⟩ := h.accounts hgoverns
  refine ⟨fun fault hfault => ?_, fun hcompleted key hkey => ?_, fun hstopped => ?_⟩
  · obtain ⟨later, earlier, done, failed, left, hbatches, hlater, hafter, hkeeps, hfails,
      hascending⟩ := haccounts.saturate_failed hgoverns.quiet (Prod.ext hfault rfl)
    have hroots := hkeys.imp fun _ _ => hkeeps _ _
    have hwithin {key : κ} (hkey : key ∈ _) := hafter.within hgoverns hroots hleast.1 hkey
    refine ⟨hascending, ⟨earlier, done, failed, left, hbatches, fun node hnode => ?_, ?_,
      fun node hnode => hafter.waits hnode⟩, fun node hnode => ?_, fun key => hwithin⟩
    · have hexpanded := (hafter.tally.expanded node).mpr (hlater ▸ hnode)
      obtain ⟨key, hconcluded, hfailure⟩ := hafter.concluded hgoverns hexpanded
      exact ⟨hexpanded, key, hconcluded.known, hfailure⟩
    · obtain ⟨key, hkey, hfailure⟩ := hgoverns.failure_of_failsAt hfails
      have hmarked := (hafter.waits List.mem_cons_self).progress
      refine ⟨key, hwithin ((Arena.mem_markedKeys_iff hkey).mpr ?_), hkey, hfailure⟩
      rw [hmarked]
      rfl
    · obtain ⟨key, hconcluded, _⟩ := hafter.concluded hgoverns hnode
      exact ⟨key, hconcluded⟩
  · obtain ⟨later, _, hafter, hkeeps, hworklist, hpending⟩ :=
      haccounts.saturate hgoverns.quiet (Prod.ext hcompleted rfl)
    have hclosed := (hgoverns.accounts_mend hafter).closed hgoverns.follows_mend
      (hkeys.imp fun _ _ => hkeeps _ _) hworklist hpending
    obtain ⟨visit, hvisit, hnode, _⟩ := (hgoverns.accounts_mend hafter).exists_visit
      hgoverns.follows_mend hworklist (hleast.2 hclosed hkey)
    exact hgoverns.failure_of_visit hafter.sources hvisit hnode
  · have hcalm := (haccounts.tally.saturate hgoverns.bystander hcancelled bound).2.1
    rw [Analysis.cancelled_of_saturate hstopped] at hcalm
    cases hcalm

omit [Std.IsLinearOrder κ] in
/-- If what is needed is finite, enough rounds are enough. -/
theorem Opening.exists_bound (hgoverns : plan.Governs expander) (h : Opening first roots analysis)
    (hclosed : plan.toPlan.Closed roots S) (hfinite : S.Finite) :
    ∃ enough, ∀ bound, enough ≤ bound → (analysis.saturate expander bound).1 ≠ .exhausted := by
  obtain ⟨⟨nodes, hkeys, haccounts⟩, hidle, _⟩ := h.accounts hgoverns
  refine ⟨hfinite.toFinset.toList.length + 1, fun bound hbound => ?_⟩
  have hcapacity : hfinite.toFinset.toList.length < ([] : List (Visit κ σ)).length + bound := by
    rw [List.length_nil]
    omega
  refine haccounts.saturate_ne_exhausted (I := fun analysis =>
    List.Forall₂ (fun node key => analysis.arena.key? node = some key) nodes roots)
    hgoverns.quiet ?_ ?_ hidle hkeys hcapacity
  · intro _ _ _ hbefore hrooted hround
    obtain ⟨_, _, _, hkeeps⟩ := hbefore.round hgoverns.quiet hround
    exact hrooted.imp fun _ _ => hkeeps _ _
  · intro visits analysis hbefore hrooted
    refine hbefore.tally.length_visits_le_of_mem fun visit hvisit => ?_
    have hmarked := hbefore.tally.isMarked_of_visit hvisit
    obtain ⟨key, hkey⟩ := Option.isSome_iff_exists.mp (Arena.isSome_key?_of_isMarked hmarked)
    have hinside := hbefore.within hgoverns hrooted hclosed
      ((Arena.mem_markedKeys_iff hkey).mpr hmarked)
    exact ⟨key, by rwa [Finset.mem_toList, Set.Finite.mem_toFinset], hkey⟩

/-- A first computation fails if and only if the least fixed point has a failing key, and then with
the fault of the least failing key of the first batch that has one.  What it leaves behind is sound:
everything up to that key is expanded, the rest of the batch waits, and nothing is marked that is not
needed.  If the least fixed point is finite, the computation returns. -/
theorem Opening.fails_iff_exists_failure (hgoverns : plan.Governs expander)
    (h : Opening first roots analysis) (hleast : IsLeast {S | plan.toPlan.Closed roots S} S) :
    (∀ bound, plan.Outcome first S (analysis.batches expander bound)
      (analysis.saturate expander bound).1 (analysis.saturate expander bound).2) ∧
    (S.Finite → ∃ enough, ∀ bound, enough ≤ bound →
      (analysis.saturate expander bound).1 ≠ .exhausted ∧
      ((∃ fault, (analysis.saturate expander bound).1 = .failed fault) ↔
        ∃ key ∈ S, (plan.failure key).isSome)) := by
  have houtcome := h.outcome hgoverns hleast
  refine ⟨houtcome, fun hfinite => ?_⟩
  obtain ⟨enough, henough⟩ := h.exists_bound hgoverns hleast.1 hfinite
  refine ⟨enough, fun bound hbound => ⟨henough bound hbound, ?_, ?_⟩⟩
  · rintro ⟨fault, hfault⟩
    obtain ⟨_, _, _, _, _, _, ⟨key, hkey, _, hfailure⟩, _⟩ :=
      ((houtcome bound).failed fault hfault).split
    exact ⟨key, hkey, by rw [hfailure]; rfl⟩
  · rintro ⟨key, hkey, hfails⟩
    cases hverdict : (analysis.saturate expander bound).1 with
    | failed fault => exact ⟨fault, rfl⟩
    | cancelled => exact absurd hverdict (houtcome bound).calm
    | exhausted => exact absurd hverdict (henough bound hbound)
    | completed =>
      rw [(houtcome bound).completed hverdict key hkey] at hfails
      cases hfails

end Stopping

section Fragile

/-- A node with three needs, of which the second in the order of keys cannot be expanded.  The first
would need one more if it could. -/
def fragilePlan : FalliblePlan Nat String where
  always
    | 0 => [⟨3, "third"⟩, ⟨2, "second"⟩, ⟨1, "first"⟩]
    | 2 => [⟨4, "fourth"⟩]
    | _ => []
  guarded
    | 1 => [⟨5, 2, .expanded, "fifth"⟩]
    | _ => []
  failure := fun key => if key = 2 then some "fragile" else none

def fragile : Analysis Nat Unit :=
  ({ arena := (Arena.intern ∅ 0).2, store := () } : Analysis Nat Unit).mark ⟨0⟩

theorem opening_fragile : Opening ∅ [0] fragile :=
  .root ⟨0⟩ (.create 0 (.start { arena := ∅, store := () } rfl (fun _ => rfl) rfl))

def fragileKeys : Set Nat := {key | key ∈ [0, 1, 2, 3, 4, 5]}

theorem isLeast_fragileKeys : IsLeast {S | fragilePlan.toPlan.Closed [0] S} fragileKeys := by
  constructor
  · have halways : ∀ key ∈ [0, 1, 2, 3, 4, 5], ∀ need ∈ fragilePlan.always key,
        need.target ∈ [0, 1, 2, 3, 4, 5] := by decide
    have hguarded : ∀ key ∈ [0, 1, 2, 3, 4, 5], ∀ need ∈ fragilePlan.guarded key,
        need.target ∈ [0, 1, 2, 3, 4, 5] := by decide
    exact ⟨fun key hkey => List.mem_append_left [1, 2, 3, 4, 5] hkey, halways,
      fun key hkey need hneed _ => hguarded key hkey need hneed⟩
  · intro S hclosed
    have hroot : 0 ∈ S := hclosed.roots_mem 0 List.mem_cons_self
    have hfirst : 1 ∈ S := hclosed.always 0 hroot ⟨1, "first"⟩ (by simp [fragilePlan])
    have hsecond : 2 ∈ S := hclosed.always 0 hroot ⟨2, "second"⟩ (by simp [fragilePlan])
    have hthird : 3 ∈ S := hclosed.always 0 hroot ⟨3, "third"⟩ (by simp [fragilePlan])
    have hfourth : 4 ∈ S := hclosed.always 2 hsecond ⟨4, "fourth"⟩ (by simp [fragilePlan])
    have hfifth : 5 ∈ S := hclosed.guarded 1 hfirst ⟨5, 2, .expanded, "fifth"⟩
      (by simp [fragilePlan]) (.inr ⟨hsecond, by decide⟩)
    intro key hkey
    rcases List.mem_cons.mp hkey with rfl | hkey
    · exact hroot
    · simp only [List.mem_cons, List.not_mem_nil, or_false] at hkey
      rcases hkey with rfl | rfl | rfl | rfl | rfl <;> assumption

theorem fails_iff_exists_failure_fragile :
    ∃ enough, ∀ bound, enough ≤ bound →
      (fragile.saturate fragilePlan.expander bound).1 = .failed "fragile" ∧
        fragilePlan.Stopped ∅ fragileKeys (fragile.batches fragilePlan.expander bound) "fragile"
          (fragile.saturate fragilePlan.expander bound).2 := by
  obtain ⟨houtcome, hreturns⟩ := opening_fragile.fails_iff_exists_failure
    fragilePlan.governs_expander isLeast_fragileKeys
  obtain ⟨enough, henough⟩ := hreturns (List.finite_toSet _)
  refine ⟨enough, fun bound hbound => ?_⟩
  have hsecond : 2 ∈ fragileKeys := by simp [fragileKeys]
  obtain ⟨fault, hfault⟩ := (henough bound hbound).2.mpr ⟨2, hsecond, rfl⟩
  have hstopped := (houtcome bound).failed fault hfault
  obtain ⟨_, _, _, _, _, _, ⟨key, _, _, hfailure⟩, _⟩ := hstopped.split
  obtain rfl : "fragile" = fault := by
    simp only [fragilePlan] at hfailure
    split at hfailure
    · exact Option.some.inj hfailure
    · cases hfailure
  exact ⟨hfault, hstopped⟩

def brokenPlan : FalliblePlan Nat String := { blankPlan with failure := fun _ => some "broken" }

theorem opening_hosted : Opening hostArena [0] hosted :=
  .root ⟨0⟩ (.start { arena := hostArena, store := () } rfl progress_hostArena rfl)

/-- A node that has failed keeps what the host had recorded for it. -/
theorem not_forall_dependencies_eq_nil :
    ¬ ∀ (plan : FalliblePlan Nat String) (expander : Expander Nat Unit String) (first : Arena Nat)
      (roots : List Nat) (analysis after : Analysis Nat Unit) (bound : Nat) (fault : String),
      plan.Governs expander → Opening first roots analysis →
      analysis.saturate expander bound = (.failed fault, after) →
      ∀ batch, (analysis.batches expander bound).getLast? = some batch → ∀ node ∈ batch,
        after.arena.progress node ≠ .expanded → after.arena.dependencies node = [] := by
  intro h
  have hnone := h brokenPlan brokenPlan.expander hostArena [0] hosted _ 3 "broken"
    brokenPlan.governs_expander opening_hosted (Prod.ext (by decide +kernel) rfl) [⟨0⟩]
    (by decide +kernel) ⟨0⟩ List.mem_cons_self (by decide +kernel)
  revert hnone
  decide +kernel

end Fragile

end PortableImage.Graph
