import PortableImage.Proofs.Graph.Spread
import PortableImage.Graph.FixedPoint
/-!
# Conservation of guarded dependencies

A guarded dependency that has been found is in one of two places: it waits in `pending`, or it has
fired and its edge is in force.  Whatever the expander and the host do, none gets lost on the way from
the one to the other, and none fires twice.

Everything an analysis does to its agenda is done in single acts.  Each of them keeps the balance, so
all moments of a run do, also those at which a computation was cut off by a failure or cancelled.
-/

namespace PortableImage.Graph

variable {κ σ ε : Type}

/-- The guarded dependencies of expansions, each with the node that was expanded. -/
def foundIn (taken : List (Handle × Expansion)) : List Deferred :=
  taken.flatMap fun entry => entry.2.deferred entry.1

/-- The edges to what expanded nodes always need. -/
def recordedIn (taken : List (Handle × Expansion)) : List Edge :=
  taken.flatMap fun entry => entry.2.edges entry.1

namespace Analysis

/-- What an analysis does at once: with the guarded dependencies it finds, the edges it records and
the dependencies it lets fire. -/
inductive Act : List Deferred → List Edge → List Deferred → Analysis κ σ → Analysis κ σ → Prop
  /-- Nothing is found, recorded or fired. -/
  | aside {before after : Analysis κ σ} (hpending : after.pending = before.pending)
      (hedges : after.edges = before.edges)
      (hcount : after.activatedCount = before.activatedCount) : Act [] [] [] before after
  /-- Some of those fire that are pending and ready. -/
  | wake (before : Analysis κ σ) (test : Deferred → Bool) {fired : List Deferred}
      (htest : ∀ deferred, test deferred → before.satisfied deferred.dependency)
      (hfired : fired.Perm (before.pending.filter test)) :
      Act [] [] fired before
        ({ before with pending := before.pending.filter fun deferred => !test deferred }.fire fired)
  /-- A dependency is found and fires at once. -/
  | meet {before : Analysis κ σ} {deferred : Deferred}
      (hready : before.satisfied deferred.dependency) :
      Act [deferred] [] [deferred] before (before.fire [deferred])
  /-- A dependency is found and has to wait. -/
  | defer {before : Analysis κ σ} {deferred : Deferred}
      (hwaits : before.satisfied deferred.dependency = false) :
      Act [deferred] [] [] before
        { before with
          pending := before.pending ++ [deferred]
          deferredCount := before.deferredCount + 1 }
  | conclude (before : Analysis κ σ) (node : Handle) (recorded : List Edge) :
      Act [] recorded [] before (before.conclude node recorded)

/-- What an analysis does in a number of acts. -/
inductive Acts : List Deferred → List Edge → List Deferred → Analysis κ σ → Analysis κ σ → Prop
  | refl (analysis : Analysis κ σ) : Acts [] [] [] analysis analysis
  | tail {found found' recorded recorded' fired fired'} {before middle after : Analysis κ σ}
      (h : Acts found recorded fired before middle)
      (hlast : Act found' recorded' fired' middle after) :
      Acts (found ++ found') (recorded ++ recorded') (fired ++ fired') before after

/-- Nothing gets lost from one moment to another: what was pending or has been found is pending or
has fired, and what has fired has come into force, once. -/
structure Conserves (found : List Deferred) (recorded : List Edge) (fired : List Deferred)
    (before after : Analysis κ σ) : Prop where
  pending : (before.pending ++ found).Perm (fired ++ after.pending)
  edges : after.edges.Perm (before.edges ++ (recorded ++ fired.map Deferred.edge))
  activated : after.activatedCount = before.activatedCount + fired.length

section Acting

variable {found found' fired fired' : List Deferred} {recorded recorded' : List Edge}
  {before middle after : Analysis κ σ}

theorem Act.conserves (h : Act found recorded fired before after) :
    Conserves found recorded fired before after := by
  cases h with
  | aside hpending hedges hcount =>
    exact ⟨by simp [hpending], by simp [hedges], by simp [hcount]⟩
  | wake _ test _ hfired =>
    refine ⟨?_, by simp [fire], rfl⟩
    exact (perm_filter_append _ before.pending).trans (hfired.symm.append_right _)
  | meet hready => exact ⟨List.perm_append_comm, by simp [fire], rfl⟩
  | defer hwaits => exact ⟨List.Perm.refl _, by simp, rfl⟩
  | conclude node => exact ⟨by simp [Analysis.conclude], by simp [Analysis.conclude], rfl⟩

theorem Conserves.trans (first : Conserves found recorded fired before middle)
    (second : Conserves found' recorded' fired' middle after) :
    Conserves (found ++ found') (recorded ++ recorded') (fired ++ fired') before after where
  pending := by
    rw [← List.append_assoc]
    exact perm_of_perm_of_perm first.pending second.pending
  edges := by
    calc after.edges
        |>.Perm (middle.edges ++ (recorded' ++ fired'.map Deferred.edge)) := second.edges
      _ |>.Perm ((before.edges ++ (recorded ++ fired.map Deferred.edge)) ++
          (recorded' ++ fired'.map Deferred.edge)) := first.edges.append_right _
      _ |>.Perm (before.edges ++
          ((recorded ++ recorded') ++ (fired ++ fired').map Deferred.edge)) := by
        simp only [List.append_assoc, List.map_append]
        exact ((List.perm_append_comm_assoc ..).append_left _).append_left _
  activated := by
    rw [second.activated, first.activated, List.length_append, Nat.add_assoc]

theorem Acts.conserves (h : Acts found recorded fired before after) :
    Conserves found recorded fired before after := by
  induction h with
  | refl analysis => exact ⟨by simp, by simp, by simp⟩
  | tail _ hlast ih => exact ih.trans hlast.conserves

theorem Act.acts (h : Act found recorded fired before after) :
    Acts found recorded fired before after :=
  (Acts.refl before).tail h

theorem Acts.trans (first : Acts found recorded fired before middle)
    (second : Acts found' recorded' fired' middle after) :
    Acts (found ++ found') (recorded ++ recorded') (fired ++ fired') before after := by
  induction second with
  | refl => simpa using first
  | tail _ hlast ih =>
    simp only [← List.append_assoc]
    exact (ih first).tail hlast

theorem Acts.aside (h : Acts found recorded fired before middle)
    (hpending : after.pending = middle.pending) (hedges : after.edges = middle.edges)
    (hcount : after.activatedCount = middle.activatedCount) :
    Acts found recorded fired before after := by
  have hall := h.tail (.aside hpending hedges hcount)
  simpa only [List.append_nil] using hall

/-- More fires, and nothing else happens. -/
theorem Acts.fires (first : Acts found recorded fired before middle)
    (second : Acts [] [] fired' middle after) :
    Acts found recorded (fired ++ fired') before after := by
  have hall := first.trans second
  simpa only [List.append_nil] using hall

end Acting

section Operations

theorem act_fireAt (analysis : Analysis κ σ) (node : Handle) :
    Act [] [] (analysis.pending.filter (analysis.firesAt node)) analysis (analysis.fireAt node).2 :=
  .wake analysis _ (fun _ htest => (Bool.and_eq_true_iff.mp htest).2) (List.Perm.refl _)

theorem acts_markAll (analysis : Analysis κ σ) (stack : List Handle) :
    ∃ fired, Acts [] [] fired analysis (analysis.markAll stack) := by
  fun_induction markAll analysis stack with
  | case1 analysis => exact ⟨[], .refl analysis⟩
  | case2 analysis node stack hfresh fired ih =>
    obtain ⟨others, hothers⟩ := ih
    have hentered : Act [] [] [] analysis (analysis.enter node) := .aside rfl rfl rfl
    exact ⟨_, (hentered.acts.trans (act_fireAt _ node).acts).trans hothers⟩
  | case3 analysis node stack hfresh ih => exact ih

theorem acts_markEach (analysis : Analysis κ σ) (nodes : List Handle) :
    ∃ fired, Acts [] [] fired analysis (analysis.markEach nodes) := by
  induction nodes generalizing analysis with
  | nil => exact ⟨[], .refl analysis⟩
  | cons node nodes ih =>
    obtain ⟨_, hfirst⟩ := acts_markAll analysis [node]
    obtain ⟨_, hrest⟩ := ih (analysis.mark node)
    exact ⟨_, hfirst.trans hrest⟩

theorem acts_consider (source : Handle) (analysis : Analysis κ σ)
    (dependency : GuardedDependency) :
    ∃ fired, Acts [⟨source, dependency⟩] [] fired analysis (consider source analysis dependency) := by
  unfold consider
  split
  · rename_i hready
    have hmet : Acts [⟨source, dependency⟩] [] [⟨source, dependency⟩] analysis _ :=
      (Act.meet hready).acts
    obtain ⟨_, hmarked⟩ := acts_markAll (analysis.fire [⟨source, dependency⟩]) [dependency.target]
    exact ⟨_, hmet.trans hmarked⟩
  · rename_i hwaits
    exact ⟨[], (Act.defer (Bool.not_eq_true _ ▸ hwaits)).acts⟩

theorem acts_considerEach (source : Handle) (analysis : Analysis κ σ)
    (dependencies : List GuardedDependency) :
    ∃ fired, Acts (dependencies.map (Deferred.mk source)) [] fired analysis
      (dependencies.foldl (consider source) analysis) := by
  induction dependencies generalizing analysis with
  | nil => exact ⟨[], .refl analysis⟩
  | cons dependency dependencies ih =>
    obtain ⟨_, hfirst⟩ := acts_consider source analysis dependency
    obtain ⟨_, hrest⟩ := ih (consider source analysis dependency)
    exact ⟨_, hfirst.trans hrest⟩

/-- What an expansion brings is found and recorded when it is taken over. -/
theorem acts_absorb (analysis : Analysis κ σ) (node : Handle) (expansion : Expansion) :
    ∃ fired, Acts (expansion.deferred node) (expansion.edges node) fired analysis
      (analysis.absorb node expansion) := by
  obtain ⟨_, hreached⟩ := acts_markEach analysis (expansion.always.map Dependency.target)
  obtain ⟨_, hconsidered⟩ := acts_considerEach node
    (analysis.markEach (expansion.always.map Dependency.target)) expansion.guarded
  have hconcluded := (hreached.trans hconsidered).tail (.conclude _ node (expansion.edges node))
  obtain ⟨_, hmarked⟩ := acts_markEach _ _
  have hall := (hconcluded.fires (act_fireAt _ node).acts).fires hmarked
  simp only [List.nil_append, List.append_nil] at hall
  exact ⟨_, hall⟩

theorem acts_rescan (analysis : Analysis κ σ) :
    ∃ fired, Acts [] [] fired analysis analysis.rescan.2 := by
  let counted := { analysis with rescanCount := analysis.rescanCount + 1 }
  have hcounted : Acts [] [] [] analysis counted := (Acts.refl analysis).aside rfl rfl rfl
  have hwoken := Act.wake counted (fun deferred => analysis.satisfied deferred.dependency)
    (fun _ h => h) (List.mergeSort_perm _ fun a b => a.guard.index ≤ b.guard.index)
  obtain ⟨_, hmarked⟩ := acts_markEach _ _
  exact ⟨_, (hcounted.fires hwoken.acts).fires hmarked⟩

end Operations

/-- The expansions at the head of the results of a batch, up to the first node that was skipped or
failed. -/
def settled : List (Handle × Attempt ε) → List (Handle × Expansion)
  | [] => []
  | (_, .skipped) :: _ => []
  | (_, .failed _) :: _ => []
  | (node, .expanded expansion) :: later => (node, expansion) :: settled later

/-- The expansions an analysis takes over, in this order. -/
def takenOver [LE κ] [DecidableLE κ] (expander : Expander κ σ ε) :
    Nat → Analysis κ σ → List (Handle × Expansion)
  | 0, _ => []
  | bound + 1, analysis =>
    if analysis.worklist.isEmpty then
      let rescanned := analysis.rescan
      if rescanned.1 = 0 then [] else takenOver expander bound rescanned.2
    else if analysis.cancelled then []
    else
      settled (expandBatch expander analysis.batch analysis.toSite).1 ++
        match analysis.round expander with
        | (some _, _) => []
        | (none, analysis) => takenOver expander bound analysis

end Analysis

/-- The books of an analysis that has taken over some expansions: what has fired, what is pending,
and the edges in force. -/
structure Conserved (taken : List (Handle × Expansion)) (fired : List Deferred)
    (analysis : Analysis κ σ) : Prop where
  /-- These are what the analysis has let fire. -/
  acts : ∃ first, Analysis.Acts (foundIn taken) (recordedIn taken) fired
    { toSite := first } analysis
  pending : (foundIn taken).Perm (fired ++ analysis.pending)
  edges : analysis.edges.Perm (recordedIn taken ++ fired.map Deferred.edge)
  activated : analysis.counts.activated = fired.length
  found_count : (foundIn taken).length = analysis.counts.activated + analysis.pending.length
  edge_count : analysis.counts.edges = analysis.edges.length ∧
    analysis.edges.length = (recordedIn taken).length + analysis.counts.activated

theorem Conserved.of_acts {taken : List (Handle × Expansion)} {fired : List Deferred}
    {analysis : Analysis κ σ} {first : Site κ σ}
    (h : Analysis.Acts (foundIn taken) (recordedIn taken) fired { toSite := first } analysis) :
    Conserved taken fired analysis := by
  have hconserves := h.conserves
  have hpending : (foundIn taken).Perm (fired ++ analysis.pending) := hconserves.pending
  have hedges : analysis.edges.Perm (recordedIn taken ++ fired.map Deferred.edge) :=
    hconserves.edges
  have hactivated : analysis.counts.activated = fired.length :=
    hconserves.activated.trans (Nat.zero_add _)
  refine ⟨⟨first, h⟩, hpending, hedges, hactivated, ?_, rfl, ?_⟩
  · rw [hpending.length_eq, List.length_append, hactivated]
  · rw [hedges.length_eq, List.length_append, List.length_map, hactivated]

/-- The moments in the life of an analysis: which expansions have been taken over so far, and which
results of the current batch have not.  Between any two moments the host, another thread or an
expansion may do to the site what they like. -/
inductive Course [LE κ] [DecidableLE κ] (expander : Expander κ σ ε) :
    List (Handle × Expansion) → List (Handle × Attempt ε) → Analysis κ σ → Prop
  | start (site : Site κ σ) : Course expander [] [] { toSite := site }
  | outside {taken left analysis} (site : Site κ σ) (h : Course expander taken left analysis) :
      Course expander taken left { analysis with toSite := site }
  | root {taken analysis} (node : Handle) (h : Course expander taken [] analysis) :
      Course expander taken [] (analysis.mark node)
  | batch {taken analysis} (h : Course expander taken [] analysis)
      (hcancelled : analysis.cancelled = false) :
      Course expander taken (expandBatch expander analysis.batch analysis.toSite).1
        { analysis with
          toSite := (expandBatch expander analysis.batch analysis.toSite).2
          worklist := []
          batchCount := analysis.batchCount + 1 }
  | absorb {taken node expansion left analysis}
      (h : Course expander taken ((node, .expanded expansion) :: left) analysis) :
      Course expander (taken ++ [(node, expansion)]) left (analysis.absorb node expansion)
  /-- The batch is cut off at a node that was skipped or failed. -/
  | cut {taken node attempt left analysis}
      (h : Course expander taken ((node, attempt) :: left) analysis)
      (hattempt : ∀ expansion, attempt ≠ .expanded expansion) : Course expander taken [] analysis
  | rescan {taken analysis} (h : Course expander taken [] analysis) :
      Course expander taken [] analysis.rescan.2

section Courses

variable [LE κ] [DecidableLE κ] {expander : Expander κ σ ε} {taken : List (Handle × Expansion)}
  {left : List (Handle × Attempt ε)} {analysis : Analysis κ σ}

theorem Course.settle (h : Course expander taken left analysis) :
    Course expander (taken ++ Analysis.settled left) [] (analysis.settle left).2 := by
  induction left generalizing taken analysis with
  | nil => rwa [Analysis.settled, List.append_nil]
  | cons attempt left ih =>
    obtain ⟨node, attempt⟩ := attempt
    cases attempt with
    | skipped =>
      rw [Analysis.settled, List.append_nil]
      exact h.cut fun _ hattempt => by cases hattempt
    | failed fault =>
      rw [Analysis.settled, List.append_nil]
      exact h.cut fun _ hattempt => by cases hattempt
    | expanded expansion =>
      have hlater := ih h.absorb
      rwa [List.append_assoc] at hlater

/-- A computation goes through moments of the life of an analysis, however it ends. -/
theorem Course.saturate (h : Course expander taken [] analysis) (bound : Nat) :
    Course expander (taken ++ analysis.takenOver expander bound) []
      (analysis.saturate expander bound).2 := by
  induction bound generalizing taken analysis with
  | zero => rwa [Analysis.takenOver, List.append_nil]
  | succ bound ih =>
    rw [Analysis.saturate, Analysis.takenOver]
    by_cases hworklist : analysis.worklist.isEmpty
    · rw [if_pos hworklist, if_pos hworklist]
      by_cases hzero : analysis.rescan.1 = 0
      · simp only [if_pos hzero, List.append_nil]
        exact h.rescan
      · simp only [if_neg hzero]
        exact ih h.rescan
    · rw [if_neg hworklist, if_neg hworklist]
      by_cases hcancelled : analysis.cancelled
      · rwa [if_pos hcancelled, if_pos hcancelled, List.append_nil]
      · rw [if_neg hcancelled, if_neg hcancelled]
        have hround : Course expander
            (taken ++ Analysis.settled (expandBatch expander analysis.batch analysis.toSite).1) []
            (analysis.round expander).2 :=
          (h.batch (Bool.not_eq_true _ ▸ hcancelled)).settle
        cases hanswer : analysis.round expander with
        | mk verdict next =>
          rw [hanswer] at hround
          cases verdict with
          | some verdict => rwa [List.append_nil]
          | none =>
            rw [← List.append_assoc]
            exact ih hround

/-- All that has happened in the life of an analysis are acts: the guarded dependencies of the
expansions were found, the edges to what they always need were recorded, and some dependencies
fired. -/
theorem Course.acts (h : Course expander taken left analysis) :
    ∃ first fired, Analysis.Acts (foundIn taken) (recordedIn taken) fired
      { toSite := first } analysis := by
  induction h with
  | start site => exact ⟨site, [], .refl _⟩
  | outside site _ ih =>
    obtain ⟨first, fired, hacts⟩ := ih
    exact ⟨first, fired, hacts.aside rfl rfl rfl⟩
  | root node _ ih =>
    obtain ⟨first, _, hacts⟩ := ih
    obtain ⟨_, hmarked⟩ := Analysis.acts_markAll _ [node]
    exact ⟨first, _, hacts.fires hmarked⟩
  | batch _ _ ih =>
    obtain ⟨first, fired, hacts⟩ := ih
    exact ⟨first, fired, hacts.aside rfl rfl rfl⟩
  | @absorb taken node expansion left analysis _ ih =>
    obtain ⟨first, fired, hacts⟩ := ih
    obtain ⟨fired', habsorbed⟩ := Analysis.acts_absorb analysis node expansion
    refine ⟨first, fired ++ fired', ?_⟩
    simpa [foundIn, recordedIn] using hacts.trans habsorbed
  | cut _ _ ih => exact ih
  | rescan _ ih =>
    obtain ⟨first, _, hacts⟩ := ih
    obtain ⟨_, hrescanned⟩ := Analysis.acts_rescan _
    exact ⟨first, _, hacts.fires hrescanned⟩

/-- At every moment each guarded dependency that has been found is pending or has fired once, with
one edge in force for it; and a computation, however it ends, only goes on from moment to moment. -/
theorem Course.conserved (h : Course expander taken left analysis) :
    (∃ fired, Conserved taken fired analysis) ∧
      (left = [] → ∀ bound, Course expander (taken ++ analysis.takenOver expander bound) []
        (analysis.saturate expander bound).2) := by
  obtain ⟨_, fired, hacts⟩ := h.acts
  refine ⟨⟨fired, .of_acts hacts⟩, fun hleft => ?_⟩
  subst hleft
  exact h.saturate

end Courses

section Raised

/-- What node 0 needs: node 1 always, node 2 once node 1 is expanded, node 3 once node 2 is
emitted. -/
def twoGuarded : Expansion where
  always := [⟨⟨1⟩, "use"⟩]
  guarded := [⟨⟨2⟩, ⟨1⟩, .expanded, "body"⟩, ⟨⟨3⟩, ⟨2⟩, .emitted, "rest"⟩]

/-- Node 1 fails, and the other nodes need nothing. -/
def stuckAtOne : Expander Nat Unit String := fun node site =>
  match node.index with
  | 0 => (.ok twoGuarded, site)
  | 1 => (.error "stuck", site)
  | _ => (.ok {}, site)

def fourNodes : Arena Nat := (Arena.empty.internEach [0, 1, 2, 3]).2

def fourRooted : Analysis Nat Unit :=
  ({ arena := fourNodes, store := () } : Analysis Nat Unit).mark ⟨0⟩

/-- A computation has failed at node 1, and the host declares the node expanded. -/
def raisedAtOne : Analysis Nat Unit :=
  let failed := (fourRooted.saturate stuckAtOne 3).2
  { failed with arena := failed.arena.raise ⟨1⟩ .expanded }

theorem course_raisedAtOne : Course stuckAtOne [(⟨0⟩, twoGuarded)] [] raisedAtOne := by
  have hroot : Course stuckAtOne [] [] fourRooted := .root ⟨0⟩ (.start ⟨fourNodes, false, ()⟩)
  have htaken : fourRooted.takenOver stuckAtOne 3 = [(⟨0⟩, twoGuarded)] := by decide +kernel
  have hfailed := hroot.saturate 3
  rw [htaken] at hfailed
  exact hfailed.outside _

/-- In the second computation one of the two dependencies fires, and the other goes on waiting. -/
theorem conserved_raisedAtOne :
    (fourRooted.saturate stuckAtOne 3).1 = .failed "stuck" ∧
      (raisedAtOne.saturate stuckAtOne 3).1 = .completed ∧
      ∃ fired, Conserved [(⟨0⟩, twoGuarded), (⟨2⟩, {})] fired
        (raisedAtOne.saturate stuckAtOne 3).2 ∧
        fired.length = 1 ∧ (raisedAtOne.saturate stuckAtOne 3).2.pending.length = 1 := by
  refine ⟨by decide +kernel, by decide +kernel, ?_⟩
  have htaken : raisedAtOne.takenOver stuckAtOne 3 = [(⟨2⟩, {})] := by decide +kernel
  have hcourse := course_raisedAtOne.conserved.2 rfl 3
  rw [htaken] at hcourse
  obtain ⟨fired, hconserved⟩ := hcourse.conserved.1
  refine ⟨fired, hconserved, ?_, by decide +kernel⟩
  rw [← hconserved.activated]
  decide +kernel

end Raised

end PortableImage.Graph
