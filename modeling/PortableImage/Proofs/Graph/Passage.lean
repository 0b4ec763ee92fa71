import PortableImage.Proofs.Graph.Failures
import PortableImage.Proofs.Graph.Conservation
/-!
# The passage of nodes through the worklist

A computation is a sequence of rounds and rescans.  In whatever way it ends, each node passes
through the worklist once: it comes there when it is marked, and what is marked stays marked, also
where the expander or the host moves the work on some nodes forward.  So the nodes that were drawn
from the worklist are distinct, and the expander is called for none but these.
-/

namespace PortableImage.Graph

variable {κ σ ε : Type}

/-- On known nodes the expander moves no work back.  It may create nodes, move work forward, fail
and cancel. -/
def Expander.Forward (expander : Expander κ σ ε) : Prop :=
  ∀ node (site : Site κ σ), (site.arena.key? node).isSome →
    ∀ other, site.arena.progress other ≤ (expander node site).2.arena.progress other

/-- What each expansion of a batch keeps true of the site is true after the batch. -/
theorem expandBatch_kept {expander : Expander κ σ ε} {I : Site κ σ → Prop} {batch : List Handle}
    (hexpand : ∀ node ∈ batch, ∀ site, I site → I (expander node site).2) {site : Site κ σ}
    (hsite : I site) : I (expandBatch expander batch site).2 := by
  induction batch generalizing site with
  | nil => exact hsite
  | cons node batch ih =>
    have hlater {left : Site κ σ} : I left → I (expandBatch expander batch left).2 :=
      ih fun other hother => hexpand other (List.mem_cons_of_mem _ hother)
    cases hcancelled : site.cancelled with
    | true =>
      rw [Analysis.expandBatch_of_cancelled hcancelled]
      exact hsite
    | false =>
      obtain ⟨_, _, hcons⟩ := expandBatch_cons expander node batch hcancelled
      rw [hcons]
      exact hlater (hexpand node List.mem_cons_self site hsite)

theorem Expander.Forward.expandBatch {expander : Expander κ σ ε} (h : expander.Forward)
    {batch : List Handle} {site : Site κ σ}
    (hmarked : ∀ node ∈ batch, (site.arena.progress node).isMarked) (other : Handle) :
    site.arena.progress other ≤ (Graph.expandBatch expander batch site).2.arena.progress other := by
  revert other
  refine expandBatch_kept (I := fun left => ∀ other,
    site.arena.progress other ≤ left.arena.progress other) ?_ fun _ => Nat.le_refl _
  intro node hnode left hleft other
  have hknown : (left.arena.key? node).isSome := Arena.isSome_key?_of_isMarked
    (Progress.isMarked_of_le (hleft node) (hmarked node hnode))
  exact Progress.le_trans (hleft other) (h node left hknown other)

/-- The expander is called for the nodes of a batch up to a cancellation. -/
theorem map_fst_surveys_sublist (expander : Expander κ σ ε) (batch : List Handle)
    (site : Site κ σ) : ((surveys expander batch site).map Prod.fst).Sublist batch := by
  induction batch generalizing site with
  | nil => exact List.Sublist.refl _
  | cons node batch ih =>
    rw [surveys]
    split
    · exact List.nil_sublist _
    · exact (ih _).cons_cons node

namespace Analysis

section Turns

/-- The rounds and the rescans so far. -/
def turns (analysis : Analysis κ σ) : Nat × Nat := (analysis.batchCount, analysis.rescanCount)

theorem turns_markAll (analysis : Analysis κ σ) (stack : List Handle) :
    (analysis.markAll stack).turns = analysis.turns := by
  fun_induction markAll analysis stack with
  | case1 => rfl
  | case2 analysis node stack hfresh fired ih => exact ih
  | case3 analysis node stack hfresh ih => exact ih

theorem turns_markEach (analysis : Analysis κ σ) (nodes : List Handle) :
    (analysis.markEach nodes).turns = analysis.turns := by
  induction nodes generalizing analysis with
  | nil => rfl
  | cons node nodes ih => exact (ih _).trans (turns_markAll analysis [node])

theorem turns_considerEach (source : Handle) (analysis : Analysis κ σ)
    (dependencies : List GuardedDependency) :
    (dependencies.foldl (consider source) analysis).turns = analysis.turns := by
  induction dependencies generalizing analysis with
  | nil => rfl
  | cons dependency dependencies ih =>
    refine (ih _).trans ?_
    unfold consider
    split
    · exact turns_markAll _ _
    · rfl

theorem turns_absorb (analysis : Analysis κ σ) (node : Handle) (expansion : Expansion) :
    (analysis.absorb node expansion).turns = analysis.turns := by
  refine (turns_markEach _ _).trans ?_
  exact (turns_considerEach node _ expansion.guarded).trans (turns_markEach _ _)

theorem turns_settle (analysis : Analysis κ σ) (attempts : List (Handle × Attempt ε)) :
    (analysis.settle attempts).2.turns = analysis.turns := by
  fun_induction settle analysis attempts with
  | case1 | case2 | case3 => rfl
  | case4 analysis node expansion later ih => exact ih.trans (turns_absorb ..)

theorem turns_rescan (analysis : Analysis κ σ) :
    analysis.rescan.2.turns = (analysis.batchCount, analysis.rescanCount + 1) :=
  turns_markEach _ _

theorem turns_round [LE κ] [DecidableLE κ] (expander : Expander κ σ ε) (analysis : Analysis κ σ) :
    (analysis.round expander).2.turns = (analysis.batchCount + 1, analysis.rescanCount) :=
  turns_settle _ _

end Turns

/-- The nodes drawn from the worklist so far, and those that are on it: each was marked when it
came, and counted. -/
structure Drawn (drawn : List Handle) (analysis : Analysis κ σ) : Prop where
  once : (drawn ++ analysis.worklist).Nodup
  marked : ∀ node ∈ drawn ++ analysis.worklist, (analysis.arena.progress node).isMarked
  markedCount : analysis.markedCount = (drawn ++ analysis.worklist).length

namespace Drawn

variable {drawn : List Handle} {analysis after : Analysis κ σ}

theorem initial (site : Site κ σ) : Drawn [] ({ toSite := site } : Analysis κ σ) where
  once := List.nodup_nil
  marked _ h := by cases h
  markedCount := rfl

/-- What a spread enters was not marked before, so it is new to the worklist. -/
theorem spread {due entered : List Handle} {found fired : List Deferred}
    (h : Drawn drawn analysis) (hspread : Spread due found analysis after entered fired) :
    Drawn drawn after where
  once := by
    rw [hspread.worklist, ← List.append_assoc]
    refine List.nodup_append.mpr ⟨h.once, hspread.nodup, ?_⟩
    rintro node hnode _ hentered rfl
    have hmarked := h.marked node hnode
    rw [(Arena.isFresh_iff.mp (hspread.fresh node hentered)).2] at hmarked
    cases hmarked
  marked node hnode := by
    rw [hspread.worklist, ← List.append_assoc] at hnode
    rcases List.mem_append.mp hnode with hnode | hentered
    · exact Progress.isMarked_of_le (hspread.progress_le node) (h.marked node hnode)
    · rw [hspread.progress, if_pos hentered]
      rfl
  markedCount := by
    rw [hspread.markedCount, h.markedCount, hspread.worklist, ← List.append_assoc]
    exact List.length_append.symm

/-- The worklist does not change when the work on the site moves forward. -/
theorem forward (h : Drawn drawn analysis) (site : Site κ σ)
    (hforward : ∀ node, analysis.arena.progress node ≤ site.arena.progress node) :
    Drawn drawn { analysis with toSite := site } where
  once := h.once
  marked node hnode := Progress.isMarked_of_le (hforward node) (h.marked node hnode)
  markedCount := h.markedCount

theorem isSome_key? (h : Drawn drawn analysis) {node : Handle}
    (hnode : node ∈ drawn ++ analysis.worklist) : (analysis.arena.key? node).isSome :=
  Arena.isSome_key?_of_isMarked (h.marked node hnode)

theorem mark (h : Drawn drawn analysis) (node : Handle) : Drawn drawn (analysis.mark node) := by
  obtain ⟨_, _, hspread⟩ := spread_mark analysis node
  exact h.spread hspread

theorem rescan (h : Drawn drawn analysis) : Drawn drawn analysis.rescan.2 := by
  obtain ⟨_, _, hspread⟩ := spread_rescan analysis
  exact h.spread hspread

theorem absorb (h : Drawn drawn analysis) {node : Handle} (hnode : node ∈ drawn)
    (expansion : Expansion) : Drawn drawn (analysis.absorb node expansion) := by
  obtain ⟨considered, ⟨_, _, hfirst⟩, _, _, hsecond⟩ := spread_absorb analysis node expansion
  have hconsidered := h.spread hfirst
  have hknown := hconsidered.isSome_key? (List.mem_append_left _ hnode)
  have hconcluded : Drawn drawn (considered.conclude node (expansion.edges node)) :=
    ⟨hconsidered.once, fun other hother => Progress.isMarked_of_le
      (progress_le_conclude hknown other _) (hconsidered.marked other hother),
      hconsidered.markedCount⟩
  exact hconcluded.spread hsecond

theorem settle (h : Drawn drawn analysis) {attempts : List (Handle × Attempt ε)}
    (hattempts : ∀ node ∈ attempts.map Prod.fst, node ∈ drawn) :
    Drawn drawn (analysis.settle attempts).2 := by
  fun_induction Analysis.settle analysis attempts with
  | case1 | case2 | case3 => exact h
  | case4 analysis node expansion later ih =>
    exact ih (h.absorb (hattempts node List.mem_cons_self) expansion)
      fun other hother => hattempts other (List.mem_cons_of_mem _ hother)

/-- The worklist may be drawn as a whole. -/
theorem take (h : Drawn drawn analysis) (count : Nat) :
    Drawn (drawn ++ analysis.worklist) { analysis with worklist := [], batchCount := count } where
  once := by rw [List.append_nil]; exact h.once
  marked := by rw [List.append_nil]; exact h.marked
  markedCount := by rw [List.append_nil]; exact h.markedCount

end Drawn

section Batches

variable [LE κ] [DecidableLE κ] {expander : Expander κ σ ε} {drawn : List Handle}
  {analysis : Analysis κ σ}

theorem batch_subperm (analysis : Analysis κ σ) : analysis.batch.Subperm analysis.worklist :=
  (List.mergeSort_perm _ _).subperm.trans List.filter_sublist.subperm

theorem Drawn.isMarked_of_batch (h : Drawn drawn analysis) {node : Handle}
    (hnode : node ∈ analysis.batch) : (analysis.arena.progress node).isMarked :=
  h.marked node (List.mem_append_right _ ((batch_subperm analysis).subset hnode))

/-- A round draws the worklist as a whole, whatever comes of it. -/
theorem Drawn.round (hforward : expander.Forward) (h : Drawn drawn analysis) :
    Drawn (drawn ++ analysis.worklist) (analysis.round expander).2 := by
  have htaken := (h.take (analysis.batchCount + 1)).forward
    (expandBatch expander analysis.batch analysis.toSite).2
    (hforward.expandBatch fun _ => h.isMarked_of_batch)
  refine htaken.settle fun node hnode => ?_
  rw [map_fst_expandBatch] at hnode
  exact List.mem_append_right _ ((batch_subperm analysis).subset hnode)

end Batches

section Passing

variable [LE κ] [DecidableLE κ]

/-- How many dependencies the rescans of a computation let fire, one after another. -/
def rescans (expander : Expander κ σ ε) : Nat → Analysis κ σ → List Nat
  | 0, _ => []
  | bound + 1, analysis =>
    if analysis.worklist.isEmpty then
      let rescanned := analysis.rescan
      if rescanned.1 = 0 then [0] else rescanned.1 :: rescans expander bound rescanned.2
    else if analysis.cancelled then []
    else
      match analysis.round expander with
      | (some _, _) => []
      | (none, analysis) => rescans expander bound analysis

/-- What a computation does from one moment to another: which nodes it calls the expander for, and
how many dependencies each of its rescans lets fire. -/
inductive Passes (expander : Expander κ σ ε) :
    List Handle → List Nat → Analysis κ σ → Analysis κ σ → Prop
  | refl (analysis : Analysis κ σ) : Passes expander [] [] analysis analysis
  | rescan {called fired before analysis} (h : Passes expander called fired before analysis)
      (hworklist : analysis.worklist = []) :
      Passes expander called (fired ++ [analysis.rescan.1]) before analysis.rescan.2
  | round {called fired before analysis} (h : Passes expander called fired before analysis)
      (hworklist : analysis.worklist ≠ []) (hcancelled : analysis.cancelled = false) :
      Passes expander
        (called ++ (surveys expander analysis.batch analysis.toSite).map Prod.fst) fired before
        (analysis.round expander).2

variable {expander : Expander κ σ ε} {called : List Handle} {fired : List Nat}
  {before analysis after : Analysis κ σ}

theorem Passes.saturate (h : Passes expander called fired before analysis) (bound : Nat) :
    Passes expander (called ++ (analysis.expansions expander bound).map Prod.fst)
      (fired ++ analysis.rescans expander bound) before
      (analysis.saturate expander bound).2 := by
  induction bound generalizing called fired analysis with
  | zero => simpa [expansions, rescans, Analysis.saturate] using h
  | succ bound ih =>
    rw [Analysis.saturate, expansions, rescans]
    by_cases hworklist : analysis.worklist.isEmpty
    · have hrescanned := h.rescan (List.isEmpty_iff.mp hworklist)
      rw [if_pos hworklist, if_pos hworklist, if_pos hworklist]
      by_cases hzero : analysis.rescan.1 = 0
      · rw [hzero] at hrescanned
        simpa [hzero] using hrescanned
      · simpa [hzero] using ih hrescanned
    · rw [if_neg hworklist, if_neg hworklist, if_neg hworklist]
      cases hcancelled : analysis.cancelled with
      | true => simpa using h
      | false =>
        have hround := h.round (fun h => hworklist (List.isEmpty_iff.mpr h)) hcancelled
        cases hanswer : analysis.round expander with
        | mk verdict next =>
          rw [hanswer] at hround
          cases verdict with
          | some verdict => simpa using hround
          | none => simpa using ih hround

theorem passes_saturate (expander : Expander κ σ ε) (bound : Nat) (analysis : Analysis κ σ) :
    Passes expander ((analysis.expansions expander bound).map Prod.fst)
      (analysis.rescans expander bound) analysis (analysis.saturate expander bound).2 :=
  (Passes.refl analysis).saturate bound

/-- Each rescan is counted. -/
theorem Passes.rescanCount (h : Passes expander called fired before after) :
    after.rescanCount = before.rescanCount + fired.length := by
  induction h with
  | refl => rfl
  | @rescan _ fired before analysis _ _ ih =>
    have hcount : analysis.rescan.2.rescanCount = analysis.rescanCount + 1 :=
      congrArg Prod.snd (turns_rescan analysis)
    rw [hcount, ih, List.length_append, Nat.add_assoc]
    rfl
  | @round _ _ _ analysis _ _ _ ih =>
    exact (congrArg Prod.snd (turns_round expander analysis)).trans ih

/-- A computation is completed if and only if its last rescan lets nothing fire; all others let
something fire. -/
theorem rescans_cases (expander : Expander κ σ ε) (bound : Nat) (analysis : Analysis κ σ) :
    ∃ busy : List Nat, (∀ count ∈ busy, count ≠ 0) ∧
      ((analysis.saturate expander bound).1 = .completed ∧
          analysis.rescans expander bound = busy ++ [0] ∨
        (analysis.saturate expander bound).1 ≠ .completed ∧
          analysis.rescans expander bound = busy) := by
  have hnone : ∀ count ∈ ([] : List Nat), count ≠ 0 := fun _ h => by cases h
  induction bound generalizing analysis with
  | zero => exact ⟨[], hnone, .inr ⟨(fun h => by cases h), rfl⟩⟩
  | succ bound ih =>
    rw [Analysis.saturate, rescans]
    by_cases hworklist : analysis.worklist.isEmpty
    · rw [if_pos hworklist, if_pos hworklist]
      by_cases hzero : analysis.rescan.1 = 0
      · exact ⟨[], hnone, .inl (by simp [hzero])⟩
      · obtain ⟨busy, hbusy, hcases⟩ := ih analysis.rescan.2
        refine ⟨analysis.rescan.1 :: busy, by simpa using ⟨hzero, hbusy⟩, ?_⟩
        simpa only [if_neg hzero, List.cons_append, List.cons.injEq, true_and] using hcases
    · rw [if_neg hworklist, if_neg hworklist]
      by_cases hcancelled : analysis.cancelled
      · rw [if_pos hcancelled, if_pos hcancelled]
        exact ⟨[], hnone, .inr ⟨(fun h => by cases h), rfl⟩⟩
      · rw [if_neg hcancelled, if_neg hcancelled]
        have hne := round_ne_completed expander analysis
        cases hround : analysis.round expander with
        | mk answer next =>
          rw [hround] at hne
          cases answer with
          | none => exact ih next
          | some verdict => exact ⟨[], hnone, .inr ⟨fun h => hne (congrArg some h), rfl⟩⟩

end Passing

end Analysis

end PortableImage.Graph
