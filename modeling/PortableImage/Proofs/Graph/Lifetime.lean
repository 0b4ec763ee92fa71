import PortableImage.Proofs.Graph.Passage
import Mathlib.Data.Set.Finite.Basic
/-!
# The lifetime of an analysis

A host may add roots and compute as often as it likes.  Expansions may fail, and they and the host
may move work forward.  Over the whole lifetime the expander is called at most once for each node,
and the counts are bounded by the number of nodes that were marked.  If only finitely many keys ever
come up, each computation returns: a round or a rescan that marks nothing leaves less on the
worklist or among the pending dependencies.
-/

namespace PortableImage.Graph

variable {κ σ ε : Type}

namespace Analysis

section Counting

theorem expandedCount_absorb (analysis : Analysis κ σ) (node : Handle) (expansion : Expansion) :
    (analysis.absorb node expansion).expandedCount = analysis.expandedCount + 1 := by
  obtain ⟨considered, ⟨_, _, hfirst⟩, _, _, hsecond⟩ := spread_absorb analysis node expansion
  calc (analysis.absorb node expansion).expandedCount
      = considered.expandedCount + 1 := hsecond.expandedCount
    _ = analysis.expandedCount + 1 := by rw [hfirst.expandedCount]

theorem expandedCount_settle_le (analysis : Analysis κ σ) (attempts : List (Handle × Attempt ε)) :
    (analysis.settle attempts).2.expandedCount ≤ analysis.expandedCount + attempts.length := by
  fun_induction settle analysis attempts with
  | case1 | case2 | case3 => exact Nat.le_add_right _ _
  | case4 analysis node expansion later ih =>
    rw [expandedCount_absorb] at ih
    rw [List.length_cons]
    omega

theorem activatedCount_le_of_acts {found fired : List Deferred} {recorded : List Edge}
    {before after : Analysis κ σ} (h : Acts found recorded fired before after) :
    before.activatedCount ≤ after.activatedCount := by
  rw [h.conserves.activated]
  exact Nat.le_add_right _ _

theorem activatedCount_le_settle (analysis : Analysis κ σ) (attempts : List (Handle × Attempt ε)) :
    analysis.activatedCount ≤ (analysis.settle attempts).2.activatedCount := by
  fun_induction settle analysis attempts with
  | case1 | case2 | case3 => exact Nat.le_refl _
  | case4 analysis node expansion later ih =>
    obtain ⟨_, hacts⟩ := acts_absorb analysis node expansion
    exact Nat.le_trans (activatedCount_le_of_acts hacts) ih

/-- What a rescan lets fire is counted, with what fires in turn. -/
theorem activatedCount_rescan_le (analysis : Analysis κ σ) :
    analysis.activatedCount + analysis.rescan.1 ≤ analysis.rescan.2.activatedCount := by
  let ready := fun deferred : Deferred => analysis.satisfied deferred.dependency
  let fired := (analysis.pending.filter ready).mergeSort fun a b => a.guard.index ≤ b.guard.index
  let woken := { analysis with
    pending := analysis.pending.filter fun deferred => !ready deferred
    rescanCount := analysis.rescanCount + 1 }.fire fired
  obtain ⟨_, hacts⟩ := acts_markEach woken (fired.map Deferred.target)
  exact activatedCount_le_of_acts hacts

/-- What a rescan lets fire is pending no more. -/
theorem length_pending_rescan_le (analysis : Analysis κ σ) :
    analysis.rescan.2.pending.length + analysis.rescan.1 ≤ analysis.pending.length := by
  obtain ⟨fired, hacts⟩ := acts_rescan analysis
  have hactivated := hacts.conserves.activated
  have hlength := hacts.conserves.pending.length_eq
  have hcount := activatedCount_rescan_le analysis
  rw [List.append_nil, List.length_append] at hlength
  omega

end Counting

/-- Nodes that are marked, each listed once, are no more than there are nodes. -/
theorem Drawn.markedCount_le_size {drawn : List Handle} {analysis : Analysis κ σ}
    (h : Drawn drawn analysis) : analysis.markedCount ≤ analysis.arena.size := by
  have hsubset : drawn ++ analysis.worklist ⊆ analysis.arena.marked :=
    fun node hnode => Arena.mem_marked.mpr (h.marked node hnode)
  calc analysis.markedCount
      = (drawn ++ analysis.worklist).length := h.markedCount
    _ ≤ analysis.arena.marked.length := (List.subperm_of_subset h.once hsubset).length_le
    _ ≤ analysis.arena.handles.length := List.length_filter_le _ _
    _ = analysis.arena.size := by rw [Arena.handles, List.length_map, List.length_range]

theorem Drawn.markedCount_le_of_scope {drawn : List Handle} {analysis : Analysis κ σ}
    (h : Drawn drawn analysis) {scope : List κ}
    (hscope : ∀ node key, analysis.arena.key? node = some key → key ∈ scope) :
    analysis.markedCount ≤ scope.length := by
  have hkeyed : ∀ node ∈ drawn ++ analysis.worklist,
      ∃ key ∈ scope, analysis.arena.key? node = some key := by
    intro node hnode
    obtain ⟨key, hkey⟩ := Option.isSome_iff_exists.mp (h.isSome_key? hnode)
    exact ⟨key, hscope node key hkey, hkey⟩
  rw [h.markedCount]
  exact Arena.length_le_of_key? h.once hkeyed

/-- The books of an analysis for which the expander was called: a node is drawn from the worklist
before it is called for, and each batch draws at least one. -/
structure Thrifty (calls drawn : List Handle) (analysis : Analysis κ σ) : Prop where
  waiting : Drawn drawn analysis
  calls : calls.Subperm drawn
  expanded : analysis.expandedCount ≤ drawn.length
  batches : analysis.batchCount ≤ drawn.length

section Spreading

variable {calls drawn : List Handle} {analysis after : Analysis κ σ}

theorem Thrifty.spread {due entered : List Handle} {found fired : List Deferred}
    (h : Thrifty calls drawn analysis) (hspread : Spread due found analysis after entered fired)
    (hbatches : after.batchCount = analysis.batchCount) : Thrifty calls drawn after where
  waiting := h.waiting.spread hspread
  calls := h.calls
  expanded := hspread.expandedCount ▸ h.expanded
  batches := hbatches ▸ h.batches

theorem Thrifty.mark (h : Thrifty calls drawn analysis) (node : Handle) :
    Thrifty calls drawn (analysis.mark node) := by
  obtain ⟨_, _, hspread⟩ := spread_mark analysis node
  exact h.spread hspread (congrArg Prod.fst (turns_markAll analysis [node]))

theorem Thrifty.rescan (h : Thrifty calls drawn analysis) :
    Thrifty calls drawn analysis.rescan.2 := by
  obtain ⟨_, _, hspread⟩ := spread_rescan analysis
  exact h.spread hspread (congrArg Prod.fst (turns_rescan analysis))

end Spreading

section Passing

variable [LE κ] [DecidableLE κ] {expander : Expander κ σ ε} {calls drawn called : List Handle}
  {fired : List Nat} {before analysis after : Analysis κ σ}

theorem Thrifty.round (hforward : expander.Forward) (h : Thrifty calls drawn analysis)
    (hworklist : analysis.worklist ≠ []) :
    Thrifty (calls ++ (surveys expander analysis.batch analysis.toSite).map Prod.fst)
      (drawn ++ analysis.worklist) (analysis.round expander).2 := by
  have hbatch := batch_subperm analysis
  refine ⟨h.waiting.round hforward, h.calls.append ?_, ?_, ?_⟩
  · exact (map_fst_surveys_sublist expander _ _).subperm.trans hbatch
  · have hlength :=
      congrArg List.length (map_fst_expandBatch expander analysis.batch analysis.toSite)
    have hsettled : (analysis.round expander).2.expandedCount ≤ analysis.expandedCount +
        (expandBatch expander analysis.batch analysis.toSite).1.length :=
      expandedCount_settle_le _ _
    have hle := hbatch.length_le
    have hexpanded := h.expanded
    rw [List.length_map] at hlength
    rw [List.length_append]
    omega
  · have hbatches : (analysis.round expander).2.batchCount = analysis.batchCount + 1 :=
      congrArg Prod.fst (turns_round expander analysis)
    have hpos := List.length_pos_iff.mpr hworklist
    have hle := h.batches
    rw [List.length_append]
    omega

theorem Passes.thrifty (hforward : expander.Forward)
    (hpasses : Passes expander called fired before after) (h : Thrifty calls drawn before) :
    ∃ drawn, Thrifty (calls ++ called) drawn after := by
  induction hpasses with
  | refl => exact ⟨drawn, by rwa [List.append_nil]⟩
  | rescan _ _ ih =>
    obtain ⟨_, hthrifty⟩ := ih h
    exact ⟨_, hthrifty.rescan⟩
  | round _ hworklist _ ih =>
    obtain ⟨_, hthrifty⟩ := ih h
    rw [← List.append_assoc]
    exact ⟨_, hthrifty.round hforward hworklist⟩

/-- Each rescan that lets something fire adds to what has fired. -/
theorem Passes.activatedCount_le (hpasses : Passes expander called fired before after) :
    before.activatedCount + fired.countP (0 < ·) ≤ after.activatedCount := by
  induction hpasses with
  | refl => exact Nat.le_refl _
  | @rescan _ fired before analysis _ _ ih =>
    have hrescan := activatedCount_rescan_le analysis
    have hlast : [analysis.rescan.1].countP (0 < ·) ≤ analysis.rescan.1 := by
      rw [List.countP_singleton]
      split
      · rename_i hpos
        exact of_decide_eq_true hpos
      · exact Nat.zero_le _
    rw [List.countP_append]
    omega
  | @round _ fired before analysis _ _ _ ih =>
    let attempts := expandBatch expander analysis.batch analysis.toSite
    have hround := activatedCount_le_settle { analysis with
      toSite := attempts.2
      worklist := []
      batchCount := analysis.batchCount + 1 } attempts.1
    exact Nat.le_trans ih hround

/-- All rescans of a computation but the last let something fire. -/
theorem length_rescans_le (expander : Expander κ σ ε) (bound : Nat) (analysis : Analysis κ σ) :
    (analysis.rescans expander bound).length ≤
      (analysis.rescans expander bound).countP (0 < ·) + 1 := by
  obtain ⟨busy, hbusy, hcases⟩ := rescans_cases expander bound analysis
  have hall : busy.countP (0 < ·) = busy.length := List.countP_eq_length.mpr fun count hcount =>
    decide_eq_true (Nat.pos_of_ne_zero (hbusy count hcount))
  rcases hcases with ⟨_, hrescans⟩ | ⟨_, hrescans⟩
  · rw [hrescans, List.length_append, List.countP_append, hall, List.length_singleton]
    omega
  · rw [hrescans, hall]
    omega

end Passing

section Returning

variable [LE κ] [DecidableLE κ] {expander : Expander κ σ ε} {drawn : List Handle}
  {analysis next : Analysis κ σ}

theorem saturate_of_rescan (hworklist : analysis.worklist = []) (hbusy : analysis.rescan.1 ≠ 0)
    (bound : Nat) :
    analysis.saturate expander (bound + 1) = analysis.rescan.2.saturate expander bound := by
  simp [Analysis.saturate, hworklist, hbusy]

theorem saturate_of_round (hworklist : analysis.worklist ≠ [])
    (hcancelled : analysis.cancelled = false) (hround : analysis.round expander = (none, next))
    (bound : Nat) :
    analysis.saturate expander (bound + 1) = next.saturate expander bound := by
  simp [Analysis.saturate, hworklist, hcancelled, hround]

/-- What is left to do, as long as no more nodes than a limit can be marked. -/
def effort (limit : Nat) (analysis : Analysis κ σ) : Nat × Nat × Nat :=
  (limit - analysis.markedCount, analysis.worklist.length, analysis.pending.length)

omit [LE κ] [DecidableLE κ] in
/-- A rescan that lets something fire marks more nodes, or leaves less pending. -/
theorem effort_rescan {limit : Nat} (hlimit : analysis.rescan.2.markedCount ≤ limit)
    (hbusy : analysis.rescan.1 ≠ 0) :
    Prod.Lex (· < ·) (Prod.Lex (· < ·) (· < ·)) (analysis.rescan.2.effort limit)
      (analysis.effort limit) := by
  obtain ⟨entered, _, hspread⟩ := spread_rescan analysis
  have hmarked := hspread.markedCount
  have hpending := length_pending_rescan_le analysis
  by_cases hentered : entered = []
  · have hworklist := hspread.worklist
    rw [hentered, List.length_nil, Nat.add_zero] at hmarked
    rw [hentered, List.append_nil] at hworklist
    rw [effort, effort, hmarked, hworklist]
    exact .right _ (.right _ (by omega))
  · have hpos := List.length_pos_iff.mpr hentered
    exact .left _ _ (by omega)

/-- A round marks more nodes, or leaves nothing on the worklist. -/
theorem effort_round {limit : Nat} (hforward : expander.Forward) (h : Drawn drawn analysis)
    (hworklist : analysis.worklist ≠ [])
    (hlimit : (analysis.round expander).2.markedCount ≤ limit) :
    Prod.Lex (· < ·) (Prod.Lex (· < ·) (· < ·)) ((analysis.round expander).2.effort limit)
      (analysis.effort limit) := by
  have hmarked : (analysis.round expander).2.markedCount =
      analysis.markedCount + (analysis.round expander).2.worklist.length := by
    rw [(h.round hforward).markedCount, h.markedCount, List.length_append]
  by_cases hnone : (analysis.round expander).2.worklist = []
  · rw [hnone, List.length_nil, Nat.add_zero] at hmarked
    rw [effort, effort, hmarked, hnone]
    exact .right _ (.left _ _ (List.length_pos_iff.mpr hworklist))
  · have hpos := List.length_pos_iff.mpr hnone
    exact .left _ _ (by omega)

/-- Given enough rounds, a computation comes to its end. -/
def Returns (expander : Expander κ σ ε) (analysis : Analysis κ σ) : Prop :=
  ∃ enough, ∀ bound, enough ≤ bound → (analysis.saturate expander bound).1 ≠ .exhausted

theorem returns_of_end (hend : ∀ bound, (analysis.saturate expander (bound + 1)).1 ≠ .exhausted) :
    analysis.Returns expander := by
  refine ⟨1, fun bound hbound => ?_⟩
  obtain ⟨bound, rfl⟩ := Nat.exists_eq_add_of_le' hbound
  exact hend bound

theorem Returns.of_next (h : next.Returns expander)
    (hnext : ∀ bound, analysis.saturate expander (bound + 1) = next.saturate expander bound) :
    analysis.Returns expander := by
  obtain ⟨enough, henough⟩ := h
  refine ⟨enough + 1, fun bound hbound => ?_⟩
  obtain ⟨bound, rfl⟩ := Nat.exists_eq_add_of_le' hbound
  rw [← Nat.add_assoc, hnext]
  exact henough _ (Nat.le_add_left _ _)

/-- A round that comes to a verdict ends the computation. -/
theorem returns_of_verdict {verdict : Verdict ε} (hworklist : analysis.worklist ≠ [])
    (hcancelled : analysis.cancelled = false)
    (hround : analysis.round expander = (some verdict, next)) : analysis.Returns expander := by
  have hverdict : verdict ≠ .exhausted := by
    rintro rfl
    exact settle_ne_exhausted _ _ (congrArg Prod.fst hround)
  refine returns_of_end fun bound => ?_
  rw [Analysis.saturate, if_neg (by simpa using hworklist), hcancelled,
    if_neg Bool.false_ne_true, hround]
  exact hverdict

/-- A computation in which all keys come from a list returns. -/
theorem Drawn.returns (hforward : expander.Forward) {scope : List κ} {drawn : List Handle}
    {analysis : Analysis κ σ} (h : Drawn drawn analysis)
    (hscope : ∀ bound node key,
      (analysis.saturate expander bound).2.arena.key? node = some key → key ∈ scope) :
    analysis.Returns expander := by
  -- What the list bounds in this analysis it bounds in the next one.
  have hlater {next : Analysis κ σ}
      (hnext : ∀ bound, analysis.saturate expander (bound + 1) = next.saturate expander bound)
      (bound : Nat) (node : Handle) (key : κ)
      (hkey : (next.saturate expander bound).2.arena.key? node = some key) : key ∈ scope :=
    hscope (bound + 1) node key (by rwa [hnext])
  by_cases hworklist : analysis.worklist = []
  · by_cases hzero : analysis.rescan.1 = 0
    · exact returns_of_end fun bound => by simp [Analysis.saturate, hworklist, hzero]
    · have hnext (bound : Nat) :
          analysis.saturate expander (bound + 1) = analysis.rescan.2.saturate expander bound :=
        saturate_of_rescan hworklist hzero bound
      have hlimit := h.rescan.markedCount_le_of_scope (hlater hnext 0)
      exact (h.rescan.returns hforward (hlater hnext)).of_next hnext
  · cases hcancelled : analysis.cancelled with
    | true => exact returns_of_end fun bound => by simp [Analysis.saturate, hworklist, hcancelled]
    | false =>
      have hround := h.round hforward
      cases hanswer : (analysis.round expander).1 with
      | some verdict => exact returns_of_verdict hworklist hcancelled (Prod.ext hanswer rfl)
      | none =>
        have hnext := saturate_of_round hworklist hcancelled (Prod.ext hanswer rfl)
        have hlimit := hround.markedCount_le_of_scope (hlater hnext 0)
        exact (hround.returns hforward (hlater hnext)).of_next hnext
termination_by analysis.effort scope.length
decreasing_by
  · exact effort_rescan hlimit hzero
  · exact effort_round hforward h hworklist hlimit

end Returning

end Analysis

/-- The life of an analysis: for which nodes the expander was called, and how many computations
there were, with those that were cut off at their bound.  Between two steps the host or another
thread may do to the site what they like, as long as they move no work back. -/
inductive Lifetime [LE κ] [DecidableLE κ] (expander : Expander κ σ ε) :
    List Handle → Nat → Analysis κ σ → Prop
  | start (site : Site κ σ) : Lifetime expander [] 0 { toSite := site }
  | outside {calls computes analysis} (site : Site κ σ)
      (hforward : ∀ node, analysis.arena.progress node ≤ site.arena.progress node)
      (h : Lifetime expander calls computes analysis) :
      Lifetime expander calls computes { analysis with toSite := site }
  | root {calls computes analysis} (node : Handle) (h : Lifetime expander calls computes analysis) :
      Lifetime expander calls computes (analysis.mark node)
  | compute {calls computes analysis} (bound : Nat)
      (h : Lifetime expander calls computes analysis) :
      Lifetime expander (calls ++ (analysis.expansions expander bound).map Prod.fst) (computes + 1)
        (analysis.saturate expander bound).2

/-- What the counts of an analysis are bounded by. -/
structure Bounded (calls : List Handle) (computes : Nat) (analysis : Analysis κ σ) : Prop where
  once : calls.Nodup
  batches : analysis.counts.batches ≤ analysis.counts.marked
  marked : analysis.counts.marked ≤ analysis.arena.size
  expanded : analysis.counts.expanded ≤ analysis.counts.marked
  rescans : analysis.counts.rescans ≤ computes + analysis.counts.activated

theorem Analysis.Thrifty.bounded {calls drawn : List Handle} {computes : Nat}
    {analysis : Analysis κ σ} (h : analysis.Thrifty calls drawn)
    (hrescans : analysis.rescanCount ≤ computes + analysis.activatedCount) :
    Bounded calls computes analysis := by
  have hdrawn : drawn.length ≤ analysis.markedCount := by
    rw [h.waiting.markedCount, List.length_append]
    exact Nat.le_add_right _ _
  obtain ⟨more, hperm, hsublist⟩ := h.calls
  have honce : drawn.Nodup := (List.nodup_append.mp h.waiting.once).1
  exact ⟨hperm.nodup_iff.mp (hsublist.nodup honce), Nat.le_trans h.batches hdrawn,
    h.waiting.markedCount_le_size, Nat.le_trans h.expanded hdrawn, hrescans⟩

section Lifetimes

variable [LE κ] [DecidableLE κ] {expander : Expander κ σ ε} {calls : List Handle} {computes : Nat}
  {analysis : Analysis κ σ}

theorem Lifetime.thrifty (hforward : expander.Forward)
    (h : Lifetime expander calls computes analysis) :
    (∃ drawn, analysis.Thrifty calls drawn) ∧
      analysis.rescanCount ≤ computes + analysis.activatedCount := by
  induction h with
  | start site => exact ⟨⟨[], .initial site, List.Subperm.refl _, Nat.le_refl _, Nat.le_refl _⟩,
      Nat.le_refl _⟩
  | outside site hsite _ ih =>
    obtain ⟨⟨drawn, hthrifty⟩, hrescans⟩ := ih
    exact ⟨⟨drawn, hthrifty.waiting.forward site hsite, hthrifty.calls, hthrifty.expanded,
      hthrifty.batches⟩, hrescans⟩
  | @root calls computes analysis node _ ih =>
    obtain ⟨⟨drawn, hthrifty⟩, hrescans⟩ := ih
    obtain ⟨_, hacts⟩ := Analysis.acts_markAll analysis [node]
    have hactivated := Analysis.activatedCount_le_of_acts hacts
    have hcount := congrArg Prod.snd (Analysis.turns_markAll analysis [node])
    refine ⟨⟨drawn, hthrifty.mark node⟩, ?_⟩
    calc (analysis.mark node).rescanCount
        = analysis.rescanCount := hcount
      _ ≤ computes + analysis.activatedCount := hrescans
      _ ≤ computes + (analysis.mark node).activatedCount := Nat.add_le_add_left hactivated _
  | @compute calls computes analysis bound _ ih =>
    obtain ⟨⟨drawn, hthrifty⟩, hrescans⟩ := ih
    have hpasses := Analysis.passes_saturate expander bound analysis
    have hcount := hpasses.rescanCount
    have hactivated := hpasses.activatedCount_le
    have hlength := Analysis.length_rescans_le expander bound analysis
    exact ⟨hpasses.thrifty hforward hthrifty, by omega⟩

/-- Whatever has happened in the life of an analysis, the expander was called at most once for each
node, and the counts are bounded.  A further computation returns if only finitely many keys come up
in it. -/
theorem Lifetime.bounded_and_returns (hforward : expander.Forward)
    (h : Lifetime expander calls computes analysis) :
    Bounded calls computes analysis ∧
      ({key | ∃ bound node,
          (analysis.saturate expander bound).2.arena.key? node = some key}.Finite →
        analysis.Returns expander) := by
  obtain ⟨⟨drawn, hthrifty⟩, hrescans⟩ := h.thrifty hforward
  refine ⟨hthrifty.bounded hrescans, fun hfinite => ?_⟩
  have hscope : ∀ bound node key, (analysis.saturate expander bound).2.arena.key? node = some key →
      key ∈ hfinite.toFinset.toList := by
    intro bound node key hkey
    rw [Finset.mem_toList, Set.Finite.mem_toFinset]
    exact ⟨bound, node, hkey⟩
  exact hthrifty.waiting.returns hforward hscope

theorem Expander.Keeps.saturate {I : Site κ σ → Prop} (hkeeps : expander.Keeps I)
    (hsite : I analysis.toSite) (bound : Nat) :
    I (analysis.saturate expander bound).2.toSite :=
  @Expander.Carries.saturate κ σ ε expander (fun _ => I) [] _ _ analysis
    (analysis.saturate expander bound).2 (analysis.saturate expander bound).1 hkeeps bound hsite rfl

/-- Only finitely many keys come up where every expansion keeps to a list of keys. -/
theorem Expander.Keeps.finite_keys {I : Site κ σ → Prop} (hkeeps : expander.Keeps I)
    {scope : List κ}
    (hscope : ∀ site, I site → ∀ node key, site.arena.key? node = some key → key ∈ scope)
    (hsite : I analysis.toSite) :
    {key | ∃ bound node,
      (analysis.saturate expander bound).2.arena.key? node = some key}.Finite := by
  refine (List.finite_toSet scope).subset ?_
  rintro key ⟨bound, node, hkey⟩
  exact hscope _ (hkeeps.saturate hsite bound) node key hkey

end Lifetimes

section Hasty

/-- What node 0 needs: node 3 always, and node 1 once node 2 is expanded. -/
def hastyNeeds : Expansion where
  always := [⟨⟨3⟩, "next"⟩]
  guarded := [⟨⟨1⟩, ⟨2⟩, .expanded, "behind"⟩]

/-- Expanding node 3 fails, but first it raises node 2, which is on no worklist. -/
def hasty : Expander Nat Unit String := fun node site =>
  match node.index with
  | 0 => (.ok hastyNeeds, site)
  | 3 => (.error "hasty", { site with arena := site.arena.raise ⟨2⟩ .expanded })
  | _ => (.ok {}, site)

theorem forward_hasty : hasty.Forward := by
  intro node site _ other
  unfold hasty
  split
  · exact Nat.le_refl _
  · rw [Arena.progress_raise]
    split
    · rw [Progress.le_iff, Progress.level_max]
      exact Nat.le_max_left ..
    · exact Nat.le_refl _
  · exact Nat.le_refl _

/-- No key is new to a site. -/
def WithinFour (site : Site Nat Unit) : Prop :=
  ∀ node key, site.arena.key? node = some key → key ∈ [0, 1, 2, 3]

theorem keeps_hasty : hasty.Keeps WithinFour where
  expand _ node site hsite := by
    unfold hasty
    split
    · exact hsite
    · intro other key hkey
      rw [Arena.key?_raise] at hkey
      exact hsite other key hkey
    · exact hsite
  rearrange _ old new hnew hold node key hkey := hold node key ((hnew.key? node).symm.trans hkey)

/-- A computation has failed at node 3. -/
def hastyFailed : Analysis Nat Unit := (fourRooted.saturate hasty 2).2

theorem withinFour_hastyFailed : WithinFour hastyFailed.toSite := by
  intro node key hkey
  have hkeys : hastyFailed.arena.nodes.map Node.key = [0, 1, 2, 3] := by decide +kernel
  obtain ⟨found, hfound, rfl⟩ := Option.map_eq_some_iff.mp hkey
  rw [← hkeys]
  exact List.mem_map_of_mem (List.mem_of_getElem? hfound)

theorem lifetime_hastyFailed : Lifetime hasty [⟨0⟩, ⟨3⟩] 1 hastyFailed := by
  have hrooted : Lifetime hasty [] 0 fourRooted := .root ⟨0⟩ (.start ⟨fourNodes, false, ()⟩)
  have hcalls : (fourRooted.expansions hasty 2).map Prod.fst = [⟨0⟩, ⟨3⟩] := by decide +kernel
  have hcomputed := hrooted.compute 2
  rwa [hcalls] at hcomputed

/-- The second computation starts with a rescan that lets the dependency fire, expands node 1 and
ends with another rescan.  Node 3 is not expanded again. -/
theorem bounded_and_returns_hasty :
    (fourRooted.saturate hasty 2).1 = .failed "hasty" ∧
      (hastyFailed.saturate hasty 3).1 = .completed ∧
      hastyFailed.rescans hasty 3 = [1, 0] ∧
      Bounded [⟨0⟩, ⟨3⟩, ⟨1⟩] 2 (hastyFailed.saturate hasty 3).2 ∧
      hastyFailed.Returns hasty := by
  have hcalls : (hastyFailed.expansions hasty 3).map Prod.fst = [⟨1⟩] := by decide +kernel
  have hsecond := lifetime_hastyFailed.compute 3
  rw [hcalls] at hsecond
  refine ⟨by decide +kernel, by decide +kernel, by decide +kernel,
    (hsecond.bounded_and_returns forward_hasty).1, ?_⟩
  exact (lifetime_hastyFailed.bounded_and_returns forward_hasty).2
    (keeps_hasty.finite_keys (fun _ hsite => hsite) withinFour_hastyFailed)

end Hasty

end PortableImage.Graph
