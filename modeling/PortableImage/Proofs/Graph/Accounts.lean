import PortableImage.Graph.FixedPoint
import PortableImage.Proofs.Graph.Spread
/-!
# Accounts of an analysis

An analysis is accounted for by the list of its *visits*, the expansions it has taken over.  The
accounts say which nodes are expanded and which wait (`Tally`), that every dependency of a visit has
either come into force or is pending (`Balance`), that what is needed is marked and nothing else is
(`Grounds`), which dependencies are recorded (`Records`), and that every visit is an answer of the
expander (`Sources`).  Spreads and absorptions keep all of it.
-/

namespace PortableImage.Graph

/-- An expansion that has been taken over: the node, what the expander found, the expansion it
answered with and what it left behind. -/
structure Visit (κ σ : Type) where
  node : Handle
  before : Site κ σ
  expansion : Expansion
  after : Site κ σ

variable {κ σ ε : Type}

namespace Visit

def edges (visit : Visit κ σ) : List Edge := visit.expansion.edges visit.node

def deferred (visit : Visit κ σ) : List Deferred := visit.expansion.deferred visit.node

theorem mem_deferred {visit : Visit κ σ} {deferred : Deferred} :
    deferred ∈ visit.deferred ↔
      deferred.source = visit.node ∧ deferred.dependency ∈ visit.expansion.guarded := by
  constructor
  · intro h
    obtain ⟨dependency, hmem, rfl⟩ := List.mem_map.mp h
    exact ⟨rfl, hmem⟩
  · rintro ⟨hsource, hmem⟩
    exact List.mem_map.mpr ⟨deferred.dependency, hmem, by rw [← hsource]⟩

end Visit

theorem Progress.isMarked_of_le {a b : Progress} (h : a ≤ b) (ha : a.isMarked) : b.isMarked := by
  rw [isMarked_iff] at ha ⊢
  exact le_trans ha h

/-- Whether the guard of a dependency has come far enough once the nodes of a set are expanded. -/
def Deferred.Opens (S : Set Handle) (deferred : Deferred) : Prop :=
  deferred.dependency.threshold = .unmarked ∨
    deferred.guard ∈ S ∧ deferred.dependency.threshold ≤ .expanded

namespace Analysis

/-- A set of nodes that is closed under what roots and visits need. -/
structure Covers (S : Set Handle) (roots : List Handle) (visits : List (Visit κ σ)) : Prop where
  rooted : ∀ root ∈ roots, root ∈ S
  always : ∀ visit ∈ visits, visit.node ∈ S →
    ∀ dependency ∈ visit.expansion.always, dependency.target ∈ S
  guarded : ∀ visit ∈ visits, visit.node ∈ S →
    ∀ deferred ∈ visit.deferred, deferred.Opens S → deferred.target ∈ S

theorem Covers.mono {S : Set Handle} {roots more : List Handle} {visits later : List (Visit κ σ)}
    (h : Covers S more later) (hroots : roots ⊆ more) (hvisits : visits ⊆ later) :
    Covers S roots visits where
  rooted root hroot := h.rooted root (hroots hroot)
  always visit hvisit := h.always visit (hvisits hvisit)
  guarded visit hvisit := h.guarded visit (hvisits hvisit)

structure Tally (visits : List (Visit κ σ)) (batch : List Handle) (analysis : Analysis κ σ) :
    Prop where
  progress_le : ∀ node, analysis.arena.progress node ≤ .expanded
  expanded : ∀ node, analysis.arena.progress node = .expanded ↔ node ∈ visits.map Visit.node
  waiting : ∀ node, analysis.arena.progress node = .marked ↔ node ∈ batch ++ analysis.worklist
  visited_once : (visits.map Visit.node).Nodup
  waiting_once : (batch ++ analysis.worklist).Nodup
  markedCount : analysis.markedCount = visits.length + (batch ++ analysis.worklist).length
  expandedCount : analysis.expandedCount = visits.length

/-- Where the guarded dependencies that were found are, in force or pending, and which edges are in
force. -/
structure Balance (found : List Deferred) (recorded : List Edge) (fired : List Deferred)
    (analysis : Analysis κ σ) : Prop where
  pending : found.Perm (fired ++ analysis.pending)
  edges : analysis.edges.Perm (recorded ++ fired.map Deferred.edge)
  satisfied : ∀ deferred ∈ fired, analysis.satisfied deferred.dependency
  led : ∀ deferred ∈ fired, (analysis.arena.progress deferred.target).isMarked

structure Grounds (roots : List Handle) (visits : List (Visit κ σ)) (analysis : Analysis κ σ) :
    Prop where
  rooted : ∀ root ∈ roots, (analysis.arena.progress root).isMarked
  always : ∀ visit ∈ visits, ∀ dependency ∈ visit.expansion.always,
    (analysis.arena.progress dependency.target).isMarked
  least : ∀ S, Covers S roots visits →
    ∀ node, (analysis.arena.progress node).isMarked → node ∈ S

/-- Which dependencies are recorded: those of the visits, where none were recorded at first. -/
structure Records (first : Arena κ) (visits : List (Visit κ σ)) (analysis : Analysis κ σ) :
    Prop where
  visited : ∀ visit ∈ visits, analysis.arena.recorded? visit.node =
    some ((first.recorded? visit.node).getD visit.edges)
  unvisited : ∀ node, node ∉ visits.map Visit.node →
    analysis.arena.recorded? node = first.recorded? node

/-- Every visit is an answer of the expander about a known node, and the arena keeps what it left
behind. -/
structure Sources (expander : Expander κ σ ε) (visits : List (Visit κ σ)) (arena : Arena κ) :
    Prop where
  known : ∀ visit ∈ visits, (visit.before.arena.key? visit.node).isSome
  answered : ∀ visit ∈ visits,
    expander visit.node visit.before = (.ok visit.expansion, visit.after)
  names : ∀ visit ∈ visits, visit.expansion.Names visit.after.arena
  kept : ∀ visit ∈ visits, visit.after.arena.Keeps arena

/-- The accounts of an analysis, with a batch that is still to be expanded. -/
structure Accounts (expander : Expander κ σ ε) (first : Arena κ) (roots : List Handle)
    (visits : List (Visit κ σ)) (batch : List Handle) (analysis : Analysis κ σ) : Prop where
  tally : Tally visits batch analysis
  balance : ∃ fired,
    Balance (visits.flatMap Visit.deferred) (visits.flatMap Visit.edges) fired analysis
  grounds : Grounds roots visits analysis
  records : Records first visits analysis
  sources : Sources expander visits analysis.arena

section Spreading

variable {due : List Handle} {found added fired fired' : List Deferred} {entered : List Handle}
  {recorded : List Edge} {batch : List Handle} {visits : List (Visit κ σ)}
  {before after : Analysis κ σ}

theorem Spread.isMarked (h : Spread due added before after entered fired) {node : Handle}
    (hmarked : (before.arena.progress node).isMarked) : (after.arena.progress node).isMarked :=
  Progress.isMarked_of_le (h.progress_le node) hmarked

theorem Spread.isMarked_of_due (h : Spread due added before after entered fired) {node : Handle}
    (hdue : node ∈ due) (hknown : (before.arena.key? node).isSome) :
    (after.arena.progress node).isMarked := by
  apply Arena.isMarked_of_not_isFresh _ (h.reached node hdue)
  rwa [h.key?]

theorem Spread.mem_entered (h : Spread due added before after entered fired) {node : Handle}
    (hbefore : before.arena.progress node = .unmarked)
    (hafter : (after.arena.progress node).isMarked) : node ∈ entered := by
  rw [h.progress] at hafter
  split at hafter
  · assumption
  · rw [hbefore] at hafter
    cases hafter

/-- Marking stays within a set that has what is due and is closed under what it opens. -/
theorem Spread.within (h : Spread due added before after entered fired) {S : Set Handle}
    (hle : ∀ node, before.arena.progress node ≤ .expanded)
    (hbefore : ∀ node, (before.arena.progress node).isMarked → node ∈ S)
    (hdue : ∀ node ∈ due, node ∈ S)
    (hopens : ∀ deferred ∈ before.pending ++ added, deferred.Opens S → deferred.target ∈ S) :
    ∀ node, (after.arena.progress node).isMarked → node ∈ S := by
  have hentered : ∀ node ∈ entered, node ∈ S := by
    apply h.least S hdue
    intro deferred hmem hfires
    apply hopens deferred hmem
    rcases hfires with hthreshold | ⟨hguard, hthreshold⟩
    · -- A guard that is not marked satisfies the lowest threshold only.
      by_cases hguard : (before.arena.progress deferred.guard).isMarked
      · exact .inr ⟨hbefore _ hguard, Progress.le_trans hthreshold (hle _)⟩
      · left
        cases hprogress : before.arena.progress deferred.guard with
        | unmarked =>
          rw [hprogress] at hthreshold
          exact Progress.level_injective (Nat.le_zero.mp hthreshold)
        | _ =>
          rw [hprogress] at hguard
          exact absurd rfl hguard
    · exact .inr ⟨hguard, Progress.le_trans hthreshold (by decide)⟩
  intro node hmarked
  by_cases hprogress : before.arena.progress node = .unmarked
  · exact hentered node (h.mem_entered hprogress hmarked)
  · apply hbefore
    cases hbefore : before.arena.progress node with
    | unmarked => exact absurd hbefore hprogress
    | _ => rfl

theorem Tally.spread (h : Tally visits batch before)
    (hspread : Spread due added before after entered fired) : Tally visits batch after := by
  have hunmarked : ∀ node ∈ entered, before.arena.progress node = .unmarked :=
    fun node hnode => (Arena.isFresh_iff.mp (hspread.fresh node hnode)).2
  constructor
  · intro node
    rw [hspread.progress]
    split
    · decide
    · exact h.progress_le node
  · intro node
    rw [← h.expanded, hspread.progress]
    split
    · rename_i hnode
      rw [hunmarked node hnode]
      simp
    · rfl
  · intro node
    rw [hspread.worklist, ← List.append_assoc, List.mem_append, ← h.waiting, hspread.progress]
    split
    · rename_i hnode
      simp [hnode]
    · rename_i hnode
      simp [hnode]
  · exact h.visited_once
  · rw [hspread.worklist, ← List.append_assoc]
    refine List.nodup_append.mpr ⟨h.waiting_once, hspread.nodup, ?_⟩
    rintro node hwaiting _ hnode rfl
    rw [← h.waiting, hunmarked node hnode] at hwaiting
    cases hwaiting
  · rw [hspread.markedCount, h.markedCount, hspread.worklist]
    simp only [List.length_append]
    omega
  · rw [hspread.expandedCount, h.expandedCount]

theorem Balance.spread (h : Balance found recorded fired before)
    (hspread : Spread due added before after entered fired')
    (hknown : ∀ deferred ∈ found ++ added, (before.arena.key? deferred.target).isSome) :
    Balance (found ++ added) recorded (fired ++ fired') after where
  pending := perm_of_perm_of_perm h.pending hspread.pending
  edges := by
    rw [hspread.edges, List.map_append, ← List.append_assoc]
    exact h.edges.append_right _
  satisfied deferred hmem := by
    rcases List.mem_append.mp hmem with hmem | hmem
    · exact hspread.satisfied_of_satisfied (h.satisfied deferred hmem)
    · exact hspread.satisfied deferred hmem
  led deferred hmem := by
    rcases List.mem_append.mp hmem with hmem | hmem
    · exact hspread.isMarked (h.led deferred hmem)
    · apply Arena.isMarked_of_not_isFresh _ (hspread.led deferred hmem)
      rw [hspread.key?]
      apply hknown
      have hfound := hspread.pending.mem_iff.mpr (List.mem_append_left _ hmem)
      rcases List.mem_append.mp hfound with hpending | hadded
      · exact List.mem_append_left _ (h.pending.mem_iff.mpr (List.mem_append_right _ hpending))
      · exact List.mem_append_right _ hadded

theorem Records.spread {first : Arena κ} (h : Records first visits before)
    (hspread : Spread due added before after entered fired) : Records first visits after where
  visited visit hvisit := (hspread.recorded? _).trans (h.visited visit hvisit)
  unvisited node hnode := (hspread.recorded? _).trans (h.unvisited node hnode)

theorem Spread.keeps (h : Spread due added before after entered fired) :
    before.arena.Keeps after.arena :=
  Arena.Keeps.of_key?_eq h.key?

end Spreading

section Concluding

variable {found fired : List Deferred} {recorded : List Edge} {batch : List Handle}
  {visits : List (Visit κ σ)} {visit : Visit κ σ} {analysis : Analysis κ σ}

theorem key?_conclude (analysis : Analysis κ σ) (node other : Handle) (edges : List Edge) :
    (analysis.conclude node edges).arena.key? other = analysis.arena.key? other := by
  rw [conclude, Arena.key?_raise, Arena.key?_recordDependencies]

theorem progress_conclude {node : Handle} (hknown : (analysis.arena.key? node).isSome)
    (other : Handle) (edges : List Edge) :
    (analysis.conclude node edges).arena.progress other =
      if other = node then (analysis.arena.progress node).max .expanded
      else analysis.arena.progress other := by
  rw [conclude, Arena.progress_raise_of_known, Arena.progress_recordDependencies,
    Arena.progress_recordDependencies]
  rwa [Arena.key?_recordDependencies]

theorem recorded?_conclude {node : Handle} (hknown : (analysis.arena.key? node).isSome)
    (other : Handle) (edges : List Edge) :
    (analysis.conclude node edges).arena.recorded? other =
      if other = node then some ((analysis.arena.recorded? node).getD edges)
      else analysis.arena.recorded? other := by
  rw [conclude, Arena.recorded?_raise, Arena.recorded?_recordDependencies hknown]

theorem progress_le_conclude {node : Handle} (hknown : (analysis.arena.key? node).isSome)
    (other : Handle) (edges : List Edge) :
    analysis.arena.progress other ≤ (analysis.conclude node edges).arena.progress other := by
  rw [progress_conclude hknown]
  split
  · rename_i h
    rw [h, Progress.le_iff, Progress.level_max]
    exact Nat.le_max_left ..
  · exact Nat.le_refl _

theorem Tally.known (h : Tally visits (visit.node :: batch) analysis) :
    (analysis.arena.key? visit.node).isSome := by
  apply Arena.isSome_key?_of_progress
  rw [(h.waiting visit.node).mpr (by simp)]
  decide

theorem Tally.conclude (h : Tally visits (visit.node :: batch) analysis) (edges : List Edge) :
    Tally (visits ++ [visit]) batch (analysis.conclude visit.node edges) := by
  have hmarked : analysis.arena.progress visit.node = .marked :=
    (h.waiting visit.node).mpr (by simp)
  have hprogress (other : Handle) :
      (analysis.conclude visit.node edges).arena.progress other =
        if other = visit.node then .expanded else analysis.arena.progress other := by
    rw [progress_conclude h.known, hmarked]
    rfl
  obtain ⟨honce, hrest⟩ := List.nodup_cons.mp h.waiting_once
  have hvisited : visit.node ∉ visits.map Visit.node := by
    rw [← h.expanded, hmarked]
    decide
  constructor
  · intro node
    rw [hprogress]
    split
    · exact Nat.le_refl _
    · exact h.progress_le node
  · intro node
    rw [hprogress, List.map_append, List.mem_append, ← h.expanded]
    split
    · rename_i hnode
      simp [hnode]
    · rename_i hnode
      simp [hnode]
  · intro node
    rw [hprogress]
    split
    · rename_i hnode
      rw [hnode]
      exact iff_of_false (by decide) honce
    · rename_i hnode
      rw [h.waiting, List.cons_append, List.mem_cons, or_iff_right hnode]
      rfl
  · rw [List.map_append]
    refine List.nodup_append.mpr ⟨h.visited_once, List.nodup_singleton _, ?_⟩
    rintro node hnode _ hnode' rfl
    rw [List.mem_singleton.mp hnode'] at hnode
    exact hvisited hnode
  · exact hrest
  · have hcount := h.markedCount
    simp only [List.cons_append, List.length_append, List.length_cons, List.length_nil,
      Analysis.conclude] at hcount ⊢
    omega
  · rw [Analysis.conclude, List.length_append]
    exact congrArg (· + 1) h.expandedCount

/-- The node of an expansion that is taken over has been visited and waits no more. -/
theorem Tally.absorb (visit : Visit κ σ) (h : Tally visits (visit.node :: batch) analysis) :
    Tally (visits ++ [visit]) batch (analysis.absorb visit.node visit.expansion) := by
  obtain ⟨considered, ⟨_, _, hfirst⟩, _, _, hsecond⟩ :=
    spread_absorb analysis visit.node visit.expansion
  exact ((h.spread hfirst).conclude _).spread hsecond

theorem Tally.initial {site : Site κ σ} (h : ∀ node, site.arena.progress node = .unmarked) :
    Tally [] [] ({ toSite := site } : Analysis κ σ) where
  progress_le node := by rw [h]; decide
  expanded node := by rw [h]; simp
  waiting node := by rw [h]; simp
  visited_once := List.nodup_nil
  waiting_once := List.nodup_nil
  markedCount := rfl
  expandedCount := rfl

/-- The tally says nothing about the site but how far the work on its nodes has come. -/
theorem Tally.move (h : Tally visits batch analysis) (site : Site κ σ)
    (hprogress : ∀ node, site.arena.progress node = analysis.arena.progress node) :
    Tally visits batch { analysis with toSite := site } where
  progress_le node := by rw [hprogress]; exact h.progress_le node
  expanded node := by rw [hprogress]; exact h.expanded node
  waiting node := by rw [hprogress]; exact h.waiting node
  visited_once := h.visited_once
  waiting_once := h.waiting_once
  markedCount := h.markedCount
  expandedCount := h.expandedCount

/-- The worklist may be put before the batch, in any order. -/
theorem Tally.take (h : Tally visits batch analysis) {taken : List Handle}
    (htaken : taken.Perm analysis.worklist) (count : Nat) :
    Tally visits (taken ++ batch) { analysis with worklist := [], batchCount := count } := by
  have hperm : (taken ++ batch ++ []).Perm (batch ++ analysis.worklist) := by
    rw [List.append_nil]
    exact List.perm_append_comm.trans (htaken.append_left batch)
  exact {
    progress_le := h.progress_le
    expanded := h.expanded
    waiting := fun node => (h.waiting node).trans hperm.mem_iff.symm
    visited_once := h.visited_once
    waiting_once := hperm.nodup_iff.mpr h.waiting_once
    markedCount := h.markedCount.trans (congrArg (visits.length + ·) hperm.length_eq.symm)
    expandedCount := h.expandedCount }

theorem Balance.conclude {node : Handle} (h : Balance found recorded fired analysis)
    (hknown : (analysis.arena.key? node).isSome) (edges : List Edge) :
    Balance found (recorded ++ edges) fired (analysis.conclude node edges) where
  pending := h.pending
  edges := by
    calc analysis.edges ++ edges
        |>.Perm ((recorded ++ fired.map Deferred.edge) ++ edges) := h.edges.append_right _
      _ = recorded ++ (fired.map Deferred.edge ++ edges) := List.append_assoc ..
      _ |>.Perm (recorded ++ (edges ++ fired.map Deferred.edge)) :=
        List.perm_append_comm.append_left _
      _ = (recorded ++ edges) ++ fired.map Deferred.edge := (List.append_assoc ..).symm
  satisfied deferred hmem := by
    have hsatisfied := h.satisfied deferred hmem
    simp only [Analysis.satisfied, decide_eq_true_eq] at hsatisfied ⊢
    exact Progress.le_trans hsatisfied (progress_le_conclude hknown _ _)
  led deferred hmem :=
    Progress.isMarked_of_le (progress_le_conclude hknown _ _) (h.led deferred hmem)

theorem Records.conclude {first : Arena κ} (h : Records first visits analysis)
    (hknown : (analysis.arena.key? visit.node).isSome)
    (hvisited : visit.node ∉ visits.map Visit.node) :
    Records first (visits ++ [visit]) (analysis.conclude visit.node visit.edges) where
  visited other hother := by
    rw [recorded?_conclude hknown]
    rcases List.mem_append.mp hother with hother | hother
    · rw [if_neg, h.visited other hother]
      rintro hnode
      exact hvisited (hnode ▸ List.mem_map_of_mem hother)
    · rw [List.mem_singleton.mp hother, if_pos rfl, h.unvisited _ hvisited]
  unvisited node hnode := by
    rw [List.map_append, List.mem_append, not_or] at hnode
    rw [recorded?_conclude hknown, if_neg fun hnode' => hnode.2 (by simp [hnode']),
      h.unvisited node hnode.1]

theorem keeps_conclude (analysis : Analysis κ σ) (node : Handle) (edges : List Edge) :
    analysis.arena.Keeps (analysis.conclude node edges).arena :=
  Arena.Keeps.of_key?_eq fun other => key?_conclude analysis node other edges

end Concluding

section Answering

variable {expander : Expander κ σ ε} {visits later : List (Visit κ σ)} {old new arena : Arena κ}

theorem Sources.mono (h : Sources expander visits old) (hkeeps : old.Keeps new) :
    Sources expander visits new where
  known := h.known
  answered := h.answered
  names := h.names
  kept other hother := (h.kept other hother).trans hkeeps

theorem Sources.append (h : Sources expander visits arena) (hlater : Sources expander later arena) :
    Sources expander (visits ++ later) arena := by
  constructor <;> intro visit hvisit <;> rcases List.mem_append.mp hvisit with hvisit | hvisit
  · exact h.known visit hvisit
  · exact hlater.known visit hvisit
  · exact h.answered visit hvisit
  · exact hlater.answered visit hvisit
  · exact h.names visit hvisit
  · exact hlater.names visit hvisit
  · exact h.kept visit hvisit
  · exact hlater.kept visit hvisit

theorem Sources.isSome_key?_always (h : Sources expander visits arena) {visit : Visit κ σ}
    (hvisit : visit ∈ visits) {dependency : Dependency}
    (hmem : dependency ∈ visit.expansion.always) : (arena.key? dependency.target).isSome :=
  (h.kept visit hvisit).isSome ((h.names visit hvisit).always dependency hmem)

theorem Sources.isSome_key?_target (h : Sources expander visits arena) {deferred : Deferred}
    (hmem : deferred ∈ visits.flatMap Visit.deferred) :
    (arena.key? deferred.target).isSome := by
  obtain ⟨visit, hvisit, hdeferred⟩ := List.mem_flatMap.mp hmem
  apply (h.kept visit hvisit).isSome
  exact (h.names visit hvisit).guarded _ (Visit.mem_deferred.mp hdeferred).2

end Answering

section Absorbing

variable {expander : Expander κ σ ε} {first : Arena κ} {roots batch due : List Handle}
  {visits : List (Visit κ σ)} {visit : Visit κ σ} {analysis before after : Analysis κ σ}
  {fired : List Deferred} {entered : List Handle}

theorem Tally.isMarked_of_visit (h : Tally visits batch analysis) (hvisit : visit ∈ visits) :
    (analysis.arena.progress visit.node).isMarked := by
  rw [(h.expanded visit.node).mpr (List.mem_map_of_mem hvisit)]
  rfl

/-- Within a closed set, what the dependencies of the visits open stays within it. -/
theorem Covers.target_mem {S : Set Handle} (h : Covers S roots visits)
    (hvisits : ∀ visit ∈ visits, visit.node ∈ S) {deferred : Deferred}
    (hmem : deferred ∈ visits.flatMap Visit.deferred) (hopens : deferred.Opens S) :
    deferred.target ∈ S := by
  obtain ⟨visit, hvisit, hdeferred⟩ := List.mem_flatMap.mp hmem
  exact h.guarded visit hvisit (hvisits visit hvisit) deferred hdeferred hopens

theorem Grounds.spread (h : Grounds roots visits before) (htally : Tally visits batch before)
    (hpending : ∀ deferred ∈ before.pending, deferred ∈ visits.flatMap Visit.deferred)
    (hspread : Spread due [] before after entered fired)
    (hknown : ∀ node ∈ due, (before.arena.key? node).isSome) :
    Grounds (roots ++ due) visits after where
  rooted root hroot := by
    rcases List.mem_append.mp hroot with hroot | hroot
    · exact hspread.isMarked (h.rooted root hroot)
    · exact hspread.isMarked_of_due hroot (hknown root hroot)
  always visit hvisit dependency hmem := hspread.isMarked (h.always visit hvisit dependency hmem)
  least S hcovers := by
    have hbefore := h.least S
      (hcovers.mono (List.subset_append_left ..) (List.Subset.refl visits))
    apply hspread.within htally.progress_le hbefore
    · exact fun node hnode => hcovers.rooted node (List.mem_append_right _ hnode)
    · intro deferred hmem
      rw [List.append_nil] at hmem
      apply hcovers.target_mem fun visit hvisit => hbefore _ (htally.isMarked_of_visit hvisit)
      exact hpending deferred hmem

theorem Grounds.consider (h : Grounds roots visits before)
    (htally : Tally visits (visit.node :: batch) before)
    (hpending : ∀ deferred ∈ before.pending, deferred ∈ visits.flatMap Visit.deferred)
    (hspread : Spread (visit.expansion.always.map Dependency.target) visit.deferred before after
      entered fired)
    (hknown : ∀ dependency ∈ visit.expansion.always,
      (before.arena.key? dependency.target).isSome) :
    Grounds roots (visits ++ [visit]) after where
  rooted root hroot := hspread.isMarked (h.rooted root hroot)
  always other hother dependency hmem := by
    rcases List.mem_append.mp hother with hother | hother
    · exact hspread.isMarked (h.always other hother dependency hmem)
    · rw [List.mem_singleton.mp hother] at hmem
      exact hspread.isMarked_of_due (List.mem_map_of_mem hmem) (hknown dependency hmem)
  least S hcovers := by
    have hbefore := h.least S
      (hcovers.mono (List.Subset.refl roots) (List.subset_append_left ..))
    have hnode : visit.node ∈ S := hbefore _ (by
      rw [(htally.waiting visit.node).mpr (by simp)]
      rfl)
    have hvisits : ∀ other ∈ visits ++ [visit], other.node ∈ S := by
      intro other hother
      rcases List.mem_append.mp hother with hother | hother
      · exact hbefore _ (htally.isMarked_of_visit hother)
      · rwa [List.mem_singleton.mp hother]
    apply hspread.within htally.progress_le hbefore
    · intro node hmem
      obtain ⟨dependency, hdependency, rfl⟩ := List.mem_map.mp hmem
      exact hcovers.always visit (by simp) hnode dependency hdependency
    · intro deferred hmem
      apply hcovers.target_mem hvisits
      rw [List.flatMap_append, List.flatMap_singleton, List.mem_append]
      exact (List.mem_append.mp hmem).imp_left (hpending deferred)

/-- That a marked node counts as expanded adds nothing to what is marked. -/
theorem Grounds.conclude (h : Grounds roots visits analysis)
    (hnode : (analysis.arena.progress visit.node).isMarked) (edges : List Edge) :
    Grounds roots visits (analysis.conclude visit.node edges) := by
  have hknown := Arena.isSome_key?_of_isMarked hnode
  have hmono {node : Handle} (hmarked : (analysis.arena.progress node).isMarked) :
      ((analysis.conclude visit.node edges).arena.progress node).isMarked :=
    Progress.isMarked_of_le (progress_le_conclude hknown _ _) hmarked
  constructor
  · exact fun root hroot => hmono (h.rooted root hroot)
  · exact fun other hother dependency hmem => hmono (h.always other hother dependency hmem)
  · intro S hcovers node hmarked
    apply h.least S hcovers
    rw [progress_conclude hknown] at hmarked
    split at hmarked
    · rename_i heq
      rwa [heq]
    · exact hmarked

/-- Before anything is marked there is nothing to account for. -/
theorem Accounts.initial (expander : Expander κ σ ε) {site : Site κ σ}
    (h : ∀ node, site.arena.progress node = .unmarked) :
    Accounts expander site.arena [] [] [] { toSite := site } where
  tally := .initial h
  balance := ⟨[], List.Perm.nil, List.Perm.nil, by simp, by simp⟩
  grounds := {
    rooted := by simp
    always := by simp
    least := fun _ _ node hmarked => by rw [h] at hmarked; cases hmarked }
  records := ⟨by simp, fun _ _ => rfl⟩
  sources := ⟨by simp, by simp, by simp, by simp⟩

theorem Accounts.mem_of_pending (h : Accounts expander first roots visits batch analysis) :
    ∀ deferred ∈ analysis.pending, deferred ∈ visits.flatMap Visit.deferred := by
  intro deferred hmem
  obtain ⟨fired, hbalance⟩ := h.balance
  exact hbalance.pending.mem_iff.mpr (List.mem_append_right _ hmem)

theorem Accounts.spread (h : Accounts expander first roots visits batch before)
    (hspread : Spread due [] before after entered fired)
    (hknown : ∀ node ∈ due, (before.arena.key? node).isSome) :
    Accounts expander first (roots ++ due) visits batch after where
  tally := h.tally.spread hspread
  balance := by
    obtain ⟨fired₀, hbalance⟩ := h.balance
    have hafter := hbalance.spread hspread (by
      intro deferred hmem
      rw [List.append_nil] at hmem
      exact h.sources.isSome_key?_target hmem)
    rw [List.append_nil] at hafter
    exact ⟨_, hafter⟩
  grounds := h.grounds.spread h.tally h.mem_of_pending hspread hknown
  records := h.records.spread hspread
  sources := h.sources.mono hspread.keeps

/-- An expansion that is taken over becomes a visit. -/
theorem Accounts.absorb
    (h : Accounts expander first roots visits (visit.node :: batch) analysis)
    (hvisit : Sources expander [visit] analysis.arena) :
    Accounts expander first roots (visits ++ [visit]) batch
      (analysis.absorb visit.node visit.expansion) := by
  obtain ⟨considered, ⟨_, fired, hfirst⟩, _, fired', hsecond⟩ :=
    spread_absorb analysis visit.node visit.expansion
  have hsources := h.sources.append hvisit
  have htally := h.tally.spread hfirst
  have hnode : (considered.arena.key? visit.node).isSome := htally.known
  have hvisited : visit.node ∉ visits.map Visit.node := by
    rw [← htally.expanded, (htally.waiting visit.node).mpr (by simp)]
    decide
  have hmarked : (considered.arena.progress visit.node).isMarked := by
    rw [(htally.waiting visit.node).mpr (by simp)]
    rfl
  have hgrounds := h.grounds.consider h.tally h.mem_of_pending hfirst
    fun _ hmem => hsources.isSome_key?_always (by simp) hmem
  obtain ⟨fired₀, hbalance₀⟩ := h.balance
  have hbalance := hbalance₀.spread hfirst (by
    intro deferred hmem
    apply hsources.isSome_key?_target
    rwa [List.flatMap_append, List.flatMap_singleton])
  -- What is left is the spread that follows once the node counts as expanded.
  have hconcluded : Accounts expander first roots (visits ++ [visit]) batch
      (considered.conclude visit.node (visit.expansion.edges visit.node)) := {
    tally := htally.conclude _
    balance := by
      rw [List.flatMap_append, List.flatMap_singleton, List.flatMap_append,
        List.flatMap_singleton]
      exact ⟨_, hbalance.conclude hnode _⟩
    grounds := hgrounds.conclude hmarked _
    records := (h.records.spread hfirst).conclude hnode hvisited
    sources := hsources.mono (hfirst.keeps.trans (keeps_conclude _ _ _)) }
  have hafter := hconcluded.spread hsecond (by simp)
  rwa [List.append_nil] at hafter

end Absorbing

end Analysis

end PortableImage.Graph
