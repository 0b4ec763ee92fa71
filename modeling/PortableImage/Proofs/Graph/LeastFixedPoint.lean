import PortableImage.Proofs.Graph.Plan
import Mathlib.Order.Bounds.Defs
/-!
# The least fixed point

Whatever a host does with an analysis whose expander follows a plan, adding roots and computing in
any order, each computation ends with the least set of keys that has the roots and is closed under
the plan, and with exactly the edges the plan gives to that set.
-/

namespace PortableImage.Graph

structure KeyedEdge (κ : Type) where
  source : κ
  target : κ
  reason : String
  deriving DecidableEq

variable {κ σ ε : Type}

def Arena.keyed? (arena : Arena κ) (edge : Edge) : Option (KeyedEdge κ) :=
  (arena.key? edge.source).bind fun source =>
    (arena.key? edge.target).map fun target => ⟨source, target, edge.reason⟩

/-- Whether the guard of a need has come far enough once the nodes of a set are expanded. -/
def GuardedNeed.Opens (S : Set κ) (need : GuardedNeed κ) : Prop :=
  need.threshold = .unmarked ∨ need.guard ∈ S ∧ need.threshold ≤ .expanded

instance [DecidableEq κ] (keys : List κ) (need : GuardedNeed κ) :
    Decidable (need.Opens {key | key ∈ keys}) :=
  inferInstanceAs (Decidable (_ ∨ need.guard ∈ keys ∧ _))

namespace Plan

/-- A set that has all roots and whatever its members need. -/
structure Closed (plan : Plan κ) (roots : List κ) (S : Set κ) : Prop where
  roots_mem : ∀ key ∈ roots, key ∈ S
  always : ∀ key ∈ S, ∀ need ∈ plan.always key, need.target ∈ S
  guarded : ∀ key ∈ S, ∀ need ∈ plan.guarded key, need.Opens S → need.target ∈ S

def edges (plan : Plan κ) (key : κ) : List (KeyedEdge κ) :=
  (plan.always key).map fun need => ⟨key, need.target, need.reason⟩

def openEdges [DecidableEq κ] (plan : Plan κ) (keys : List κ) (key : κ) : List (KeyedEdge κ) :=
  ((plan.guarded key).filter fun need => need.Opens {key | key ∈ keys}).map fun need =>
    ⟨key, need.target, need.reason⟩

/-- What a computation has to come to, from an arena where nothing was marked and with the roots
added so far. -/
structure Solved [DecidableEq κ] (plan : Plan κ) (first : Arena κ) (roots : List κ)
    (after : Analysis κ σ) : Prop where
  least : IsLeast {S | plan.Closed roots S} {key | key ∈ after.arena.markedKeys}
  once : after.arena.markedKeys.Nodup
  expanded : ∀ node key, after.arena.key? node = some key → key ∈ after.arena.markedKeys →
    after.arena.progress node = .expanded
  /-- Dependencies the host had recorded before stay. -/
  recorded : ∀ node key, after.arena.key? node = some key → key ∈ after.arena.markedKeys →
    match first.recorded? node with
    | some old => after.arena.recorded? node = some old
    | none => ∃ edges, after.arena.recorded? node = some edges ∧
        edges.map after.arena.keyed? = (plan.edges key).map some
  edges : (after.edges.map after.arena.keyed?).Perm
    ((after.arena.markedKeys.flatMap plan.edges ++
      after.arena.markedKeys.flatMap (plan.openEdges after.arena.markedKeys)).map some)

end Plan

/-- What a host can come to with an expander, from an arena where nothing is marked: it creates
nodes, adds roots, and computes until the computation returns. -/
inductive History [DecidableEq κ] [LE κ] [DecidableLE κ] (expander : Expander κ σ ε)
    (first : Arena κ) : List κ → Analysis κ σ → Prop
  | start (site : Site κ σ) (harena : site.arena = first)
      (hunmarked : ∀ node, first.progress node = .unmarked) (hcancelled : site.cancelled = false) :
      History expander first [] { toSite := site }
  | create {roots analysis} (key : κ) (h : History expander first roots analysis) :
      History expander first roots { analysis with arena := (analysis.arena.intern key).2 }
  | root {roots analysis} (node : Handle) (h : History expander first roots analysis) :
      History expander first (roots ++ (analysis.arena.key? node).toList) (analysis.mark node)
  | compute {roots analysis after} (bound : Nat) (verdict : Verdict ε)
      (h : History expander first roots analysis)
      (hcompute : analysis.saturate expander bound = (verdict, after))
      (hreturns : verdict ≠ .exhausted) : History expander first roots after

theorem Arena.keyed?_eq {arena : Arena κ} {edge : Edge} {source target : κ}
    (hsource : arena.key? edge.source = some source)
    (htarget : arena.key? edge.target = some target) :
    arena.keyed? edge = some ⟨source, target, edge.reason⟩ := by
  rw [keyed?, hsource, htarget]
  rfl

section Completion

open Analysis (Accounts Covers Sources Tally)

variable {plan : Plan κ} {expander : Expander κ σ ε} {first : Arena κ} {nodes : List Handle}
  {roots : List κ} {visits : List (Visit κ σ)} {after : Analysis κ σ}

theorem Analysis.Tally.progress_of_marked (h : Tally visits [] after)
    (hworklist : after.worklist = []) {node : Handle}
    (hmarked : (after.arena.progress node).isMarked) : after.arena.progress node = .expanded :=
  (h.expanded node).mpr ((h.mem_visits hworklist).mp hmarked)

/-- Once nothing waits, a dependency is satisfied if and only if the need it shows is open. -/
theorem Analysis.Tally.satisfied_iff_opens (h : Tally visits [] after)
    (hworklist : after.worklist = []) {dependency : GuardedDependency} {need : GuardedNeed κ}
    (hshows : dependency.Shows after.arena need) :
    after.satisfied dependency ↔ need.Opens {key | key ∈ after.arena.markedKeys} := by
  have hguard : need.guard ∈ after.arena.markedKeys ↔
      (after.arena.progress dependency.guard).isMarked :=
    Arena.mem_markedKeys_iff hshows.guard
  rw [Analysis.satisfied, decide_eq_true_iff, hshows.threshold]
  show _ ↔ need.threshold = .unmarked ∨ need.guard ∈ after.arena.markedKeys ∧ _
  rw [hguard]
  by_cases hmarked : (after.arena.progress dependency.guard).isMarked
  · rw [h.progress_of_marked hworklist hmarked]
    constructor
    · exact fun hle => .inr ⟨rfl, hle⟩
    · rintro (hunmarked | ⟨_, hle⟩)
      · rw [hunmarked]
        decide
      · exact hle
  · have hunmarked : after.arena.progress dependency.guard = .unmarked := by
      cases hprogress : after.arena.progress dependency.guard with
      | unmarked => rfl
      | _ => rw [hprogress] at hmarked; exact absurd rfl hmarked
    rw [hunmarked]
    constructor
    · exact fun hle => .inl (Progress.level_injective (Nat.le_zero.mp hle))
    · rintro (hzero | ⟨hmarked, _⟩)
      · rw [hzero]
        decide
      · cases hmarked

theorem Plan.Closed.covers (hfollows : plan.Follows expander)
    (hsources : Sources expander visits after.arena)
    (hkeys : List.Forall₂ (fun node key => after.arena.key? node = some key) nodes roots)
    {S : Set κ} (hclosed : plan.Closed roots S) :
    Covers {node | ∀ key, after.arena.key? node = some key → key ∈ S} nodes visits where
  rooted root hroot key hkey := by
    obtain ⟨other, hother, hroot⟩ := exists_of_mem_left hkeys hroot
    rw [hroot] at hkey
    cases hkey
    exact hclosed.roots_mem _ hother
  always visit hvisit hnode dependency hmem key hkey := by
    obtain ⟨source, hsource, hshown⟩ := hfollows.shown hsources hvisit
    obtain ⟨need, hneed, hshows⟩ := exists_of_mem_left hshown.always hmem
    rw [hshows.target] at hkey
    cases hkey
    exact hclosed.always source (hnode source hsource) need hneed
  guarded visit hvisit hnode deferred hmem hopens key hkey := by
    obtain ⟨source, hsource, hshown⟩ := hfollows.shown hsources hvisit
    obtain ⟨need, hneed, hshows⟩ :=
      exists_of_mem_left hshown.guarded (Visit.mem_deferred.mp hmem).2
    have hopen : need.Opens S := by
      rw [GuardedNeed.Opens, ← hshows.threshold]
      exact hopens.imp_right (And.imp_left fun hguard => hguard _ hshows.guard)
    rw [Deferred.target, hshows.target] at hkey
    cases hkey
    exact hclosed.guarded source (hnode source hsource) need hneed hopen

/-- Every marked key is the key of a visit that shows what the plan says for it. -/
theorem Analysis.Accounts.exists_visit (h : Accounts expander first nodes visits [] after)
    (hfollows : plan.Follows expander) (hworklist : after.worklist = []) {key : κ}
    (hkey : key ∈ after.arena.markedKeys) :
    ∃ visit ∈ visits, after.arena.key? visit.node = some key ∧
      plan.Shown key visit.expansion after.arena := by
  obtain ⟨node, hnode, hmarked⟩ := Arena.mem_markedKeys.mp hkey
  obtain ⟨visit, hvisit, rfl⟩ := List.mem_map.mp ((h.tally.mem_visits hworklist).mp hmarked)
  obtain ⟨other, hother, hshown⟩ := hfollows.shown h.sources hvisit
  rw [hnode] at hother
  cases hother
  exact ⟨visit, hvisit, hnode, hshown⟩

/-- When nothing waits and nothing pending could fire, what is marked is closed. -/
theorem Analysis.Accounts.closed (h : Accounts expander first nodes visits [] after)
    (hfollows : plan.Follows expander)
    (hkeys : List.Forall₂ (fun node key => after.arena.key? node = some key) nodes roots)
    (hworklist : after.worklist = [])
    (hpending : ∀ deferred ∈ after.pending, after.satisfied deferred.dependency = false) :
    plan.Closed roots {key | key ∈ after.arena.markedKeys} where
  roots_mem key hkey := by
    obtain ⟨node, hnode, hroot⟩ := exists_of_mem_right hkeys hkey
    exact Arena.mem_markedKeys.mpr ⟨node, hroot, h.grounds.rooted node hnode⟩
  always key hkey need hneed := by
    obtain ⟨visit, hvisit, _, hshown⟩ := h.exists_visit hfollows hworklist hkey
    obtain ⟨dependency, hmem, hshows⟩ := exists_of_mem_right hshown.always hneed
    exact Arena.mem_markedKeys.mpr ⟨_, hshows.target, h.grounds.always visit hvisit _ hmem⟩
  guarded key hkey need hneed hopens := by
    obtain ⟨visit, hvisit, _, hshown⟩ := h.exists_visit hfollows hworklist hkey
    obtain ⟨dependency, hmem, hshows⟩ := exists_of_mem_right hshown.guarded hneed
    have hsatisfied := (h.tally.satisfied_iff_opens hworklist hshows).mpr hopens
    obtain ⟨fired, hbalance⟩ := h.balance
    have hdeferred : Deferred.mk visit.node dependency ∈ fired ++ after.pending :=
      hbalance.pending.mem_iff.mp
        (List.mem_flatMap.mpr ⟨visit, hvisit, Visit.mem_deferred.mpr ⟨rfl, hmem⟩⟩)
    refine Arena.mem_markedKeys.mpr ⟨_, hshows.target, ?_⟩
    rcases List.mem_append.mp hdeferred with hfired | hwaits
    · exact hbalance.led _ hfired
    · rw [hpending _ hwaits] at hsatisfied
      cases hsatisfied

end Completion

section Edges

open Analysis (Accounts Sources)

variable {plan : Plan κ} {expander : Expander κ σ ε} {visits : List (Visit κ σ)}
  {after : Analysis κ σ}

/-- What every visit shows for the key of its node, all visits show together. -/
theorem map_keyed?_flatMap {arena : Arena κ} {edgesOf : Visit κ σ → List Edge}
    {keyedOf : κ → List (KeyedEdge κ)}
    (h : ∀ visit ∈ visits, ∃ key, arena.key? visit.node = some key ∧
      (edgesOf visit).map arena.keyed? = (keyedOf key).map some) :
    (visits.flatMap edgesOf).map arena.keyed? =
      (((visits.map Visit.node).filterMap arena.key?).flatMap keyedOf).map some := by
  induction visits with
  | nil => rfl
  | cons visit visits ih =>
    obtain ⟨key, hkey, hedges⟩ := h visit List.mem_cons_self
    rw [List.flatMap_cons, List.map_append, hedges,
      ih fun other hother => h other (List.mem_cons_of_mem _ hother), List.map_cons,
      List.filterMap_cons_some hkey, List.flatMap_cons, List.map_append]

theorem Plan.Shown.map_keyed? {key : κ} {visit : Visit κ σ} {arena : Arena κ}
    (h : plan.Shown key visit.expansion arena) (hkey : arena.key? visit.node = some key) :
    visit.edges.map arena.keyed? = (plan.edges key).map some := by
  rw [Visit.edges, Expansion.edges, Plan.edges, List.map_map, List.map_map]
  apply map_eq_map_of_forall₂ h.always
  intro dependency need hshows
  rw [Function.comp_apply, Function.comp_apply, Arena.keyed?_eq hkey hshows.target, hshows.reason]

theorem Plan.Shown.map_keyed?_open [DecidableEq κ] {key : κ} {visit : Visit κ σ}
    (h : plan.Shown key visit.expansion after.arena)
    (hkey : after.arena.key? visit.node = some key) (htally : Analysis.Tally visits [] after)
    (hworklist : after.worklist = []) :
    ((visit.deferred.filter fun deferred => after.satisfied deferred.dependency).map
      Deferred.edge).map after.arena.keyed? =
      (plan.openEdges after.arena.markedKeys key).map some := by
  rw [Visit.deferred, Expansion.deferred, List.filter_map, Plan.openEdges, List.map_map,
    List.map_map, List.map_map]
  have hopen : List.Forall₂ (GuardedDependency.Shows after.arena)
      (visit.expansion.guarded.filter fun dependency => after.satisfied dependency)
      ((plan.guarded key).filter fun need =>
        need.Opens {key | key ∈ after.arena.markedKeys}) := by
    refine List.rel_filter ?_ h.guarded
    intro dependency need hshows
    exact (htally.satisfied_iff_opens hworklist hshows).trans decide_eq_true_iff.symm
  apply map_eq_map_of_forall₂ hopen
  intro dependency need hshows
  rw [Function.comp_apply, Function.comp_apply, Function.comp_apply,
    Arena.keyed?_eq hkey hshows.target, Deferred.edge, hshows.reason]

/-- The edges in force are those the plan gives to the marked keys. -/
theorem Analysis.Accounts.edges_perm [DecidableEq κ] {first : Arena κ} {nodes : List Handle}
    (h : Accounts expander first nodes visits [] after) (hfollows : plan.Follows expander)
    (hworklist : after.worklist = [])
    (hpending : ∀ deferred ∈ after.pending, after.satisfied deferred.dependency = false) :
    (after.edges.map after.arena.keyed?).Perm
      ((after.arena.markedKeys.flatMap plan.edges ++
        after.arena.markedKeys.flatMap (plan.openEdges after.arena.markedKeys)).map some) := by
  obtain ⟨fired, hbalance⟩ := h.balance
  have hnodes : (visits.map Visit.node).Perm after.arena.marked := by
    rw [List.perm_ext_iff_of_nodup h.tally.visited_once after.arena.nodup_marked]
    intro node
    rw [Arena.mem_marked, h.tally.mem_visits hworklist]
  have hmarked : ((visits.map Visit.node).filterMap after.arena.key?).Perm
      after.arena.markedKeys := hnodes.filterMap _
  -- What has fired is what is satisfied among all that was found.
  have hfired : fired.Perm ((visits.flatMap Visit.deferred).filter fun deferred =>
      after.satisfied deferred.dependency) := by
    have hfilter := hbalance.pending.filter fun deferred => after.satisfied deferred.dependency
    have hnone : after.pending.filter (fun deferred => after.satisfied deferred.dependency) = [] := by
      rw [List.filter_eq_nil_iff]
      intro deferred hmem
      rw [hpending deferred hmem]
      exact Bool.false_ne_true
    rw [List.filter_append, List.filter_eq_self.mpr hbalance.satisfied, hnone,
      List.append_nil] at hfilter
    exact hfilter.symm
  have halways : ((visits.flatMap Visit.edges).map after.arena.keyed?).Perm
      ((after.arena.markedKeys.flatMap plan.edges).map some) := by
    rw [map_keyed?_flatMap fun visit hvisit =>
      (hfollows.shown h.sources hvisit).imp fun key hshown =>
        ⟨hshown.1, hshown.2.map_keyed? hshown.1⟩]
    exact (hmarked.flatMap_right _).map _
  have hopen : ((fired.map Deferred.edge).map after.arena.keyed?).Perm
      ((after.arena.markedKeys.flatMap
        (plan.openEdges after.arena.markedKeys)).map some) := by
    refine ((hfired.map Deferred.edge).map after.arena.keyed?).trans ?_
    rw [List.filter_flatMap, List.map_flatMap, map_keyed?_flatMap fun visit hvisit =>
      (hfollows.shown h.sources hvisit).imp fun key hshown =>
        ⟨hshown.1, hshown.2.map_keyed?_open hshown.1 h.tally hworklist⟩]
    exact (hmarked.flatMap_right _).map _
  refine (hbalance.edges.map after.arena.keyed?).trans ?_
  rw [List.map_append, List.map_append]
  exact halways.append hopen

end Edges

section Histories

variable [DecidableEq κ] [LE κ] [DecidableLE κ] {plan : Plan κ} {expander : Expander κ σ ε}
  {first : Arena κ} {roots : List κ} {analysis after : Analysis κ σ}

/-- An analysis a host can come to is accounted for, and is not cancelled. -/
theorem History.accounts (hfollows : plan.Follows expander)
    (h : History expander first roots analysis) :
    (∃ nodes visits, List.Forall₂ (fun node key => analysis.arena.key? node = some key) nodes roots ∧
      Analysis.Accounts expander first nodes visits [] analysis) ∧
    analysis.cancelled = false := by
  induction h with
  | start site harena hunmarked hcancelled =>
    subst harena
    exact ⟨⟨[], [], .nil, Analysis.Accounts.initial expander hunmarked⟩, hcancelled⟩
  | @create roots analysis key _ ih =>
    obtain ⟨⟨nodes, visits, hkeys, haccounts⟩, hcancelled⟩ := ih
    have hgrows := Arena.Grows.intern analysis.arena key
    refine ⟨⟨nodes, visits, hkeys.imp (hgrows.keeps · ·), ?_⟩, hcancelled⟩
    exact haccounts.grow { analysis with arena := (analysis.arena.intern key).2 } hgrows
  | @root roots analysis node _ ih =>
    obtain ⟨⟨nodes, visits, hkeys, haccounts⟩, hcancelled⟩ := ih
    obtain ⟨_, _, hspread⟩ := Analysis.spread_mark analysis node
    refine ⟨?_, hspread.cancelled.trans hcancelled⟩
    cases hkey : analysis.arena.key? node with
    | none =>
      have hfresh : analysis.arena.isFresh node = false := by
        rw [← Bool.not_eq_true, Arena.isFresh_iff, hkey]
        simp
      rw [Analysis.mark_of_not_isFresh hfresh]
      exact ⟨nodes, visits, by rwa [Option.toList_none, List.append_nil], haccounts⟩
    | some key =>
      refine ⟨nodes ++ [node], visits, ?_, haccounts.spread hspread ?_⟩
      · refine List.rel_append (hkeys.imp (hspread.keeps · ·)) (.cons ?_ .nil)
        rw [hspread.key?, hkey]
      · intro other hother
        rw [List.mem_singleton.mp hother, hkey]
        rfl
  | compute bound verdict _ hcompute hreturns ih =>
    obtain ⟨⟨nodes, visits, hkeys, haccounts⟩, hcancelled⟩ := ih
    obtain ⟨rfl, hafter⟩ := haccounts.completed_of_steady hfollows.steady hfollows.quiet
      hcancelled hcompute hreturns
    obtain ⟨later, _, hlater, hkeeps, _⟩ := haccounts.saturate hfollows.quiet hcompute
    exact ⟨⟨nodes, _, hkeys.imp (hkeeps · ·), hlater⟩, hafter⟩

/-- Whatever a host has done before, a computation that returns is complete.  What is marked is then
the least set of keys that has all roots and is closed under the plan, every marked node is expanded
with its edges recorded, unless the host had recorded others before, and the edges in force are
exactly those the plan gives to the marked keys. -/
theorem History.solved_of_compute (hfollows : plan.Follows expander)
    (h : History expander first roots analysis) {bound : Nat} {verdict : Verdict ε}
    (hcompute : analysis.saturate expander bound = (verdict, after))
    (hreturns : verdict ≠ .exhausted) : verdict = .completed ∧ plan.Solved first roots after := by
  obtain ⟨⟨nodes, visits, hkeys, haccounts⟩, hcancelled⟩ := h.accounts hfollows
  obtain ⟨rfl, _⟩ := haccounts.completed_of_steady hfollows.steady hfollows.quiet hcancelled
    hcompute hreturns
  obtain ⟨later, _, hafter, hkeeps, hworklist, hpending⟩ :=
    haccounts.saturate hfollows.quiet hcompute
  have hroots : List.Forall₂ (fun node key => after.arena.key? node = some key) nodes roots :=
    hkeys.imp (hkeeps · ·)
  refine ⟨rfl, ⟨?_, ?_⟩, ?_, ?_, ?_, ?_⟩
  · exact hafter.closed hfollows hroots hworklist hpending
  · intro S hclosed key hkey
    obtain ⟨node, hnode, hmarked⟩ := Arena.mem_markedKeys.mp hkey
    exact hafter.grounds.least _ (hclosed.covers hfollows hafter.sources hroots) node hmarked key
      hnode
  · exact after.arena.nodup_markedKeys
  · intro node key hkey hmem
    exact hafter.tally.progress_of_marked hworklist ((Arena.mem_markedKeys_iff hkey).mp hmem)
  · intro node key hkey hmem
    obtain ⟨visit, hvisit, hnode, hshown⟩ := hafter.exists_visit hfollows hworklist hmem
    rw [Arena.eq_of_key? hkey hnode]
    have hrecorded := hafter.records.visited visit hvisit
    cases hfirst : first.recorded? visit.node with
    | none =>
      rw [hfirst] at hrecorded
      exact ⟨_, hrecorded, hshown.map_keyed? hnode⟩
    | some old =>
      rw [hfirst] at hrecorded
      exact hrecorded
  · exact hafter.edges_perm hfollows hworklist hpending

end Histories

section Ring

/-- Two nodes that need each other, a sentinel behind the first of them, and a node whose guard is
not needed. -/
def ringPlan : Plan Nat where
  always
    | 0 => [⟨1, "next"⟩]
    | 1 => [⟨0, "next"⟩]
    | _ => []
  guarded
    | 1 => [⟨2, 0, .expanded, "sentinel"⟩, ⟨3, 4, .marked, "idle"⟩]
    | _ => []

def ring : Analysis Nat Unit :=
  ({ arena := (Arena.intern ∅ 0).2, store := () } : Analysis Nat Unit).mark ⟨0⟩

theorem history_ring :
    History (ringPlan.expander : Expander Nat Unit Empty) ∅ [0] ring :=
  .root ⟨0⟩ (.create 0 (.start { arena := ∅, store := () } rfl (fun _ => rfl) rfl))

theorem solved_of_compute_ring :
    (ring.saturate (ringPlan.expander : Expander Nat Unit Empty) 4).1 = .completed ∧
      ringPlan.Solved ∅ [0] (ring.saturate (ringPlan.expander : Expander Nat Unit Empty) 4).2 :=
  History.solved_of_compute ringPlan.follows_expander history_ring rfl (by decide +kernel)

end Ring

section Recorded

def blankPlan : Plan Nat := ⟨fun _ => [], fun _ => []⟩

/-- Two unmarked nodes; the host has recorded that the first needs the second. -/
def hostArena : Arena Nat :=
  (((∅ : Arena Nat).internEach [0, 1]).2.recordDependencies ⟨0⟩ [⟨⟨0⟩, ⟨1⟩, "host"⟩]).2

theorem progress_hostArena (node : Handle) : hostArena.progress node = .unmarked := by
  rw [hostArena, Arena.progress_recordDependencies, (Arena.Grows.internEach _ _).progress]
  rfl

/-- The analysis of the host's nodes, with the first of them as a root. -/
def hosted : Analysis Nat Unit :=
  ({ arena := hostArena, store := () } : Analysis Nat Unit).mark ⟨0⟩

theorem history_hosted :
    History (blankPlan.expander : Expander Nat Unit Empty) hostArena [0] hosted :=
  .root ⟨0⟩ (.start { arena := hostArena, store := () } rfl progress_hostArena rfl)

/-- What the host has recorded is not replaced by what the plan says. -/
theorem not_forall_dependencies_eq_edges :
    ¬ ∀ (plan : Plan Nat) (expander : Expander Nat Unit Empty) (first : Arena Nat)
      (roots : List Nat) (analysis after : Analysis Nat Unit) (bound : Nat)
      (verdict : Verdict Empty),
      plan.Follows expander → History expander first roots analysis →
      analysis.saturate expander bound = (verdict, after) → verdict ≠ .exhausted →
      ∀ node key, after.arena.key? node = some key → key ∈ after.arena.markedKeys →
        (after.arena.dependencies node).map after.arena.keyed? = (plan.edges key).map some := by
  intro h
  have hfirst := h blankPlan blankPlan.expander hostArena [0] hosted _ 3 _
    blankPlan.follows_expander history_hosted rfl (by decide +kernel) ⟨0⟩ 0
    (by decide +kernel) (by decide +kernel)
  revert hfirst
  decide +kernel

end Recorded

end PortableImage.Graph
