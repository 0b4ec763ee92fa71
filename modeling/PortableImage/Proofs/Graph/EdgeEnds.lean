import PortableImage.Proofs.Graph.Passage
/-!
# The ends of edges

An edge comes into force together with the mark of its target, and only a node that was marked is
ever expanded.  So whatever becomes of an analysis, both ends of all its edges are marked, as long as
the expander names its targets by key.
-/

namespace PortableImage.Graph

variable {κ σ ε : Type}

/-- Every key has stayed behind its handle, and no work has moved back. -/
structure Site.Advances (old new : Site κ σ) : Prop where
  keeps : old.arena.Keeps new.arena
  forward : ∀ node, old.arena.progress node ≤ new.arena.progress node

namespace Site.Advances

variable {a b c old new : Site κ σ}

theorem refl (site : Site κ σ) : site.Advances site := ⟨fun _ _ h => h, fun _ => Nat.le_refl _⟩

theorem trans (hab : a.Advances b) (hbc : b.Advances c) : a.Advances c :=
  ⟨hab.keeps.trans hbc.keeps, fun node => Progress.le_trans (hab.forward node) (hbc.forward node)⟩

theorem isMarked (h : old.Advances new) {node : Handle}
    (hmarked : (old.arena.progress node).isMarked) : (new.arena.progress node).isMarked :=
  Progress.isMarked_of_le (h.forward node) hmarked

theorem names (h : old.Advances new) {expansion : Expansion} (hnames : expansion.Names old.arena) :
    expansion.Names new.arena :=
  ⟨fun dependency hmem => h.keeps.isSome (hnames.always dependency hmem),
    fun dependency hmem => h.keeps.isSome (hnames.guarded dependency hmem)⟩

end Site.Advances

/-- On known nodes the expander advances the site, and all its targets have keys. -/
structure Expander.Naming (expander : Expander κ σ ε) : Prop where
  advances : ∀ node (site : Site κ σ), (site.arena.key? node).isSome →
    site.Advances (expander node site).2
  names : ∀ node (site : Site κ σ), (site.arena.key? node).isSome →
    ∀ expansion, (expander node site).1 = .ok expansion →
      expansion.Names (expander node site).2.arena

namespace Expander

variable {expander : Expander κ σ ε}

theorem Quiet.naming (h : expander.Quiet) : expander.Naming where
  advances node site hknown :=
    ⟨(h.grows node site hknown).keeps, fun other => by
      rw [(h.grows node site hknown).progress]
      exact Nat.le_refl _⟩
  names := h.names

theorem Naming.forward (h : expander.Naming) : expander.Forward :=
  fun node site hknown => (h.advances node site hknown).forward

/-- After a batch the site has advanced, and what each expansion needs has a key. -/
theorem Naming.expandBatch (h : expander.Naming) {batch : List Handle} {site : Site κ σ}
    (hbatch : ∀ node ∈ batch, (site.arena.progress node).isMarked) :
    site.Advances (Graph.expandBatch expander batch site).2 ∧
      ∀ node expansion, (node, .expanded expansion) ∈ (Graph.expandBatch expander batch site).1 →
        expansion.Names (Graph.expandBatch expander batch site).2.arena := by
  induction batch generalizing site with
  | nil => exact ⟨.refl site, fun _ _ hmem => by cases hmem⟩
  | cons node batch ih =>
    have hlater {left : Site κ σ} (hleft : site.Advances left) :
        site.Advances (Graph.expandBatch expander batch left).2 ∧
          left.Advances (Graph.expandBatch expander batch left).2 ∧
          ∀ node expansion, (node, .expanded expansion) ∈
              (Graph.expandBatch expander batch left).1 →
            expansion.Names (Graph.expandBatch expander batch left).2.arena := by
      obtain ⟨hadvances, hnames⟩ := ih fun other hother =>
        hleft.isMarked (hbatch other (List.mem_cons_of_mem _ hother))
      exact ⟨hleft.trans hadvances, hadvances, hnames⟩
    have hknown := Arena.isSome_key?_of_isMarked (hbatch node List.mem_cons_self)
    have hfirst := h.advances node site hknown
    rw [Graph.expandBatch]
    split
    · obtain ⟨hadvances, -, hnames⟩ := hlater (.refl site)
      refine ⟨hadvances, fun other expansion hmem => hnames other expansion ?_⟩
      simpa using hmem
    · split
      · rename_i expansion left hanswer
        rw [hanswer] at hfirst
        obtain ⟨hadvances, hrest, hnames⟩ := hlater hfirst
        refine ⟨hadvances, fun other found hmem => ?_⟩
        rcases List.mem_cons.mp hmem with heq | hmem
        · have hfound := h.names node site hknown expansion (by rw [hanswer])
          rw [hanswer] at hfound
          obtain ⟨rfl⟩ := Attempt.expanded.inj (Prod.mk.inj heq).2
          exact hrest.names hfound
        · exact hnames other found hmem
      · rename_i fault left hanswer
        rw [hanswer] at hfirst
        obtain ⟨hadvances, -, hnames⟩ := hlater hfirst
        refine ⟨hadvances, fun other found hmem => hnames other found ?_⟩
        simpa using hmem

end Expander

namespace Analysis

/-- Both ends of every edge are marked.  A pending dependency has a marked source, and its target
can be marked. -/
structure Anchored (analysis : Analysis κ σ) : Prop where
  source : ∀ edge ∈ analysis.edges, (analysis.arena.progress edge.source).isMarked
  target : ∀ edge ∈ analysis.edges, (analysis.arena.progress edge.target).isMarked
  waits : ∀ deferred ∈ analysis.pending, (analysis.arena.progress deferred.source).isMarked
  leads : ∀ deferred ∈ analysis.pending, (analysis.arena.key? deferred.target).isSome

section Steps

variable {due entered : List Handle} {found fired : List Deferred}
  {before after analysis : Analysis κ σ}

theorem Spread.advances (h : Spread due found before after entered fired) :
    before.toSite.Advances after.toSite :=
  ⟨h.keeps, h.progress_le⟩

theorem advances_conclude {node : Handle} (hnode : (analysis.arena.key? node).isSome)
    (recorded : List Edge) : analysis.toSite.Advances (analysis.conclude node recorded).toSite :=
  ⟨keeps_conclude analysis node recorded, fun other => progress_le_conclude hnode other recorded⟩

theorem advances_absorb {node : Handle} (hnode : (analysis.arena.key? node).isSome)
    (expansion : Expansion) : analysis.toSite.Advances (analysis.absorb node expansion).toSite := by
  obtain ⟨considered, ⟨_, _, hfirst⟩, _, _, hsecond⟩ := spread_absorb analysis node expansion
  have hconclude := advances_conclude (hfirst.keeps.isSome hnode) (expansion.edges node)
  exact (hfirst.advances.trans hconclude).trans hsecond.advances

namespace Anchored

theorem advance (h : Anchored before) (hsite : before.toSite.Advances after.toSite)
    (hedges : after.edges = before.edges) (hpending : after.pending = before.pending) :
    Anchored after where
  source edge hedge := hsite.isMarked (h.source edge (hedges ▸ hedge))
  target edge hedge := hsite.isMarked (h.target edge (hedges ▸ hedge))
  waits deferred hmem := hsite.isMarked (h.waits deferred (hpending ▸ hmem))
  leads deferred hmem := hsite.keeps.isSome (h.leads deferred (hpending ▸ hmem))

/-- What fires in a spread was pending or has been found, and leads to a node that is marked. -/
theorem spread (h : Anchored before) (hspread : Spread due found before after entered fired)
    (hwaits : ∀ deferred ∈ found, (before.arena.progress deferred.source).isMarked)
    (hleads : ∀ deferred ∈ found, (before.arena.key? deferred.target).isSome) : Anchored after := by
  have hall : ∀ deferred ∈ fired ++ after.pending,
      (after.arena.progress deferred.source).isMarked ∧
        (after.arena.key? deferred.target).isSome := by
    intro deferred hmem
    rcases List.mem_append.mp (hspread.pending.mem_iff.mpr hmem) with hmem | hmem
    · exact ⟨hspread.isMarked (h.waits deferred hmem),
        hspread.keeps.isSome (h.leads deferred hmem)⟩
    · exact ⟨hspread.isMarked (hwaits deferred hmem),
        hspread.keeps.isSome (hleads deferred hmem)⟩
  have hedges : ∀ edge ∈ after.edges, edge ∈ before.edges ∨
      ∃ deferred ∈ fired, deferred.edge = edge := by
    intro edge hedge
    rw [hspread.edges, List.mem_append] at hedge
    exact hedge.imp_right List.mem_map.mp
  constructor
  · intro edge hedge
    rcases hedges edge hedge with hold | ⟨deferred, hfired, rfl⟩
    · exact hspread.isMarked (h.source edge hold)
    · exact (hall deferred (List.mem_append_left _ hfired)).1
  · intro edge hedge
    rcases hedges edge hedge with hold | ⟨deferred, hfired, rfl⟩
    · exact hspread.isMarked (h.target edge hold)
    · exact Arena.isMarked_of_not_isFresh (hall deferred (List.mem_append_left _ hfired)).2
        (hspread.led deferred hfired)
  · exact fun deferred hmem => (hall deferred (List.mem_append_right _ hmem)).1
  · exact fun deferred hmem => (hall deferred (List.mem_append_right _ hmem)).2

theorem mark (h : Anchored analysis) (node : Handle) : Anchored (analysis.mark node) := by
  obtain ⟨_, _, hspread⟩ := spread_mark analysis node
  exact h.spread hspread (by simp) (by simp)

theorem rescan (h : Anchored analysis) : Anchored analysis.rescan.2 := by
  obtain ⟨_, _, hspread⟩ := spread_rescan analysis
  exact h.spread hspread (by simp) (by simp)

/-- The edges of an expansion may come into force once their targets are marked. -/
theorem conclude (h : Anchored analysis) {node : Handle} {expansion : Expansion}
    (hnode : (analysis.arena.progress node).isMarked)
    (htargets : ∀ dependency ∈ expansion.always,
      (analysis.arena.progress dependency.target).isMarked) :
    Anchored (analysis.conclude node (expansion.edges node)) := by
  have hsite := advances_conclude (Arena.isSome_key?_of_isMarked hnode) (expansion.edges node)
  have hedges : ∀ edge ∈ analysis.edges ++ expansion.edges node,
      (analysis.arena.progress edge.source).isMarked ∧
        (analysis.arena.progress edge.target).isMarked := by
    intro edge hedge
    rcases List.mem_append.mp hedge with hedge | hedge
    · exact ⟨h.source edge hedge, h.target edge hedge⟩
    · obtain ⟨dependency, hdependency, rfl⟩ := List.mem_map.mp hedge
      exact ⟨hnode, htargets dependency hdependency⟩
  constructor
  · exact fun edge hedge => hsite.isMarked (hedges edge hedge).1
  · exact fun edge hedge => hsite.isMarked (hedges edge hedge).2
  · exact fun deferred hmem => hsite.isMarked (h.waits deferred hmem)
  · exact fun deferred hmem => hsite.keeps.isSome (h.leads deferred hmem)

theorem absorb (h : Anchored analysis) {node : Handle} {expansion : Expansion}
    (hnode : (analysis.arena.progress node).isMarked)
    (hnames : expansion.Names analysis.arena) : Anchored (analysis.absorb node expansion) := by
  obtain ⟨considered, ⟨_, _, hfirst⟩, _, _, hsecond⟩ := spread_absorb analysis node expansion
  have hconsidered : Anchored considered := by
    apply h.spread hfirst
    · intro deferred hmem
      obtain ⟨dependency, _, rfl⟩ := List.mem_map.mp hmem
      exact hnode
    · intro deferred hmem
      obtain ⟨dependency, hdependency, rfl⟩ := List.mem_map.mp hmem
      exact hnames.guarded dependency hdependency
  have hconcluded := hconsidered.conclude (hfirst.isMarked hnode) fun dependency hdependency =>
    hfirst.isMarked_of_due (List.mem_map_of_mem hdependency) (hnames.always dependency hdependency)
  exact hconcluded.spread hsecond (by simp) (by simp)

theorem settle (h : Anchored analysis) {attempts : List (Handle × Attempt ε)}
    (hmarked : ∀ attempt ∈ attempts, (analysis.arena.progress attempt.1).isMarked)
    (hnames : ∀ node expansion, (node, .expanded expansion) ∈ attempts →
      expansion.Names analysis.arena) : Anchored (analysis.settle attempts).2 := by
  fun_induction Analysis.settle analysis attempts with
  | case1 | case2 | case3 => exact h
  | case4 analysis node expansion later ih =>
    have hnode := hmarked _ List.mem_cons_self
    have hsite := advances_absorb (Arena.isSome_key?_of_isMarked hnode) expansion
    apply ih (h.absorb hnode (hnames node expansion List.mem_cons_self))
    · intro attempt hattempt
      exact hsite.isMarked (hmarked attempt (List.mem_cons_of_mem _ hattempt))
    · intro other found hfound
      exact hsite.names (hnames other found (List.mem_cons_of_mem _ hfound))

end Anchored

end Steps

section Runs

variable [LE κ] [DecidableLE κ] {expander : Expander κ σ ε} {drawn called : List Handle}
  {fired : List Nat} {before analysis : Analysis κ σ}

theorem Anchored.round (hnaming : expander.Naming) (hdrawn : Drawn drawn analysis)
    (h : Anchored analysis) : Anchored (analysis.round expander).2 := by
  obtain ⟨hsite, hnames⟩ := hnaming.expandBatch fun _ => hdrawn.isMarked_of_batch
  have htaken : Anchored { analysis with
      toSite := (expandBatch expander analysis.batch analysis.toSite).2
      worklist := []
      batchCount := analysis.batchCount + 1 } := h.advance hsite rfl rfl
  refine htaken.settle (fun attempt hattempt => hsite.isMarked ?_) hnames
  apply hdrawn.isMarked_of_batch
  rw [← map_fst_expandBatch expander analysis.batch analysis.toSite]
  exact List.mem_map_of_mem hattempt

theorem Passes.anchored (hnaming : expander.Naming)
    (h : Passes expander called fired before analysis) (hdrawn : Drawn drawn before)
    (hbefore : Anchored before) : (∃ drawn, Drawn drawn analysis) ∧ Anchored analysis := by
  induction h with
  | refl => exact ⟨⟨drawn, hdrawn⟩, hbefore⟩
  | rescan _ _ ih =>
    obtain ⟨⟨drawn, hdrawn⟩, hanchored⟩ := ih hdrawn hbefore
    exact ⟨⟨drawn, hdrawn.rescan⟩, hanchored.rescan⟩
  | round _ _ _ ih =>
    obtain ⟨⟨drawn, hdrawn⟩, hanchored⟩ := ih hdrawn hbefore
    exact ⟨⟨_, hdrawn.round hnaming.forward⟩, hanchored.round hnaming hdrawn⟩

end Runs

end Analysis

/-- What a host can come to with an expander: it does to the site what it likes, as long as it
advances the site, adds roots, and computes. -/
inductive Tended [LE κ] [DecidableLE κ] (expander : Expander κ σ ε) : Analysis κ σ → Prop
  | start (site : Site κ σ) : Tended expander { toSite := site }
  | outside {analysis} (site : Site κ σ) (hsite : analysis.toSite.Advances site)
      (h : Tended expander analysis) : Tended expander { analysis with toSite := site }
  | root {analysis} (node : Handle) (h : Tended expander analysis) :
      Tended expander (analysis.mark node)
  | compute {analysis} (bound : Nat) (h : Tended expander analysis) :
      Tended expander (analysis.saturate expander bound).2

theorem Tended.anchored [LE κ] [DecidableLE κ] {expander : Expander κ σ ε}
    (hnaming : expander.Naming) {analysis : Analysis κ σ} (h : Tended expander analysis) :
    (∃ drawn, analysis.Drawn drawn) ∧ analysis.Anchored := by
  induction h with
  | start site =>
    exact ⟨⟨[], .initial site⟩, by constructor <;> simp⟩
  | outside site hsite _ ih =>
    obtain ⟨⟨drawn, hdrawn⟩, hanchored⟩ := ih
    exact ⟨⟨drawn, hdrawn.forward site hsite.forward⟩, hanchored.advance hsite rfl rfl⟩
  | root node _ ih =>
    obtain ⟨⟨drawn, hdrawn⟩, hanchored⟩ := ih
    exact ⟨⟨drawn, hdrawn.mark node⟩, hanchored.mark node⟩
  | compute bound _ ih =>
    obtain ⟨⟨drawn, hdrawn⟩, hanchored⟩ := ih
    exact (Analysis.passes_saturate expander bound _).anchored hnaming hdrawn hanchored

end PortableImage.Graph
