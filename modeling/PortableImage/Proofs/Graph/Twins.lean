import PortableImage.Proofs.Graph.AlikeArenas
import PortableImage.Proofs.Graph.Termination
import PortableImage.Proofs.Matching
import Mathlib.Data.List.Sort
/-!
# Twins

Twins are analyses that agree up to the handles of their nodes: the work on each key has come equally
far, what waits in the worklists has the same keys, and pending dependencies and edges match place by
place.  Only the order of the worklists may differ, and a batch is sorted by keys before it counts.
-/

namespace PortableImage.Graph

variable {κ σ ε : Type}

section Matching

variable (R : Handle → Handle → Prop)

structure Dependency.Alike (a b : Dependency) : Prop where
  target : R a.target b.target
  reason : a.reason = b.reason

structure GuardedDependency.Alike (a b : GuardedDependency) : Prop where
  target : R a.target b.target
  guard : R a.guard b.guard
  threshold : a.threshold = b.threshold
  reason : a.reason = b.reason

structure Expansion.Alike (a b : Expansion) : Prop where
  always : List.Forall₂ (Dependency.Alike R) a.always b.always
  guarded : List.Forall₂ (GuardedDependency.Alike R) a.guarded b.guarded

structure Deferred.Alike (a b : Deferred) : Prop where
  source : R a.source b.source
  dependency : GuardedDependency.Alike R a.dependency b.dependency

structure Edge.Alike (a b : Edge) : Prop where
  source : R a.source b.source
  target : R a.target b.target
  reason : a.reason = b.reason

inductive Attempt.Alike : Attempt ε → Attempt ε → Prop
  | skipped : Attempt.Alike .skipped .skipped
  | failed (fault : ε) : Attempt.Alike (.failed fault) (.failed fault)
  | expanded {a b : Expansion} (h : Expansion.Alike R a b) : Attempt.Alike (.expanded a) (.expanded b)

variable {R} {S : Handle → Handle → Prop} (hRS : ∀ a b, R a b → S a b)
include hRS

theorem Dependency.Alike.imp {a b : Dependency} (h : Dependency.Alike R a b) :
    Dependency.Alike S a b := ⟨hRS _ _ h.target, h.reason⟩

theorem GuardedDependency.Alike.imp {a b : GuardedDependency} (h : GuardedDependency.Alike R a b) :
    GuardedDependency.Alike S a b := ⟨hRS _ _ h.target, hRS _ _ h.guard, h.threshold, h.reason⟩

theorem Expansion.Alike.imp {a b : Expansion} (h : Expansion.Alike R a b) :
    Expansion.Alike S a b :=
  ⟨h.always.imp fun _ _ => Dependency.Alike.imp hRS,
    h.guarded.imp fun _ _ => GuardedDependency.Alike.imp hRS⟩

theorem Deferred.Alike.imp {a b : Deferred} (h : Deferred.Alike R a b) : Deferred.Alike S a b :=
  ⟨hRS _ _ h.source, h.dependency.imp hRS⟩

theorem Edge.Alike.imp {a b : Edge} (h : Edge.Alike R a b) : Edge.Alike S a b :=
  ⟨hRS _ _ h.source, hRS _ _ h.target, h.reason⟩

theorem Attempt.Alike.imp {a b : Attempt ε} (h : Attempt.Alike R a b) : Attempt.Alike S a b := by
  cases h with
  | skipped => exact .skipped
  | failed fault => exact .failed fault
  | expanded h => exact .expanded (h.imp hRS)

omit hRS

theorem Deferred.Alike.edge {a b : Deferred} (h : Deferred.Alike R a b) :
    Edge.Alike R a.edge b.edge := ⟨h.source, h.dependency.target, h.dependency.reason⟩

end Matching

namespace Analysis

structure Alike (kin : Site κ σ → Site κ σ → Prop) (left right : Analysis κ σ) : Prop where
  site : kin left.toSite right.toSite
  known : ∀ node ∈ left.worklist, (left.arena.key? node).isSome
  worklist : (left.worklist.map left.arena.key?).Perm (right.worklist.map right.arena.key?)
  pending : List.Forall₂ (Deferred.Alike (Arena.Same left.arena right.arena))
    left.pending right.pending
  edges : List.Forall₂ (Edge.Alike (Arena.Same left.arena right.arena)) left.edges right.edges
  markedCount : left.markedCount = right.markedCount
  expandedCount : left.expandedCount = right.expandedCount
  deferredCount : left.deferredCount = right.deferredCount
  activatedCount : left.activatedCount = right.activatedCount
  batchCount : left.batchCount = right.batchCount
  rescanCount : left.rescanCount = right.rescanCount

namespace Alike

variable {kin : Site κ σ → Site κ σ → Prop} {left right : Analysis κ σ} {a b : Handle}

theorem counts (h : Alike kin left right) : left.counts = right.counts := by
  rw [Agenda.counts, Agenda.counts, h.markedCount, h.expandedCount, h.edges.length_eq,
    h.deferredCount, h.activatedCount, h.batchCount, h.rescanCount]

theorem fire (h : Alike kin left right) {fired fired' : List Deferred}
    (hfired : List.Forall₂ (Deferred.Alike (Arena.Same left.arena right.arena)) fired fired') :
    Alike kin (left.fire fired) (right.fire fired') :=
  { h with
    edges := List.rel_append h.edges (forall₂_map hfired fun _ _ => Deferred.Alike.edge)
    activatedCount := by
      show left.activatedCount + fired.length = right.activatedCount + fired'.length
      rw [h.activatedCount, hfired.length_eq] }

/-- The arenas may get more nodes, and the work on nodes may move forward alike. -/
theorem move (h : Alike kin left right) (site site' : Site κ σ) (hkin : kin site site')
    (hleft : left.arena.Keeps site.arena) (hright : right.arena.Keeps site'.arena) :
    Alike kin { left with toSite := site } { right with toSite := site' } := by
  have hsame (x y : Handle) (hxy : Arena.Same left.arena right.arena x y) :
      Arena.Same site.arena site'.arena x y := hxy.mono hleft hright
  have hmoved {old new : Arena κ} (hkeeps : old.Keeps new) (nodes : List Handle)
      (hknown : ∀ node ∈ nodes, (old.key? node).isSome) :
      nodes.map new.key? = nodes.map old.key? := by
    apply List.map_congr_left
    intro node hnode
    obtain ⟨key, hkey⟩ := Option.isSome_iff_exists.mp (hknown node hnode)
    rw [hkey, hkeeps node key hkey]
  have hknown : ∀ node ∈ right.worklist, (right.arena.key? node).isSome := by
    intro node hnode
    obtain ⟨other, hother, hkey⟩ := List.mem_map.mp
      (h.worklist.mem_iff.mpr (List.mem_map_of_mem hnode))
    rw [← hkey]
    exact h.known other hother
  exact {
    site := hkin
    known := fun node hnode => hleft.isSome (h.known node hnode)
    worklist := by rw [hmoved hleft _ h.known, hmoved hright _ hknown]; exact h.worklist
    pending := h.pending.imp fun _ _ => Deferred.Alike.imp hsame
    edges := h.edges.imp fun _ _ => Edge.Alike.imp hsame
    markedCount := h.markedCount
    expandedCount := h.expandedCount
    deferredCount := h.deferredCount
    activatedCount := h.activatedCount
    batchCount := h.batchCount
    rescanCount := h.rescanCount }

end Alike

end Analysis

variable [DecidableEq κ]

/-- A relation between sites that looks at the work on their nodes by keys only. -/
structure Kinship (kin : Site κ σ → Site κ σ → Prop) : Prop where
  arena : ∀ left right, kin left right → left.arena.Alike right.arena
  cancelled : ∀ left right, kin left right → left.cancelled = right.cancelled
  rearrange : ∀ left right left' right' : Site κ σ, kin left right → left.Rearranges left' →
    right.Rearranges right' → left'.arena.Alike right'.arena → kin left' right'

namespace Analysis.Alike

variable {kin : Site κ σ → Site κ σ → Prop} {left right : Analysis κ σ} {a b : Handle}

section Marking

variable (hkin : Kinship kin)
include hkin

theorem satisfied (h : Alike kin left right) {dependency dependency' : GuardedDependency}
    (hsame : dependency.Alike (Arena.Same left.arena right.arena) dependency') :
    left.satisfied dependency = right.satisfied dependency' := by
  rw [Analysis.satisfied, Analysis.satisfied, hsame.threshold,
    (hkin.arena _ _ h.site).progress hsame.guard]

theorem firesAt (h : Alike kin left right) (hab : Arena.Same left.arena right.arena a b)
    {deferred deferred' : Deferred}
    (hsame : deferred.Alike (Arena.Same left.arena right.arena) deferred') :
    left.firesAt a deferred = right.firesAt b deferred' := by
  have hguard : (deferred.guard = a) ↔ (deferred'.guard = b) := hsame.dependency.guard.eq_iff hab
  rw [Analysis.firesAt, Analysis.firesAt, h.satisfied hkin hsame.dependency]
  simp only [hguard]

theorem enter (h : Alike kin left right) (hab : Arena.Same left.arena right.arena a b) :
    Alike kin (left.enter a) (right.enter b) := by
  have harena := (hkin.arena _ _ h.site).raise hab .marked
  have hraised (arena : Arena κ) (node : Handle) : arena.Keeps (arena.raise node .marked) :=
    Arena.Keeps.of_key?_eq fun other => Arena.key?_raise ..
  have hmoved := h.move { left.toSite with arena := left.arena.raise a .marked }
    { right.toSite with arena := right.arena.raise b .marked }
    (hkin.rearrange _ _ _ _ h.site ⟨fun _ => Arena.key?_raise .., rfl, rfl⟩
      ⟨fun _ => Arena.key?_raise .., rfl, rfl⟩ harena) (hraised _ _) (hraised _ _)
  exact { hmoved with
    known := by
      intro node hnode
      rcases List.mem_append.mp hnode with hnode | hnode
      · exact hmoved.known node hnode
      · rw [List.mem_singleton.mp hnode]
        exact (hraised _ _).isSome hab.isSome_left
    worklist := by
      show ((left.worklist ++ [a]).map _).Perm ((right.worklist ++ [b]).map _)
      obtain ⟨key, ha, hb⟩ := hab.mono (hraised left.arena a) (hraised right.arena b)
      rw [List.map_append, List.map_append, List.map_singleton, List.map_singleton]
      show (List.map _ left.worklist ++ [(left.arena.raise a .marked).key? a]).Perm
        (List.map _ right.worklist ++ [(right.arena.raise b .marked).key? b])
      rw [ha, hb]
      exact hmoved.worklist.append_right _
    markedCount := congrArg (· + 1) h.markedCount }

theorem fireAt (h : Alike kin left right) (hab : Arena.Same left.arena right.arena a b) :
    List.Forall₂ (Arena.Same left.arena right.arena) (left.fireAt a).1 (right.fireAt b).1 ∧
      Alike kin (left.fireAt a).2 (right.fireAt b).2 := by
  have hfires (deferred deferred' : Deferred)
      (hsame : deferred.Alike (Arena.Same left.arena right.arena) deferred') :
      left.firesAt a deferred = right.firesAt b deferred' := h.firesAt hkin hab hsame
  have hstays (deferred deferred' : Deferred)
      (hsame : deferred.Alike (Arena.Same left.arena right.arena) deferred') :
      (!left.firesAt a deferred) = !right.firesAt b deferred' := by rw [hfires _ _ hsame]
  have hfired := forall₂_filter h.pending hfires
  have hrest : Alike kin
      { left with pending := (left.pending.filter fun deferred => !left.firesAt a deferred) }
      { right with pending := (right.pending.filter fun deferred => !right.firesAt b deferred) } :=
    { h with pending := forall₂_filter h.pending hstays }
  exact ⟨forall₂_map hfired fun _ _ hsame => hsame.dependency.target, hrest.fire hfired⟩

theorem markAll (h : Alike kin left right) {stack stack' : List Handle}
    (hstack : List.Forall₂ (Arena.Same left.arena right.arena) stack stack') :
    Alike kin (left.markAll stack) (right.markAll stack') := by
  fun_induction Analysis.markAll left stack generalizing right stack' with
  | case1 left =>
    cases hstack
    rw [Analysis.markAll]
    exact h
  | case2 left node stack hfresh fired =>
    rename_i ih
    cases hstack with
    | cons hnode hstack =>
      have hsame := (hkin.arena _ _ h.site).isFresh hnode
      rw [hfresh] at hsame
      rw [Analysis.markAll, if_pos hsame.symm]
      have hentered := h.enter hkin hnode
      have hkeys (arena : Arena κ) (node : Handle) : arena.Keeps (arena.raise node .marked) :=
        Arena.Keeps.of_key?_eq fun other => Arena.key?_raise ..
      obtain ⟨htargets, hfired⟩ := hentered.fireAt hkin (hnode.mono (hkeys _ _) (hkeys _ _))
      apply ih hfired
      exact List.rel_append (List.rel_reverse htargets)
        (hstack.imp fun _ _ hsame => hsame.mono (hkeys _ _) (hkeys _ _))
  | case3 left node stack hfresh ih =>
    cases hstack with
    | cons hnode hstack =>
      have hsame := (hkin.arena _ _ h.site).isFresh hnode
      rw [Analysis.markAll, if_neg (hsame ▸ hfresh)]
      exact ih h hstack

theorem mark (h : Alike kin left right) (hab : Arena.Same left.arena right.arena a b) :
    Alike kin (left.mark a) (right.mark b) :=
  h.markAll hkin (.cons hab .nil)

theorem markEach (h : Alike kin left right) {nodes nodes' : List Handle}
    (hnodes : List.Forall₂ (Arena.Same left.arena right.arena) nodes nodes') :
    Alike kin (left.markEach nodes) (right.markEach nodes') := by
  induction nodes generalizing left right nodes' with
  | nil =>
    cases hnodes
    exact h
  | cons node nodes ih =>
    cases hnodes with
    | @cons _ other _ others hnode hnodes =>
      obtain ⟨_, _, hleft⟩ := spread_mark left node
      obtain ⟨_, _, hright⟩ := spread_mark right other
      exact ih (h.mark hkin hnode) (hnodes.imp fun _ _ hsame => hsame.mono hleft.keeps hright.keeps)

theorem consider (h : Alike kin left right) (hab : Arena.Same left.arena right.arena a b)
    {dependency dependency' : GuardedDependency}
    (hsame : dependency.Alike (Arena.Same left.arena right.arena) dependency') :
    Alike kin (Analysis.consider a left dependency) (Analysis.consider b right dependency') := by
  have hdeferred : Deferred.Alike (Arena.Same left.arena right.arena) ⟨a, dependency⟩
      ⟨b, dependency'⟩ := ⟨hab, hsame⟩
  unfold Analysis.consider
  rw [h.satisfied hkin hsame]
  by_cases hsatisfied : right.satisfied dependency'
  · rw [if_pos hsatisfied, if_pos hsatisfied]
    exact (h.fire (.cons hdeferred .nil)).mark hkin hsame.target
  · rw [if_neg hsatisfied, if_neg hsatisfied]
    exact { h with
      pending := List.rel_append h.pending (.cons hdeferred .nil)
      deferredCount := congrArg (· + 1) h.deferredCount }

theorem considerEach (h : Alike kin left right) (hab : Arena.Same left.arena right.arena a b)
    {dependencies dependencies' : List GuardedDependency}
    (hsame : List.Forall₂ (GuardedDependency.Alike (Arena.Same left.arena right.arena))
      dependencies dependencies') :
    Alike kin (dependencies.foldl (Analysis.consider a) left)
      (dependencies'.foldl (Analysis.consider b) right) := by
  induction dependencies generalizing left right dependencies' with
  | nil =>
    cases hsame
    exact h
  | cons dependency dependencies ih =>
    cases hsame with
    | @cons _ other _ others hfirst hrest =>
      obtain ⟨_, _, hleft⟩ := spread_consider a left dependency
      obtain ⟨_, _, hright⟩ := spread_consider b right other
      have hkept (x y : Handle) (hxy : Arena.Same left.arena right.arena x y) :=
        hxy.mono hleft.keeps hright.keeps
      exact ih (h.consider hkin hab hfirst) (hkept a b hab)
        (hrest.imp fun _ _ => GuardedDependency.Alike.imp hkept)

theorem conclude (h : Alike kin left right) (hab : Arena.Same left.arena right.arena a b)
    {recorded recorded' : List Edge}
    (hsame : List.Forall₂ (Edge.Alike (Arena.Same left.arena right.arena)) recorded recorded') :
    Alike kin (left.conclude a recorded) (right.conclude b recorded') := by
  have hkeeps (arena : Arena κ) (node : Handle) (edges : List Edge) :
      arena.Keeps (arena.recordDependencies node edges).2 :=
    Arena.Keeps.of_key?_eq fun other => Arena.key?_recordDependencies ..
  have harena := ((hkin.arena _ _ h.site).recordDependencies recorded recorded').raise
    (hab.mono (hkeeps _ a _) (hkeeps _ b _)) .expanded
  have hleft := keeps_conclude left a recorded
  have hright := keeps_conclude right b recorded'
  have hmoved := h.move (left.conclude a recorded).toSite (right.conclude b recorded').toSite
    (hkin.rearrange _ _ _ _ h.site ⟨fun _ => key?_conclude .., rfl, rfl⟩
      ⟨fun _ => key?_conclude .., rfl, rfl⟩ harena) hleft hright
  exact { hmoved with
    edges := List.rel_append hmoved.edges (hsame.imp fun _ _ => Edge.Alike.imp fun _ _ hxy =>
      hxy.mono hleft hright)
    expandedCount := congrArg (· + 1) h.expandedCount }

theorem absorb (h : Alike kin left right) (hab : Arena.Same left.arena right.arena a b)
    {expansion expansion' : Expansion}
    (hsame : expansion.Alike (Arena.Same left.arena right.arena) expansion') :
    Alike kin (left.absorb a expansion) (right.absorb b expansion') := by
  have hreached := h.markEach hkin (forall₂_map hsame.always fun _ _ hxy => hxy.target)
  obtain ⟨_, _, hleft⟩ := spread_markEach left (expansion.always.map Dependency.target)
  obtain ⟨_, _, hright⟩ := spread_markEach right (expansion'.always.map Dependency.target)
  have hmarked (x y : Handle) (hxy : Arena.Same left.arena right.arena x y) :=
    hxy.mono hleft.keeps hright.keeps
  have hconsidered := hreached.considerEach hkin (hmarked a b hab)
    (hsame.guarded.imp fun _ _ => GuardedDependency.Alike.imp hmarked)
  obtain ⟨_, _, hleft'⟩ := spread_considerEach a
    (left.markEach (expansion.always.map Dependency.target)) expansion.guarded
  obtain ⟨_, _, hright'⟩ := spread_considerEach b
    (right.markEach (expansion'.always.map Dependency.target)) expansion'.guarded
  have hkept (x y : Handle) (hxy : Arena.Same left.arena right.arena x y) :=
    (hmarked x y hxy).mono hleft'.keeps hright'.keeps
  have hedges := forall₂_map hsame.always fun first second hxy =>
    show Edge.Alike _ (Edge.mk a first.target first.reason) (Edge.mk b second.target second.reason)
      from ⟨hkept a b hab, hkept _ _ hxy.target, hxy.reason⟩
  have hconcluded := hconsidered.conclude hkin (hkept a b hab) hedges
  obtain ⟨htargets, hfired⟩ := hconcluded.fireAt hkin
    ((hkept a b hab).mono (keeps_conclude _ a _) (keeps_conclude _ b _))
  exact hfired.markEach hkin htargets

/-- Twins take over matching results of a batch alike, up to the same verdict. -/
theorem settle (h : Alike kin left right) {attempts attempts' : List (Handle × Attempt ε)}
    (hsame : List.Forall₂ (fun x y => Arena.Same left.arena right.arena x.1 y.1 ∧
      Attempt.Alike (Arena.Same left.arena right.arena) x.2 y.2) attempts attempts') :
    (left.settle attempts).1 = (right.settle attempts').1 ∧
      Alike kin (left.settle attempts).2 (right.settle attempts').2 := by
  induction attempts generalizing left right attempts' with
  | nil =>
    cases hsame
    exact ⟨rfl, h⟩
  | cons first attempts ih =>
    cases hsame with
    | @cons _ second _ others hfirst hrest =>
      obtain ⟨node, attempt⟩ := first
      obtain ⟨node', attempt'⟩ := second
      obtain ⟨hnode, hattempt⟩ := hfirst
      cases hattempt with
      | skipped => exact ⟨rfl, h⟩
      | failed fault => exact ⟨rfl, h⟩
      | @expanded expansion expansion' hexpansion =>
        have hkept (x y : Handle) (hxy : Arena.Same left.arena right.arena x y) :
            Arena.Same (left.absorb node expansion).arena
              (right.absorb node' expansion').arena x y :=
          hxy.mono (Arena.Keeps.of_key?_eq fun other => key?_absorb left node other expansion)
            (Arena.Keeps.of_key?_eq fun other => key?_absorb right node' other expansion')
        exact ih (h.absorb hkin hnode hexpansion)
          (hrest.imp fun _ _ hxy => ⟨hkept _ _ hxy.1, hxy.2.imp hkept⟩)

end Marking

end Analysis.Alike

/-- On the same node of related sites the expander answers alike, and leaves related sites. -/
def Expander.Respects (expander : Expander κ σ ε) (kin : Site κ σ → Site κ σ → Prop) : Prop :=
  ∀ (left right : Site κ σ) (a b : Handle), kin left right → Arena.Same left.arena right.arena a b →
    kin (expander a left).2 (expander b right).2 ∧
      Concur (fun _ => True)
        (Expansion.Alike (Arena.Same (expander a left).2.arena (expander b right).2.arena))
        (expander a left).1 (expander b right).1

section Expanding

variable {kin : Site κ σ → Site κ σ → Prop} {expander : Expander κ σ ε}

/-- What came of the same nodes matches, as handles of two arenas. -/
def AttemptsAlike (left right : Arena κ) : List (Handle × Attempt ε) →
    List (Handle × Attempt ε) → Prop :=
  List.Forall₂ fun x y => Arena.Same left right x.1 y.1 ∧ Attempt.Alike (Arena.Same left right) x.2 y.2

theorem alike_expandBatch (hkin : Kinship kin) (hquiet : expander.Quiet)
    (hrespects : expander.Respects kin) {left right : Site κ σ} {batch batch' : List Handle}
    (hsite : kin left right)
    (hbatch : List.Forall₂ (Arena.Same left.arena right.arena) batch batch') :
    kin (expandBatch expander batch left).2 (expandBatch expander batch' right).2 ∧
      AttemptsAlike (expandBatch expander batch left).2.arena
        (expandBatch expander batch' right).2.arena
        (expandBatch expander batch left).1 (expandBatch expander batch' right).1 := by
  induction batch generalizing left right batch' with
  | nil =>
    cases hbatch
    exact ⟨hsite, .nil⟩
  | cons node batch ih =>
    cases hbatch with
    | @cons _ other _ others hnode hrest =>
      -- What a first attempt leaves behind, the rest of the batch keeps.
      have hcons {left' right' : Site κ σ} {attempt attempt' : Attempt ε}
          (hleft : left.arena.Grows left'.arena) (hright : right.arena.Grows right'.arena)
          (hsite' : kin left' right')
          (hattempt : Attempt.Alike (Arena.Same left'.arena right'.arena) attempt attempt') :
          kin (expandBatch expander batch left').2 (expandBatch expander others right').2 ∧
            AttemptsAlike (expandBatch expander batch left').2.arena
              (expandBatch expander others right').2.arena
              ((node, attempt) :: (expandBatch expander batch left').1)
              ((other, attempt') :: (expandBatch expander others right').1) := by
        have hsame : List.Forall₂ (Arena.Same left'.arena right'.arena) batch others :=
          hrest.imp fun _ _ hxy => hxy.mono hleft.keeps hright.keeps
        obtain ⟨hlater, hattempts⟩ := ih hsite' hsame
        have hbatch : left'.arena.Grows (expandBatch expander batch left').2.arena := by
          apply Analysis.grows_expandBatch hquiet
          intro x hx
          obtain ⟨y, _, hxy⟩ := exists_of_mem_left hsame hx
          exact hxy.isSome_left
        have hothers : right'.arena.Grows (expandBatch expander others right').2.arena := by
          apply Analysis.grows_expandBatch hquiet
          intro y hy
          obtain ⟨x, _, hxy⟩ := exists_of_mem_right hsame hy
          exact hxy.isSome_right
        refine ⟨hlater, .cons ⟨?_, ?_⟩ hattempts⟩
        · exact hnode.mono (hleft.trans hbatch).keeps (hright.trans hothers).keeps
        · exact hattempt.imp fun _ _ hxy => hxy.mono hbatch.keeps hothers.keeps
      have hcancelled := hkin.cancelled _ _ hsite
      rw [expandBatch, expandBatch]
      by_cases hleft : left.cancelled
      · rw [if_pos hleft, if_pos (hcancelled ▸ hleft)]
        exact hcons (Arena.Grows.refl _) (Arena.Grows.refl _) hsite .skipped
      · rw [if_neg hleft, if_neg (hcancelled ▸ hleft)]
        obtain ⟨hafter, hanswer⟩ := hrespects left right node other hsite hnode
        have hgrows := hquiet.grows node left hnode.isSome_left
        have hgrows' := hquiet.grows other right hnode.isSome_right
        cases hfirst : expander node left with
        | mk answer left' =>
          cases hsecond : expander other right with
          | mk answer' right' =>
            rw [hfirst, hsecond] at hafter hanswer
            rw [hfirst] at hgrows
            rw [hsecond] at hgrows'
            cases hanswer with
            | ok hexpansion => exact hcons hgrows hgrows' hafter (.expanded hexpansion)
            | error _ => exact hcons hgrows hgrows' hafter (.failed _)

end Expanding

section Sorting

variable [LE κ] [DecidableLE κ]

omit [DecidableEq κ] in
theorem keyLE_iff {arena : Arena κ} {a b : Handle} :
    keyLE arena a b ↔ ∀ key ∈ arena.key? a, ∃ key' ∈ arena.key? b, key ≤ key' := by
  unfold keyLE
  cases arena.key? a with
  | none => simp
  | some key => cases arena.key? b <;> simp

variable [Std.IsLinearOrder κ]

omit [DecidableEq κ] in
/-- Sorted by keys, two lists of nodes with the same keys have them in the same order. -/
theorem map_key?_mergeSort_eq {left right : Arena κ} {nodes nodes' : List Handle}
    (h : (nodes.map left.key?).Perm (nodes'.map right.key?)) :
    (nodes.mergeSort (keyLE left)).map left.key? = (nodes'.mergeSort (keyLE right)).map right.key? := by
  have hsorted (arena : Arena κ) (nodes : List Handle) :
      ((nodes.mergeSort (keyLE arena)).map arena.key?).Pairwise fun x y =>
        ∀ key ∈ x, ∃ key' ∈ y, key ≤ key' := by
    rw [List.pairwise_map]
    exact (List.pairwise_mergeSort (keyLE_trans arena) (keyLE_total arena) nodes).imp keyLE_iff.mp
  refine List.Perm.eq_of_pairwise ?_ (hsorted left nodes) (hsorted right nodes') ?_
  · intro x y _ _ hxy hyx
    cases x with
    | none =>
      cases y with
      | none => rfl
      | some key =>
        obtain ⟨_, hnone, _⟩ := hyx key rfl
        cases hnone
    | some key =>
      obtain ⟨key', rfl, hle⟩ := hxy key rfl
      obtain ⟨other, hother, hge⟩ := hyx key' rfl
      obtain rfl := Option.some.inj hother
      rw [Std.le_antisymm hle hge]
  · calc (nodes.mergeSort (keyLE left)).map left.key?
        |>.Perm (nodes.map left.key?) := (List.mergeSort_perm _ _).map _
      _ |>.Perm (nodes'.map right.key?) := h
      _ |>.Perm ((nodes'.mergeSort (keyLE right)).map right.key?) :=
        ((List.mergeSort_perm _ _).map _).symm

omit [DecidableEq κ] [LE κ] [DecidableLE κ] [Std.IsLinearOrder κ] in
theorem forall₂_same_of_map_eq {left right : Arena κ} {nodes nodes' : List Handle}
    (h : nodes.map left.key? = nodes'.map right.key?)
    (hknown : ∀ node ∈ nodes, (left.key? node).isSome) :
    List.Forall₂ (Arena.Same left right) nodes nodes' := by
  induction nodes generalizing nodes' with
  | nil =>
    rw [List.map_eq_nil_iff.mp h.symm]
    exact .nil
  | cons node nodes ih =>
    cases nodes' with
    | nil => cases h
    | cons other others =>
      obtain ⟨hfirst, hrest⟩ := List.cons.inj h
      obtain ⟨key, hkey⟩ := Option.isSome_iff_exists.mp (hknown node List.mem_cons_self)
      exact .cons ⟨key, hkey, hfirst.symm.trans hkey⟩
        (ih hrest fun node hnode => hknown node (List.mem_cons_of_mem _ hnode))

namespace Analysis.Alike

variable {kin : Site κ σ → Site κ σ → Prop} {expander : Expander κ σ ε}
  {left right : Analysis κ σ}

omit [DecidableEq κ] [Std.IsLinearOrder κ] in
theorem known_batch (h : Alike kin left right) {node : Handle} (hnode : node ∈ left.batch) :
    (left.arena.key? node).isSome := by
  apply h.known
  rw [batch, List.mem_mergeSort] at hnode
  exact List.mem_of_mem_filter hnode

/-- Twins take the same batch. -/
theorem batch (h : Alike kin left right) (hkin : Kinship kin) :
    List.Forall₂ (Arena.Same left.arena right.arena) left.batch right.batch := by
  have harena := hkin.arena _ _ h.site
  have hfilter (analysis : Analysis κ σ) : (analysis.worklist.filter fun node =>
      analysis.arena.progress node < .expanded).map analysis.arena.key? =
      (analysis.worklist.map analysis.arena.key?).filter fun key? =>
        (key?.map analysis.arena.stage).getD .unmarked < .expanded := by
    rw [List.filter_map]
    congr 1
    apply List.filter_congr
    intro node _
    rw [Function.comp_apply, ← Arena.progress_eq_stage]
  apply forall₂_same_of_map_eq (map_key?_mergeSort_eq _) fun _ => h.known_batch
  rw [hfilter, hfilter, show left.arena.stage = right.arena.stage from funext harena]
  exact h.worklist.filter _

theorem known_batch_right (h : Alike kin left right) (hkin : Kinship kin) {node : Handle}
    (hnode : node ∈ right.batch) : (right.arena.key? node).isSome := by
  obtain ⟨_, _, hsame⟩ := exists_of_mem_right (h.batch hkin) hnode
  exact hsame.isSome_right

theorem round (h : Alike kin left right) (hkin : Kinship kin) (hquiet : expander.Quiet)
    (hrespects : expander.Respects kin) :
    (left.round expander).1 = (right.round expander).1 ∧
      Alike kin (left.round expander).2 (right.round expander).2 := by
  have hbatch := h.batch hkin
  obtain ⟨hsite, hattempts⟩ := alike_expandBatch hkin hquiet hrespects h.site hbatch
  have hleft : left.arena.Grows (expandBatch expander left.batch left.toSite).2.arena :=
    grows_expandBatch hquiet fun _ => h.known_batch
  have hright : right.arena.Grows (expandBatch expander right.batch right.toSite).2.arena :=
    grows_expandBatch hquiet fun _ => h.known_batch_right hkin
  have hmoved := h.move _ _ hsite hleft.keeps hright.keeps
  have htaken : Alike kin
      { left with
        toSite := (expandBatch expander left.batch left.toSite).2
        worklist := []
        batchCount := left.batchCount + 1 }
      { right with
        toSite := (expandBatch expander right.batch right.toSite).2
        worklist := []
        batchCount := right.batchCount + 1 } :=
    { hmoved with
      known := fun _ hnode => by cases hnode
      worklist := List.Perm.refl _
      batchCount := congrArg (· + 1) h.batchCount }
  exact htaken.settle hkin hattempts

/-- Idle twins run alike, to the same verdict. -/
theorem saturate (h : Alike kin left right) (hkin : Kinship kin) (hquiet : expander.Quiet)
    (hrespects : expander.Respects kin) (hleft : left.Idle) (hright : right.Idle) (bound : Nat) :
    (left.saturate expander bound).1 = (right.saturate expander bound).1 ∧
      Alike kin (left.saturate expander bound).2 (right.saturate expander bound).2 := by
  induction bound generalizing left right with
  | zero => exact ⟨rfl, h⟩
  | succ bound ih =>
    rw [Analysis.saturate, Analysis.saturate]
    have hempty : left.worklist.isEmpty = right.worklist.isEmpty := by
      have hlength := h.worklist.length_eq
      rw [List.length_map, List.length_map] at hlength
      rw [Bool.eq_iff_iff, List.isEmpty_iff_length_eq_zero, List.isEmpty_iff_length_eq_zero,
        hlength]
    by_cases hworklist : right.worklist.isEmpty
    · rw [hempty, if_pos hworklist, if_pos hworklist, hleft.rescan, hright.rescan]
      exact ⟨rfl, { h with rescanCount := congrArg (· + 1) h.rescanCount }⟩
    · rw [hempty, if_neg hworklist, if_neg hworklist]
      have hcancelled : left.cancelled = right.cancelled := hkin.cancelled _ _ h.site
      by_cases hstop : right.cancelled
      · rw [if_pos hstop, if_pos (hcancelled ▸ hstop)]
        exact ⟨rfl, h⟩
      · rw [if_neg hstop, if_neg (hcancelled ▸ hstop)]
        obtain ⟨hverdict, hafter⟩ := h.round hkin hquiet hrespects
        have hleft' := hleft.round hquiet fun _ => h.known_batch
        have hright' := hright.round hquiet fun _ => h.known_batch_right hkin
        cases hfirst : left.round expander with
        | mk answer next =>
          cases hsecond : right.round expander with
          | mk answer' next' =>
            rw [hfirst, hsecond] at hverdict hafter
            rw [hfirst] at hleft'
            rw [hsecond] at hright'
            obtain rfl : answer = answer' := hverdict
            cases answer with
            | some verdict => exact ⟨rfl, hafter⟩
            | none => exact ih hafter hleft' hright'

end Analysis.Alike

end Sorting

end PortableImage.Graph
