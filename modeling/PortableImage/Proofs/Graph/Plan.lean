import PortableImage.Proofs.Graph.Saturation
import PortableImage.Proofs.Matching
/-!
# Plans

A plan says, key by key, what a node needs.  An expander that follows it has no choice but the
handles it gives out.
-/

namespace PortableImage.Graph

structure Need (κ : Type) where
  target : κ
  reason : String

structure GuardedNeed (κ : Type) where
  target : κ
  guard : κ
  threshold : Progress
  reason : String

structure Plan (κ : Type) where
  always : κ → List (Need κ)
  guarded : κ → List (GuardedNeed κ)

variable {κ σ ε : Type}

structure Dependency.Shows (arena : Arena κ) (dependency : Dependency) (need : Need κ) : Prop where
  target : arena.key? dependency.target = some need.target
  reason : dependency.reason = need.reason

structure GuardedDependency.Shows (arena : Arena κ) (dependency : GuardedDependency)
    (need : GuardedNeed κ) : Prop where
  target : arena.key? dependency.target = some need.target
  guard : arena.key? dependency.guard = some need.guard
  threshold : dependency.threshold = need.threshold
  reason : dependency.reason = need.reason

theorem Dependency.Shows.mono {old new : Arena κ} (hkeeps : old.Keeps new)
    {dependency : Dependency} {need : Need κ} (h : dependency.Shows old need) :
    dependency.Shows new need :=
  ⟨hkeeps _ _ h.target, h.reason⟩

theorem GuardedDependency.Shows.mono {old new : Arena κ} (hkeeps : old.Keeps new)
    {dependency : GuardedDependency} {need : GuardedNeed κ} (h : dependency.Shows old need) :
    dependency.Shows new need :=
  ⟨hkeeps _ _ h.target, hkeeps _ _ h.guard, h.threshold, h.reason⟩

namespace Plan

/-- What following a plan means for the answer about a node with a key. -/
structure Shown (plan : Plan κ) (key : κ) (expansion : Expansion) (arena : Arena κ) : Prop where
  always : List.Forall₂ (Dependency.Shows arena) expansion.always (plan.always key)
  guarded : List.Forall₂ (GuardedDependency.Shows arena) expansion.guarded (plan.guarded key)

/-- The expander answers what the plan says, and does nothing but create nodes. -/
def Follows (plan : Plan κ) (expander : Expander κ σ ε) : Prop :=
  ∀ node (site : Site κ σ) key, site.arena.key? node = some key → ∃ expansion left,
    expander node site = (.ok expansion, left) ∧
      site.arena.Grows left.arena ∧ left.cancelled = site.cancelled ∧
      plan.Shown key expansion left.arena

theorem Shown.mono {plan : Plan κ} {key : κ} {expansion : Expansion} {old new : Arena κ}
    (h : plan.Shown key expansion old) (hkeeps : old.Keeps new) : plan.Shown key expansion new :=
  ⟨h.always.imp fun _ _ => Dependency.Shows.mono hkeeps,
    h.guarded.imp fun _ _ => GuardedDependency.Shows.mono hkeeps⟩

end Plan

section Following

variable {plan : Plan κ} {expander : Expander κ σ ε} {expansion : Expansion} {arena : Arena κ}
  {key : κ}

theorem Plan.Shown.names (h : plan.Shown key expansion arena) : expansion.Names arena := by
  constructor
  · intro dependency hmem
    obtain ⟨need, _, hshows⟩ := exists_of_mem_left h.always hmem
    rw [hshows.target]
    rfl
  · intro dependency hmem
    obtain ⟨need, _, hshows⟩ := exists_of_mem_left h.guarded hmem
    rw [hshows.target]
    rfl

theorem Plan.Follows.quiet (h : plan.Follows expander) : expander.Quiet := by
  constructor
  · intro node site hknown
    obtain ⟨key, hkey⟩ := Option.isSome_iff_exists.mp hknown
    obtain ⟨expansion, left, hanswer, hgrows, _⟩ := h node site key hkey
    rwa [hanswer]
  · intro node site hknown expansion hexpansion
    obtain ⟨key, hkey⟩ := Option.isSome_iff_exists.mp hknown
    obtain ⟨_, left, hanswer, _, _, hshown⟩ := h node site key hkey
    rw [hanswer] at hexpansion ⊢
    cases hexpansion
    exact hshown.names

theorem Plan.Follows.steady (h : plan.Follows expander) : expander.Steady := by
  intro node site hknown
  obtain ⟨key, hkey⟩ := Option.isSome_iff_exists.mp hknown
  obtain ⟨expansion, left, hanswer, _, hcancelled, _⟩ := h node site key hkey
  exact ⟨expansion, left, hanswer, hcancelled⟩

theorem Plan.Follows.shown (h : plan.Follows expander) {visits : List (Visit κ σ)}
    (hsources : Analysis.Sources expander visits arena) {visit : Visit κ σ}
    (hvisit : visit ∈ visits) :
    ∃ key, arena.key? visit.node = some key ∧ plan.Shown key visit.expansion arena := by
  obtain ⟨key, hkey⟩ := Option.isSome_iff_exists.mp (hsources.known visit hvisit)
  obtain ⟨expansion, left, hanswer, hgrows, _, hshown⟩ := h visit.node visit.before key hkey
  rw [hsources.answered visit hvisit] at hanswer
  cases hanswer
  have hkept := hsources.kept visit hvisit
  exact ⟨key, hkept _ _ (hgrows.keeps _ _ hkey), hshown.mono hkept⟩

end Following

section Drawing

variable [DecidableEq κ]

/-- The dependency for a need, and the arena in which its target has a handle. -/
def Need.draw (need : Need κ) (arena : Arena κ) : Dependency × Arena κ :=
  let target := arena.intern need.target
  (⟨target.1, need.reason⟩, target.2)

/-- The guarded dependency for a need; the target gets its handle before the guard. -/
def GuardedNeed.draw (need : GuardedNeed κ) (arena : Arena κ) : GuardedDependency × Arena κ :=
  let target := arena.intern need.target
  let guard := target.2.intern need.guard
  (⟨target.1, guard.1, need.threshold, need.reason⟩, guard.2)

def drawEach {α β : Type} (draw : α → Arena κ → β × Arena κ) :
    List α → Arena κ → List β × Arena κ
  | [], arena => ([], arena)
  | item :: items, arena =>
    let first := draw item arena
    let later := drawEach draw items first.2
    (first.1 :: later.1, later.2)

omit [DecidableEq κ] in
theorem drawEach_spec {α β : Type} (draw : α → Arena κ → β × Arena κ)
    (Shows : Arena κ → β → α → Prop)
    (hmono : ∀ old new b a, old.Keeps new → Shows old b a → Shows new b a)
    (hdraw : ∀ item arena, arena.Grows (draw item arena).2 ∧
      Shows (draw item arena).2 (draw item arena).1 item)
    (items : List α) (arena : Arena κ) :
    arena.Grows (drawEach draw items arena).2 ∧
      List.Forall₂ (Shows (drawEach draw items arena).2) (drawEach draw items arena).1 items := by
  induction items generalizing arena with
  | nil => exact ⟨Arena.Grows.refl arena, .nil⟩
  | cons item items ih =>
    obtain ⟨hgrows, hshows⟩ := hdraw item arena
    obtain ⟨hlater, hrest⟩ := ih (draw item arena).2
    exact ⟨hgrows.trans hlater, .cons (hmono _ _ _ _ hlater.keeps hshows) hrest⟩

def Plan.expander (plan : Plan κ) : Expander κ σ ε := fun node site =>
  match site.arena.key? node with
  | none => (.ok {}, site)
  | some key =>
    let always := drawEach Need.draw (plan.always key) site.arena
    let guarded := drawEach GuardedNeed.draw (plan.guarded key) always.2
    (.ok { always := always.1, guarded := guarded.1 }, { site with arena := guarded.2 })

theorem Need.draw_spec (need : Need κ) (arena : Arena κ) :
    arena.Grows (need.draw arena).2 ∧ (need.draw arena).1.Shows (need.draw arena).2 need :=
  ⟨Arena.Grows.intern arena _, Arena.key?_intern arena _, rfl⟩

theorem GuardedNeed.draw_spec (need : GuardedNeed κ) (arena : Arena κ) :
    arena.Grows (need.draw arena).2 ∧ (need.draw arena).1.Shows (need.draw arena).2 need := by
  have hguard := Arena.Grows.intern (arena.intern need.target).2 need.guard
  exact ⟨(Arena.Grows.intern arena _).trans hguard,
    hguard.keeps _ _ (Arena.key?_intern arena _), Arena.key?_intern _ _, rfl, rfl⟩

theorem Plan.follows_expander (plan : Plan κ) : plan.Follows (plan.expander : Expander κ σ ε) := by
  intro node site key hkey
  obtain ⟨hgrows, halways⟩ := drawEach_spec Need.draw Dependency.Shows
    (fun _ _ _ _ hkeeps h => h.mono hkeeps) Need.draw_spec (plan.always key) site.arena
  obtain ⟨hgrows', hguarded⟩ := drawEach_spec GuardedNeed.draw GuardedDependency.Shows
    (fun _ _ _ _ hkeeps h => h.mono hkeeps) GuardedNeed.draw_spec (plan.guarded key)
    (drawEach Need.draw (plan.always key) site.arena).2
  rw [expander, hkey]
  refine ⟨_, _, rfl, hgrows.trans hgrows', rfl, ⟨?_, hguarded⟩⟩
  exact halways.imp fun _ _ h => h.mono hgrows'.keeps

end Drawing

end PortableImage.Graph
