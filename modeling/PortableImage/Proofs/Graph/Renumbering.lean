import PortableImage.Proofs.Graph.LeastFixedPoint
import PortableImage.Proofs.Graph.Starting
/-!
# The numbering of handles

Handles follow the order in which nodes are created, and roots are added in some order.  Neither can
be told from what an analysis comes to: if the answer about a node depends on its key alone, be it an
expansion or a fault, then two analyses of the same roots end with one verdict and agree, key by key,
edge by edge and counter by counter.
-/

namespace PortableImage.Graph

variable {κ σ ε : Type}

/-- A plan with keys that cannot be expanded. -/
structure FalliblePlan (κ ε : Type) extends Plan κ where
  failure : κ → Option ε

namespace FalliblePlan

/-- The expander answers or fails as the plan says, and does nothing but create nodes. -/
structure Governs (plan : FalliblePlan κ ε) (expander : Expander κ σ ε) : Prop where
  grows : ∀ node (site : Site κ σ), (site.arena.key? node).isSome →
    site.arena.Grows (expander node site).2.arena
  cancelled : ∀ node (site : Site κ σ), (site.arena.key? node).isSome →
    (expander node site).2.cancelled = site.cancelled
  fails : ∀ node (site : Site κ σ) key fault, site.arena.key? node = some key →
    plan.failure key = some fault → (expander node site).1 = .error fault
  answers : ∀ node (site : Site κ σ) key, site.arena.key? node = some key →
    plan.failure key = none → ∃ expansion, (expander node site).1 = .ok expansion ∧
      plan.Shown key expansion (expander node site).2.arena

/-- A list of keys out of which no need leads. -/
def Encloses (plan : FalliblePlan κ ε) (scope : List κ) : Prop :=
  ∀ key ∈ scope, (∀ need ∈ plan.always key, need.target ∈ scope) ∧
    ∀ need ∈ plan.guarded key, need.target ∈ scope

namespace Governs

variable {plan : FalliblePlan κ ε} {expander : Expander κ σ ε}

theorem shown (h : plan.Governs expander) {node : Handle} {site : Site κ σ} {key : κ}
    {expansion : Expansion} (hkey : site.arena.key? node = some key)
    (hanswer : (expander node site).1 = .ok expansion) :
    plan.Shown key expansion (expander node site).2.arena := by
  cases hfailure : plan.failure key with
  | some fault =>
    have hfails := h.fails node site key fault hkey hfailure
    rw [hanswer] at hfails
    cases hfails
  | none =>
    obtain ⟨found, hfound, hshown⟩ := h.answers node site key hkey hfailure
    rw [hanswer] at hfound
    cases hfound
    exact hshown

theorem quiet (h : plan.Governs expander) : expander.Quiet where
  grows := h.grows
  names node site hknown expansion hanswer := by
    obtain ⟨key, hkey⟩ := Option.isSome_iff_exists.mp hknown
    exact (h.shown hkey hanswer).names

end Governs

end FalliblePlan

section Shown

variable {plan : Plan κ} {key : κ} {a b : Expansion} {left right : Arena κ}

/-- Two expansions that show the same needs are the same but for handles. -/
theorem Plan.Shown.alike (hleft : plan.Shown key a left) (hright : plan.Shown key b right) :
    Expansion.Alike (Arena.Same left right) a b where
  always := forall₂_comp hleft.always hright.always.flip fun _ need _ hfirst hsecond =>
    ⟨⟨need.target, hfirst.target, hsecond.target⟩, hfirst.reason.trans hsecond.reason.symm⟩
  guarded := forall₂_comp hleft.guarded hright.guarded.flip fun _ need _ hfirst hsecond =>
    ⟨⟨need.target, hfirst.target, hsecond.target⟩, ⟨need.guard, hfirst.guard, hsecond.guard⟩,
      hfirst.threshold.trans hsecond.threshold.symm, hfirst.reason.trans hsecond.reason.symm⟩

end Shown

section Abreast

variable [DecidableEq κ]

/-- The work on every key has come equally far, and nobody has cancelled it. -/
structure Site.Abreast (left right : Site κ σ) : Prop where
  arena : left.arena.Alike right.arena
  left : left.cancelled = false
  right : right.cancelled = false

theorem Site.kinship_abreast : Kinship (Site.Abreast : Site κ σ → Site κ σ → Prop) where
  arena _ _ h := h.arena
  cancelled _ _ h := h.left.trans h.right.symm
  rearrange _ _ _ _ h hleft hright harena :=
    ⟨harena, hleft.cancelled.trans h.left, hright.cancelled.trans h.right⟩

theorem FalliblePlan.Governs.respects {plan : FalliblePlan κ ε} {expander : Expander κ σ ε}
    (h : plan.Governs expander) : expander.Respects Site.Abreast := by
  intro left right a b habreast hsame
  have ha := hsame.isSome_left
  have hb := hsame.isSome_right
  obtain ⟨key, hkey, hkey'⟩ := hsame
  refine ⟨⟨habreast.arena.grows (h.grows a left ha) (h.grows b right hb), ?_, ?_⟩, ?_⟩
  · exact (h.cancelled a left ha).trans habreast.left
  · exact (h.cancelled b right hb).trans habreast.right
  cases hfailure : plan.failure key with
  | some fault =>
    rw [h.fails a left key fault hkey hfailure, h.fails b right key fault hkey' hfailure]
    exact .error trivial
  | none =>
    obtain ⟨expansion, hanswer, hshown⟩ := h.answers a left key hkey hfailure
    obtain ⟨expansion', hanswer', hshown'⟩ := h.answers b right key hkey' hfailure
    rw [hanswer, hanswer']
    exact .ok (hshown.alike hshown')

end Abreast

section Drawing

variable [DecidableEq κ]

def FalliblePlan.expander (plan : FalliblePlan κ ε) : Expander κ σ ε := fun node site =>
  match (site.arena.key? node).bind plan.failure with
  | some fault => (.error fault, site)
  | none => plan.toPlan.expander node site

/-- The expander that draws a plan is governed by it. -/
theorem FalliblePlan.governs_expander (plan : FalliblePlan κ ε) :
    plan.Governs (plan.expander : Expander κ σ ε) := by
  have hfails (node : Handle) (site : Site κ σ) (key : κ) (fault : ε)
      (hkey : site.arena.key? node = some key) (hfailure : plan.failure key = some fault) :
      plan.expander node site = (.error fault, site) := by
    rw [expander, hkey, Option.bind_some, hfailure]
  have hanswers (node : Handle) (site : Site κ σ) (key : κ)
      (hkey : site.arena.key? node = some key) (hfailure : plan.failure key = none) :
      ∃ expansion left, plan.expander node site = (.ok expansion, left) ∧
        site.arena.Grows left.arena ∧ left.cancelled = site.cancelled ∧
        plan.Shown key expansion left.arena := by
    rw [expander, hkey, Option.bind_some, hfailure]
    exact plan.toPlan.follows_expander node site key hkey
  have hkeeps (node : Handle) (site : Site κ σ) (hknown : (site.arena.key? node).isSome) :
      site.arena.Grows (plan.expander node site).2.arena ∧
        (plan.expander node site).2.cancelled = site.cancelled := by
    obtain ⟨key, hkey⟩ := Option.isSome_iff_exists.mp hknown
    cases hfailure : plan.failure key with
    | some fault =>
      rw [hfails node site key fault hkey hfailure]
      exact ⟨Arena.Grows.refl _, rfl⟩
    | none =>
      obtain ⟨_, _, hanswer, hgrows, hcancelled, _⟩ := hanswers node site key hkey hfailure
      rw [hanswer]
      exact ⟨hgrows, hcancelled⟩
  exact {
    grows := fun node site hknown => (hkeeps node site hknown).1
    cancelled := fun node site hknown => (hkeeps node site hknown).2
    fails := fun node site key fault hkey hfailure => by
      rw [hfails node site key fault hkey hfailure]
    answers := fun node site key hkey hfailure => by
      obtain ⟨expansion, left, hanswer, _, _, hshown⟩ := hanswers node site key hkey hfailure
      rw [hanswer]
      exact ⟨expansion, rfl, hshown⟩ }

end Drawing

namespace Analysis

/-- The analysis of a site with some roots, before its first round. -/
def ofRoots (site : Site κ σ) (roots : List Handle) : Analysis κ σ :=
  ({ toSite := site } : Analysis κ σ).markEach roots

section Enclosing

variable {plan : FalliblePlan κ ε} {expander : Expander κ σ ε} {first : Arena κ}
  {roots : List Handle} {visits : List (Visit κ σ)} {analysis : Analysis κ σ} {scope : List κ}

/-- There are no more visits than keys in a scope that encloses the roots. -/
theorem Accounts.length_visits_le (hgoverns : plan.Governs expander)
    (h : Accounts expander first roots visits [] analysis) (hscope : plan.Encloses scope)
    (hroots : ∀ root ∈ roots, ∀ key, analysis.arena.key? root = some key → key ∈ scope) :
    visits.length ≤ scope.length := by
  have hshown : ∀ visit ∈ visits, ∃ key, analysis.arena.key? visit.node = some key ∧
      plan.Shown key visit.expansion analysis.arena := by
    intro visit hvisit
    obtain ⟨key, hkey⟩ := Option.isSome_iff_exists.mp (h.sources.known visit hvisit)
    have hanswer := h.sources.answered visit hvisit
    have hshown := hgoverns.shown hkey (congrArg Prod.fst hanswer)
    have hgrows := hgoverns.grows visit.node visit.before (h.sources.known visit hvisit)
    have hkept := h.sources.kept visit hvisit
    rw [hanswer] at hshown hgrows
    exact ⟨key, hkept _ _ (hgrows.keeps _ _ hkey), hshown.mono hkept⟩
  have hcovers : Covers {node | ∀ key, analysis.arena.key? node = some key → key ∈ scope}
      roots visits := by
    refine ⟨hroots, ?_, ?_⟩
    · intro visit hvisit hnode dependency hmem key hkey
      obtain ⟨source, hsource, hvisited⟩ := hshown visit hvisit
      obtain ⟨need, hneed, hshows⟩ := exists_of_mem_left hvisited.always hmem
      obtain rfl := Option.some.inj (hkey.symm.trans hshows.target)
      exact (hscope source (hnode source hsource)).1 need hneed
    · intro visit hvisit hnode deferred hmem _ key hkey
      obtain ⟨source, hsource, hvisited⟩ := hshown visit hvisit
      obtain ⟨need, hneed, hshows⟩ :=
        exists_of_mem_left hvisited.guarded (Visit.mem_deferred.mp hmem).2
      obtain rfl := Option.some.inj (hkey.symm.trans hshows.target)
      exact (hscope source (hnode source hsource)).2 need hneed
  refine h.tally.length_visits_le_of_mem fun visit hvisit => ?_
  obtain ⟨key, hkey, _⟩ := hshown visit hvisit
  have hmarked := h.tally.isMarked_of_visit hvisit
  exact ⟨key, h.grounds.least _ hcovers visit.node hmarked key hkey, hkey⟩

end Enclosing

theorem exists_keyed_of_alike {left right : Arena κ} {edges edges' : List Edge}
    (h : List.Forall₂ (Edge.Alike (Arena.Same left right)) edges edges') :
    ∃ keyed : List (KeyedEdge κ), edges.map left.keyed? = keyed.map some ∧
      edges'.map right.keyed? = keyed.map some := by
  induction h with
  | nil => exact ⟨[], rfl, rfl⟩
  | @cons edge edge' _ _ hedge _ ih =>
    obtain ⟨keyed, hleft, hright⟩ := ih
    obtain ⟨source, hsource, hsource'⟩ := hedge.source
    obtain ⟨target, htarget, htarget'⟩ := hedge.target
    refine ⟨⟨source, target, edge.reason⟩ :: keyed, ?_, ?_⟩
    · rw [List.map_cons, List.map_cons, hleft, Arena.keyed?_eq hsource htarget]
    · rw [List.map_cons, List.map_cons, hright, Arena.keyed?_eq hsource' htarget', hedge.reason]

/-- The ends of two analyses agree in everything that can be said without handles. -/
structure Indistinct [DecidableEq κ] (left right : Verdict ε × Analysis κ σ) : Prop where
  verdict : left.1 = right.1
  marked : ∀ key, key ∈ left.2.arena.markedKeys ↔ key ∈ right.2.arena.markedKeys
  stage : ∀ key, left.2.arena.stage key = right.2.arena.stage key
  counts : left.2.counts = right.2.counts
  edges : ∃ edges : List (KeyedEdge κ),
    left.2.edges.map left.2.arena.keyed? = edges.map some ∧
      right.2.edges.map right.2.arena.keyed? = edges.map some

section Renumbering

variable [DecidableEq κ] [LE κ] [DecidableLE κ] [Std.IsLinearOrder κ] {plan : FalliblePlan κ ε}
  {expander : Expander κ σ ε} {site site' : Site κ σ} {nodes nodes' : List Handle}
  {roots roots' : List κ}

/-- With an expander that answers by keys, two sites where nothing is marked, whatever nodes they
have and in whatever order, and the same roots, in whatever order and however often, lead to one end.
It is completion or a fault, and it is reached if finitely many keys enclose the roots. -/
theorem indistinct_of_governs (hgoverns : plan.Governs expander)
    (hunmarked : ∀ node, site.arena.progress node = .unmarked)
    (hunmarked' : ∀ node, site'.arena.progress node = .unmarked)
    (hcancelled : site.cancelled = false) (hcancelled' : site'.cancelled = false)
    (hnodes : nodes.map site.arena.key? = roots.map some)
    (hnodes' : nodes'.map site'.arena.key? = roots'.map some)
    (hroots : ∀ key, key ∈ roots ↔ key ∈ roots') (bound : Nat) :
    Indistinct ((ofRoots site nodes).saturate expander bound)
      ((ofRoots site' nodes').saturate expander bound) ∧
    (((ofRoots site nodes).saturate expander bound).1 ≠ .exhausted →
      ((ofRoots site nodes).saturate expander bound).1 = .completed ∨
        ∃ fault, ((ofRoots site nodes).saturate expander bound).1 = .failed fault) ∧
    ∀ scope, plan.Encloses scope → roots ⊆ scope → scope.length < bound →
      ((ofRoots site nodes).saturate expander bound).1 ≠ .exhausted := by
  have hleft : Listed roots (ofRoots site nodes) := (Listed.initial hunmarked).markEach hnodes
  have hright : Listed roots (ofRoots site' nodes') :=
    ((Listed.initial hunmarked').markEach hnodes').congr hroots
  obtain ⟨_, _, hspread⟩ := spread_markEach ({ toSite := site } : Analysis κ σ) nodes
  obtain ⟨_, _, hspread'⟩ := spread_markEach ({ toSite := site' } : Analysis κ σ) nodes'
  have habreast : (ofRoots site nodes).toSite.Abreast (ofRoots site' nodes').toSite :=
    ⟨hleft.alike_arena hright, hspread.cancelled.trans hcancelled,
      hspread'.cancelled.trans hcancelled'⟩
  obtain ⟨hverdict, hafter⟩ := (hleft.alike hright habreast).saturate Site.kinship_abreast
    hgoverns.quiet hgoverns.respects hleft.idle hright.idle bound
  have harena := hafter.site.arena
  refine ⟨⟨hverdict, fun key => ?_, harena, hafter.counts,
    exists_keyed_of_alike hafter.edges⟩, ?_, ?_⟩
  · exact harena.marked_iff
  · intro hreturns
    have hstopped := @cancelled_of_saturate _ _ _ (ofRoots site nodes) expander _ _ bound
    cases hend : ((ofRoots site nodes).saturate expander bound).1 with
    | completed => exact .inl rfl
    | failed fault => exact .inr ⟨fault, rfl⟩
    | exhausted => exact absurd hend hreturns
    | cancelled =>
      rw [hafter.site.left] at hstopped
      exact absurd (hstopped hend) Bool.false_ne_true
  · intro scope hscope hinside hbound
    have hknown : ∀ node ∈ nodes, ∃ key ∈ roots, site.arena.key? node = some key := by
      intro node hnode
      have hmem : site.arena.key? node ∈ roots.map some := hnodes ▸ List.mem_map_of_mem hnode
      obtain ⟨key, hkey, heq⟩ := List.mem_map.mp hmem
      exact ⟨key, hkey, heq.symm⟩
    have haccounts := (Accounts.initial expander hunmarked).spread hspread fun node hnode => by
      obtain ⟨key, _, hkey⟩ := hknown node hnode
      rw [hkey]
      rfl
    refine haccounts.saturate_ne_exhausted
      (I := fun analysis => site.arena.Keeps analysis.arena) hgoverns.quiet ?_ ?_ hleft.idle
      hspread.keeps (by rwa [List.length_nil, Nat.zero_add])
    · intro _ _ _ hbefore hkept hround
      obtain ⟨_, _, _, hkeeps⟩ := hbefore.round hgoverns.quiet hround
      exact hkept.trans hkeeps
    · intro visits analysis hbefore hkept
      refine hbefore.length_visits_le hgoverns hscope fun node hnode key hkey => ?_
      obtain ⟨found, hfound, hsite⟩ := hknown node hnode
      obtain rfl := Option.some.inj (hkey.symm.trans (hkept _ _ hsite))
      exact hinside hfound

end Renumbering

section Ring

/-- The ring, with a sentinel that cannot be expanded. -/
def brittleRing : FalliblePlan Nat String :=
  { ringPlan with failure := fun key => if key = 2 then some "brittle" else none }

/-- A site with nodes for some keys, in their order. -/
def ringSite (keys : List Nat) : Site Nat Unit :=
  { arena := ((∅ : Arena Nat).internEach keys).2, store := () }

theorem progress_ringSite (keys : List Nat) (node : Handle) :
    (ringSite keys).arena.progress node = .unmarked :=
  (Arena.Grows.internEach ∅ keys).progress node

/-- Two sites with other nodes in another order, and the roots in another order. -/
theorem indistinct_brittleRing :
    Indistinct ((ofRoots (ringSite [0, 1]) [⟨0⟩, ⟨1⟩]).saturate brittleRing.expander 5)
      ((ofRoots (ringSite [4, 1, 0]) [⟨1⟩, ⟨2⟩, ⟨1⟩]).saturate brittleRing.expander 5) ∧
    (((ofRoots (ringSite [0, 1]) [⟨0⟩, ⟨1⟩]).saturate brittleRing.expander 5).1 = .completed ∨
      ∃ fault, ((ofRoots (ringSite [0, 1]) [⟨0⟩, ⟨1⟩]).saturate brittleRing.expander 5).1 =
        .failed fault) := by
  have hnodes : [⟨0⟩, ⟨1⟩].map (ringSite [0, 1]).arena.key? = [0, 1].map some := by
    decide +kernel
  have hnodes' : [⟨1⟩, ⟨2⟩, ⟨1⟩].map (ringSite [4, 1, 0]).arena.key? = [1, 0, 1].map some := by
    decide +kernel
  obtain ⟨hsame, hend, hreturns⟩ := indistinct_of_governs brittleRing.governs_expander
    (progress_ringSite [0, 1]) (progress_ringSite [4, 1, 0]) rfl rfl hnodes hnodes'
    (by simp [or_comm]) 5
  have hscope : brittleRing.Encloses [0, 1, 2, 3] := by
    unfold FalliblePlan.Encloses
    decide
  exact ⟨hsame, hend (hreturns [0, 1, 2, 3] hscope (by decide) (by decide))⟩

end Ring

end Analysis

end PortableImage.Graph
