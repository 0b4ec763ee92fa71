import PortableImage.Proofs.Graph.Carrying
/-!
# Termination

As long as only the analysis itself moves work forward, it looks at each guard at the right moment:
a dependency that is pending is never one that could fire.  Such an analysis is *idle* between two
steps, a rescan finds nothing to do, and each round expands a node that was never expanded before.
So if the keys of all nodes come from a finite list, the length of the list bounds the number of
rounds.
-/

namespace PortableImage.Graph

variable {κ σ ε : Type}

/-- Nodes that are listed once and have keys from a list are no more than the list is long. -/
theorem Arena.length_le_of_key? {arena : Arena κ} {nodes : List Handle} (honce : nodes.Nodup)
    {scope : List κ} (hscope : ∀ node ∈ nodes, ∃ key ∈ scope, arena.key? node = some key) :
    nodes.length ≤ scope.length := by
  have hsubset : nodes.map arena.key? ⊆ scope.map some := by
    intro key? hkey?
    obtain ⟨node, hnode, rfl⟩ := List.mem_map.mp hkey?
    obtain ⟨key, hinside, hkey⟩ := hscope node hnode
    exact List.mem_map.mpr ⟨key, hinside, hkey.symm⟩
  have hdistinct : (nodes.map arena.key?).Nodup := by
    refine honce.map_on fun a ha b _ heq => ?_
    obtain ⟨key, _, hkey⟩ := hscope a ha
    exact Arena.eq_of_key? hkey (heq ▸ hkey)
  have hle := (List.subperm_of_subset hdistinct hsubset).length_le
  rwa [List.length_map, List.length_map] at hle

namespace Analysis

/-- Nothing that is pending could fire. -/
def Idle (analysis : Analysis κ σ) : Prop :=
  ∀ deferred ∈ analysis.pending, analysis.satisfied deferred.dependency = false

variable {analysis : Analysis κ σ} {node : Handle}

theorem satisfied_congr {other : Analysis κ σ} {dependency : GuardedDependency}
    (h : other.arena.progress dependency.guard = analysis.arena.progress dependency.guard) :
    other.satisfied dependency = analysis.satisfied dependency := by
  rw [satisfied, satisfied, h]

/-- After the work on one node has moved forward, only what waits for that node could fire. -/
theorem Idle.fireAt {moved : Analysis κ σ} (h : analysis.Idle)
    (hpending : moved.pending = analysis.pending)
    (hprogress : ∀ other ≠ node, moved.arena.progress other = analysis.arena.progress other) :
    (moved.fireAt node).2.Idle := by
  intro deferred hmem
  obtain ⟨hmem, hstays⟩ := List.mem_filter.mp hmem
  rw [hpending] at hmem
  show moved.satisfied deferred.dependency = false
  by_cases hguard : deferred.guard = node
  · rw [firesAt, hguard] at hstays
    simpa using hstays
  · rw [satisfied_congr (hprogress _ hguard)]
    exact h deferred hmem

theorem progress_raise_of_ne (arena : Arena κ) {node other : Handle} (h : other ≠ node)
    (progress : Progress) : (arena.raise node progress).progress other = arena.progress other := by
  rw [Arena.progress_raise, if_neg]
  rintro ⟨rfl, _⟩
  exact h rfl

theorem Idle.markAll (h : analysis.Idle) (stack : List Handle) : (analysis.markAll stack).Idle := by
  fun_induction Analysis.markAll analysis stack with
  | case1 analysis => exact h
  | case2 analysis node stack hfresh fired ih =>
    apply ih
    exact h.fireAt rfl fun other hother =>
      progress_raise_of_ne analysis.arena hother .marked
  | case3 analysis node stack hfresh ih => exact ih h

theorem Idle.markEach (h : analysis.Idle) (nodes : List Handle) : (analysis.markEach nodes).Idle := by
  induction nodes generalizing analysis with
  | nil => exact h
  | cons node nodes ih => exact ih (h.markAll [node])

theorem Idle.consider (h : analysis.Idle) (source : Handle) (dependency : GuardedDependency) :
    (Analysis.consider source analysis dependency).Idle := by
  unfold Analysis.consider
  by_cases hsatisfied : analysis.satisfied dependency
  · rw [if_pos hsatisfied]
    have hfired : (analysis.fire [⟨source, dependency⟩]).Idle := h
    exact hfired.markAll _
  · rw [if_neg hsatisfied]
    intro deferred hmem
    rcases List.mem_append.mp hmem with hmem | hmem
    · exact h deferred hmem
    · rw [List.mem_singleton.mp hmem]
      exact Bool.eq_false_iff.mpr hsatisfied

theorem Idle.considerEach (h : analysis.Idle) (source : Handle)
    (dependencies : List GuardedDependency) :
    (dependencies.foldl (Analysis.consider source) analysis).Idle := by
  induction dependencies generalizing analysis with
  | nil => exact h
  | cons dependency dependencies ih => exact ih (h.consider source dependency)

theorem Idle.absorb (h : analysis.Idle) (node : Handle) (expansion : Expansion) :
    (analysis.absorb node expansion).Idle := by
  have hconsidered := (h.markEach (expansion.always.map Dependency.target)).considerEach node
    expansion.guarded
  apply Idle.markEach
  refine hconsidered.fireAt rfl fun other hother => ?_
  rw [conclude, progress_raise_of_ne _ hother, Arena.progress_recordDependencies]

theorem Idle.settle (h : analysis.Idle) (attempts : List (Handle × Attempt ε)) :
    (analysis.settle attempts).2.Idle := by
  fun_induction Analysis.settle analysis attempts with
  | case1 | case2 | case3 => exact h
  | case4 analysis node expansion later ih => exact ih (h.absorb node expansion)

/-- A rescan of an idle analysis changes nothing but the number of rescans. -/
theorem Idle.rescan (h : analysis.Idle) :
    analysis.rescan = (0, { analysis with rescanCount := analysis.rescanCount + 1 }) := by
  have hready : analysis.pending.filter (fun deferred => analysis.satisfied deferred.dependency) =
      [] := by
    rw [List.filter_eq_nil_iff]
    intro deferred hmem
    rw [h deferred hmem]
    exact Bool.false_ne_true
  have hrest : analysis.pending.filter (fun deferred => !analysis.satisfied deferred.dependency) =
      analysis.pending := by
    rw [List.filter_eq_self]
    intro deferred hmem
    rw [h deferred hmem]
    rfl
  simp only [Analysis.rescan, hready, hrest, List.mergeSort_nil, List.map_nil, List.length_nil,
    Analysis.markEach, List.foldl_nil, fire, List.append_nil, Nat.add_zero]

theorem settle_ne_exhausted (analysis : Analysis κ σ) (attempts : List (Handle × Attempt ε)) :
    (analysis.settle attempts).1 ≠ some .exhausted := by
  fun_induction Analysis.settle analysis attempts with
  | case1 | case2 | case3 => simp
  | case4 _ _ _ _ ih => exact ih

section Rounds

variable {expander : Expander κ σ ε}

theorem grows_expandBatch (hquiet : expander.Quiet) {batch : List Handle} {site : Site κ σ}
    (hknown : ∀ node ∈ batch, (site.arena.key? node).isSome) :
    site.arena.Grows (expandBatch expander batch site).2.arena := by
  induction batch generalizing site with
  | nil => exact Arena.Grows.refl _
  | cons node batch ih =>
    have hfirst := hquiet.grows node site (hknown node List.mem_cons_self)
    have hrest {left : Site κ σ} (hleft : site.arena.Grows left.arena) :
        site.arena.Grows (expandBatch expander batch left).2.arena :=
      hleft.trans (ih fun other hother =>
        hleft.keeps.isSome (hknown other (List.mem_cons_of_mem _ hother)))
    rw [expandBatch]
    by_cases hcancelled : site.cancelled
    · rw [if_pos hcancelled]
      exact hrest (Arena.Grows.refl _)
    · rw [if_neg hcancelled]
      cases hanswer : expander node site with
      | mk answer left =>
        rw [hanswer] at hfirst
        cases answer <;> exact hrest hfirst

theorem surveys_ne_nil {batch : List Handle} {site : Site κ σ} (hbatch : batch ≠ [])
    (hcancelled : ¬ site.cancelled) : surveys expander batch site ≠ [] := by
  cases batch with
  | nil => exact absurd rfl hbatch
  | cons node batch =>
    rw [surveys, if_neg hcancelled]
    exact List.cons_ne_nil _ _

variable {first : Arena κ} {roots batch : List Handle} {visits : List (Visit κ σ)}

/-- Each visit has a key of its own. -/
theorem Tally.length_visits_le_of_mem (h : Tally visits batch analysis) {scope : List κ}
    (hmem : ∀ visit ∈ visits, ∃ key ∈ scope, analysis.arena.key? visit.node = some key) :
    visits.length ≤ scope.length := by
  have hkeyed : ∀ node ∈ visits.map Visit.node,
      ∃ key ∈ scope, analysis.arena.key? node = some key := by
    intro node hnode
    obtain ⟨visit, hvisit, rfl⟩ := List.mem_map.mp hnode
    exact hmem visit hvisit
  rw [← List.length_map Visit.node]
  exact Arena.length_le_of_key? h.visited_once hkeyed

/-- There are no more visits than keys. -/
theorem Tally.length_visits_le (h : Tally visits [] analysis) {scope : List κ}
    (hscope : ∀ node key, analysis.arena.key? node = some key → key ∈ scope) :
    visits.length ≤ scope.length := by
  refine h.length_visits_le_of_mem fun visit hvisit => ?_
  have hmarked := h.isMarked_of_visit hvisit
  obtain ⟨key, hkey⟩ := Option.isSome_iff_exists.mp (Arena.isSome_key?_of_isMarked hmarked)
  exact ⟨key, hscope visit.node key hkey, hkey⟩

variable [LE κ] [DecidableLE κ]

theorem Idle.round (hquiet : expander.Quiet) (hidle : analysis.Idle)
    (hknown : ∀ node ∈ analysis.batch, (analysis.arena.key? node).isSome) :
    (analysis.round expander).2.Idle := by
  have hgrows := grows_expandBatch hquiet hknown
  apply Idle.settle
  intro deferred hmem
  rw [← hidle deferred hmem]
  exact satisfied_congr (hgrows.progress _)

/-- If the visits of an analysis cannot be more than a capacity, as many rounds are enough, with one
more to see that nothing is left. -/
theorem Accounts.saturate_ne_exhausted (hquiet : expander.Quiet) {I : Analysis κ σ → Prop}
    {capacity : Nat}
    (hround : ∀ visits analysis next, Accounts expander first roots visits [] analysis →
      I analysis → analysis.round expander = (none, next) → I next)
    (hcapacity : ∀ visits analysis, Accounts expander first roots visits [] analysis →
      I analysis → visits.length ≤ capacity)
    (h : Accounts expander first roots visits [] analysis) (hidle : analysis.Idle)
    (hanalysis : I analysis) {bound : Nat} (hbound : capacity < visits.length + bound) :
    (analysis.saturate expander bound).1 ≠ .exhausted := by
  induction bound generalizing visits analysis with
  | zero =>
    have hle := hcapacity _ _ h hanalysis
    omega
  | succ bound ih =>
    rw [Analysis.saturate]
    by_cases hworklist : analysis.worklist.isEmpty
    · rw [if_pos hworklist, hidle.rescan]
      simp
    · rw [if_neg hworklist]
      by_cases hcancelled : analysis.cancelled
      · rw [if_pos hcancelled]
        simp
      · rw [if_neg hcancelled]
        have hafter := hidle.round hquiet fun _ => h.tally.isSome_key?_of_batch
        cases hanswer : analysis.round expander with
        | mk verdict next =>
          rw [hanswer] at hafter
          cases verdict with
          | some verdict =>
            rintro rfl
            exact settle_ne_exhausted _ _ (congrArg Prod.fst hanswer)
          | none =>
            obtain ⟨later, hsurveys, hnext, _⟩ := h.round hquiet hanswer
            have hbatch : analysis.batch ≠ [] := by
              intro hnil
              have hlength := h.tally.batch_perm.length_eq
              rw [hnil] at hlength
              exact hworklist (List.isEmpty_iff.mpr (List.length_eq_zero_iff.mp hlength.symm))
            have hlater : 0 < later.length := by
              rw [← List.length_map Visit.survey, hsurveys]
              exact List.length_pos_iff.mpr (surveys_ne_nil hbatch hcancelled)
            apply ih hnext hafter (hround _ _ _ h hanalysis hanswer)
            rw [List.length_append]
            omega

/-- If all keys come from a list, there are no more rounds than the list is long, but for the last. -/
theorem Accounts.saturate_ne_exhausted_of_scope (hquiet : expander.Quiet) {I : Site κ σ → Prop}
    (hkeeps : expander.Keeps I) {scope : List κ}
    (hscope : ∀ site, I site → ∀ node key, site.arena.key? node = some key → key ∈ scope)
    (h : Accounts expander first roots visits [] analysis) (hidle : analysis.Idle)
    (hsite : I analysis.toSite) {bound : Nat} (hbound : scope.length < visits.length + bound) :
    (analysis.saturate expander bound).1 ≠ .exhausted := by
  refine h.saturate_ne_exhausted (I := fun analysis => I analysis.toSite) hquiet ?_ ?_ hidle hsite
    hbound
  · intro _ analysis next _ hkept hanswer
    have hafter : I (analysis.round expander).2.toSite := hkeeps.round hkept
    rwa [hanswer] at hafter
  · exact fun _ _ haccounts hkept => haccounts.tally.length_visits_le (hscope _ hkept)

end Rounds

section Cancellation

variable {expander : Expander κ σ ε}

/-- Once a batch is cancelled, no more of it is expanded. -/
theorem expandBatch_of_cancelled {site : Site κ σ} (h : site.cancelled) (batch : List Handle) :
    (expandBatch expander batch site).2 = site := by
  induction batch with
  | nil => rfl
  | cons node batch ih =>
    rw [expandBatch, if_pos h]
    exact ih

theorem cancelled_of_skipped {batch : List Handle} {site : Site κ σ} {node : Handle}
    (h : (node, .skipped) ∈ (expandBatch expander batch site).1) :
    (expandBatch expander batch site).2.cancelled := by
  induction batch generalizing site with
  | nil => cases h
  | cons first batch ih =>
    by_cases hcancelled : site.cancelled
    · rw [expandBatch_of_cancelled hcancelled]
      exact hcancelled
    · rw [expandBatch, if_neg hcancelled] at h ⊢
      cases hanswer : expander first site with
      | mk answer left =>
        rw [hanswer] at h
        have hlater {attempt : Attempt ε} {rest : List (Handle × Attempt ε)}
            (hattempt : attempt ≠ .skipped) (hmem : (node, .skipped) ∈ (first, attempt) :: rest) :
            (node, .skipped) ∈ rest := by
          rcases List.mem_cons.mp hmem with heq | hrest
          · exact absurd (Prod.mk.inj heq).2.symm hattempt
          · exact hrest
        cases answer with
        | ok expansion => exact ih (hlater (by simp) h)
        | error fault => exact ih (hlater (by simp) h)

theorem settle_eq_cancelled {attempts : List (Handle × Attempt ε)}
    (h : (analysis.settle attempts).1 = some .cancelled) : ∃ node, (node, .skipped) ∈ attempts := by
  fun_induction Analysis.settle analysis attempts with
  | case1 => cases h
  | case2 => exact ⟨_, List.mem_cons_self⟩
  | case3 => cases h
  | case4 _ _ _ _ ih =>
    obtain ⟨node, hnode⟩ := ih h
    exact ⟨node, List.mem_cons_of_mem _ hnode⟩

variable [LE κ] [DecidableLE κ]

theorem cancelled_of_round (h : (analysis.round expander).1 = some .cancelled) :
    (analysis.round expander).2.cancelled := by
  unfold Analysis.round at h ⊢
  obtain ⟨node, hnode⟩ := settle_eq_cancelled h
  rw [(rearranges_settle ..).cancelled]
  exact cancelled_of_skipped hnode

/-- An analysis that says it was cancelled was. -/
theorem cancelled_of_saturate {bound : Nat}
    (h : (analysis.saturate expander bound).1 = .cancelled) :
    (analysis.saturate expander bound).2.cancelled := by
  induction bound generalizing analysis with
  | zero => cases h
  | succ bound ih =>
    rw [Analysis.saturate] at h ⊢
    by_cases hworklist : analysis.worklist.isEmpty
    · rw [if_pos hworklist] at h ⊢
      by_cases hzero : analysis.rescan.1 = 0
      · simp only [if_pos hzero] at h
        cases h
      · simp only [if_neg hzero] at h ⊢
        exact ih h
    · rw [if_neg hworklist] at h ⊢
      by_cases hcancelled : analysis.cancelled
      · rw [if_pos hcancelled]
        exact hcancelled
      · rw [if_neg hcancelled] at h ⊢
        have hround := @cancelled_of_round κ σ ε analysis expander _ _
        cases hnext : analysis.round expander with
        | mk answer next =>
          rw [hnext] at h hround
          cases answer with
          | none => exact ih h
          | some verdict => exact hround (congrArg some h)

end Cancellation

end Analysis

end PortableImage.Graph
