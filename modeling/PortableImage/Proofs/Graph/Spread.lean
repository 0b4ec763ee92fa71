import PortableImage.Graph.Marking
import PortableImage.Proofs.Graph.Growth
import Mathlib.Data.List.Perm.Basic
/-!
# How marking spreads

Everything an analysis does between two expansions is of one kind: nodes that are due get marked,
guarded dependencies fire whose guards have come far enough, and what they lead to gets marked in
turn.  `Spread` says once what such a step does to every part of an analysis.  The spreads of the
single operations follow, up to the two that make up the absorption of an expansion.
-/

namespace PortableImage.Graph

variable {κ σ : Type}

def Expansion.edges (expansion : Expansion) (node : Handle) : List Edge :=
  expansion.always.map fun dependency => Edge.mk node dependency.target dependency.reason

def Expansion.deferred (expansion : Expansion) (node : Handle) : List Deferred :=
  expansion.guarded.map (Deferred.mk node)

theorem Progress.unmarked_le (progress : Progress) : Progress.unmarked ≤ progress :=
  Nat.zero_le _

theorem Progress.le_trans {a b c : Progress} (hab : a ≤ b) (hbc : b ≤ c) : a ≤ c :=
  Nat.le_trans hab hbc

/-- What fires out of a list in two steps, where more is found in between. -/
theorem perm_of_perm_of_perm {α : Type} {first middle found last fired fired' : List α}
    (hfirst : first.Perm (fired ++ middle)) (hsecond : (middle ++ found).Perm (fired' ++ last)) :
    (first ++ found).Perm ((fired ++ fired') ++ last) := by
  calc first ++ found
      |>.Perm ((fired ++ middle) ++ found) := hfirst.append_right _
    _ = fired ++ (middle ++ found) := List.append_assoc ..
    _ |>.Perm (fired ++ (fired' ++ last)) := hsecond.append_left _
    _ = (fired ++ fired') ++ last := (List.append_assoc ..).symm

namespace Analysis

/-- Whether a dependency of an analysis may fire once the nodes of a set are marked. -/
def MayFire (before : Analysis κ σ) (S : Set Handle) (deferred : Deferred) : Prop :=
  deferred.dependency.threshold ≤ before.arena.progress deferred.guard ∨
    deferred.guard ∈ S ∧ deferred.dependency.threshold ≤ .marked

/-- Marking has spread from nodes that were due and dependencies that were found: which nodes it
has entered, and which dependencies have fired. -/
structure Spread (due : List Handle) (found : List Deferred) (before after : Analysis κ σ)
    (entered : List Handle) (fired : List Deferred) : Prop where
  key? : ∀ node, after.arena.key? node = before.arena.key? node
  recorded? : ∀ node, after.arena.recorded? node = before.arena.recorded? node
  progress : ∀ node, after.arena.progress node =
    if node ∈ entered then .marked else before.arena.progress node
  fresh : ∀ node ∈ entered, before.arena.isFresh node
  nodup : entered.Nodup
  cancelled : after.cancelled = before.cancelled
  store : after.store = before.store
  worklist : after.worklist = before.worklist ++ entered
  edges : after.edges = before.edges ++ fired.map Deferred.edge
  pending : (before.pending ++ found).Perm (fired ++ after.pending)
  markedCount : after.markedCount = before.markedCount + entered.length
  expandedCount : after.expandedCount = before.expandedCount
  reached : ∀ node ∈ due, after.arena.isFresh node = false
  satisfied : ∀ deferred ∈ fired, after.satisfied deferred.dependency
  led : ∀ deferred ∈ fired, after.arena.isFresh deferred.target = false
  /-- Nothing is marked without need. -/
  least : ∀ S : Set Handle, (∀ node ∈ due, node ∈ S) →
    (∀ deferred ∈ before.pending ++ found, before.MayFire S deferred → deferred.target ∈ S) →
    ∀ node ∈ entered, node ∈ S

namespace Spread

variable {due due' : List Handle} {found found' fired fired' : List Deferred}
  {entered entered' : List Handle} {before middle after : Analysis κ σ}

theorem progress_le (h : Spread due found before after entered fired) (node : Handle) :
    before.arena.progress node ≤ after.arena.progress node := by
  rw [h.progress]
  split
  · rename_i hnode
    rw [(Arena.isFresh_iff.mp (h.fresh node hnode)).2]
    exact Progress.unmarked_le _
  · exact Nat.le_refl _

theorem satisfied_of_satisfied (h : Spread due found before after entered fired)
    {dependency : GuardedDependency} (hbefore : before.satisfied dependency) :
    after.satisfied dependency := by
  simp only [Analysis.satisfied, decide_eq_true_eq] at hbefore ⊢
  exact Progress.le_trans hbefore (h.progress_le _)

theorem not_isFresh (h : Spread due found before after entered fired) {node : Handle}
    (hbefore : before.arena.isFresh node = false) : after.arena.isFresh node = false := by
  rw [← Bool.not_eq_true, Arena.isFresh_iff] at hbefore ⊢
  rintro ⟨hknown, hprogress⟩
  rw [h.key?] at hknown
  rw [h.progress] at hprogress
  split at hprogress
  · cases hprogress
  · exact hbefore ⟨hknown, hprogress⟩

/-- What may fire after a spread into a set might have done so before it. -/
theorem mayFire (h : Spread due found before after entered fired) {S : Set Handle}
    (hentered : ∀ node ∈ entered, node ∈ S) {deferred : Deferred}
    (hfires : after.MayFire S deferred) : before.MayFire S deferred := by
  rcases hfires with hthreshold | hguard
  · rw [h.progress] at hthreshold
    split at hthreshold
    · rename_i hguard
      exact .inr ⟨hentered _ hguard, hthreshold⟩
    · exact .inl hthreshold
  · exact .inr hguard

/-- Nothing has happened where everything that was due had been reached before. -/
theorem refl (hdue : ∀ node ∈ due, before.arena.isFresh node = false) :
    Spread due [] before before [] [] where
  key? _ := rfl
  recorded? _ := rfl
  progress _ := rfl
  fresh _ hnode := by cases hnode
  nodup := List.nodup_nil
  cancelled := rfl
  store := rfl
  worklist := (List.append_nil _).symm
  edges := (List.append_nil _).symm
  pending := by simp
  markedCount := rfl
  expandedCount := rfl
  reached := hdue
  satisfied _ hfired := by cases hfired
  led _ hfired := by cases hfired
  least _ _ _ _ hnode := by cases hnode

theorem trans (first : Spread due found before middle entered fired)
    (second : Spread due' found' middle after entered' fired') :
    Spread (due ++ due') (found ++ found') before after (entered ++ entered')
      (fired ++ fired') where
  key? node := (second.key? node).trans (first.key? node)
  recorded? node := (second.recorded? node).trans (first.recorded? node)
  progress node := by
    rw [second.progress, first.progress]
    by_cases h : node ∈ entered <;> by_cases h' : node ∈ entered' <;> simp [h, h']
  fresh node hnode := by
    rcases List.mem_append.mp hnode with hnode | hnode
    · exact first.fresh node hnode
    · rw [← Bool.not_eq_false]
      intro hfalse
      have hfresh := second.fresh node hnode
      rw [first.not_isFresh hfalse] at hfresh
      cases hfresh
  nodup := by
    refine List.nodup_append.mpr ⟨first.nodup, second.nodup, ?_⟩
    rintro node hnode _ hnode' rfl
    have hprogress := (Arena.isFresh_iff.mp (second.fresh node hnode')).2
    rw [first.progress, if_pos hnode] at hprogress
    cases hprogress
  cancelled := second.cancelled.trans first.cancelled
  store := second.store.trans first.store
  worklist := by rw [second.worklist, first.worklist, List.append_assoc]
  edges := by rw [second.edges, first.edges, List.map_append, List.append_assoc]
  pending := by
    rw [← List.append_assoc]
    exact perm_of_perm_of_perm first.pending second.pending
  markedCount := by
    rw [second.markedCount, first.markedCount, List.length_append, Nat.add_assoc]
  expandedCount := second.expandedCount.trans first.expandedCount
  reached node hnode := by
    rcases List.mem_append.mp hnode with hnode | hnode
    · exact second.not_isFresh (first.reached node hnode)
    · exact second.reached node hnode
  satisfied deferred hfired := by
    rcases List.mem_append.mp hfired with hfired | hfired
    · exact second.satisfied_of_satisfied (first.satisfied deferred hfired)
    · exact second.satisfied deferred hfired
  led deferred hfired := by
    rcases List.mem_append.mp hfired with hfired | hfired
    · exact second.not_isFresh (first.led deferred hfired)
    · exact second.led deferred hfired
  least S hdue hclosed := by
    rw [← List.append_assoc] at hclosed
    have hfirst : ∀ node ∈ entered, node ∈ S := by
      apply first.least S
      · exact fun node hnode => hdue node (List.mem_append_left _ hnode)
      · exact fun deferred hmem => hclosed deferred (List.mem_append_left _ hmem)
    have hsecond : ∀ node ∈ entered', node ∈ S := by
      apply second.least S
      · exact fun node hnode => hdue node (List.mem_append_right _ hnode)
      · intro deferred hmem hfires
        apply hclosed deferred _ (first.mayFire hfirst hfires)
        rcases List.mem_append.mp hmem with hpending | hfound
        · apply List.mem_append_left
          exact first.pending.mem_iff.mpr (List.mem_append_right _ hpending)
        · exact List.mem_append_right _ hfound
    intro node hnode
    rcases List.mem_append.mp hnode with hnode | hnode
    · exact hfirst node hnode
    · exact hsecond node hnode

/-- Dependencies that may fire do so before the spread, and what they lead to becomes due. -/
theorem after_fire {rest : List Deferred}
    (hpending : (before.pending ++ found).Perm (fired ++ rest))
    (hsatisfied : ∀ deferred ∈ fired, before.satisfied deferred.dependency)
    (hmiddle : middle = { before with
      pending := rest
      edges := before.edges ++ fired.map Deferred.edge
      activatedCount := middle.activatedCount
      deferredCount := middle.deferredCount
      rescanCount := middle.rescanCount })
    (hspread : Spread due' [] middle after entered fired')
    (hdue : ∀ node, node ∈ due' ↔ node ∈ due ∨ node ∈ fired.map Deferred.target) :
    Spread due found before after entered (fired ++ fired') := by
  rw [hmiddle] at hspread
  exact {
    key? := hspread.key?
    recorded? := hspread.recorded?
    progress := hspread.progress
    fresh := hspread.fresh
    nodup := hspread.nodup
    cancelled := hspread.cancelled
    store := hspread.store
    worklist := hspread.worklist
    edges := by rw [hspread.edges, List.map_append, List.append_assoc]
    pending := by
      have hrest := hspread.pending
      rw [List.append_nil] at hrest
      rw [List.append_assoc]
      exact hpending.trans (hrest.append_left fired)
    markedCount := hspread.markedCount
    expandedCount := hspread.expandedCount
    reached := fun node hnode => hspread.reached node ((hdue node).mpr (.inl hnode))
    satisfied := by
      intro deferred hfired
      rcases List.mem_append.mp hfired with hfired | hfired
      · exact hspread.satisfied_of_satisfied (hsatisfied deferred hfired)
      · exact hspread.satisfied deferred hfired
    led := by
      intro deferred hfired
      rcases List.mem_append.mp hfired with hfired | hfired
      · exact hspread.reached _ ((hdue _).mpr (.inr (List.mem_map_of_mem hfired)))
      · exact hspread.led deferred hfired
    least := by
      intro S hS hclosed
      have hwithin : ∀ deferred ∈ fired ++ rest, before.MayFire S deferred →
          deferred.target ∈ S :=
        fun deferred hmem => hclosed deferred (hpending.mem_iff.mpr hmem)
      apply hspread.least S
      · intro node hnode
        rcases (hdue node).mp hnode with hnode | hnode
        · exact hS node hnode
        · obtain ⟨deferred, hfired, rfl⟩ := List.mem_map.mp hnode
          have hthreshold := hsatisfied deferred hfired
          simp only [Analysis.satisfied, decide_eq_true_eq] at hthreshold
          exact hwithin deferred (List.mem_append_left _ hfired) (.inl hthreshold)
      · intro deferred hmem hfires
        rw [List.append_nil] at hmem
        exact hwithin deferred (List.mem_append_right _ hmem) hfires }

end Spread

theorem spread_enter {analysis : Analysis κ σ} {node : Handle}
    (hfresh : analysis.arena.isFresh node) :
    Spread [node] [] analysis (analysis.enter node) [node] [] := by
  obtain ⟨hknown, hprogress⟩ := Arena.isFresh_iff.mp hfresh
  have hraised (other : Handle) : (analysis.enter node).arena.progress other =
      if other ∈ [node] then .marked else analysis.arena.progress other := by
    rw [enter, Arena.progress_raise_of_known hknown, hprogress]
    simp only [List.mem_singleton]
    rfl
  exact {
    key? := fun other => Arena.key?_raise ..
    recorded? := fun other => Arena.recorded?_raise ..
    progress := hraised
    fresh := fun other hother => List.mem_singleton.mp hother ▸ hfresh
    nodup := List.nodup_singleton node
    cancelled := rfl
    store := rfl
    worklist := rfl
    edges := (List.append_nil _).symm
    pending := by rw [List.append_nil]; exact List.Perm.refl _
    markedCount := rfl
    expandedCount := rfl
    reached := by
      intro other hother
      rw [← Bool.not_eq_true, Arena.isFresh_iff]
      rintro ⟨_, hother'⟩
      rw [hraised, if_pos hother] at hother'
      cases hother'
    satisfied := fun _ hfired => by cases hfired
    led := fun _ hfired => by cases hfired
    least := fun S hS _ => hS }

theorem perm_filter_append (test : Deferred → Bool) (list : List Deferred) :
    (list ++ []).Perm (list.filter test ++ list.filter fun deferred => !test deferred) := by
  rw [List.append_nil]
  exact (List.filter_append_perm test list).symm

theorem satisfied_of_firesAt {analysis : Analysis κ σ} {node : Handle} {deferred : Deferred}
    (h : deferred ∈ analysis.pending.filter (analysis.firesAt node)) :
    analysis.satisfied deferred.dependency := by
  have hfires := (List.mem_filter.mp h).2
  rw [firesAt, Bool.and_eq_true] at hfires
  exact hfires.2

theorem spread_markAll (analysis : Analysis κ σ) (stack : List Handle) :
    ∃ entered fired, Spread stack [] analysis (analysis.markAll stack) entered fired := by
  fun_induction markAll analysis stack with
  | case1 analysis => exact ⟨[], [], Spread.refl (by simp)⟩
  | case2 analysis node stack hfresh fired ih =>
    obtain ⟨entered, others, hspread⟩ := ih
    have hwoken : Spread stack [] (analysis.enter node) _ entered _ :=
      Spread.after_fire (perm_filter_append _ _) (fun _ => satisfied_of_firesAt) rfl hspread (by
        intro other
        simp only [List.mem_append, List.mem_reverse]
        exact or_comm)
    exact ⟨_, _, (spread_enter hfresh).trans hwoken⟩
  | case3 analysis node stack hfresh ih =>
    obtain ⟨entered, fired, hspread⟩ := ih
    have hskipped : Spread [node] [] analysis analysis [] [] := Spread.refl (by simpa using hfresh)
    exact ⟨_, _, hskipped.trans hspread⟩

theorem spread_mark (analysis : Analysis κ σ) (node : Handle) :
    ∃ entered fired, Spread [node] [] analysis (analysis.mark node) entered fired :=
  spread_markAll analysis [node]

theorem spread_markEach (analysis : Analysis κ σ) (nodes : List Handle) :
    ∃ entered fired, Spread nodes [] analysis (analysis.markEach nodes) entered fired := by
  induction nodes generalizing analysis with
  | nil => exact ⟨[], [], Spread.refl (by simp)⟩
  | cons node nodes ih =>
    obtain ⟨_, _, hfirst⟩ := spread_mark analysis node
    obtain ⟨_, _, hrest⟩ := ih (analysis.mark node)
    exact ⟨_, _, hfirst.trans hrest⟩

/-- Guarded dependencies that are pending and ready fire, and what they lead to is marked. -/
theorem spread_wake {analysis middle : Analysis κ σ} {test : Deferred → Bool}
    {fired : List Deferred} {rescans : Nat}
    (hfired : fired.Perm (analysis.pending.filter test))
    (htest : ∀ deferred, test deferred → analysis.satisfied deferred.dependency)
    (hmiddle : middle = ({ analysis with
      pending := analysis.pending.filter fun deferred => !test deferred
      rescanCount := rescans } : Analysis κ σ).fire fired) :
    ∃ entered fired', Spread [] [] analysis (middle.markEach (fired.map Deferred.target))
      entered fired' := by
  subst hmiddle
  obtain ⟨_, _, hspread⟩ := spread_markEach _ (fired.map Deferred.target)
  have hpending := (perm_filter_append test analysis.pending).trans (hfired.symm.append_right _)
  refine ⟨_, _, Spread.after_fire hpending ?_ rfl hspread (by simp)⟩
  intro deferred hmem
  exact htest deferred (List.mem_filter.mp (hfired.mem_iff.mp hmem)).2

theorem spread_fireAt (analysis : Analysis κ σ) (node : Handle) :
    ∃ entered fired, Spread [] [] analysis
      ((analysis.fireAt node).2.markEach (analysis.fireAt node).1) entered fired :=
  spread_wake (List.Perm.refl _) (fun _ h => (Bool.and_eq_true_iff.mp h).2) rfl

theorem spread_rescan (analysis : Analysis κ σ) :
    ∃ entered fired, Spread [] [] analysis analysis.rescan.2 entered fired :=
  spread_wake (List.mergeSort_perm _ _) (fun _ h => h) rfl

theorem spread_consider (source : Handle) (analysis : Analysis κ σ)
    (dependency : GuardedDependency) :
    ∃ entered fired, Spread [] [⟨source, dependency⟩] analysis
      (consider source analysis dependency) entered fired := by
  unfold consider
  split
  · rename_i hsatisfied
    obtain ⟨_, _, hspread⟩ := spread_mark (analysis.fire [⟨source, dependency⟩]) dependency.target
    refine ⟨_, _, Spread.after_fire List.perm_append_comm ?_ rfl hspread (by
      simp [Deferred.target])⟩
    intro deferred hmem
    rw [List.mem_singleton.mp hmem]
    exact hsatisfied
  · have hwaits : (analysis.pending ++ [Deferred.mk source dependency]).Perm
        ([] ++ (analysis.pending ++ [Deferred.mk source dependency])) := List.Perm.refl _
    have hstays (after : Analysis κ σ) : Spread [] [] after after [] [] := Spread.refl (by simp)
    refine ⟨[], [], Spread.after_fire hwaits (by simp) ?_ (hstays _) (by simp)⟩
    simp

theorem spread_considerEach (source : Handle) (analysis : Analysis κ σ)
    (dependencies : List GuardedDependency) :
    ∃ entered fired, Spread [] (dependencies.map (Deferred.mk source)) analysis
      (dependencies.foldl (consider source) analysis) entered fired := by
  induction dependencies generalizing analysis with
  | nil => exact ⟨[], [], Spread.refl (by simp)⟩
  | cons dependency dependencies ih =>
    obtain ⟨_, _, hfirst⟩ := spread_consider source analysis dependency
    obtain ⟨_, _, hrest⟩ := ih (consider source analysis dependency)
    exact ⟨_, _, hfirst.trans hrest⟩

/-- An expansion is taken over in two spreads: one before the node counts as expanded, from what the
node needs, and one after it. -/
theorem spread_absorb (analysis : Analysis κ σ) (node : Handle) (expansion : Expansion) :
    ∃ considered : Analysis κ σ,
      (∃ entered fired, Spread (expansion.always.map Dependency.target) (expansion.deferred node)
        analysis considered entered fired) ∧
      ∃ entered fired, Spread [] [] (considered.conclude node (expansion.edges node))
        (analysis.absorb node expansion) entered fired := by
  obtain ⟨_, _, hreached⟩ := spread_markEach analysis (expansion.always.map Dependency.target)
  obtain ⟨_, _, hconsidered⟩ := spread_considerEach node
    (analysis.markEach (expansion.always.map Dependency.target)) expansion.guarded
  have hboth := hreached.trans hconsidered
  rw [List.append_nil, List.nil_append] at hboth
  exact ⟨_, ⟨_, _, hboth⟩, spread_fireAt _ node⟩

end Analysis

end PortableImage.Graph
