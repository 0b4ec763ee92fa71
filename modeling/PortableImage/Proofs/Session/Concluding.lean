import PortableImage.Proofs.Session.FreshSessions
import PortableImage.Proofs.Session.InwardNeeds
/-!
# What a completed analysis has marked

A completed analysis has marked what its roots ask for, what marked artifacts always need, and what
they need under a guard that is marked.  Told by keys, this is all there is to it: a property that
roots have and needs pass on is a property of everything that is marked.
-/

namespace PortableImage

open PortableImage.Graph (Analysis Arena Dependency GuardedDependency Handle Visit)
open PortableImage.Graph.Analysis (Accounts)

namespace Session

/-- A completed analysis is accounted for by its visits, from the nodes of the roots on. -/
structure Concluded (session : Session) (program : Program)
    (visits : List (Visit ArtifactKey Shelf)) (analysis : Analysis ArtifactKey Shelf) : Prop where
  accounts : ∃ first roots,
    Accounts (expand session.compiler (session.setting program)) first roots visits [] analysis ∧
      roots.map analysis.arena.key? =
        (session.roots.flatMap (session.setting program).rootKeys).map some
  asked : visits.map Visit.survey = session.expansions program
  drained : analysis.worklist = []
  settled : ∀ deferred ∈ analysis.pending, analysis.satisfied deferred.dependency = false

variable {session after : Session} {program : Program} {image : Image}
  {visits : List (Visit ArtifactKey Shelf)} {analysis : Analysis ArtifactKey Shelf}

theorem concluded_of_analyse (huntouched : session.Untouched)
    (h : session.analyse program = (.completed, analysis)) :
    ∃ visits, session.Concluded program visits analysis := by
  obtain ⟨roots, hstart, hroots⟩ := accounts_start
    (expand session.compiler (session.setting program)) (session.setting program) session.roots
    huntouched
  obtain ⟨visits, hasked, haccounts, hkeeps, hdrained, hsettled⟩ :=
    hstart.saturate (quiet_expand _ _) h
  refine ⟨visits, ⟨_, roots, haccounts, ?_⟩, hasked, hdrained, hsettled⟩
  rw [← hroots]
  refine List.map_congr_left fun node hnode => ?_
  have hmem := List.mem_map_of_mem
    (f := (start (session.setting program) session.roots session.workspace).arena.key?) hnode
  rw [hroots] at hmem
  obtain ⟨key, _, hkey⟩ := List.mem_map.mp hmem
  rw [← hkey, hkeeps node key hkey.symm]

/-- The image has exactly the artifacts that its analysis has marked. -/
theorem exists_analysis_of_emit (h : session.emit program = (.ok (.completed image), after)) :
    ∃ analysis, session.analyse program = (.completed, analysis) ∧
      emitMarked (session.setting program) analysis.toSite =
        (.ok image.artifacts, after.workspace) ∧
      ∀ key, key ∈ image.keys ↔ key ∈ analysis.arena.markedKeys := by
  obtain ⟨analysis, hanalyse, hemit, _⟩ := exists_emission_of_emit h
  obtain ⟨hfinishes, hemitted⟩ := emitEach_eq_ok (fun _ => mem_emissionOrder.mp) hemit
  exact ⟨analysis, hanalyse, hemit, fun _ => mem_keys_iff_of_emitted hemitted hfinishes⟩

namespace Concluded

variable {visit : Visit ArtifactKey Shelf} {key : ArtifactKey}

section Closure

variable (h : session.Concluded program visits analysis)
include h

theorem mem_markedKeys_of_root
    (hkey : key ∈ session.roots.flatMap (session.setting program).rootKeys) :
    key ∈ analysis.arena.markedKeys := by
  obtain ⟨_, roots, haccounts, hroots⟩ := h.accounts
  have hmem := List.mem_map_of_mem (f := some) hkey
  rw [← hroots] at hmem
  obtain ⟨node, hnode, hfound⟩ := List.mem_map.mp hmem
  exact Arena.mem_markedKeys.mpr ⟨node, hfound, haccounts.grounds.rooted node hnode⟩

theorem keeps (hvisit : visit ∈ visits) : visit.after.arena.Keeps analysis.arena := by
  obtain ⟨_, _, haccounts, _⟩ := h.accounts
  exact haccounts.sources.kept visit hvisit

theorem answered (hvisit : visit ∈ visits) :
    expand session.compiler (session.setting program) visit.node visit.before =
      (.ok visit.expansion, visit.after) := by
  obtain ⟨_, _, haccounts, _⟩ := h.accounts
  exact haccounts.sources.answered visit hvisit

theorem exists_visit (hkey : key ∈ analysis.arena.markedKeys) :
    ∃ visit ∈ visits, visit.before.arena.key? visit.node = some key := by
  obtain ⟨_, _, haccounts, _⟩ := h.accounts
  obtain ⟨node, hfound, hmarked⟩ := Arena.mem_markedKeys.mp hkey
  obtain ⟨visit, hvisit, rfl, hbefore⟩ :=
    haccounts.exists_visit_of_isMarked (quiet_expand _ _) h.drained hfound hmarked
  exact ⟨visit, hvisit, hbefore⟩

theorem mem_markedKeys_of_always (hvisit : visit ∈ visits) {dependency : Dependency}
    (hdependency : dependency ∈ visit.expansion.always)
    (hkey : visit.after.arena.key? dependency.target = some key) :
    key ∈ analysis.arena.markedKeys := by
  obtain ⟨_, _, haccounts, _⟩ := h.accounts
  exact haccounts.mem_markedKeys_of_always hvisit hdependency hkey

theorem mem_markedKeys_of_guarded (hvisit : visit ∈ visits) {dependency : GuardedDependency}
    {guard : ArtifactKey} (hdependency : dependency ∈ visit.expansion.guarded)
    (hkey : visit.after.arena.key? dependency.target = some key)
    (hguard : visit.after.arena.key? dependency.guard = some guard)
    (hthreshold : dependency.threshold = .marked) (hmarked : guard ∈ analysis.arena.markedKeys) :
    key ∈ analysis.arena.markedKeys := by
  obtain ⟨_, _, haccounts, _⟩ := h.accounts
  exact haccounts.mem_markedKeys_of_guarded hvisit h.settled hdependency hkey hguard hthreshold
    hmarked

end Closure

/-- What is always needed is known when the need is found, and so is every guard. -/
theorem known (h : session.Concluded program visits analysis) (hvisit : visit ∈ visits) :
    ∃ key, visit.before.arena.key? visit.node = some key ∧
      analysis.arena.key? visit.node = some key ∧
      Drafting.Homebound (session.setting program) key visit.expansion
        (Workspace.draft visit.after) := by
  obtain ⟨_, _, haccounts, _⟩ := h.accounts
  obtain ⟨key, hkey⟩ := Option.isSome_iff_exists.mp (haccounts.sources.known visit hvisit)
  have hgrows := (quiet_expand session.compiler (session.setting program)).grows visit.node
    visit.before (haccounts.sources.known visit hvisit)
  rw [h.answered hvisit] at hgrows
  exact ⟨key, hkey, h.keeps hvisit _ _ (hgrows.keeps _ _ hkey),
    homebound_expand hkey (h.answered hvisit)⟩

theorem mem_markedKeys_of_visit (h : session.Concluded program visits analysis)
    (hvisit : visit ∈ visits) (hkey : visit.before.arena.key? visit.node = some key) :
    key ∈ analysis.arena.markedKeys := by
  obtain ⟨_, _, haccounts, _⟩ := h.accounts
  obtain ⟨found, hfound, hafter, _⟩ := h.known hvisit
  obtain rfl := Option.some.inj (hfound.symm.trans hkey)
  exact Arena.mem_markedKeys.mpr
    ⟨visit.node, hafter, (haccounts.tally.mem_visits h.drained).mpr (List.mem_map_of_mem hvisit)⟩

/-- What a marked artifact needs on its own entity is marked. -/
theorem mem_markedKeys_of_own (h : session.Concluded program visits analysis)
    (hkey : key ∈ analysis.arena.markedKeys) {target : ArtifactKey}
    (hown : (session.setting program).Own key target) : target ∈ analysis.arena.markedKeys := by
  obtain ⟨visit, hvisit, hbefore⟩ := h.exists_visit hkey
  obtain ⟨dependency, hdependency, htarget⟩ :=
    (homebound_expand hbefore (h.answered hvisit)).own target hown
  exact h.mem_markedKeys_of_always hvisit hdependency htarget

/-- What roots have and needs pass on, all that is marked has. -/
theorem least (h : session.Concluded program visits analysis) {property : ArtifactKey → Prop}
    (hroots : ∀ key ∈ session.roots.flatMap (session.setting program).rootKeys, property key)
    (halways : ∀ visit ∈ visits, ∀ key, visit.before.arena.key? visit.node = some key →
      property key → ∀ dependency ∈ visit.expansion.always, ∀ target,
      visit.after.arena.key? dependency.target = some target → property target)
    (hguarded : ∀ visit ∈ visits, ∀ key, visit.before.arena.key? visit.node = some key →
      property key → ∀ dependency ∈ visit.expansion.guarded, ∀ guard target,
      visit.after.arena.key? dependency.guard = some guard →
      visit.after.arena.key? dependency.target = some target →
      guard ∈ analysis.arena.markedKeys → property guard → property target) :
    ∀ key ∈ analysis.arena.markedKeys, property key := by
  obtain ⟨_, roots, haccounts, hkeys⟩ := h.accounts
  -- The set for which closure is asked: nodes that are marked, for artifacts with the property.
  have hall := haccounts.grounds.least {node | (analysis.arena.progress node).isMarked ∧
    ∀ key, analysis.arena.key? node = some key → property key} ⟨?rooted, ?always, ?guarded⟩
  case rooted =>
    refine fun root hroot => ⟨haccounts.grounds.rooted root hroot, fun key hkey => ?_⟩
    have hmem := List.mem_map_of_mem (f := analysis.arena.key?) hroot
    rw [hkeys, hkey] at hmem
    obtain ⟨_, hasked, hsame⟩ := List.mem_map.mp hmem
    exact Option.some.inj hsame ▸ hroots _ hasked
  case always =>
    rintro visit hvisit ⟨_, hproperty⟩ dependency hdependency
    refine ⟨haccounts.grounds.always visit hvisit dependency hdependency, fun target htarget => ?_⟩
    obtain ⟨key, hbefore, hkey, _⟩ := h.known hvisit
    obtain ⟨found, hfound⟩ := Option.isSome_iff_exists.mp
      ((haccounts.sources.names visit hvisit).always dependency hdependency)
    obtain rfl := Option.some.inj ((h.keeps hvisit _ _ hfound).symm.trans htarget)
    exact halways visit hvisit key hbefore (hproperty key hkey) dependency hdependency _ hfound
  case guarded =>
    rintro visit hvisit ⟨_, hproperty⟩ deferred hdeferred hopens
    obtain ⟨_, hdependency⟩ := Visit.mem_deferred.mp hdeferred
    obtain ⟨key, hbefore, hkey, hhomebound⟩ := h.known hvisit
    obtain ⟨type, method, _, _, htarget, hguard, hthreshold⟩ :=
      hhomebound.guarded deferred.dependency hdependency
    rcases hopens with hunmarked | ⟨⟨hmarked, hguarding⟩, _⟩
    · rw [hthreshold] at hunmarked
      cases hunmarked
    have hguardKey := h.keeps hvisit _ _ hguard
    have hguardMarked : _ ∈ analysis.arena.markedKeys :=
      Arena.mem_markedKeys.mpr ⟨_, hguardKey, hmarked⟩
    have htargetMarked := h.mem_markedKeys_of_guarded hvisit hdependency htarget hguard hthreshold
      hguardMarked
    have htargetKey := h.keeps hvisit _ _ htarget
    refine ⟨(Arena.mem_markedKeys_iff htargetKey).mp htargetMarked, fun other hother => ?_⟩
    obtain rfl := Option.some.inj (htargetKey.symm.trans hother)
    exact hguarded visit hvisit key hbefore (hproperty key hkey) _ hdependency _ _ hguard htarget
      hguardMarked (hguarding _ hguardKey)
  intro key hkey
  obtain ⟨node, hfound, hmarked⟩ := Arena.mem_markedKeys.mp hkey
  exact (hall node hmarked).2 key hfound

end Concluded

end Session

end PortableImage
