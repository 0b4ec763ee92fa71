import PortableImage.Proofs.Session.AgreeingLayouts
import PortableImage.Proofs.Session.FreshSessions
/-!
# What an analysis leaves behind

Emission does not find out anew what an artifact needs; it looks for it.  A workspace is *furnished*
if all that emission looks for is there: the code of every marked method, with all its places inside
and all its targets marked, and the anchors of whatever the data of a marked artifact refers to.

A completed analysis leaves its workspace furnished, provided that the backend quotes: that the code
of a method points to nothing but what the backend received while it compiled the method.
-/

namespace PortableImage

open PortableImage.Graph (Analysis Arena Dependency Expansion Handle Visit)
open PortableImage.Graph.Analysis (Accounts)

/-- While the node was compiled, the code has come to point to nothing but what was received. -/
def Compiler.QuotesAt (compiler : Compiler) (setting : Setting) (node : Handle)
    (before : Workspace) : Prop :=
  ∀ method needed planned body layout, before.arena.key? node = some (.methodCode method) →
    Workspace.plan (Drafting.needs setting (.methodCode method)) before = (.ok needed, planned) →
    setting.body? method = some body → (compiler.held setting method body planned).1 = .ok layout →
    ∀ relocation ∈ layout.relocations, ∀ target, relocation.target = .node target →
      target ∈ Dialogue.received (Answering.reply setting method) (compiler.dialogue method body)
        ⟨planned, []⟩

/-- A blind backend quotes. -/
theorem Compiler.quotesAt_of_blind {compiler : Compiler} {setting : Setting} {node : Handle}
    {before : Workspace} (h : ∀ method body, setting.body? method = some body →
      (compiler.dialogue method body).Blind) : compiler.QuotesAt setting node before :=
  fun method _ _ body _ _ _ hbody hheld _ hrelocation _ htarget =>
    (h method body hbody).mem_received (Answering.reply setting method) hheld hrelocation htarget

namespace Workspace

variable {setting : Setting} {before after : Workspace}

structure Furnished (setting : Setting) (workspace : Workspace) : Prop where
  compiled : ∀ node method, workspace.arena.key? node = some (.methodCode method) →
    (workspace.arena.progress node).isMarked → (workspace.store.compiled.find? node).isSome
  known : ∀ node, (workspace.store.compiled.find? node).isSome →
    (workspace.arena.key? node).isSome
  fits : ∀ node compiled, workspace.store.compiled.find? node = some compiled →
    Drafting.Fits (workspace.draft, workspace.draft) compiled.toLayout compiled.toLayout
  ready : ∀ node key, workspace.arena.key? node = some key →
    (workspace.arena.progress node).isMarked → Drafting.Ready setting key workspace.draft

/-- The same artifacts are marked, and the same code is there. -/
structure Continues (before after : Workspace) : Prop where
  keeps : before.arena.Keeps after.arena
  marked : ∀ node, (after.arena.progress node).isMarked ↔ (before.arena.progress node).isMarked
  compiled : after.store.compiled = before.store.compiled

theorem Continues.refl (workspace : Workspace) : workspace.Continues workspace :=
  ⟨fun _ _ => id, fun _ => Iff.rfl, rfl⟩

theorem Continues.trans {middle : Workspace} (h : before.Continues middle)
    (hlater : middle.Continues after) : before.Continues after where
  keeps := h.keeps.trans hlater.keeps
  marked node := (hlater.marked node).trans (h.marked node)
  compiled := hlater.compiled.trans h.compiled

theorem Continues.key? (h : before.Continues after) {node : Handle} {key : ArtifactKey}
    (hkey : after.arena.key? node = some key) (hmarked : (after.arena.progress node).isMarked) :
    before.arena.key? node = some key := by
  obtain ⟨old, hold⟩ := Option.isSome_iff_exists.mp
    (Arena.isSome_key?_of_isMarked ((h.marked node).mp hmarked))
  rw [hold, ← h.keeps node old hold, hkey]

theorem Furnished.mono (h : before.Furnished setting) (hafter : before.Continues after) :
    after.Furnished setting where
  compiled node method hkey hmarked := by
    rw [hafter.compiled]
    exact h.compiled node method (hafter.key? hkey hmarked) ((hafter.marked node).mp hmarked)
  known node hnode := by
    rw [hafter.compiled] at hnode
    exact hafter.keeps.isSome (h.known node hnode)
  fits node compiled hcompiled := by
    rw [hafter.compiled] at hcompiled
    obtain ⟨halike, hinside⟩ := h.fits node compiled hcompiled
    refine ⟨halike.imp fun a b hab => ⟨?_, (hafter.marked a).mpr hab.marked⟩, hinside⟩
    exact hab.same.mono hafter.keeps hafter.keeps
  ready node key hkey hmarked entity origin anchor hrefers hanchors := by
    apply (hafter.keeps.mem_markedKeys hafter.marked anchor).mpr
    exact h.ready node key (hafter.key? hkey hmarked) ((hafter.marked node).mp hmarked) entity
      origin anchor hrefers hanchors

theorem Furnished.twin_self (h : before.Furnished setting) (horderly : before.Orderly setting) :
    Twin setting False before before where
  alike := horderly
  code := {
    forth := fun a compiled hcompiled => by
      have hknown := h.known a (by rw [hcompiled]; rfl)
      refine ⟨a, compiled, Arena.same_self hknown, hcompiled, ?_⟩
      exact (h.fits a compiled hcompiled).alike.imp fun _ _ hab => hab.same
    back := fun b hb => ⟨b, Arena.same_self (h.known b hb), hb⟩ }

end Workspace

namespace Session

variable {session : Session} {program : Program} {analysis : Analysis ArtifactKey Shelf}

/-- The code of every method points to nothing but what was received while it was compiled. -/
def Quotes (session : Session) (program : Program) : Prop :=
  ∀ survey ∈ session.expansions program,
    session.compiler.QuotesAt (session.setting program) survey.1 survey.2

/-- What a completed analysis has done: its visits, and where the code comes from. -/
structure Analysed (session : Session) (program : Program)
    (visits : List (Visit ArtifactKey Shelf)) (analysis : Analysis ArtifactKey Shelf) : Prop where
  accounts : ∃ first roots, Accounts (expand session.compiler (session.setting program))
    first roots visits [] analysis
  asked : visits.map Visit.survey = session.expansions program
  drained : analysis.worklist = []
  tracked : Tracked session.compiler (session.setting program) (session.expansions program)
    analysis.toSite

theorem analysed_of_analyse (hfresh : session.Fresh program)
    (h : session.analyse program = (.completed, analysis)) :
    ∃ visits, session.Analysed program visits analysis := by
  obtain ⟨roots, hstart, _⟩ := accounts_start
    (expand session.compiler (session.setting program)) (session.setting program) session.roots
    hfresh.untouched
  obtain ⟨visits, hasked, haccounts, _, hdrained, _⟩ := hstart.saturate (quiet_expand _ _) h
  obtain ⟨horderly, hstore, _⟩ := orderly_start hfresh.orderly hfresh.known
  have htracked : Tracked session.compiler (session.setting program) []
      (start (session.setting program) session.roots session.workspace).toSite := by
    refine ⟨horderly, fun survey hsurvey => ?_, fun node compiled hcompiled => ?_,
      fun node before method hmem => ?_⟩
    · cases hsurvey
    · rw [hstore, hfresh.uncompiled] at hcompiled
      cases hcompiled
    · cases hmem
  exact ⟨visits, ⟨_, _, haccounts⟩, hasked, hdrained,
    (carries_tracked session.compiler (session.setting program)).saturate htracked h⟩

namespace Analysed

variable {visits : List (Visit ArtifactKey Shelf)} {visit : Visit ArtifactKey Shelf}
  {node : Handle} {key : ArtifactKey} {before : Workspace} {expansion : Expansion}

theorem exists_visit (h : session.Analysed program visits analysis)
    (hkey : analysis.arena.key? node = some key) (hmarked : (analysis.arena.progress node).isMarked) :
    ∃ visit ∈ visits, visit.node = node ∧ visit.before.arena.key? node = some key := by
  obtain ⟨_, _, haccounts⟩ := h.accounts
  exact haccounts.exists_visit_of_isMarked (quiet_expand _ _) h.drained hkey hmarked

/-- What was asked with success is a visit. -/
theorem exists_visit_of_survey (h : session.Analysed program visits analysis)
    (hmem : (node, before) ∈ session.expansions program)
    (hanswer : (expand session.compiler (session.setting program) node before).1 = .ok expansion) :
    ∃ visit ∈ visits, visit.node = node ∧ visit.before = before ∧ visit.expansion = expansion := by
  obtain ⟨_, _, haccounts⟩ := h.accounts
  rw [← h.asked] at hmem
  obtain ⟨visit, hvisit, hsurvey⟩ := List.mem_map.mp hmem
  obtain ⟨rfl, rfl⟩ := Prod.mk.inj hsurvey
  rw [haccounts.sources.answered visit hvisit] at hanswer
  exact ⟨visit, hvisit, rfl, rfl, Except.ok.inj hanswer⟩

theorem mem_expansions (h : session.Analysed program visits analysis) (hvisit : visit ∈ visits) :
    (visit.node, visit.before) ∈ session.expansions program := by
  rw [← h.asked]
  exact List.mem_map_of_mem hvisit

/-- What an artifact always needs is marked. -/
theorem isMarked_of_always (h : session.Analysed program visits analysis) (hvisit : visit ∈ visits)
    {dependency : Dependency} (hmem : dependency ∈ visit.expansion.always) :
    (analysis.arena.progress dependency.target).isMarked := by
  obtain ⟨_, _, haccounts⟩ := h.accounts
  exact haccounts.grounds.always visit hvisit dependency hmem

theorem compiled (h : session.Analysed program visits analysis) {method : Entity}
    (hkey : analysis.arena.key? node = some (.methodCode method))
    (hmarked : (analysis.arena.progress node).isMarked) :
    (analysis.store.compiled.find? node).isSome := by
  obtain ⟨_, _, haccounts⟩ := h.accounts
  obtain ⟨visit, hvisit, rfl, hbefore⟩ := h.exists_visit hkey hmarked
  apply h.tracked.kept visit.node visit.before method (h.mem_expansions hvisit) hbefore
    visit.expansion
  rw [haccounts.sources.answered visit hvisit]

theorem ready (h : session.Analysed program visits analysis)
    (hkey : analysis.arena.key? node = some key)
    (hmarked : (analysis.arena.progress node).isMarked) :
    Drafting.Ready (session.setting program) key (Workspace.draft analysis.toSite) := by
  obtain ⟨_, _, haccounts⟩ := h.accounts
  obtain ⟨visit, hvisit, rfl, hbefore⟩ := h.exists_visit hkey hmarked
  have houtcome := outcome_expand session.compiler (session.setting program) visit.node visit.before
  rw [haccounts.sources.answered visit hvisit] at houtcome
  have hcovers := houtcome.covers (h.tracked.surveyed _ (h.mem_expansions hvisit)) hbefore
  intro entity origin anchor hrefers hanchors
  obtain ⟨found, hfound, dependency, hmem, htarget⟩ := hcovers entity origin hrefers
  obtain rfl := hfound.unique hanchors
  have hkept := haccounts.sources.kept visit hvisit _ _ htarget
  exact Arena.mem_markedKeys.mpr ⟨_, hkept, h.isMarked_of_always hvisit hmem⟩

/-- Where the code of a node comes from: a visit of the node, which needs what was noted then. -/
theorem exists_source (h : session.Analysed program visits analysis) {compiled : CompiledMethod}
    (hcompiled : analysis.store.compiled.find? node = some compiled) :
    ∃ visit ∈ visits, visit.node = node ∧ Compiled session.compiler (session.setting program)
      visit.node visit.before visit.expansion compiled := by
  obtain ⟨before, expansion, hmem, hanswer, hsource⟩ := h.tracked.source node compiled hcompiled
  obtain ⟨visit, hvisit, rfl, rfl, rfl⟩ := h.exists_visit_of_survey hmem hanswer
  exact ⟨visit, hvisit, rfl, hsource⟩

/-- A node that has been visited is marked. -/
theorem isMarked_of_visit (h : session.Analysed program visits analysis) (hvisit : visit ∈ visits) :
    (analysis.arena.progress visit.node).isMarked := by
  obtain ⟨_, _, haccounts⟩ := h.accounts
  exact (haccounts.tally.mem_visits h.drained).mpr (List.mem_map_of_mem hvisit)

/-- What the code of a method quotes is marked: it was noted, so the method needs it. -/
theorem isMarked_of_compiled (h : session.Analysed program visits analysis)
    (hquotes : session.Quotes program) (hvisit : visit ∈ visits) {compiled : CompiledMethod}
    (hcompiled : Compiled session.compiler (session.setting program) visit.node visit.before
      visit.expansion compiled) {relocation : Relocation}
    (hrelocation : relocation ∈ compiled.relocations) {target : Handle}
    (htarget : relocation.target = .node target) :
    (analysis.arena.progress target).isMarked := by
  have hmem := h.mem_expansions hvisit
  obtain ⟨method, needed, planned, body, hkey, hneeds, hbody, hheld, hnoted, _⟩ :=
    hcompiled.exists_held
  have hplanned := (needs_orderly (h.tracked.surveyed _ hmem) hneeds).1
  have hreceived := hquotes _ hmem method needed planned body compiled.toLayout hkey hneeds hbody
    hheld relocation hrelocation target htarget
  obtain ⟨dependency, hdependency, rfl⟩ := List.mem_map.mp
    (Answering.mem_noted_of_received (fun hsteady : False => hsteady) hplanned.desk hreceived)
  have halways : dependency ∈ visit.expansion.always := by
    apply hcompiled.noted
    rw [hnoted]
    exact hdependency
  exact h.isMarked_of_always hvisit halways

/-- The code compiled on a visit has its places inside, and what it quotes is marked. -/
theorem fits_of_compiled (h : session.Analysed program visits analysis)
    (hquotes : session.Quotes program) (hvisit : visit ∈ visits) {compiled : CompiledMethod}
    (hcompiled : Compiled session.compiler (session.setting program) visit.node visit.before
      visit.expansion compiled) :
    Drafting.Fits (Workspace.draft analysis.toSite, Workspace.draft analysis.toSite)
      compiled.toLayout compiled.toLayout := by
  refine ⟨⟨rfl, List.forall₂_same.mpr fun relocation hrelocation => ⟨rfl, rfl, ?_⟩⟩,
    hcompiled.inside⟩
  cases htarget : relocation.target with
  | token token => exact .token token
  | node target =>
    have hmarked := h.isMarked_of_compiled hquotes hvisit hcompiled hrelocation htarget
    exact .node ⟨Arena.same_self (Arena.isSome_key?_of_isMarked hmarked), hmarked⟩

theorem furnished (h : session.Analysed program visits analysis)
    (hquotes : session.Quotes program) :
    Workspace.Furnished (session.setting program) analysis.toSite where
  compiled _ _ := h.compiled
  known node hnode := by
    obtain ⟨compiled, hcompiled⟩ := Option.isSome_iff_exists.mp hnode
    obtain ⟨visit, hvisit, rfl, _⟩ := h.exists_source hcompiled
    exact Arena.isSome_key?_of_isMarked (h.isMarked_of_visit hvisit)
  fits node compiled hcompiled := by
    obtain ⟨visit, hvisit, rfl, hsource⟩ := h.exists_source hcompiled
    exact h.fits_of_compiled hquotes hvisit hsource
  ready _ _ := h.ready

end Analysed

end Session

end PortableImage
