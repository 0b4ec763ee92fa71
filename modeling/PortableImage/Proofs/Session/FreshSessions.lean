import PortableImage.Proofs.Session.Completion
import PortableImage.Proofs.Session.Tracking
/-!
# Fresh sessions

A session is fresh before any work has been done in it: nothing has been decided about any artifact,
nothing is compiled, and its roots can be had from the program.  Every session that has been built is
fresh.  From there its analysis starts with what its roots ask for, and with nothing else.
-/

namespace PortableImage

open PortableImage.Graph (Analysis Arena)

namespace Setting

variable {setting : Setting} {root : Root} {key : ArtifactKey}

theorem mem_artifacts_of_rootKeys (hknown : root.isKnown setting.program setting.bubble)
    (hkey : key ∈ setting.rootKeys root) : key ∈ setting.program.artifacts := by
  have hnamed {entity : Entity} {kind : DefinitionKind}
      (h : Root.names setting.program setting.bubble entity kind) :
      entity ∈ setting.program.mentioned := by
    rw [Root.names, Bool.and_eq_true] at h
    exact Program.mem_mentioned_of_contains h.2
  cases root with
  | method entity =>
    rw [List.mem_singleton.mp hkey]
    exact Program.mem_artifacts (hnamed hknown) rfl
  | type entity =>
    rcases List.mem_pair.mp hkey with rfl | rfl
    · exact Program.mem_artifacts (hnamed hknown) rfl
    · exact Program.mem_artifacts (hnamed hknown) rfl
  | allMethods module =>
    obtain ⟨method, hmem, rfl⟩ := List.mem_map.mp hkey
    have halone := (List.mem_filter.mp hmem).2
    unfold standsAlone at halone
    split at halone
    · cases halone
    · rename_i description hdescription
      exact Program.mem_artifacts (Program.mem_mentioned_of_method hdescription (.inl rfl)) rfl

end Setting

namespace Session

variable {setting : Setting} {roots : List Root} {workspace : Workspace}

theorem rearranges_enlist (setting : Setting) (analysis : Analysis ArtifactKey Shelf) (root : Root) :
    Graph.Site.Rearranges
      { analysis.toSite with arena := (analysis.arena.internEach (setting.rootKeys root)).2 }
      (enlist setting analysis root).toSite := by
  obtain ⟨_, _, hspread⟩ := Analysis.spread_markEach
    { analysis with arena := (analysis.arena.internEach (setting.rootKeys root)).2 }
    (analysis.arena.internEach (setting.rootKeys root)).1
  exact hspread.rearranges

/-- Marking the roots keeps a workspace orderly, and touches nothing but the arena. -/
theorem orderly_start (h : workspace.Orderly setting)
    (hroots : ∀ root ∈ roots, root.isKnown setting.program setting.bubble) :
    Workspace.Orderly setting (start setting roots workspace).toSite ∧
      (start setting roots workspace).store = workspace.store ∧
      (start setting roots workspace).cancelled = workspace.cancelled := by
  have hrest : ∀ (rest : List Root) (analysis : Analysis ArtifactKey Shelf),
      (∀ root ∈ rest, root.isKnown setting.program setting.bubble) →
      Workspace.Orderly setting analysis.toSite →
      Workspace.Orderly setting (rest.foldl (enlist setting) analysis).toSite ∧
        (rest.foldl (enlist setting) analysis).store = analysis.store ∧
        (rest.foldl (enlist setting) analysis).cancelled = analysis.cancelled := by
    intro rest
    induction rest with
    | nil => exact fun analysis _ h => ⟨h, rfl, rfl⟩
    | cons root rest ih =>
      intro analysis hknown h
      have hmoved := rearranges_enlist setting analysis root
      have hinterned := h.intern fun key =>
        Setting.mem_artifacts_of_rootKeys (hknown root List.mem_cons_self)
      obtain ⟨horderly, hstore, hcancelled⟩ := ih (enlist setting analysis root)
        (fun other hother => hknown other (List.mem_cons_of_mem _ hother))
        (hinterned.rearrange hmoved)
      exact ⟨horderly, hstore.trans hmoved.store, hcancelled.trans hmoved.cancelled⟩
  exact hrest roots { toSite := workspace } hroots h

theorem listed_enlist {keys : List ArtifactKey} {analysis : Analysis ArtifactKey Shelf}
    (h : analysis.Listed keys) (root : Root) :
    (enlist setting analysis root).Listed (keys ++ setting.rootKeys root) :=
  (h.grow (Arena.Grows.internEach analysis.arena (setting.rootKeys root))).markEach
    (Arena.key?_internEach analysis.arena (setting.rootKeys root))

/-- In an empty workspace the analysis starts with what the roots ask for. -/
theorem listed_start (setting : Setting) (roots : List Root) :
    (start setting roots .empty).Listed (roots.flatMap setting.rootKeys) := by
  have hrest : ∀ (rest : List Root) (keys : List ArtifactKey)
      (analysis : Analysis ArtifactKey Shelf), analysis.Listed keys →
      (rest.foldl (enlist setting) analysis).Listed (keys ++ rest.flatMap setting.rootKeys) := by
    intro rest
    induction rest with
    | nil =>
      intro keys analysis h
      rw [List.flatMap_nil, List.append_nil]
      exact h
    | cons root rest ih =>
      intro keys analysis h
      rw [List.flatMap_cons, ← List.append_assoc]
      exact ih _ _ (listed_enlist h root)
  exact hrest roots [] _ (Analysis.Listed.initial fun _ => rfl)

structure Fresh (session : Session) (program : Program) : Prop where
  untouched : session.Untouched
  orderly : session.workspace.Orderly (session.setting program)
  uncompiled : ∀ node, session.workspace.store.compiled.find? node = none
  known : ∀ root ∈ session.roots, root.isKnown program session.bubble

variable {order : Order} {program : Program} {session : Session}

theorem fresh_of_build (h : order.build program = .ok session) : session.Fresh program where
  untouched := untouched_of_build h
  orderly := by
    rw [workspace_of_build h]
    exact Workspace.orderly_empty _
  uncompiled node := by
    rw [workspace_of_build h]
    rfl
  known := by
    obtain ⟨input, backend, haccepted, rfl⟩ := Order.accepted_of_build h
    exact haccepted.known

/-- The first phase of a session: what its roots need is found out and compiled. -/
def analyse (session : Session) (program : Program) :
    Graph.Verdict Fault × Analysis ArtifactKey Shelf :=
  (start (session.setting program) session.roots session.workspace).saturate
    (expand session.compiler (session.setting program)) program.rounds

/-- An image has what the emission after a completed analysis comes to, and the table of the ledger
as it is then. -/
theorem exists_emission_of_emit {after : Session} {image : Image}
    (h : session.emit program = (.ok (.completed image), after)) :
    ∃ analysis, session.analyse program = (.completed, analysis) ∧
      emitMarked (session.setting program) analysis.toSite =
        (.ok image.artifacts, after.workspace) ∧
      image.tokens = after.workspace.store.ledger.table := by
  rw [emit] at h
  split at h
  · cases (Prod.mk.inj h).1
  cases hanalyse : session.analyse program with
  | mk verdict analysis =>
    unfold analyse at hanalyse
    rw [run] at h
    simp only [hanalyse] at h
    cases verdict with
    | failed | cancelled | exhausted => cases (Prod.mk.inj h).1
    | completed =>
      cases hemit : emitMarked (session.setting program) analysis.toSite with
      | mk answer workspace =>
        simp only [hemit] at h
        obtain ⟨hanswer, rfl⟩ := Prod.mk.inj h
        cases answer with
        | error fault => cases hanswer
        | ok artifacts =>
          cases hanswer
          exact ⟨analysis, rfl, hemit, rfl⟩

end Session

end PortableImage
