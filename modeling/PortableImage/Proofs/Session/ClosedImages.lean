import PortableImage.Proofs.Session.Completion
/-!
# Images are closed

The image of a session has the artifacts that are marked in the end and no others, in strictly
ascending order of their keys.  Whatever it points to is in it, no relocation reaches beyond the
data of its artifact, and a lookup finds what is there.
-/

namespace PortableImage

open PortableImage.Graph (Arena)

/-- An image is whole beside an arena if its artifacts are the marked ones of the arena, sorted,
closed and finished. -/
structure Image.Whole (image : Image) (arena : Arena ArtifactKey) : Prop where
  sorted : image.keys.Pairwise (· < ·)
  complete : ∀ key, key ∈ image.keys ↔ key ∈ arena.markedKeys
  inside : ∀ artifact ∈ image.artifacts, ∀ relocation ∈ artifact.relocations,
    relocation.offset.toNat + relocation.kind.size ≤ artifact.data.length
  closed : ∀ artifact ∈ image.artifacts, ∀ relocation ∈ artifact.relocations,
    ∀ key, relocation.symbol = .artifact key → key ∈ image.keys
  marked : image.counts.marked = image.artifacts.length
  expanded : image.counts.expanded = image.artifacts.length
  emitted : ∀ node, (arena.progress node).isMarked → arena.progress node = .emitted
  found : ∀ key artifact, image.find? key = some artifact ↔
    artifact ∈ image.artifacts ∧ artifact.key = key
  missing : ∀ key, image.find? key = none ↔ key ∉ image.keys

namespace Session

open PortableImage.Graph (Analysis Visit)

variable {session after : Session} {program : Program} {image : Image}

section Finished

variable {visits : List (Visit ArtifactKey Shelf)} {analysis : Analysis ArtifactKey Shelf}

theorem Finished.closed (h : session.Finished program image after visits analysis)
    {artifact : EmittedArtifact} (hartifact : artifact ∈ image.artifacts)
    {relocation : PlacedRelocation} (hrelocation : relocation ∈ artifact.relocations)
    {key : ArtifactKey} (hsymbol : relocation.symbol = .artifact key) : key ∈ image.keys := by
  obtain ⟨node, _, hemitted⟩ := exists_of_mem_right h.emitted hartifact
  apply h.mem_keys_iff.mpr
  exact hemitted.closed relocation hrelocation key hsymbol

theorem Finished.inside (h : session.Finished program image after visits analysis)
    {artifact : EmittedArtifact} (hartifact : artifact ∈ image.artifacts)
    {relocation : PlacedRelocation} (hrelocation : relocation ∈ artifact.relocations) :
    relocation.offset.toNat + relocation.kind.size ≤ artifact.data.length := by
  obtain ⟨node, _, hemitted⟩ := exists_of_mem_right h.emitted hartifact
  exact hemitted.inside relocation hrelocation

theorem Finished.counts_eq (h : session.Finished program image after visits analysis) :
    image.counts.marked = image.artifacts.length ∧
      image.counts.expanded = image.artifacts.length := by
  obtain ⟨_, _, haccounts⟩ := h.accounts
  have hmarked : analysis.markedCount = visits.length := by
    have hcount := haccounts.tally.markedCount
    rwa [h.drained, List.append_nil, List.length_nil, Nat.add_zero] at hcount
  rw [h.counts, h.length_artifacts]
  exact ⟨hmarked, haccounts.tally.expandedCount⟩

theorem Finished.progress_eq (h : session.Finished program image after visits analysis)
    {node : Graph.Handle} (hmarked : (after.workspace.arena.progress node).isMarked) :
    after.workspace.arena.progress node = .emitted := by
  rw [h.isMarked_iff] at hmarked
  rw [h.finishes.progress, if_pos (mem_emissionOrder.mpr hmarked)]

theorem Finished.find?_eq_none_iff (h : session.Finished program image after visits analysis)
    {key : ArtifactKey} : image.find? key = none ↔ key ∉ image.keys := by
  rw [← Option.not_isSome_iff_eq_none]
  exact not_congr h.contains_iff

end Finished

/-- An image for which a session is asked before anything is decided is whole. -/
theorem whole_of_emit (huntouched : session.Untouched)
    (h : session.emit program = (.ok (.completed image), after)) :
    image.Whole after.workspace.arena := by
  obtain ⟨visits, analysis, hfinished⟩ := finished_of_emit huntouched h
  exact {
    sorted := List.pairwise_map.mpr hfinished.pairwise_artifacts
    complete := fun _ => hfinished.mem_keys_iff
    inside := fun _ hartifact _ hrelocation => hfinished.inside hartifact hrelocation
    closed := fun _ hartifact _ hrelocation _ hsymbol =>
      hfinished.closed hartifact hrelocation hsymbol
    marked := hfinished.counts_eq.1
    expanded := hfinished.counts_eq.2
    emitted := fun _ hmarked => hfinished.progress_eq hmarked
    found := fun _ _ => hfinished.find?_eq_some_iff
    missing := fun _ => hfinished.find?_eq_none_iff }

theorem whole_of_emit_figures : ∃ image after, figureOrder.build figures = .ok figureSession ∧
    figureSession.emit figures = (.ok (.completed image), after) ∧ image.keys.length = 11 ∧
    image.Whole after.workspace.arena := by
  obtain ⟨image, after, hemit, hkeys⟩ := emit_figures
  refine ⟨image, after, build_figures, hemit, ?_, ?_⟩
  · rw [hkeys]
    rfl
  · exact whole_of_emit (untouched_of_build build_figures) hemit

end Session

end PortableImage
