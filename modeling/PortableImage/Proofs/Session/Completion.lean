import Mathlib
import PortableImage.Backend.Bytecode
import PortableImage.Proofs.Graph.Saturation
import PortableImage.Proofs.Program.Assembly
import PortableImage.Proofs.Session.Finishing
import PortableImage.Proofs.Session.Orders
/-!
# Completed sessions

A session that nobody has touched marks its roots, saturates and emits.  If it comes to an image,
its analysis is accounted for by visits, nothing waits, nothing that is pending could fire, and
exactly the visited nodes are finished.
-/

namespace PortableImage

open PortableImage.Graph (Analysis Arena Expander Handle Visit)
open PortableImage.Graph.Analysis (Accounts)
open PortableImage.Graph.Arena (Finishes)

/-- The keys of the artifacts, in the order in which they stand in the image. -/
def Image.keys (image : Image) : List ArtifactKey := image.artifacts.map EmittedArtifact.key

namespace Session

/-- Nothing has been decided about any artifact. -/
def Untouched (session : Session) : Prop :=
  ∀ node, session.workspace.arena.progress node = .unmarked

theorem workspace_of_build {order : Order} {program : Program} {session : Session}
    (h : order.build program = .ok session) : session.workspace = .empty := by
  obtain ⟨_, _, _, rfl⟩ := Order.accepted_of_build h
  rfl

theorem untouched_of_build {order : Order} {program : Program} {session : Session}
    (h : order.build program = .ok session) : session.Untouched := by
  intro node
  rw [workspace_of_build h]
  rfl

section Start

variable {expander : Expander ArtifactKey Shelf Fault} {first : Arena ArtifactKey}
  {roots : List Handle} {analysis : Analysis ArtifactKey Shelf}

/-- The nodes of a root are marked with what was marked before. -/
theorem accounts_enlist {keys : List ArtifactKey} (h : Accounts expander first roots [] [] analysis)
    (hroots : roots.map analysis.arena.key? = keys.map some) (setting : Setting) (root : Root) :
    ∃ more, Accounts expander first more [] [] (enlist setting analysis root) ∧
      more.map (enlist setting analysis root).arena.key? =
        (keys ++ setting.rootKeys root).map some := by
  have hinterned := Arena.Grows.internEach analysis.arena (setting.rootKeys root)
  have hkeys := Arena.key?_internEach analysis.arena (setting.rootKeys root)
  obtain ⟨_, _, hspread⟩ := Analysis.spread_markEach
    { analysis with arena := (analysis.arena.internEach (setting.rootKeys root)).2 }
    (analysis.arena.internEach (setting.rootKeys root)).1
  refine ⟨_, (h.grow _ hinterned).spread hspread fun node hnode => ?_, ?_⟩
  · have hmem := List.mem_map_of_mem
      (f := (analysis.arena.internEach (setting.rootKeys root)).2.key?) hnode
    rw [hkeys] at hmem
    obtain ⟨key, _, hkey⟩ := List.mem_map.mp hmem
    rw [← hkey]
    rfl
  · have hold : roots.map (analysis.arena.internEach (setting.rootKeys root)).2.key? =
        keys.map some := by
      rw [← hroots]
      refine List.map_congr_left fun node hnode => ?_
      have hmem := List.mem_map_of_mem (f := analysis.arena.key?) hnode
      rw [hroots] at hmem
      obtain ⟨key, _, hkey⟩ := List.mem_map.mp hmem
      rw [← hkey, hinterned.keeps node key hkey.symm]
    rw [List.map_append, List.map_append, ← hold, ← hkeys, ← List.map_append, ← List.map_append]
    exact List.map_congr_left fun node _ => hspread.key? node

/-- An analysis starts with the nodes of all roots marked. -/
theorem accounts_start (expander : Expander ArtifactKey Shelf Fault) (setting : Setting)
    (roots : List Root) {workspace : Workspace}
    (h : ∀ node, workspace.arena.progress node = .unmarked) :
    ∃ marked, Accounts expander workspace.arena marked [] [] (start setting roots workspace) ∧
      marked.map (start setting roots workspace).arena.key? =
        (roots.flatMap setting.rootKeys).map some := by
  have hrest : ∀ (rest : List Root) (analysis : Analysis ArtifactKey Shelf) (before : List Handle)
      (keys : List ArtifactKey), Accounts expander workspace.arena before [] [] analysis →
      before.map analysis.arena.key? = keys.map some →
      ∃ marked, Accounts expander workspace.arena marked [] []
          (rest.foldl (enlist setting) analysis) ∧
        marked.map (rest.foldl (enlist setting) analysis).arena.key? =
          (keys ++ rest.flatMap setting.rootKeys).map some := by
    intro rest
    induction rest with
    | nil =>
      intro analysis before keys hbefore hkeys
      exact ⟨before, hbefore, by rwa [List.flatMap_nil, List.append_nil]⟩
    | cons root rest ih =>
      intro analysis before keys hbefore hkeys
      obtain ⟨more, hmore, hkeys'⟩ := accounts_enlist hbefore hkeys setting root
      rw [List.flatMap_cons, ← List.append_assoc]
      exact ih _ more _ hmore hkeys'
  exact hrest roots _ [] [] (Accounts.initial expander h) rfl

end Start

/-- What the expander of a session is asked in the course of the session. -/
def expansions (session : Session) (program : Program) : List (Handle × Workspace) :=
  (start (session.setting program) session.roots session.workspace).expansions
    (expand session.compiler (session.setting program)) program.rounds

/-- How a session came to its image: by an analysis with these visits, which came to an end. -/
structure Finished (session : Session) (program : Program) (image : Image) (after : Session)
    (visits : List (Visit ArtifactKey Shelf)) (analysis : Analysis ArtifactKey Shelf) : Prop where
  accounts : ∃ first roots, Accounts (expand session.compiler (session.setting program))
    first roots visits [] analysis
  asked : visits.map Visit.survey = session.expansions program
  drained : analysis.worklist = []
  settled : ∀ deferred ∈ analysis.pending, analysis.satisfied deferred.dependency = false
  finishes : Finishes (emissionOrder analysis.toSite) analysis.arena after.workspace.arena
  emitted : List.Forall₂
    (fun node artifact => Emitted (session.setting program) node artifact after.workspace.arena)
    (emissionOrder analysis.toSite) image.artifacts
  counts : image.counts = analysis.counts

theorem finished_of_emit {session after : Session} {program : Program} {image : Image}
    (huntouched : session.Untouched)
    (h : session.emit program = (.ok (.completed image), after)) :
    ∃ visits analysis, session.Finished program image after visits analysis := by
  rw [emit] at h
  split at h
  · cases (Prod.mk.inj h).1
  obtain ⟨roots, hstart, _⟩ := accounts_start
    (expand session.compiler (session.setting program)) (session.setting program) session.roots
    huntouched
  rw [run] at h
  cases hsaturate : (start (session.setting program) session.roots session.workspace).saturate
      (expand session.compiler (session.setting program)) program.rounds with
  | mk verdict analysis =>
    simp only [hsaturate] at h
    cases verdict with
    | failed fault => cases (Prod.mk.inj h).1
    | cancelled => cases (Prod.mk.inj h).1
    | exhausted => cases (Prod.mk.inj h).1
    | completed =>
      obtain ⟨visits, hasked, haccounts, _, hdrained, hsettled⟩ :=
        hstart.saturate (quiet_expand _ _) hsaturate
      cases hemit : emitMarked (session.setting program) analysis.toSite with
      | mk answer workspace =>
        simp only [hemit] at h
        obtain ⟨hanswer, rfl⟩ := Prod.mk.inj h
        cases answer with
        | error fault => cases hanswer
        | ok artifacts =>
          cases hanswer
          have hmarked : ∀ node ∈ emissionOrder analysis.toSite,
              (analysis.arena.progress node).isMarked := fun node => mem_emissionOrder.mp
          obtain ⟨hfinishes, hemitted⟩ := emitEach_eq_ok hmarked hemit
          exact ⟨visits, analysis, ⟨_, _, haccounts⟩, hasked, hdrained, hsettled, hfinishes,
            hemitted, rfl⟩

namespace Finished

variable {session after : Session} {program : Program} {image : Image}
  {visits : List (Visit ArtifactKey Shelf)} {analysis : Analysis ArtifactKey Shelf}

theorem isMarked_iff (h : session.Finished program image after visits analysis) (node : Handle) :
    (after.workspace.arena.progress node).isMarked ↔ (analysis.arena.progress node).isMarked :=
  h.finishes.isMarked_iff (fun _ => mem_emissionOrder.mp) node

theorem mem_visits_iff (h : session.Finished program image after visits analysis)
    {node : Handle} :
    (analysis.arena.progress node).isMarked ↔ node ∈ visits.map Visit.node := by
  obtain ⟨_, _, haccounts⟩ := h.accounts
  exact haccounts.tally.mem_visits h.drained

theorem mem_keys_iff (h : session.Finished program image after visits analysis)
    {key : ArtifactKey} :
    key ∈ image.keys ↔ key ∈ after.workspace.arena.markedKeys := by
  rw [h.finishes.mem_markedKeys fun _ => mem_emissionOrder.mp]
  exact mem_keys_iff_of_emitted h.emitted h.finishes

/-- The nodes are emitted once each, in the number of the visits. -/
theorem length_artifacts (h : session.Finished program image after visits analysis) :
    image.artifacts.length = visits.length := by
  obtain ⟨_, _, haccounts⟩ := h.accounts
  have honce : (emissionOrder analysis.toSite).Nodup :=
    (List.mergeSort_perm _ _).nodup_iff.mpr analysis.arena.nodup_marked
  have hperm : (emissionOrder analysis.toSite).Perm (visits.map Visit.node) := by
    rw [List.perm_ext_iff_of_nodup honce haccounts.tally.visited_once]
    intro node
    rw [mem_emissionOrder, h.mem_visits_iff]
  calc image.artifacts.length
      = (emissionOrder analysis.toSite).length := h.emitted.length_eq.symm
    _ = (visits.map Visit.node).length := hperm.length_eq
    _ = visits.length := List.length_map _

theorem pairwise_artifacts (h : session.Finished program image after visits analysis) :
    image.artifacts.Pairwise fun a b => a.key < b.key := by
  refine pairwise_of_forall₂ h.emitted (pairwise_emissionOrder analysis.toSite) ?_
  rintro node node' artifact artifact' hemitted hemitted' ⟨first, second, hfirst, hsecond, hlt⟩
  have hkey := h.finishes.keeps _ _ hfirst
  have hkey' := h.finishes.keeps _ _ hsecond
  rw [hemitted.key] at hkey
  rw [hemitted'.key] at hkey'
  rwa [Option.some.inj hkey, Option.some.inj hkey']

theorem find?_eq_some_iff (h : session.Finished program image after visits analysis)
    {key : ArtifactKey} {artifact : EmittedArtifact} :
    image.find? key = some artifact ↔ artifact ∈ image.artifacts ∧ artifact.key = key :=
  bisect?_eq_some_iff h.pairwise_artifacts

theorem contains_iff (h : session.Finished program image after visits analysis)
    {key : ArtifactKey} :
    image.contains key ↔ key ∈ image.keys := by
  rw [Image.contains, Option.isSome_iff_exists, Image.keys, List.mem_map]
  exact exists_congr fun artifact => h.find?_eq_some_iff

end Finished

section Figures

def typeProgram : Entity := ⟨⟨0⟩, ⟨0x02000001⟩⟩
def typeFigure : Entity := ⟨⟨0⟩, ⟨0x02000002⟩⟩
def typeDisc : Entity := ⟨⟨0⟩, ⟨0x02000003⟩⟩
def main : Entity := ⟨⟨0⟩, ⟨0x06000001⟩⟩
def figureArea : Entity := ⟨⟨0⟩, ⟨0x06000002⟩⟩
def discArea : Entity := ⟨⟨0⟩, ⟨0x06000003⟩⟩

/-- Figures have an area, and discs have one of their own; the main method asks a figure for it. -/
def figures : Program :=
  (Program.assemble [.module "App" "/App.dll",
    .type { id := typeProgram, name := "Program" },
    .type { id := typeFigure, name := "Figure" },
    .type { id := typeDisc, name := "Disc", base := some typeFigure },
    .method { id := main, owner := typeProgram, name := "Main",
              body := some { code := [0x6f, 2, 0, 0, 6, 0x2a] } },
    .method { id := figureArea, owner := typeFigure, name := "Area",
              flags := MethodFlags.dispatched, body := some { code := [0x2a] } },
    .method (MethodDescription.overriding
      { id := discArea, owner := typeDisc, name := "Area", body := some { code := [0x2a] } }
      figureArea)]).toOption.getD {}

def figureOrder : Order where
  bubble := ⟨[⟨0⟩], false⟩
  input := "/App.dll"
  backend := some (Bytecode.backend "bytes")
  roots := [.method main, .type typeDisc]

def figureSession : Session where
  bubble := figureOrder.bubble
  bodies := .declared
  compiler := ⟨Bytecode.backend "bytes", .ofParts .blended []⟩
  roots := figureOrder.roots

theorem build_figures : figureOrder.build figures = .ok figureSession := by
  have hinput : figures.moduleAt? figureOrder.input = some ⟨0⟩ := by
    have hmodules : figures.modules = [⟨"App", "/App.dll"⟩] := rfl
    simp [Program.moduleAt?, Program.findModule?, hmodules, figureOrder]
  have hknown : figureOrder.roots.find? (fun root => !root.isKnown figures figureOrder.bubble) =
      none := by decide +kernel
  have hroots : figureOrder.effectiveRoots ⟨0⟩ = figureOrder.roots := rfl
  unfold Order.build
  simp only [hinput, hroots, hknown]
  rfl

def completed? : Except Fault Emission → Option Image
  | .ok (.completed image) => some image
  | _ => none

theorem eq_of_completed? {answer : Except Fault Emission} {image : Image}
    (h : completed? answer = some image) : answer = .ok (.completed image) := by
  unfold completed? at h
  split at h
  · rw [Option.some.inj h]
  · cases h

/-- A session that comes to an image, told by the keys of the image. -/
theorem exists_image_of_keys {session : Session} {program : Program} {keys : List ArtifactKey}
    (h : (completed? (session.emit program).1).map Image.keys = some keys) :
    ∃ image after, session.emit program = (.ok (.completed image), after) ∧ image.keys = keys := by
  obtain ⟨image, himage, hkeys⟩ := Option.map_eq_some_iff.mp h
  exact ⟨image, _, Prod.ext (eq_of_completed? himage) rfl, hkeys⟩

theorem emit_figures : ∃ image after,
    figureSession.emit figures = (.ok (.completed image), after) ∧
    image.keys =
      [.methodCode main, .methodCode figureArea, .methodCode discArea, .typeLayout typeProgram,
        .typeLayout typeFigure, .typeLayout typeDisc, .vtable typeFigure, .vtable typeDisc,
        .signature figureArea, .helperCell .delayLoadVirtualCall, .virtualMethodUse figureArea] :=
  exists_image_of_keys (by cbv)

end Figures

end Session

end PortableImage
