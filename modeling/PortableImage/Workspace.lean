import PortableImage.Artifact.Draft
import PortableImage.Dispatch
/-!
# Workspaces

A workspace is all that changes while an image is made: the draft, the rulings on virtual calls, the
code compiled so far and the cancellation flag.
-/

namespace PortableImage

open PortableImage.Graph (Handle Site)

/-- What is kept beside the arena. -/
structure Shelf where
  ledger : Ledger := {}
  rulings : Rulings := ∅
  compiled : Bindings Handle CompiledMethod := ∅

/-- An arena of artifacts with its shelf. -/
abbrev Workspace := Site ArtifactKey Shelf

/-- Work in a workspace may fail; what it did before stays done. -/
abbrev Working := ExceptT Fault (StateM Workspace)

namespace Workspace

def empty : Workspace := { arena := ∅, store := {} }

/-- The part of a workspace that planning needs. -/
def draft (workspace : Workspace) : Draft := ⟨workspace.store.ledger, workspace.arena⟩

def withDraft (workspace : Workspace) (draft : Draft) : Workspace :=
  { workspace with arena := draft.arena, store := { workspace.store with ledger := draft.ledger } }

@[simp] theorem draft_withDraft (workspace : Workspace) (draft : Draft) :
    (workspace.withDraft draft).draft = draft := rfl

/-- Planning, as work in a workspace. -/
def plan {α : Type} (drafting : Drafting α) : Working α :=
  fun workspace =>
    let (answer, draft) := drafting workspace.draft
    (answer, workspace.withDraft draft)

def rule (setting : Setting) (method : Entity) : Working Ruling :=
  modifyGet fun workspace =>
    let (ruling, rulings) :=
      workspace.store.rulings.consult setting.program setting.bubble method
    (ruling, { workspace with store := { workspace.store with rulings } })

end Workspace

end PortableImage
