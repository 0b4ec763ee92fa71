import PortableImage.Proofs.Session.Parts
import PortableImage.Proofs.Session.Yields
/-!
# How work can fail

`FailsWithin` bounds the faults of an action, whatever the state it starts in.  The fault that is
followed here is an unresolvable reference: only the ledger makes one, and it names nobody.  Planning
and answering put in the name of the artifact they work for, so that every unresolvable reference they
end with names that artifact.
-/

namespace PortableImage

open PortableImage.Graph (Dependency Expansion GuardedDependency Handle)

/-- If the fault is an unresolvable reference, the requester is the one it names, and the entity is
outside the bubble and without a row in the module that refers to it. -/
def Fault.Blames (setting : Setting) (requester : Option ArtifactKey) (fault : Fault) : Prop :=
  ∀ entity origin named, fault = .unresolvableReference entity origin named →
    named = requester ∧ setting.bubble.contains entity = false ∧
      setting.program.rowFor? origin entity = none

/-- Whatever the state, the action fails in admitted ways at most. -/
def FailsWithin {τ α : Type} (admitted : Fault → Prop) (action : ExceptT Fault (StateM τ) α) :
    Prop :=
  ∀ state, FailsOnly admitted (action state).1

namespace Fault

variable {setting : Setting} {requester : Option ArtifactKey} {fault : Fault}

theorem Unrelated.blames (h : fault.Unrelated) : fault.Blames setting requester :=
  fun _ _ _ hfault => absurd hfault (h _ _ _)

theorem Blames.requestedBy (h : fault.Blames setting none) (key : ArtifactKey) :
    (fault.requestedBy key).Blames setting (some key) := by
  intro entity origin named hfault
  unfold Fault.requestedBy at hfault
  split at hfault
  · cases hfault
    exact ⟨rfl, (h entity origin none rfl).2⟩
  · rename_i hnamed
    subst hfault
    obtain ⟨rfl, _⟩ := h entity origin named rfl
    exact absurd rfl (hnamed entity origin)

end Fault

namespace FailsWithin

variable {τ α β : Type} {admitted : Fault → Prop} {action : ExceptT Fault (StateM τ) α}

theorem pure (value : α) : FailsWithin admitted (pure value : ExceptT Fault (StateM τ) α) :=
  fun _ => failsOnly_ok value

theorem throw {fault : Fault} (h : admitted fault) :
    FailsWithin admitted (throw fault : ExceptT Fault (StateM τ) α) :=
  fun _ => failsOnly_error h

theorem lift {answer : Except Fault α} (h : FailsOnly admitted answer) :
    FailsWithin admitted (liftM answer : ExceptT Fault (StateM τ) α) := by
  cases answer with
  | ok value => exact pure value
  | error fault => exact throw (h fault rfl)

theorem bind {next : α → ExceptT Fault (StateM τ) β} (h : FailsWithin admitted action)
    (hnext : ∀ value, FailsWithin admitted (next value)) :
    FailsWithin admitted (action >>= next) := by
  intro state
  have hfirst := h state
  cases haction : action state with
  | mk answer later =>
    rw [haction] at hfirst
    cases answer with
    | ok value =>
      rw [bind_of_ok haction]
      exact hnext value later
    | error fault =>
      rw [bind_of_error haction]
      exact failsOnly_error (hfirst fault rfl)

/-- A handler only ever sees the faults of the action. -/
theorem tryCatch {caught : Fault → Prop} {handler : Fault → ExceptT Fault (StateM τ) α}
    (h : FailsWithin caught action)
    (hhandler : ∀ fault, caught fault → FailsWithin admitted (handler fault)) :
    FailsWithin admitted (tryCatch action handler) := by
  intro state
  have hfirst := h state
  cases haction : action state with
  | mk answer later =>
    rw [haction] at hfirst
    cases answer with
    | ok value =>
      rw [tryCatch_of_ok haction]
      exact failsOnly_ok value
    | error fault =>
      rw [tryCatch_of_error haction]
      exact hhandler fault (hfirst fault rfl) later

theorem mapM {f : α → ExceptT Fault (StateM τ) β} (h : ∀ item, FailsWithin admitted (f item))
    (items : List α) : FailsWithin admitted (items.mapM f) := by
  induction items with
  | nil =>
    rw [List.mapM_nil]
    exact pure []
  | cons item items ih =>
    rw [List.mapM_cons]
    exact (h item).bind fun _ => ih.bind fun _ => pure _

theorem foldlM {f : β → α → ExceptT Fault (StateM τ) β}
    (h : ∀ value item, FailsWithin admitted (f value item)) (items : List α) (start : β) :
    FailsWithin admitted (items.foldlM f start) := by
  induction items generalizing start with
  | nil => exact pure start
  | cons item items ih =>
    rw [List.foldlM_cons]
    exact (h start item).bind ih

end FailsWithin

namespace Program

variable {program : Program}

theorem unrelated_of_portable {module : ModuleIndex} {token : Token} {fault : Fault}
    (h : portable module token = .error fault) : fault.Unrelated := by
  unfold portable at h
  split at h <;> cases h
  exact fun _ _ _ => Fault.noConfusion

/-- Nobody is named where a reference cannot be resolved. -/
theorem blames_portableToken (setting : Setting) (entity : Entity) (origin : ModuleIndex) :
    FailsOnly (Fault.Blames setting none)
      (setting.program.portableToken setting.bubble entity origin) := by
  intro fault h
  unfold portableToken at h
  split at h
  · split at h
    · exact (unrelated_of_portable h).blames
    · cases h
      exact Fault.Unrelated.blames fun _ _ _ => Fault.noConfusion
  · rename_i houtside
    split at h
    · exact (unrelated_of_portable h).blames
    · rename_i hrow
      cases h
      intro entity' origin' named hfault
      cases hfault
      exact ⟨rfl, eq_false_of_ne_true houtside, hrow⟩

end Program

theorem Ledger.blames_issue (setting : Setting) (entity : Entity) (origin : ModuleIndex)
    (ledger : Ledger) : FailsOnly (Fault.Blames setting none)
      (ledger.issue setting.program setting.bubble entity origin).1 := by
  unfold Ledger.issue
  dsimp only
  split
  · exact failsOnly_ok _
  · have hblames := Program.blames_portableToken setting entity origin
    split
    · exact failsOnly_ok _
    · rename_i hfault
      exact failsOnly_error (hblames _ hfault)

namespace Drafting

variable {setting : Setting} {requester : Option ArtifactKey} {key : ArtifactKey}

/-- The action fails with no unresolvable reference but one that names the requester. -/
abbrev Blaming {τ α : Type} (setting : Setting) (requester : Option ArtifactKey)
    (action : ExceptT Fault (StateM τ) α) : Prop :=
  FailsWithin (Fault.Blames setting requester) action

theorem blaming_throw {τ α : Type} {fault : Fault} (h : fault.Unrelated) :
    Blaming setting requester (throw fault : ExceptT Fault (StateM τ) α) :=
  FailsWithin.throw h.blames

theorem blaming_keyOf (node : Handle) : Blaming setting requester (keyOf node) := by
  refine FailsWithin.bind (fun _ => failsOnly_ok _) fun draft => ?_
  split
  · exact FailsWithin.pure _
  · exact blaming_throw fun _ _ _ => Fault.noConfusion

theorem blaming_described {α : Type} (entity : Entity) (description : Option α) :
    Blaming setting requester (described entity description) := by
  cases description with
  | some description => exact FailsWithin.pure description
  | none => exact blaming_throw fun _ _ _ => Fault.noConfusion

theorem blaming_issue (entity : Entity) (origin : ModuleIndex) :
    Blaming setting none (issue setting entity origin) :=
  fun draft => Ledger.blames_issue setting entity origin draft.ledger

theorem blaming_issueFor (entity : Entity) (origin : ModuleIndex) :
    Blaming setting (some key) (issueFor setting key entity origin) :=
  (blaming_issue entity origin).tryCatch fun _ h => FailsWithin.throw (h.requestedBy key)

/-- Whatever is planned on behalf of an artifact, the artifact answers for it. -/
theorem Made.blaming {α : Type} {drafting : Drafting α} (h : Made setting key drafting) :
    Blaming setting (some key) drafting := by
  induction h with
  | pure value => exact FailsWithin.pure value
  | throw hfault => exact blaming_throw hfault
  | node key => exact fun _ => failsOnly_ok _
  | issueFor entity origin => exact blaming_issueFor entity origin
  | bind _ _ ih ihnext => exact ih.bind ihnext

end Drafting

namespace Answering

open Drafting (Blaming)

variable {setting : Setting} {method : Entity}

/-- Answering for a method names the code of the method. -/
theorem Made.blaming {α : Type} {answering : Answering α} (h : Made setting method answering) :
    Blaming setting (some (.methodCode method)) answering := by
  induction h with
  | pure value => exact FailsWithin.pure value
  | throw hfault => exact Drafting.blaming_throw hfault
  | note node reason => exact fun _ => failsOnly_ok _
  | plan hdrafting => exact fun desk => hdrafting.blaming desk.workspace.draft
  | rule callee => exact fun _ => failsOnly_ok _
  | bind _ _ ih ihnext => exact ih.bind ihnext

/-- Whatever a backend is told while it compiles a method, an unresolvable reference in it names the
code of the method. -/
theorem admits_reply (question : Question) (desk : Desk) :
    question.Admits (Fault.Blames setting (some (.methodCode method)))
      (reply setting method question desk).1 := by
  cases question with
  | portable token => exact (made_portable token).blaming desk
  | call token mode => exact (made_call token mode).blaming desk
  | describe token => exact (made_describe token).blaming desk
  | allocate token => exact (made_allocate token).blaming desk
  | locate token => exact (made_locate token).blaming desk
  | ruling token => exact (made_ruling token).blaming desk
  | helper | cancel => exact trivial

end Answering

end PortableImage
