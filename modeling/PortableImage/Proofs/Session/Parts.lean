import PortableImage.Artifact.Emission
import PortableImage.Artifact.Needs
import PortableImage.Backend.Compiler
import PortableImage.Proofs.Backend.Forwarding
/-!
# What work is put together from

Planning on behalf of an artifact creates nodes and asks the ledger for tokens.  Answering on behalf of
a method plans for its code, asks for rulings and notes what it came to.  `Made` says this once for
every function of either kind; what is to hold of all of them is proved for the parts.
-/

namespace PortableImage

open PortableImage.Graph (Dependency Expansion GuardedDependency Handle)

theorem Program.unrelated_of_meaning {program : Program} {module : ModuleIndex} {token : Token}
    {fault : Fault} (h : program.meaning module token = .error fault) : fault.Unrelated := by
  unfold meaning at h
  split at h
  · cases h
    exact fun _ _ _ => Fault.noConfusion
  · split at h
    · cases h
    · split at h
      · cases h
        exact fun _ _ _ => Fault.noConfusion
      · split at h <;> cases h
        exact fun _ _ _ => Fault.noConfusion

namespace Drafting

/-- Planning on behalf of an artifact.  It fails on its own, or because the ledger has no token. -/
inductive Made (setting : Setting) (requester : ArtifactKey) : {α : Type} → Drafting α → Prop
  | pure {α : Type} (value : α) : Made setting requester (pure value : Drafting α)
  | throw {α : Type} {fault : Fault} (h : fault.Unrelated) :
      Made setting requester (throw fault : Drafting α)
  | node (key : ArtifactKey) : Made setting requester (node key)
  | issueFor (entity : Entity) (origin : ModuleIndex) :
      Made setting requester (issueFor setting requester entity origin)
  | bind {α β : Type} {drafting : Drafting α} {next : α → Drafting β}
      (h : Made setting requester drafting) (hnext : ∀ value, Made setting requester (next value)) :
      Made setting requester (drafting >>= next)

variable {setting : Setting} {key : ArtifactKey} {α β : Type}

theorem Made.mapM {f : α → Drafting β} (h : ∀ item, Made setting key (f item)) (items : List α) :
    Made setting key (items.mapM f) := by
  induction items with
  | nil =>
    rw [List.mapM_nil]
    exact .pure []
  | cons item items ih =>
    rw [List.mapM_cons]
    exact (h item).bind fun _ => ih.bind fun _ => .pure _

theorem Made.foldlM {f : β → α → Drafting β} (h : ∀ value item, Made setting key (f value item))
    (items : List α) (start : β) : Made setting key (items.foldlM f start) := by
  induction items generalizing start with
  | nil => exact .pure start
  | cons item items ih =>
    rw [List.foldlM_cons]
    exact (h start item).bind ih

theorem made_described (entity : Entity) (description : Option α) :
    Made setting key (described entity description) := by
  cases description with
  | some description => exact .pure description
  | none => exact .throw fun _ _ _ => Fault.noConfusion

theorem made_anchorAmong (unmet : Bindings Entity FieldDescription) (entity : Entity)
    (origin : ModuleIndex) : Made setting key (anchorAmong unmet setting key entity origin) := by
  induction unmet, entity using anchorAmong.induct with
  | case1 unmet entity ih =>
    rw [anchorAmong]
    refine (Made.issueFor entity origin).bind fun token => ?_
    split
    · split
      · exact .node _
      · split <;> exact .node _
      · exact .node _
      · split
        · rename_i hfield
          exact ih _ hfield
        · exact .throw fun _ _ _ => Fault.noConfusion
      · exact .throw fun _ _ _ => Fault.noConfusion
    · exact .node _

theorem made_anchor (entity : Entity) (origin : ModuleIndex) :
    Made setting key (anchor setting key entity origin) :=
  made_anchorAmong _ entity origin

section Needs

theorem made_need (needed : ArtifactKey) (reason : String) :
    Made setting key (need needed reason) :=
  (Made.node needed).bind fun _ => .pure _

theorem made_needAnchor (entity : Entity) (origin : ModuleIndex) (reason : String) :
    Made setting key (needAnchor setting key entity origin reason) :=
  (made_anchor entity origin).bind fun _ => .pure _

theorem made_needArguments (instantiation : Instantiation) (origin : ModuleIndex) :
    Made setting key (needArguments setting key instantiation origin) :=
  Made.mapM (fun _ => made_needAnchor _ _ _) _

theorem made_needSlot (method : Entity) : Made setting key (needSlot setting method) :=
  (Made.node _).bind fun _ => (Made.node _).bind fun _ => .pure _

/-- What an artifact needs is planned on behalf of the artifact. -/
theorem made_needs (key : ArtifactKey) : Made setting key (needs setting key) := by
  cases key with
  | methodCode method =>
    refine (made_described _ _).bind fun description => ?_
    refine (made_needAnchor _ _ _).bind fun owner => ?_
    split
    · exact (made_need _ _).bind fun _ => .pure _
    · exact .pure _
  | typeLayout type =>
    refine (made_described _ _).bind fun description => ?_
    refine (Made.mapM (fun _ => made_needAnchor _ _ _) _).bind fun base => ?_
    split
    · exact .pure _
    · exact (made_needAnchor _ _ _).bind fun _ => (made_needArguments _ _).bind fun _ => .pure _
  | vtable type =>
    refine (made_described _ _).bind fun description => (made_need _ _).bind fun owner => ?_
    refine (Made.mapM (fun _ => made_need _ _) _).bind fun base => ?_
    exact (Made.mapM made_needSlot _).bind fun guarded => .pure _
  | genericDictionary entity =>
    refine (made_described _ _).bind fun instantiation => ?_
    exact (made_needArguments _ _).bind fun _ => (made_need _ _).bind fun _ => .pure _
  | virtualMethodUse slot =>
    rw [needs, virtualMethodUseNeeds]
    split
    · exact .pure _
    · split
      · exact (made_need _ _).bind fun _ => .pure _
      · exact .pure _
  | signature | importCell | helperCell => exact .pure _

end Needs

section Layouts

theorem made_count (layout : Layout) (value : Nat) :
    Made setting key (liftM (layout.count value) : Drafting Layout) := by
  unfold Layout.count
  split
  · exact .pure _
  · exact .throw fun _ _ _ => Fault.noConfusion

theorem made_slot (layout : Layout) (target : Option Relocation.Target) :
    Made setting key (liftM (layout.slot target) : Drafting Layout) := by
  unfold Layout.slot
  split
  · exact .throw fun _ _ _ => Fault.noConfusion
  · exact .pure _

theorem made_layoutOfType (type : Entity) :
    Made setting (.typeLayout type) (layoutOfType setting type) := by
  refine (made_described _ _).bind fun description => (made_count _ _).bind fun fields => ?_
  refine (made_count _ _).bind fun methods => (made_count _ _).bind fun head => ?_
  have hbase : Made setting (.typeLayout type) (description.base.mapM fun base =>
      anchor setting (.typeLayout type) base type.module) := by
    cases description.base with
    | none => exact .pure _
    | some base => exact (made_anchor base type.module).bind fun _ => .pure _
  exact hbase.bind fun base => made_slot _ _

theorem made_layoutOfDictionary (entity : Entity) :
    Made setting (.genericDictionary entity) (layoutOfDictionary setting entity) := by
  refine (made_described _ _).bind fun instantiation => (made_count _ _).bind fun head => ?_
  exact Made.foldlM (fun _ _ => (made_anchor _ _).bind fun _ => made_slot _ _) _ _

end Layouts

end Drafting

namespace Answering

/-- Answering on behalf of a method. -/
inductive Made (setting : Setting) (method : Entity) : {α : Type} → Answering α → Prop
  | pure {α : Type} (value : α) : Made setting method (pure value : Answering α)
  | throw {α : Type} {fault : Fault} (h : fault.Unrelated) :
      Made setting method (throw fault : Answering α)
  | note (node : Handle) (reason : String) : Made setting method (note node reason)
  | plan {α : Type} {drafting : Drafting α} (h : Drafting.Made setting (.methodCode method) drafting) :
      Made setting method (plan drafting)
  | rule (callee : Entity) : Made setting method (work (Workspace.rule setting callee))
  | bind {α β : Type} {answering : Answering α} {next : α → Answering β}
      (h : Made setting method answering) (hnext : ∀ value, Made setting method (next value)) :
      Made setting method (answering >>= next)

variable {setting : Setting} {method : Entity}

theorem made_meaning (token : Token) : Made setting method
    (liftM (setting.program.meaning method.module token) : Answering Entity) := by
  cases hmeaning : setting.program.meaning method.module token with
  | ok entity => exact .pure entity
  | error fault => exact .throw (Program.unrelated_of_meaning hmeaning)

theorem made_entity (token : Token) (kind : DefinitionKind) :
    Made setting method (entity setting method token kind) := by
  refine (made_meaning token).bind fun entity => ?_
  split
  · exact .pure _
  · exact .throw fun _ _ _ => Fault.noConfusion

theorem made_anchor (entity : Entity) : Made setting method (anchor setting method entity) :=
  .plan (Drafting.made_anchor entity method.module)

theorem made_reference (entity : Entity) (reason : String) :
    Made setting method (reference setting method entity reason) :=
  (made_anchor entity).bind fun node => .note node reason

theorem made_artifact (key : ArtifactKey) (reason : String) :
    Made setting method (artifact key reason) :=
  (Made.plan (.node key)).bind fun node => .note node reason

theorem made_portable (token : Token) : Made setting method (portable setting method token) :=
  (made_meaning token).bind fun entity => (made_reference entity _).bind fun _ =>
    (Made.plan (.issueFor entity method.module)).bind fun _ => .pure _

theorem made_noteUse (callee : Entity) : Made setting method (noteUse setting callee) := by
  unfold noteUse
  split
  · exact (made_artifact _ _).bind fun _ => .pure _
  · exact .pure _

theorem made_stubTarget (callee : Entity) :
    Made setting method (stubTarget setting method callee) := by
  unfold stubTarget
  split
  · exact .plan (.node _)
  · exact made_anchor callee

theorem made_dispatchedCall (callee : Entity) :
    Made setting method (dispatchedCall setting method callee) :=
  (made_noteUse callee).bind fun _ => (made_stubTarget callee).bind fun node =>
    (made_artifact _ _).bind fun _ => .note node _

theorem made_call (token : Token) (mode : CallMode) :
    Made setting method (call setting method token mode) := by
  refine (made_entity token .method).bind fun callee => ?_
  cases mode with
  | direct => exact made_reference callee _
  | dispatched =>
    refine (Made.rule callee).bind fun ruling => ?_
    cases ruling with
    | monomorphic target => exact made_reference target _
    | unknown => exact made_dispatchedCall callee

theorem made_describe (token : Token) : Made setting method (describe setting method token) :=
  (made_entity token .type).bind fun type => made_reference type _

theorem made_allocate (token : Token) : Made setting method (allocate setting method token) := by
  refine (made_entity token .method).bind fun constructor => ?_
  refine (Made.plan (Drafting.made_described _ _)).bind fun description => ?_
  refine (made_artifact _ _).bind fun _ => (made_reference constructor _).bind fun _ => ?_
  split
  · exact made_artifact _ _
  · exact made_reference _ _

theorem made_locate (token : Token) : Made setting method (locate setting method token) :=
  (made_entity token .field).bind fun field => made_reference field _

theorem made_ruling (token : Token) : Made setting method (ruling setting method token) :=
  (made_entity token .method).bind Made.rule

end Answering

end PortableImage
