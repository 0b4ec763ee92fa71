import PortableImage.Artifact.Emission
import PortableImage.Artifact.Needs
import PortableImage.Backend.Compiler
import PortableImage.Proofs.Portable.SignatureFaults
import PortableImage.Proofs.Portable.TokenTables
import PortableImage.Proofs.Session.Yields
/-!
# The steps that work consists of

All work comes down to steps of a few kinds.  On a draft, a question is put to the ledger, or an
artifact gets a node; and a cell for a token gets one only if that token has been the answer to a
question.  In a workspace there is planning, a ruling or a wish to stop, and at a desk there is also
a note.  What each step preserves, all work preserves.
-/

namespace PortableImage

open Relation (ReflTransGen)
open PortableImage.Graph (Dependency Expansion GuardedDependency Handle)

/-- The action changes its state by steps of one kind, however it ends. -/
def Proceeds {τ ε α : Type} (step : τ → τ → Prop) (action : ExceptT ε (StateM τ) α) : Prop :=
  ∀ state, ReflTransGen step state (action state).2

namespace Proceeds

variable {τ ε α β : Type} {step : τ → τ → Prop} {action : ExceptT ε (StateM τ) α}

theorem pure (value : α) : Proceeds step (pure value : ExceptT ε (StateM τ) α) := fun _ => .refl

theorem throw (fault : ε) : Proceeds step (throw fault : ExceptT ε (StateM τ) α) := fun _ => .refl

theorem lift (answer : Except ε α) :
    Proceeds step (liftM answer : ExceptT ε (StateM τ) α) := by
  cases answer with
  | ok value => exact pure value
  | error fault => exact throw fault

/-- What follows an answer may rely on the state in which it was given. -/
theorem bind_of_answer {next : α → ExceptT ε (StateM τ) β} (h : Proceeds step action)
    (hnext : ∀ before value middle, action before = (.ok value, middle) →
      ReflTransGen step middle (next value middle).2) : Proceeds step (action >>= next) := by
  intro before
  have hfirst := h before
  cases haction : action before with
  | mk answer middle =>
    rw [haction] at hfirst
    cases answer with
    | ok value =>
      rw [bind_of_ok haction]
      exact hfirst.trans (hnext before value middle haction)
    | error fault =>
      rw [bind_of_error haction]
      exact hfirst

theorem bind {next : α → ExceptT ε (StateM τ) β} (h : Proceeds step action)
    (hnext : ∀ value, Proceeds step (next value)) : Proceeds step (action >>= next) :=
  h.bind_of_answer fun _ value middle _ => hnext value middle

theorem tryCatch {handler : ε → ExceptT ε (StateM τ) α} (h : Proceeds step action)
    (hhandler : ∀ fault, Proceeds step (handler fault)) :
    Proceeds step (tryCatch action handler) := by
  intro before
  have hfirst := h before
  cases haction : action before with
  | mk answer middle =>
    rw [haction] at hfirst
    cases answer with
    | ok value =>
      rw [tryCatch_of_ok haction]
      exact hfirst
    | error fault =>
      rw [tryCatch_of_error haction]
      exact hfirst.trans (hhandler fault middle)

theorem mapM {f : α → ExceptT ε (StateM τ) β} (h : ∀ item, Proceeds step (f item))
    (items : List α) : Proceeds step (items.mapM f) := by
  induction items with
  | nil =>
    rw [List.mapM_nil]
    exact pure _
  | cons item items ih =>
    rw [List.mapM_cons]
    exact (h item).bind fun _ => ih.bind fun _ => pure _

theorem foldlM {f : β → α → ExceptT ε (StateM τ) β} (h : ∀ value item, Proceeds step (f value item))
    (items : List α) (start : β) : Proceeds step (items.foldlM f start) := by
  induction items generalizing start with
  | nil =>
    rw [List.foldlM_nil]
    exact pure _
  | cons item items ih =>
    rw [List.foldlM_cons]
    exact (h start item).bind ih

end Proceeds

/-- One step of work on a draft. -/
inductive Draft.Step (setting : Setting) : Draft → Draft → Prop
  | ask (draft : Draft) {ledger : Ledger}
      (h : Ledger.Step setting.program setting.bubble draft.ledger ledger) :
      Step setting draft { draft with ledger }
  | node (draft : Draft) (key : ArtifactKey)
      (h : ∀ token, key = .importCell token → draft.ledger.Issued token) :
      Step setting draft { draft with arena := (draft.arena.intern key).2 }

/-- One step of work in a workspace. -/
inductive Workspace.Step (setting : Setting) : Workspace → Workspace → Prop
  | plan (workspace : Workspace) {draft : Draft} (h : Draft.Step setting workspace.draft draft) :
      Step setting workspace (workspace.withDraft draft)
  | rule (workspace : Workspace) (method : Entity) :
      Step setting workspace (Workspace.rule setting method workspace).2
  | cancel (workspace : Workspace) : Step setting workspace { workspace with cancelled := true }

/-- One step of work at a desk. -/
inductive Desk.Step (setting : Setting) : Desk → Desk → Prop
  | work (desk : Desk) {workspace : Workspace}
      (h : Workspace.Step setting desk.workspace workspace) :
      Step setting desk { desk with workspace }
  | note (desk : Desk) (dependency : Dependency) :
      Step setting desk { desk with noted := desk.noted ++ [dependency] }

theorem Draft.steps_ask {setting : Setting} {draft : Draft} {ledger : Ledger}
    (h : ReflTransGen (Ledger.Step setting.program setting.bubble) draft.ledger ledger) :
    ReflTransGen (Draft.Step setting) draft { draft with ledger } :=
  h.lift (fun ledger => { draft with ledger }) fun middle _ hstep =>
    .ask { draft with ledger := middle } hstep

theorem Workspace.steps_plan {setting : Setting} {workspace : Workspace} {draft : Draft}
    (h : ReflTransGen (Draft.Step setting) workspace.draft draft) :
    ReflTransGen (Workspace.Step setting) workspace (workspace.withDraft draft) :=
  h.lift workspace.withDraft fun middle _ hstep => .plan (workspace.withDraft middle) hstep

theorem Desk.steps_work {setting : Setting} {desk : Desk} {workspace : Workspace}
    (h : ReflTransGen (Workspace.Step setting) desk.workspace workspace) :
    ReflTransGen (Desk.Step setting) desk { desk with workspace } :=
  h.lift (fun workspace => { desk with workspace }) fun middle _ hstep =>
    .work { desk with workspace := middle } hstep

theorem proceeds_plan {α : Type} {setting : Setting} {drafting : Drafting α}
    (h : Proceeds (Draft.Step setting) drafting) :
    Proceeds (Workspace.Step setting) (Workspace.plan drafting) :=
  fun workspace => Workspace.steps_plan (h workspace.draft)

namespace Drafting

variable (setting : Setting)

section Planning

theorem proceeds_get : Proceeds (Draft.Step setting) (get : Drafting Draft) := fun _ => .refl

variable {setting} in
/-- Only the cells for tokens are particular about when they get a node. -/
theorem proceeds_node {key : ArtifactKey} (h : ∀ token, key ≠ .importCell token) :
    Proceeds (Draft.Step setting) (node key) :=
  fun draft => .single (.node draft key fun token hkey => absurd hkey (h token))

theorem proceeds_keyOf (node : Handle) : Proceeds (Draft.Step setting) (keyOf node) := by
  refine (proceeds_get setting).bind fun draft => ?_
  split
  · exact .pure _
  · exact .throw _

theorem proceeds_described {α : Type} (entity : Entity) (description : Option α) :
    Proceeds (Draft.Step setting) (described entity description) := by
  cases description with
  | none => exact .throw _
  | some value => exact .pure _

theorem proceeds_issue (entity : Entity) (origin : ModuleIndex) :
    Proceeds (Draft.Step setting) (issue setting entity origin) :=
  fun draft => .single (.ask draft (.issue draft.ledger entity origin))

theorem proceeds_issueFor (requester : ArtifactKey) (entity : Entity) (origin : ModuleIndex) :
    Proceeds (Draft.Step setting) (issueFor setting requester entity origin) :=
  (proceeds_issue setting entity origin).tryCatch fun _ => .throw _

variable {setting}

theorem issued_of_issue {entity : Entity} {origin : ModuleIndex} {token : PortableToken}
    {before after : Draft} (h : issue setting entity origin before = (.ok token, after)) :
    after.ledger.Issued token := by
  obtain ⟨hanswer, rfl⟩ := Prod.mk.inj h
  exact Ledger.issued_of_issue hanswer

theorem issued_of_issueFor {requester : ArtifactKey} {entity : Entity} {origin : ModuleIndex}
    {token : PortableToken} {before after : Draft}
    (h : issueFor setting requester entity origin before = (.ok token, after)) :
    after.ledger.Issued token := by
  cases hissue : issue setting entity origin before with
  | mk answer later =>
    cases answer with
    | ok given =>
      have hanswer := (tryCatch_of_ok hissue).symm.trans h
      rw [hanswer] at hissue
      exact issued_of_issue hissue
    | error fault =>
      have hanswer := (tryCatch_of_error hissue).symm.trans h
      cases (Prod.mk.inj hanswer).1

variable (setting)

theorem proceeds_anchorAmong (unmet : Bindings Entity FieldDescription) (requester : ArtifactKey)
    (entity : Entity) (origin : ModuleIndex) :
    Proceeds (Draft.Step setting) (anchorAmong unmet setting requester entity origin) := by
  induction hsize : unmet.size using Nat.strongRecOn generalizing unmet entity with
  | ind size ih =>
    rw [anchorAmong]
    by_cases hinside : setting.bubble.contains entity
    · simp only [if_pos hinside]
      refine (proceeds_issueFor setting requester entity origin).bind fun token => ?_
      split
      · exact proceeds_node (by simp)
      · split
        · exact proceeds_node (by simp)
        · exact proceeds_node (by simp)
      · exact proceeds_node (by simp)
      · split
        · rename_i field hfield
          exact ih _ (hsize ▸ Bindings.size_erase_lt hfield) _ _ rfl
        · exact .throw _
      · exact .throw _
    · simp only [if_neg hinside]
      -- The cell is for the very token that has just been issued.
      refine (proceeds_issueFor setting requester entity origin).bind_of_answer ?_
      intro before token middle hissued
      refine .single (.node middle _ fun other hother => ?_)
      obtain rfl := ArtifactKey.importCell.inj hother
      exact issued_of_issueFor hissued

theorem proceeds_anchor (requester : ArtifactKey) (entity : Entity) (origin : ModuleIndex) :
    Proceeds (Draft.Step setting) (anchor setting requester entity origin) :=
  proceeds_anchorAmong setting _ requester entity origin

variable {setting} in
theorem proceeds_need {key : ArtifactKey} (h : ∀ token, key ≠ .importCell token) (reason : String) :
    Proceeds (Draft.Step setting) (need key reason) :=
  (proceeds_node h).bind fun _ => .pure _

theorem proceeds_needAnchor (requester : ArtifactKey) (entity : Entity) (origin : ModuleIndex)
    (reason : String) :
    Proceeds (Draft.Step setting) (needAnchor setting requester entity origin reason) :=
  (proceeds_anchor setting requester entity origin).bind fun _ => .pure _

theorem proceeds_needArguments (requester : ArtifactKey) (instantiation : Instantiation)
    (origin : ModuleIndex) :
    Proceeds (Draft.Step setting) (needArguments setting requester instantiation origin) :=
  .mapM (fun _ => proceeds_needAnchor setting requester _ origin _) _

theorem proceeds_methodCodeNeeds (method : Entity) :
    Proceeds (Draft.Step setting) (methodCodeNeeds setting method) := by
  refine (proceeds_described setting _ _).bind fun description => ?_
  refine (proceeds_needAnchor setting _ _ _ _).bind fun owner => ?_
  split
  · exact (proceeds_need (by simp) _).bind fun _ => .pure _
  · exact .pure _

theorem proceeds_typeLayoutNeeds (type : Entity) :
    Proceeds (Draft.Step setting) (typeLayoutNeeds setting type) := by
  refine (proceeds_described setting _ _).bind fun description => ?_
  refine (Proceeds.mapM (fun _ => proceeds_needAnchor setting _ _ _ _) _).bind fun base => ?_
  split
  · exact .pure _
  · refine (proceeds_needAnchor setting _ _ _ _).bind fun definition => ?_
    exact (proceeds_needArguments setting _ _ _).bind fun _ => .pure _

theorem proceeds_needSlot (method : Entity) :
    Proceeds (Draft.Step setting) (needSlot setting method) :=
  (proceeds_node (by simp)).bind fun _ => (proceeds_node (by simp)).bind fun _ => .pure _

theorem proceeds_vtableNeeds (type : Entity) :
    Proceeds (Draft.Step setting) (vtableNeeds setting type) := by
  refine (proceeds_described setting _ _).bind fun description => ?_
  refine (proceeds_need (by simp) _).bind fun owner => ?_
  refine (Proceeds.mapM (fun _ => proceeds_need (by simp) _) _).bind fun base => ?_
  exact (Proceeds.mapM (proceeds_needSlot setting) _).bind fun _ => .pure _

theorem proceeds_genericDictionaryNeeds (entity : Entity) :
    Proceeds (Draft.Step setting) (genericDictionaryNeeds setting entity) := by
  refine (proceeds_described setting _ _).bind fun instantiation => ?_
  refine (proceeds_needArguments setting _ _ _).bind fun arguments => ?_
  exact (proceeds_need (by simp) _).bind fun _ => .pure _

theorem proceeds_virtualMethodUseNeeds (slot : Entity) :
    Proceeds (Draft.Step setting) (virtualMethodUseNeeds setting slot) := by
  unfold virtualMethodUseNeeds
  split
  · exact .pure _
  · split
    · exact (proceeds_need (by simp) _).bind fun _ => .pure _
    · exact .pure _

theorem proceeds_needs (key : ArtifactKey) :
    Proceeds (Draft.Step setting) (needs setting key) := by
  cases key with
  | methodCode method => exact proceeds_methodCodeNeeds setting method
  | typeLayout type => exact proceeds_typeLayoutNeeds setting type
  | vtable type => exact proceeds_vtableNeeds setting type
  | genericDictionary entity => exact proceeds_genericDictionaryNeeds setting entity
  | virtualMethodUse slot => exact proceeds_virtualMethodUseNeeds setting slot
  | signature entity => exact .pure _
  | importCell token => exact .pure _
  | helperCell helper => exact .pure _

end Planning

section Emission

theorem proceeds_markedNode? (key : ArtifactKey) :
    Proceeds (Draft.Step setting) (markedNode? key) :=
  (proceeds_get setting).bind fun _ => .pure _

theorem proceeds_layoutOfType (type : Entity) :
    Proceeds (Draft.Step setting) (layoutOfType setting type) := by
  refine (proceeds_described setting _ _).bind fun description => ?_
  refine (Proceeds.lift _).bind fun fields => (Proceeds.lift _).bind fun methods => ?_
  refine (Proceeds.lift _).bind fun head => ?_
  have hbase : Proceeds (Draft.Step setting) (description.base.mapM fun base =>
      anchor setting (.typeLayout type) base type.module) := by
    cases description.base with
    | none => exact .pure _
    | some base => exact (proceeds_anchor setting _ _ _).bind fun _ => .pure _
  exact hbase.bind fun _ => .lift _

theorem proceeds_slotTarget (type method : Entity) :
    Proceeds (Draft.Step setting) (slotTarget setting type method) := by
  refine (proceeds_markedNode? setting _).bind fun found => ?_
  split
  · exact .pure _
  · exact (proceeds_issue setting _ _).bind fun _ => .pure _

theorem proceeds_appendSlot (type : Entity) (layout : Layout) (method : Entity) :
    Proceeds (Draft.Step setting) (appendSlot setting type layout method) :=
  (proceeds_slotTarget setting type method).bind fun _ => .lift _

theorem proceeds_baseTable? (base : Option Entity) :
    Proceeds (Draft.Step setting) (baseTable? base) := by
  cases base with
  | none => exact .pure _
  | some base => exact proceeds_markedNode? setting _

theorem proceeds_layoutOfVTable (type : Entity) :
    Proceeds (Draft.Step setting) (layoutOfVTable setting type) := by
  refine (proceeds_described setting _ _).bind fun description => ?_
  refine (Proceeds.lift _).bind fun head => (proceeds_baseTable? setting _).bind fun base => ?_
  exact (Proceeds.lift _).bind fun start => .foldlM (proceeds_appendSlot setting type) _ _

theorem proceeds_layoutOfDictionary (entity : Entity) :
    Proceeds (Draft.Step setting) (layoutOfDictionary setting entity) := by
  refine (proceeds_described setting _ _).bind fun instantiation => ?_
  refine (Proceeds.lift _).bind fun head => .foldlM (fun _ _ => ?_) _ _
  exact (proceeds_anchor setting _ _ _).bind fun _ => .lift _

variable {setting} in
theorem proceeds_written {context : Signature.Context}
    (hprogram : context.program = setting.program) (hbubble : context.bubble = setting.bubble)
    {writing : Signature.Writing Unit} (h : Signature.Careful context writing) :
    Proceeds (Draft.Step setting) (written writing) := by
  intro draft
  obtain ⟨hsteps, _⟩ := h ⟨draft.ledger, []⟩
  rw [hprogram, hbubble] at hsteps
  exact Draft.steps_ask hsteps

theorem proceeds_signatureOf (entity : Entity) :
    Proceeds (Draft.Step setting) (signatureOf setting entity) := by
  unfold signatureOf
  split
  · exact proceeds_written rfl rfl (Signature.careful_writeType entity)
  · exact proceeds_written rfl rfl (Signature.careful_writeMethod entity)
  · exact proceeds_written rfl rfl (Signature.careful_writeField entity)
  · exact proceeds_described setting _ _
  · exact .throw _

theorem proceeds_layoutOf (compiled : Option Layout) (key : ArtifactKey) :
    Proceeds (Draft.Step setting) (layoutOf setting compiled key) := by
  cases key with
  | methodCode method =>
    cases compiled with
    | none => exact .throw _
    | some layout => exact .pure _
  | typeLayout type => exact proceeds_layoutOfType setting type
  | vtable type => exact proceeds_layoutOfVTable setting type
  | genericDictionary entity => exact proceeds_layoutOfDictionary setting entity
  | signature entity => exact (proceeds_signatureOf setting entity).bind fun _ => .pure _
  | importCell token => exact .lift _
  | helperCell helper => exact .pure _
  | virtualMethodUse slot => exact .pure _

theorem proceeds_placed (key : ArtifactKey) (size : Nat) (relocation : Relocation) :
    Proceeds (Draft.Step setting) (placed key size relocation) := by
  unfold placed
  by_cases hsize : size < relocation.stop
  · simp only [if_pos hsize]
    exact .throw _
  · simp only [if_neg hsize]
    cases relocation.target with
    | token token => exact .pure _
    | node node =>
      refine (proceeds_get setting).bind fun draft => ?_
      split
      · exact (proceeds_keyOf setting node).bind fun _ => .pure _
      · exact .throw _

theorem proceeds_emit (node : Handle) (compiled : Option Layout) :
    Proceeds (Draft.Step setting) (emit setting node compiled) := by
  refine (proceeds_keyOf setting node).bind fun key => ?_
  refine (proceeds_layoutOf setting compiled key).bind fun layout => ?_
  exact (Proceeds.mapM (proceeds_placed setting key _) _).bind fun _ => .pure _

end Emission

end Drafting

namespace Answering

variable (setting : Setting) (method : Entity)

variable {setting} in
theorem proceeds_work {α : Type} {working : Working α}
    (h : Proceeds (Workspace.Step setting) working) :
    Proceeds (Desk.Step setting) (work working) :=
  fun desk => Desk.steps_work (h desk.workspace)

variable {setting} in
theorem proceeds_plan {α : Type} {drafting : Drafting α}
    (h : Proceeds (Draft.Step setting) drafting) : Proceeds (Desk.Step setting) (plan drafting) :=
  proceeds_work (PortableImage.proceeds_plan h)

theorem proceeds_rule (callee : Entity) :
    Proceeds (Desk.Step setting) (work (Workspace.rule setting callee)) :=
  proceeds_work fun workspace => .single (.rule workspace callee)

theorem proceeds_note (node : Handle) (reason : String) :
    Proceeds (Desk.Step setting) (note node reason) :=
  fun desk => .single (.note desk ⟨node, reason⟩)

theorem proceeds_entity (token : Token) (kind : DefinitionKind) :
    Proceeds (Desk.Step setting) (entity setting method token kind) := by
  refine (Proceeds.lift _).bind fun entity => ?_
  split
  · exact .pure _
  · exact .throw _

theorem proceeds_anchor (entity : Entity) :
    Proceeds (Desk.Step setting) (anchor setting method entity) :=
  proceeds_plan (Drafting.proceeds_anchor setting _ entity _)

theorem proceeds_reference (entity : Entity) (reason : String) :
    Proceeds (Desk.Step setting) (reference setting method entity reason) :=
  (proceeds_anchor setting method entity).bind fun _ => proceeds_note setting _ _

variable {setting} in
theorem proceeds_artifact {key : ArtifactKey} (h : ∀ token, key ≠ .importCell token)
    (reason : String) : Proceeds (Desk.Step setting) (artifact key reason) :=
  (proceeds_plan (Drafting.proceeds_node h)).bind fun _ => proceeds_note setting _ _

theorem proceeds_portable (token : Token) :
    Proceeds (Desk.Step setting) (portable setting method token) := by
  refine (Proceeds.lift _).bind fun entity => ?_
  refine (proceeds_reference setting method entity _).bind fun _ => ?_
  exact (proceeds_plan (Drafting.proceeds_issueFor setting _ _ _)).bind fun _ => .pure _

theorem proceeds_noteUse (callee : Entity) :
    Proceeds (Desk.Step setting) (noteUse setting callee) := by
  unfold noteUse
  split
  · exact (proceeds_artifact (by simp) _).bind fun _ => .pure _
  · exact .pure _

theorem proceeds_stubTarget (callee : Entity) :
    Proceeds (Desk.Step setting) (stubTarget setting method callee) := by
  unfold stubTarget
  split
  · exact proceeds_plan (Drafting.proceeds_node (by simp))
  · exact proceeds_anchor setting method callee

theorem proceeds_dispatchedCall (callee : Entity) :
    Proceeds (Desk.Step setting) (dispatchedCall setting method callee) := by
  refine (proceeds_noteUse setting callee).bind fun _ => ?_
  refine (proceeds_stubTarget setting method callee).bind fun target => ?_
  exact (proceeds_artifact (by simp) _).bind fun _ => proceeds_note setting target _

theorem proceeds_call (token : Token) (mode : CallMode) :
    Proceeds (Desk.Step setting) (call setting method token mode) := by
  refine (proceeds_entity setting method token _).bind fun callee => ?_
  cases mode with
  | direct => exact proceeds_reference setting method callee _
  | dispatched =>
    refine (proceeds_rule setting callee).bind fun ruling => ?_
    cases ruling with
    | monomorphic target => exact proceeds_reference setting method target _
    | unknown => exact proceeds_dispatchedCall setting method callee

theorem proceeds_describe (token : Token) :
    Proceeds (Desk.Step setting) (describe setting method token) :=
  (proceeds_entity setting method token _).bind fun _ => proceeds_reference setting method _ _

theorem proceeds_allocate (token : Token) :
    Proceeds (Desk.Step setting) (allocate setting method token) := by
  refine (proceeds_entity setting method token _).bind fun constructor => ?_
  refine (proceeds_plan (Drafting.proceeds_described setting _ _)).bind fun description => ?_
  refine (proceeds_artifact (by simp) _).bind fun _ => ?_
  refine (proceeds_reference setting method constructor _).bind fun _ => ?_
  split
  · exact proceeds_artifact (by simp) _
  · exact proceeds_reference setting method _ _

theorem proceeds_locate (token : Token) :
    Proceeds (Desk.Step setting) (locate setting method token) :=
  (proceeds_entity setting method token _).bind fun _ => proceeds_reference setting method _ _

theorem proceeds_ruling (token : Token) :
    Proceeds (Desk.Step setting) (ruling setting method token) :=
  (proceeds_entity setting method token _).bind fun _ => proceeds_rule setting _

theorem steps_helper (helper : RuntimeHelper) (desk : Desk) :
    ReflTransGen (Desk.Step setting) desk (Answering.helper helper desk).2 := by
  have hcell : ∀ token, ArtifactKey.helperCell helper ≠ .importCell token := by simp
  have hnode : Proceeds (Desk.Step setting) (plan (Drafting.node (.helperCell helper))) :=
    proceeds_plan (Drafting.proceeds_node hcell)
  exact (hnode desk).tail (.note _ ⟨(desk.workspace.arena.intern (.helperCell helper)).1, "helper call"⟩)

theorem steps_reply (question : Question) (desk : Desk) :
    ReflTransGen (Desk.Step setting) desk (reply setting method question desk).2 := by
  cases question with
  | portable token => exact proceeds_portable setting method token desk
  | call token mode => exact proceeds_call setting method token mode desk
  | describe token => exact proceeds_describe setting method token desk
  | allocate token => exact proceeds_allocate setting method token desk
  | locate token => exact proceeds_locate setting method token desk
  | helper name => exact steps_helper setting name desk
  | ruling token => exact proceeds_ruling setting method token desk
  | cancel => exact .single (.work desk (.cancel desk.workspace))

end Answering

end PortableImage
