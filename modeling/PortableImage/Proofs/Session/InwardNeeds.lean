import PortableImage.Proofs.Session.Expanding
/-!
# Needs lead inside the bubble

What a reference of an artifact is made valid by lies inside the bubble or is a cell, and what a
backend has noted on the way does too.  So an artifact needs nothing outside the bubble but what is
about its own entity, and, for a table of virtual methods, the code of the methods that fill its slots.
-/

namespace PortableImage

open PortableImage.Graph (Arena Dependency Expansion GuardedDependency Handle)

/-- The artifact is about an entity of the bubble, or it is about no entity that would have to be
compiled: a cell or the use of a slot. -/
def ArtifactKey.Inside (bubble : Bubble) : ArtifactKey → Prop
  | methodCode entity | typeLayout entity | vtable entity | genericDictionary entity
  | signature entity => bubble.contains entity
  | importCell _ | helperCell _ | virtualMethodUse _ => True

/-- What an artifact needs on its own entity. -/
inductive Setting.Own (setting : Setting) : ArtifactKey → ArtifactKey → Prop
  | dictionary {method description} (hmethod : setting.program.method? method = some description)
      (hinstantiation : description.instantiation.isSome) :
      Own setting (.methodCode method) (.genericDictionary method)
  | signature (entity : Entity) : Own setting (.genericDictionary entity) (.signature entity)
  | layout (type : Entity) : Own setting (.vtable type) (.typeLayout type)

namespace Drafting

variable {setting : Setting} {pre : Draft → Prop} {key : ArtifactKey}

/-- The node stands for an artifact of the bubble. -/
def StandsInside (setting : Setting) (node : Handle) (draft : Draft) : Prop :=
  ∃ key, draft.arena.key? node = some key ∧ key.Inside setting.bubble

theorem yields_node_inside (h : key.Inside setting.bubble) :
    Yields pre (node key) (StandsInside setting) :=
  (yields_node key).imp fun _ _ _ hkey => ⟨key, hkey, h⟩

theorem yields_anchorAmong_inside (unmet : Bindings Entity FieldDescription)
    (requester : ArtifactKey) (entity : Entity) (origin : ModuleIndex) :
    Yields pre (anchorAmong unmet setting requester entity origin) (StandsInside setting) := by
  induction unmet, entity using anchorAmong.induct generalizing pre with
  | case1 unmet entity ih =>
    rw [anchorAmong]
    refine (yields_issueFor setting requester entity origin).bind fun token => ?_
    split
    · rename_i hinside
      split
      · exact yields_node_inside hinside
      · split <;> exact yields_node_inside hinside
      · exact yields_node_inside hinside
      · split
        · rename_i hfield
          exact ih _ hfield
        · exact Yields.throw _
      · exact Yields.throw _
    · exact yields_node_inside trivial

theorem yields_anchor_inside (requester : ArtifactKey) (entity : Entity) (origin : ModuleIndex) :
    Yields pre (anchor setting requester entity origin) (StandsInside setting) :=
  yields_anchorAmong_inside _ requester entity origin

/-- The artifacts always needed lie inside the bubble, but for those on the artifact's own entity,
which are all needed; what is needed once a slot is used is the code that fills it. -/
structure Homebound (setting : Setting) (key : ArtifactKey) (expansion : Expansion)
    (draft : Draft) : Prop where
  always : ∀ dependency ∈ expansion.always, StandsInside setting dependency.target draft ∨
    ∃ target, draft.arena.key? dependency.target = some target ∧ setting.Own key target
  own : ∀ target, setting.Own key target →
    ∃ dependency ∈ expansion.always, draft.arena.key? dependency.target = some target
  guarded : ∀ dependency ∈ expansion.guarded, ∃ type method,
    key = .vtable type ∧ method ∈ slotMethods setting type ∧
    draft.arena.key? dependency.target = some (.methodCode method) ∧
    draft.arena.key? dependency.guard =
      some (.virtualMethodUse (setting.program.introducer method)) ∧
    dependency.threshold = .marked

theorem homebound_of_inside {always : List Dependency} {draft : Draft}
    (h : ∀ dependency ∈ always, StandsInside setting dependency.target draft)
    (hown : ∀ target, ¬ setting.Own key target) :
    Homebound setting key { always := always } draft :=
  ⟨fun dependency hmem => .inl (h dependency hmem), fun target htarget => absurd htarget (hown target),
    fun _ hmem => by cases hmem⟩

theorem yields_needAnchor_inside (requester : ArtifactKey) (entity : Entity) (origin : ModuleIndex)
    (reason : String) : Yields pre (needAnchor setting requester entity origin reason)
      fun dependency => StandsInside setting dependency.target :=
  (yields_anchor_inside requester entity origin).bind fun _ => Yields.pure fun _ h => h.2

theorem yields_needArguments_inside (requester : ArtifactKey) (instantiation : Instantiation)
    (origin : ModuleIndex) : Yields pre (needArguments setting requester instantiation origin)
      fun dependencies draft =>
        ∀ dependency ∈ dependencies, StandsInside setting dependency.target draft := by
  refine (Yields.mapM fun argument _ =>
    yields_needAnchor_inside requester argument origin "instantiation argument").imp ?_
  intro dependencies draft _ hinside dependency hmem
  obtain ⟨_, _, hdependency⟩ := exists_of_mem_right hinside hmem
  exact hdependency

theorem homebound_methodCodeNeeds (method : Entity) :
    Yields pre (methodCodeNeeds setting method) (Homebound setting (.methodCode method)) := by
  refine (yields_described _ _).bind fun description => ?_
  refine (yields_needAnchor_inside _ _ _ _).bind fun owner => ?_
  split
  · rename_i hinstantiation
    refine (yields_need _ _).bind fun dictionary => Yields.pure ?_
    rintro draft ⟨⟨⟨_, hdescription⟩, howner⟩, hdictionary⟩
    refine ⟨fun dependency hmem => ?_, fun target htarget => ?_, fun _ hmem => by cases hmem⟩
    · rcases List.mem_pair.mp hmem with rfl | rfl
      · exact .inl howner
      · exact .inr ⟨_, hdictionary, .dictionary hdescription hinstantiation⟩
    · cases htarget
      exact ⟨dictionary, List.mem_pair.mpr (.inr rfl), hdictionary⟩
  · rename_i hplain
    apply Yields.pure
    rintro draft ⟨⟨_, hdescription⟩, howner⟩
    refine homebound_of_inside (fun dependency hmem => ?_) fun target htarget => ?_
    · rwa [List.mem_singleton.mp hmem]
    · cases htarget with
      | dictionary hmethod hinstantiation =>
        rw [hdescription] at hmethod
        cases hmethod
        exact hplain hinstantiation

theorem homebound_typeLayoutNeeds (type : Entity) :
    Yields pre (typeLayoutNeeds setting type) (Homebound setting (.typeLayout type)) := by
  have hown : ∀ target, ¬ setting.Own (.typeLayout type) target := fun _ h => by cases h
  refine (yields_described _ _).bind fun description => ?_
  refine (Yields.mapM fun base _ =>
    yields_needAnchor_inside (.typeLayout type) base type.module "base type").bind fun bases => ?_
  have hbase {draft : Draft} {dependency : Dependency} (h : List.Forall₂
      (fun _ dependency => StandsInside setting dependency.target draft)
      description.base.toList bases) (hmem : dependency ∈ bases) :
      StandsInside setting dependency.target draft := by
    obtain ⟨_, _, hdependency⟩ := exists_of_mem_right h hmem
    exact hdependency
  split
  · exact Yields.pure fun draft h => homebound_of_inside (fun _ => hbase h.2) hown
  · refine (yields_needAnchor_inside _ _ _ _).bind fun definition => ?_
    refine (yields_needArguments_inside _ _ _).bind fun arguments => Yields.pure ?_
    rintro draft ⟨⟨⟨_, hbases⟩, hdefinition⟩, harguments⟩
    refine homebound_of_inside (fun dependency hmem => ?_) hown
    rcases List.mem_append.mp hmem with hmem | hmem
    · exact hbase hbases hmem
    · rcases List.mem_cons.mp hmem with rfl | hmem
      · exact hdefinition
      · exact harguments dependency hmem

theorem homebound_vtableNeeds (type : Entity) :
    Yields pre (vtableNeeds setting type) (Homebound setting (.vtable type)) := by
  refine (yields_described _ _).bind fun description => ?_
  refine (yields_need _ _).bind fun owner => ?_
  refine (Yields.mapM fun base _ => yields_need (.vtable base) "base vtable").bind fun bases => ?_
  refine (Yields.mapM fun method _ => yields_needSlot setting method).bind fun slots => ?_
  apply Yields.pure
  rintro draft ⟨⟨⟨_, howner⟩, hbases⟩, hslots⟩
  refine ⟨fun dependency hmem => ?_, fun target htarget => ?_, fun dependency hmem => ?_⟩
  · rcases List.mem_cons.mp hmem with rfl | hmem
    · exact .inr ⟨_, howner, .layout type⟩
    · obtain ⟨base, hbase, hkey⟩ := exists_of_mem_right hbases hmem
      exact .inl ⟨_, hkey, (List.mem_filter.mp hbase).2⟩
  · cases htarget
    exact ⟨owner, List.mem_cons_self, howner⟩
  · obtain ⟨method, hmethod, hkey, hguard, hthreshold⟩ := exists_of_mem_right hslots hmem
    exact ⟨type, method, rfl, hmethod, hkey, hguard, hthreshold⟩

theorem homebound_genericDictionaryNeeds (entity : Entity) :
    Yields pre (genericDictionaryNeeds setting entity)
      (Homebound setting (.genericDictionary entity)) := by
  refine (yields_described _ _).bind fun instantiation => ?_
  refine (yields_needArguments_inside _ _ _).bind fun arguments => ?_
  refine (yields_need _ _).bind fun signature => Yields.pure ?_
  rintro draft ⟨⟨_, harguments⟩, hsignature⟩
  refine ⟨fun dependency hmem => ?_, fun target htarget => ?_, fun _ hmem => by cases hmem⟩
  · rcases List.mem_append.mp hmem with hmem | hmem
    · exact .inl (harguments dependency hmem)
    · rw [List.mem_singleton.mp hmem]
      exact .inr ⟨_, hsignature, .signature entity⟩
  · cases htarget
    exact ⟨signature, List.mem_append_right _ (List.mem_singleton_self _), hsignature⟩

theorem homebound_virtualMethodUseNeeds (slot : Entity) :
    Yields pre (virtualMethodUseNeeds setting slot)
      (Homebound setting (.virtualMethodUse slot)) := by
  have hown : ∀ target, ¬ setting.Own (.virtualMethodUse slot) target := fun _ h => by cases h
  have hnothing {draft : Draft} : Homebound setting (.virtualMethodUse slot) {} draft :=
    homebound_of_inside (fun _ hmem => by cases hmem) hown
  rw [virtualMethodUseNeeds]
  split
  · exact Yields.pure fun _ _ => hnothing
  · split
    · rename_i hinside
      refine (yields_need _ _).bind fun owner => Yields.pure fun draft h => ?_
      refine homebound_of_inside (fun dependency hmem => ?_) hown
      rw [List.mem_singleton.mp hmem]
      exact ⟨_, h.2, hinside⟩
    · exact Yields.pure fun _ _ => hnothing

/-- Planning leads out of the bubble only by an artifact's own entity and by slots. -/
theorem homebound_needs (key : ArtifactKey) :
    Yields pre (needs setting key) (Homebound setting key) := by
  have hnothing (hown : ∀ target, ¬ setting.Own key target) :
      Yields pre (pure {} : Drafting Expansion) (Homebound setting key) :=
    Yields.pure fun _ _ => homebound_of_inside (fun _ hmem => by cases hmem) hown
  cases key with
  | methodCode method => exact homebound_methodCodeNeeds method
  | typeLayout type => exact homebound_typeLayoutNeeds type
  | vtable type => exact homebound_vtableNeeds type
  | genericDictionary entity => exact homebound_genericDictionaryNeeds entity
  | virtualMethodUse slot => exact homebound_virtualMethodUseNeeds slot
  | signature | importCell | helperCell => exact hnothing fun _ h => by cases h

end Drafting

/-- Everything noted lies inside the bubble. -/
def Desk.NotesInside (setting : Setting) (desk : Desk) : Prop :=
  ∀ dependency ∈ desk.noted, Drafting.StandsInside setting dependency.target desk.workspace.draft

theorem Desk.NotesInside.grow {setting : Setting} {desk : Desk} {workspace : Workspace}
    (h : desk.NotesInside setting) (hle : desk.workspace ≤ workspace) :
    Desk.NotesInside setting { desk with workspace } := by
  intro dependency hmem
  obtain ⟨key, hkey, hinside⟩ := h dependency hmem
  exact ⟨key, Arena.Grows.keeps hle _ _ hkey, hinside⟩

namespace Answering

open Drafting (StandsInside)

variable {setting : Setting} {method : Entity} {α β : Type} {pre : Desk → Prop}

/-- The action yields what it yields and notes nothing outside the bubble. -/
structure Inward (setting : Setting) (pre : Desk → Prop) (action : Answering α)
    (post : α → Desk → Prop) : Prop where
  yields : Yields pre action post
  notes : ∀ desk, Always pre desk → desk.NotesInside setting → (action desk).2.NotesInside setting

namespace Inward

variable {action : Answering α} {mid post : α → Desk → Prop} {last : β → Desk → Prop}

theorem pure {value : α} (h : ∀ desk, pre desk → post value desk) :
    Inward setting pre (pure value) post :=
  ⟨Yields.pure h, fun _ _ => id⟩

theorem throw (fault : Fault) : Inward setting pre (throw fault) post :=
  ⟨Yields.throw fault, fun _ _ => id⟩

theorem lift (answer : Except Fault α) :
    Inward setting pre (liftM answer) fun _ _ => True := by
  cases answer with
  | ok value => exact pure fun _ _ => trivial
  | error fault => exact throw fault

theorem bind {next : α → Answering β} (h : Inward setting pre action mid)
    (hnext : ∀ value, Inward setting (fun desk => pre desk ∧ mid value desk) (next value) last) :
    Inward setting pre (action >>= next) last where
  yields := h.yields.bind fun value => (hnext value).yields
  notes desk hpre hdesk := by
    obtain ⟨hle, hmid⟩ := h.yields desk hpre
    have hnotes := h.notes desk hpre hdesk
    cases haction : action desk with
    | mk answer middle =>
      rw [haction] at hle hmid hnotes
      cases answer with
      | error fault =>
        rw [bind_of_error haction]
        exact hnotes
      | ok value =>
        rw [bind_of_ok haction]
        exact (hnext value).notes middle
          (fun later hlater => ⟨hpre later (hle.trans hlater), hmid value rfl later hlater⟩) hnotes

theorem work {working : Working α} {post : α → Workspace → Prop}
    (h : Yields (fun _ => True) working post) :
    Inward setting pre (work working) fun value desk => post value desk.workspace :=
  ⟨yields_work h, fun desk _ hdesk => Desk.NotesInside.grow hdesk (h desk.workspace (always_true _)).1⟩

theorem plan {drafting : Drafting α} {post : α → Draft → Prop}
    (h : Yields (fun _ => True) drafting post) :
    Inward setting pre (plan drafting) fun value desk => post value desk.workspace.draft :=
  work (PortableImage.yields_plan h)

end Inward

theorem inward_note {node : Handle} (reason : String)
    (h : ∀ desk, pre desk → StandsInside setting node desk.workspace.draft) :
    Inward setting pre (note node reason) fun _ _ => True where
  yields := by
    refine (yields_note (fun desk hdesk => ?_) reason).imp fun _ _ _ _ => trivial
    obtain ⟨_, hkey, _⟩ := h desk hdesk
    exact Drafting.exists_of_key? hkey
  notes desk hpre hdesk dependency hmem := by
    rcases List.mem_append.mp hmem with hmem | hmem
    · exact hdesk dependency hmem
    · rw [List.mem_singleton.mp hmem]
      exact h desk hpre.now

theorem inward_artifact (key : ArtifactKey) (h : key.Inside setting.bubble) (reason : String) :
    Inward setting pre (artifact key reason) fun _ _ => True :=
  (Inward.plan (Drafting.yields_node_inside h)).bind fun _ => inward_note reason fun _ h => h.2

theorem inward_entity (token : Token) (kind : DefinitionKind) :
    Inward setting pre (entity setting method token kind) fun _ _ => True := by
  refine (Inward.lift _).bind fun entity => ?_
  split
  · exact Inward.pure fun _ _ => trivial
  · exact Inward.throw _

theorem inward_reference (entity : Entity) (reason : String) :
    Inward setting pre (reference setting method entity reason) fun _ _ => True :=
  (Inward.plan (Drafting.yields_anchor_inside _ _ _)).bind fun _ =>
    inward_note reason fun _ h => h.2

theorem inward_portable (token : Token) :
    Inward setting pre (portable setting method token) fun _ _ => True :=
  (Inward.lift _).bind fun entity => (inward_reference entity _).bind fun _ =>
    (Inward.plan (Drafting.yields_issueFor _ _ _ _)).bind fun _ => Inward.pure fun _ _ => trivial

theorem inward_noteUse (callee : Entity) :
    Inward setting pre (noteUse setting callee) fun _ _ => True := by
  unfold noteUse
  split
  · exact (inward_artifact (.virtualMethodUse _) trivial _).bind fun _ => Inward.pure fun _ _ => trivial
  · exact Inward.pure fun _ _ => trivial

theorem inward_stubTarget (callee : Entity) :
    Inward setting pre (stubTarget setting method callee) fun node desk =>
      StandsInside setting node desk.workspace.draft := by
  unfold stubTarget
  split
  · rename_i hinside
    exact Inward.plan (Drafting.yields_node_inside hinside)
  · exact Inward.plan (Drafting.yields_anchor_inside _ _ _)

theorem inward_dispatchedCall (callee : Entity) :
    Inward setting pre (dispatchedCall setting method callee) fun _ _ => True :=
  (inward_noteUse callee).bind fun _ => (inward_stubTarget callee).bind fun _ =>
    (inward_artifact (.helperCell .delayLoadVirtualCall) trivial _).bind fun _ =>
      inward_note _ fun _ h => h.1.2

theorem inward_call (token : Token) (mode : CallMode) :
    Inward setting pre (call setting method token mode) fun _ _ => True := by
  refine (inward_entity token .method).bind fun callee => ?_
  cases mode with
  | direct => exact inward_reference callee _
  | dispatched =>
    refine (Inward.work (yields_rule setting callee)).bind fun ruling => ?_
    cases ruling with
    | monomorphic target => exact inward_reference target _
    | unknown => exact inward_dispatchedCall callee

theorem inward_allocate (token : Token) :
    Inward setting pre (allocate setting method token) fun _ _ => True := by
  refine (inward_entity token .method).bind fun constructor => ?_
  refine (Inward.plan (Drafting.yields_described _ _)).bind fun description => ?_
  refine (inward_artifact (.helperCell .newObject) trivial _).bind fun _ => ?_
  refine (inward_reference constructor _).bind fun _ => ?_
  split
  · rename_i hinside
    exact inward_artifact (.vtable description.owner) hinside _
  · exact inward_reference _ _

/-- Whatever a backend asks, nothing outside the bubble is noted for it. -/
theorem notesInside_reply (question : Question) {desk : Desk} (hdesk : desk.NotesInside setting) :
    (reply setting method question desk).2.NotesInside setting := by
  have hany := always_true desk
  cases question with
  | portable token => exact (inward_portable token).notes desk hany hdesk
  | call token mode => exact (inward_call token mode).notes desk hany hdesk
  | describe token =>
    exact ((inward_entity token .type).bind fun type => inward_reference type _).notes desk hany hdesk
  | allocate token => exact (inward_allocate token).notes desk hany hdesk
  | locate token =>
    exact ((inward_entity token .field).bind fun field =>
      inward_reference field _).notes desk hany hdesk
  | ruling token =>
    exact ((inward_entity token .method).bind fun callee =>
      Inward.work (yields_rule setting callee)).notes desk hany hdesk
  | cancel => exact Desk.NotesInside.grow hdesk (Arena.Grows.refl desk.workspace.arena)
  | helper name =>
    exact (inward_artifact (.helperCell name) trivial "helper call").notes desk hany hdesk

theorem notesInside_hold (dialogue : Dialogue α) {desk : Desk} (hdesk : desk.NotesInside setting) :
    (dialogue.hold (reply setting method) desk).2.NotesInside setting := by
  induction dialogue generalizing desk with
  | result value => exact hdesk
  | ask question next ih => exact ih _ (notesInside_reply question hdesk)

end Answering

namespace Session

variable {compiler : Compiler} {setting : Setting} {node : Handle} {before after : Workspace}
  {key : ArtifactKey} {expansion : Expansion}

/-- An expansion leads out of the bubble only by the artifact's own entity and by slots. -/
theorem homebound_expand (hkey : before.arena.key? node = some key)
    (h : expand compiler setting node before = (.ok expansion, after)) :
    Drafting.Homebound setting key expansion (Workspace.draft after) := by
  cases outcome_of_expand h with
  | needed hkey' hother hneeds =>
    obtain rfl := Option.some.inj (hkey.symm.trans hkey')
    exact ((yields_plan (Drafting.homebound_needs _)).of_eq_ok hneeds).2
  | compiled hkey' hneeds hcompile =>
    rename_i method needed planned compiled worked
    obtain rfl := Option.some.inj (hkey.symm.trans hkey')
    have hneeded : Yields (fun _ => True)
        (Workspace.plan (Drafting.needs setting (.methodCode method))) fun expansion workspace =>
          Drafting.Homebound setting (.methodCode method) expansion workspace.draft :=
      yields_plan (Drafting.homebound_needs (.methodCode method))
    have hplanned := (hneeded before (always_true _)).2 needed
    rw [hneeds] at hplanned
    rcases compile_eq (key?_planned hkey' hneeds) hcompile with ⟨_, hfault, _⟩ |
      ⟨body, _, rfl, hanswer⟩
    · cases hfault
    · obtain ⟨_, hnoted, _⟩ := hanswer compiled rfl
      have hgrows := (compiler.le_held setting method body planned).1
      have hnotes : (compiler.held setting method body planned).2.NotesInside setting :=
        Answering.notesInside_hold _ fun _ hmem => by cases hmem
      obtain ⟨halways, hown, hguarded⟩ := hplanned rfl _ hgrows
      refine ⟨fun dependency hmem => ?_, fun target htarget => ?_, hguarded⟩
      · rcases List.mem_append.mp hmem with hmem | hmem
        · exact halways dependency hmem
        · rw [hnoted] at hmem
          exact .inl (hnotes dependency hmem)
      · obtain ⟨dependency, hmem, hfound⟩ := hown target htarget
        exact ⟨dependency, List.mem_append_left _ hmem, hfound⟩

end Session

end PortableImage
