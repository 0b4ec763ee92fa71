import PortableImage.Artifact.Needs
import PortableImage.Proofs.Matching
import PortableImage.Proofs.Session.Yields
/-!
# What planning yields

Every question put to a draft lets its arena grow, and every node it answers with exists.  The needs
of an artifact therefore name existing nodes; those of a table of virtual methods are spelled out by
their keys.
-/

namespace PortableImage.Drafting

open PortableImage.Graph (Arena Dependency Expansion GuardedDependency Handle)

variable {pre : Draft → Prop}

theorem always_key? {draft : Draft} {node : Handle} {key : ArtifactKey}
    (h : draft.arena.key? node = some key) :
    Always (fun draft => draft.arena.key? node = some key) draft :=
  fun _ hle => Arena.Grows.keeps hle node key h

theorem yields_get : Yields pre (get : Drafting Draft) fun before after => before ≤ after := by
  intro draft _
  refine ⟨le_refl draft, ?_⟩
  intro value hvalue later hlater
  obtain rfl : draft = value := Except.ok.inj hvalue
  exact hlater

theorem yields_node (key : ArtifactKey) :
    Yields pre (node key) fun node draft => draft.arena.key? node = some key := by
  intro draft _
  refine ⟨Arena.Grows.intern draft.arena key, ?_⟩
  intro value hvalue
  obtain rfl : (draft.arena.intern key).1 = value := Except.ok.inj hvalue
  exact always_key? (Arena.key?_intern draft.arena key)

theorem yields_keyOf (node : Handle) :
    Yields pre (keyOf node) fun key draft => draft.arena.key? node = some key := by
  apply yields_get.bind
  intro before
  cases hkey : before.arena.key? node with
  | none => exact Yields.throw _
  | some key =>
    exact Yields.pure fun after hafter => Arena.Grows.keeps hafter.2 node key hkey

theorem keyOf_of_key? {node : Handle} {key : ArtifactKey} {draft : Draft}
    (h : draft.arena.key? node = some key) : keyOf node draft = (.ok key, draft) := by
  rw [keyOf, bind_get]
  simp only [h]
  rfl

theorem keyOf_of_none {node : Handle} {draft : Draft} (h : draft.arena.key? node = none) :
    keyOf node draft = (.error (.graph (.unknownNode node)), draft) := by
  rw [keyOf, bind_get]
  simp only [h]
  rfl

theorem yields_described {α : Type} (entity : Entity) (description : Option α) :
    Yields pre (described entity description) fun value _ => description = some value := by
  cases description with
  | none => exact Yields.throw _
  | some value => exact Yields.pure fun _ _ => rfl

theorem yields_issue (setting : Setting) (entity : Entity) (origin : ModuleIndex) :
    Yields pre (issue setting entity origin) fun _ _ => True :=
  fun draft _ => ⟨Arena.Grows.refl draft.arena, fun _ _ _ _ => trivial⟩

theorem yields_issueFor (setting : Setting) (requester : ArtifactKey) (entity : Entity)
    (origin : ModuleIndex) :
    Yields pre (issueFor setting requester entity origin) fun _ _ => True :=
  (yields_issue setting entity origin).tryCatch fun _ => Yields.throw _

def Exists (node : Handle) (draft : Draft) : Prop := (draft.arena.key? node).isSome

theorem exists_of_key? {node : Handle} {draft : Draft} {key : ArtifactKey}
    (h : draft.arena.key? node = some key) : Exists node draft := by
  rw [Exists, h]
  rfl

theorem yields_node_exists (key : ArtifactKey) : Yields pre (node key) Exists :=
  (yields_node key).imp fun _ _ _ => exists_of_key?

theorem yields_anchorAmong (unmet : Bindings Entity FieldDescription) (setting : Setting)
    (requester : ArtifactKey) (entity : Entity) (origin : ModuleIndex) :
    Yields pre (anchorAmong unmet setting requester entity origin) Exists := by
  induction hsize : unmet.size using Nat.strongRecOn generalizing unmet entity pre with
  | ind size ih =>
    rw [anchorAmong]
    apply (yields_issueFor _ _ _ _).bind
    intro token
    split
    · split
      · exact yields_node_exists _
      · split
        · exact yields_node_exists _
        · exact yields_node_exists _
      · exact yields_node_exists _
      · split
        · rename_i field hfield
          exact ih _ (hsize ▸ Bindings.size_erase_lt hfield) _ _ rfl
        · exact Yields.throw _
      · exact Yields.throw _
    · exact yields_node_exists _

theorem yields_anchor (setting : Setting) (requester : ArtifactKey) (entity : Entity)
    (origin : ModuleIndex) : Yields pre (anchor setting requester entity origin) Exists :=
  yields_anchorAmong _ _ _ _ _

def Leads (dependency : Dependency) (draft : Draft) : Prop := Exists dependency.target draft

theorem yields_need (key : ArtifactKey) (reason : String) :
    Yields pre (need key reason) fun dependency draft =>
      draft.arena.key? dependency.target = some key :=
  (yields_node key).bind fun _ => Yields.pure fun _ h => h.2

theorem yields_needAnchor (setting : Setting) (requester : ArtifactKey) (entity : Entity)
    (origin : ModuleIndex) (reason : String) :
    Yields pre (needAnchor setting requester entity origin reason) Leads :=
  (yields_anchor _ _ _ _).bind fun _ => Yields.pure fun _ h => h.2

theorem yields_needArguments (setting : Setting) (requester : ArtifactKey)
    (instantiation : Instantiation) (origin : ModuleIndex) :
    Yields pre (needArguments setting requester instantiation origin) fun dependencies draft =>
      ∀ dependency ∈ dependencies, Leads dependency draft :=
  (Yields.mapM fun _ _ => yields_needAnchor _ _ _ _ _).imp fun _ _ _ h _ hmem =>
    let ⟨_, _, hleads⟩ := exists_of_mem_right h hmem
    hleads

theorem names_of_leads {always : List Dependency} {draft : Draft}
    (h : ∀ dependency ∈ always, Leads dependency draft) :
    Expansion.Names { always := always } draft.arena :=
  ⟨h, fun _ hmem => by cases hmem⟩

theorem yields_methodCodeNeeds (setting : Setting) (method : Entity) :
    Yields pre (methodCodeNeeds setting method) fun expansion draft =>
      expansion.Names draft.arena := by
  apply (yields_described _ _).bind
  intro description
  apply (yields_needAnchor _ _ _ _ _).bind
  intro owner
  split
  · apply (yields_need _ _).bind
    intro dictionary
    apply Yields.pure
    intro draft h
    apply names_of_leads
    obtain ⟨⟨_, howner⟩, hdictionary⟩ := h
    intro dependency hmem
    rcases List.mem_pair.mp hmem with rfl | rfl
    · exact howner
    · exact exists_of_key? hdictionary
  · apply Yields.pure
    intro draft h
    apply names_of_leads
    intro dependency hmem
    rw [List.mem_singleton.mp hmem]
    exact h.2

theorem yields_typeLayoutNeeds (setting : Setting) (type : Entity) :
    Yields pre (typeLayoutNeeds setting type) fun expansion draft =>
      expansion.Names draft.arena := by
  apply (yields_described _ _).bind
  intro description
  apply (Yields.mapM fun _ _ => yields_needAnchor _ _ _ _ _).bind
  intro base
  split
  · apply Yields.pure
    intro draft h
    apply names_of_leads
    intro dependency hmem
    obtain ⟨_, _, hleads⟩ := exists_of_mem_right h.2 hmem
    exact hleads
  · apply (yields_needAnchor _ _ _ _ _).bind
    intro definition
    apply (yields_needArguments _ _ _ _).bind
    intro arguments
    apply Yields.pure
    intro draft h
    apply names_of_leads
    intro dependency hmem
    obtain ⟨⟨⟨_, hbase⟩, hdefinition⟩, harguments⟩ := h
    rcases List.mem_append.mp hmem with hmem | hmem
    · obtain ⟨_, _, hleads⟩ := exists_of_mem_right hbase hmem
      exact hleads
    · rcases List.mem_cons.mp hmem with rfl | hmem
      · exact hdefinition
      · exact harguments dependency hmem

theorem yields_needSlot (setting : Setting) (method : Entity) :
    Yields pre (needSlot setting method) fun dependency draft =>
      draft.arena.key? dependency.target = some (.methodCode method) ∧
      draft.arena.key? dependency.guard =
        some (.virtualMethodUse (setting.program.introducer method)) ∧
      dependency.threshold = .marked := by
  apply (yields_node _).bind
  intro guard
  apply (yields_node _).bind
  intro target
  exact Yields.pure fun _ h => ⟨h.2, h.1.2, rfl⟩

/-- What the table of virtual methods of a type needs, by keys. -/
structure VTableNeeds (setting : Setting) (type : Entity) (expansion : Expansion)
    (arena : Arena ArtifactKey) : Prop where
  names : expansion.Names arena
  base : ∀ description base, setting.program.type? type = some description →
    description.base = some base → setting.bubble.contains base →
    ∃ dependency ∈ expansion.always, arena.key? dependency.target = some (.vtable base)
  slots : ∀ method ∈ slotMethods setting type, ∃ dependency ∈ expansion.guarded,
    arena.key? dependency.target = some (.methodCode method) ∧
    arena.key? dependency.guard =
      some (.virtualMethodUse (setting.program.introducer method)) ∧
    dependency.threshold = .marked

theorem yields_vtableNeeds (setting : Setting) (type : Entity) :
    Yields pre (vtableNeeds setting type) fun expansion draft =>
      VTableNeeds setting type expansion draft.arena := by
  apply (yields_described _ _).bind
  intro description
  apply (yields_need _ _).bind
  intro owner
  apply (Yields.mapM fun base _ => yields_need (.vtable base) _).bind
  intro bases
  apply (Yields.mapM fun method _ => yields_needSlot setting method).bind
  intro slots
  apply Yields.pure
  intro draft h
  obtain ⟨⟨⟨⟨_, hdescription⟩, howner⟩, hbases⟩, hslots⟩ := h
  refine ⟨⟨?_, ?_⟩, ?_, ?_⟩
  · intro dependency hmem
    rcases List.mem_cons.mp hmem with rfl | hmem
    · exact exists_of_key? howner
    · obtain ⟨_, _, hkey⟩ := exists_of_mem_right hbases hmem
      exact exists_of_key? hkey
  · intro dependency hmem
    obtain ⟨_, _, hkey, _⟩ := exists_of_mem_right hslots hmem
    exact exists_of_key? hkey
  · intro found base hfound hbase hcontains
    rw [hdescription] at hfound
    cases hfound
    have hmem : base ∈ description.base.toList.filter setting.bubble.contains := by
      rw [List.mem_filter, hbase]
      exact ⟨List.mem_singleton_self base, hcontains⟩
    obtain ⟨dependency, hdependency, hkey⟩ := exists_of_mem_left hbases hmem
    exact ⟨dependency, List.mem_cons_of_mem _ hdependency, hkey⟩
  · intro method hmethod
    exact exists_of_mem_left hslots hmethod

theorem yields_genericDictionaryNeeds (setting : Setting) (entity : Entity) :
    Yields pre (genericDictionaryNeeds setting entity) fun expansion draft =>
      expansion.Names draft.arena := by
  apply (yields_described _ _).bind
  intro instantiation
  apply (yields_needArguments _ _ _ _).bind
  intro arguments
  apply (yields_need _ _).bind
  intro signature
  apply Yields.pure
  intro draft h
  apply names_of_leads
  intro dependency hmem
  obtain ⟨⟨_, harguments⟩, hsignature⟩ := h
  rcases List.mem_append.mp hmem with hmem | hmem
  · exact harguments dependency hmem
  · rw [List.mem_singleton.mp hmem]
    exact exists_of_key? hsignature

theorem names_empty (draft : Draft) : Expansion.Names {} draft.arena :=
  names_of_leads fun _ hmem => by cases hmem

theorem yields_virtualMethodUseNeeds (setting : Setting) (slot : Entity) :
    Yields pre (virtualMethodUseNeeds setting slot) fun expansion draft =>
      expansion.Names draft.arena := by
  rw [virtualMethodUseNeeds]
  split
  · exact Yields.pure fun draft _ => names_empty draft
  · split
    · apply (yields_need _ _).bind
      intro owner
      apply Yields.pure
      intro draft h
      apply names_of_leads
      intro dependency hmem
      rw [List.mem_singleton.mp hmem]
      exact exists_of_key? h.2
    · exact Yields.pure fun draft _ => names_empty draft

/-- What an artifact needs exists. -/
theorem yields_needs (setting : Setting) (key : ArtifactKey) :
    Yields pre (needs setting key) fun expansion draft => expansion.Names draft.arena := by
  cases key with
  | methodCode method => exact yields_methodCodeNeeds setting method
  | typeLayout type => exact yields_typeLayoutNeeds setting type
  | vtable type => exact (yields_vtableNeeds setting type).imp fun _ _ _ h => h.names
  | genericDictionary entity => exact yields_genericDictionaryNeeds setting entity
  | virtualMethodUse slot => exact yields_virtualMethodUseNeeds setting slot
  | signature entity => exact Yields.pure fun draft _ => names_empty draft
  | importCell token => exact Yields.pure fun draft _ => names_empty draft
  | helperCell helper => exact Yields.pure fun draft _ => names_empty draft

end PortableImage.Drafting
