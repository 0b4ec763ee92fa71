import PortableImage.Proofs.Graph.Twins
import PortableImage.Proofs.Portable.SignatureFaults
import PortableImage.Proofs.Session.Agreement
import PortableImage.Proofs.Session.Planning
import PortableImage.Proofs.Session.Scope
/-!
# Plans agree

Two drafts are alike if they have one ledger, a sound one, and the work on every artifact has come
equally far in both; the handles of the artifacts may differ.  The same question put to both is
answered with nodes of one artifact, or fails with one fault, which does not come from the graph.

What the data of an artifact refers to is found twice, when its needs are found and when it is
emitted.  Both times the anchor is the same, and it is among the needs.
-/

namespace PortableImage

open PortableImage.Graph (Arena Dependency Expansion GuardedDependency Handle)

namespace Graph.Arena

variable {κ : Type} [DecidableEq κ] {arena : Arena κ} {scope : List κ}

/-- All keys come from a list. -/
def Within (scope : List κ) (arena : Arena κ) : Prop :=
  ∀ node key, arena.key? node = some key → key ∈ scope

omit [DecidableEq κ] in
theorem within_empty (scope : List κ) : Within scope ∅ := fun _ _ h => by cases h

theorem Within.intern (h : Within scope arena) {key : κ} (hkey : key ∈ scope) :
    Within scope (arena.intern key).2 := by
  intro node other hother
  rw [key?, get?_intern] at hother
  split at hother
  · obtain rfl := Option.some.inj hother
    exact hkey
  · exact h node other hother

theorem Within.internEach {arena : Arena κ} (h : Within scope arena) {keys : List κ}
    (hkeys : ∀ key ∈ keys, key ∈ scope) : Within scope (arena.internEach keys).2 := by
  induction keys generalizing arena with
  | nil => exact h
  | cons key keys ih =>
    exact ih (h.intern (hkeys key List.mem_cons_self))
      fun other hother => hkeys other (List.mem_cons_of_mem _ hother)

end Graph.Arena

structure Draft.Alike (setting : Setting) (left right : Draft) : Prop where
  ledger : left.ledger = right.ledger
  sound : left.ledger.Sound setting.program setting.bubble
  arena : left.arena.Alike right.arena
  within : left.arena.Within setting.program.artifacts
  within_right : right.arena.Within setting.program.artifacts

namespace Drafting

/-- Drafts are bound to be alike, and no fault is to come from the graph. -/
def bond (setting : Setting) : Bond Draft Fault := ⟨Draft.Alike setting, Fault.Benign⟩

/-- Two handles stand for an artifact, each in its own draft. -/
def Stands (key : ArtifactKey) (a b : Handle) (drafts : Draft × Draft) : Prop :=
  drafts.1.arena.key? a = some key ∧ drafts.2.arena.key? b = some key

/-- Two handles stand for one artifact. -/
def Same (drafts : Draft × Draft) (a b : Handle) : Prop :=
  Arena.Same drafts.1.arena drafts.2.arena a b

variable {setting : Setting} {pre : Draft × Draft → Prop} {drafts : Draft × Draft}
  {key : ArtifactKey} {a b : Handle} {entity : Entity} {origin : ModuleIndex}

theorem Stands.same (h : Stands key a b drafts) : Same drafts a b := ⟨key, h⟩

theorem always_stands (h : Stands key a b drafts) : Always (Stands key a b) drafts :=
  fun _ hlater => ⟨Arena.Grows.keeps hlater.1 _ _ h.1, Arena.Grows.keeps hlater.2 _ _ h.2⟩

theorem agrees_node (hkey : key ∈ setting.program.artifacts) :
    Agrees (bond setting) pre (node key) (node key) (Stands key) := by
  intro drafts halike _
  have hleft := Arena.Grows.intern drafts.1.arena key
  have hright := Arena.Grows.intern drafts.2.arena key
  refine ⟨⟨hleft, hright⟩, { halike with
    arena := halike.arena.grows hleft hright
    within := halike.within.intern hkey
    within_right := halike.within_right.intern hkey }, .ok (always_stands ⟨?_, ?_⟩)⟩
  · exact Arena.key?_intern drafts.1.arena key
  · exact Arena.key?_intern drafts.2.arena key

theorem agrees_get : Agrees (bond setting) pre (get : Drafting Draft) (get : Drafting Draft)
    fun left right drafts => (left, right) ≤ drafts ∧ left.arena.Alike right.arena :=
  fun drafts halike _ =>
    ⟨le_refl drafts, halike, .ok fun _ hlater => ⟨hlater, halike.arena⟩⟩

theorem agrees_keyOf (h : ∀ drafts, pre drafts → Stands key a b drafts) :
    Agrees (bond setting) pre (keyOf a) (keyOf b) fun found other _ =>
      found = key ∧ other = key := by
  intro drafts halike hpre
  obtain ⟨hleft, hright⟩ := h drafts hpre.now
  rw [keyOf_of_key? hleft, keyOf_of_key? hright]
  exact ⟨le_refl drafts, halike, .ok fun _ _ => ⟨rfl, rfl⟩⟩

theorem agrees_described {α : Type} (entity : Entity) (description : Option α) :
    Agrees (bond setting) pre (described entity description) (described entity description)
      fun value other _ => value = other ∧ description = some value := by
  cases description with
  | none => exact Agrees.throw fun _ => Fault.noConfusion
  | some value => exact Agrees.pure fun _ _ => ⟨rfl, rfl⟩

theorem agrees_issue (entity : Entity) (origin : ModuleIndex) :
    Agrees (bond setting) pre (issue setting entity origin) (issue setting entity origin)
      fun token other _ => token = other ∧
        setting.program.portableToken setting.bubble entity origin = .ok token := by
  intro drafts halike _
  have hanswer := halike.sound.issue_fst entity origin
  have hsame : issue setting entity origin drafts.2 =
      ((Ledger.issue setting.program setting.bubble entity origin drafts.1.ledger).1,
        { drafts.2 with ledger :=
          (Ledger.issue setting.program setting.bubble entity origin drafts.1.ledger).2 }) := by
    rw [halike.ledger]
    rfl
  rw [hsame]
  refine ⟨⟨Arena.Grows.refl _, Arena.Grows.refl _⟩, { halike with
    ledger := rfl
    sound := halike.sound.issue entity origin }, ?_⟩
  show Concur _ _ (Ledger.issue setting.program setting.bubble entity origin drafts.1.ledger).1
    (Ledger.issue setting.program setting.bubble entity origin drafts.1.ledger).1
  rw [hanswer]
  cases htoken : setting.program.portableToken setting.bubble entity origin with
  | ok token => exact .ok fun _ _ => ⟨rfl, rfl⟩
  | error fault => exact .error (Program.benign_of_portableToken htoken)

theorem issueFor_eq (setting : Setting) (requester : ArtifactKey) (entity : Entity)
    (origin : ModuleIndex) (draft : Draft) :
    issueFor setting requester entity origin draft =
      ((issue setting entity origin draft).1.mapError (Fault.requestedBy requester),
        (issue setting entity origin draft).2) := by
  cases hissue : issue setting entity origin draft with
  | mk answer later =>
    cases answer with
    | ok token => exact tryCatch_of_ok hissue
    | error fault => exact tryCatch_of_error hissue

theorem agrees_issueFor (requester : ArtifactKey) (entity : Entity) (origin : ModuleIndex) :
    Agrees (bond setting) pre (issueFor setting requester entity origin)
      (issueFor setting requester entity origin) fun token other _ => token = other ∧
        setting.program.portableToken setting.bubble entity origin = .ok token := by
  intro drafts halike hpre
  obtain ⟨hgrows, hafter, hanswers⟩ := agrees_issue entity origin drafts halike hpre
  rw [issueFor_eq, issueFor_eq]
  refine ⟨hgrows, hafter, ?_⟩
  dsimp only
  generalize (issue setting entity origin drafts.1).1 = left,
    (issue setting entity origin drafts.2).1 = right at hanswers
  cases hanswers with
  | ok htoken => exact .ok htoken
  | error hfault => exact .error (Fault.Benign.requestedBy hfault requester)

/-- Both handles stand for the anchor of an entity. -/
def Anchored (setting : Setting) (origin : ModuleIndex) (entity : Entity) (a b : Handle)
    (drafts : Draft × Draft) : Prop :=
  ∃ key, Anchors setting origin entity key ∧ Stands key a b drafts

theorem agrees_anchorAmong (unmet : Bindings Entity FieldDescription)
    (hunmet : ∀ field description, unmet.find? field = some description →
      setting.program.field? field = some description)
    (requester : ArtifactKey) (hentity : entity ∈ setting.program.mentioned) :
    Agrees (bond setting) pre (anchorAmong unmet setting requester entity origin)
      (anchorAmong unmet setting requester entity origin) (Anchored setting origin entity) := by
  induction hsize : unmet.size using Nat.strongRecOn generalizing unmet entity pre with
  | ind size ih =>
    have hnode {key : ArtifactKey} (hkey : key ∈ setting.program.artifacts)
        (hanchors : Anchors setting origin entity key) :
        Agrees (bond setting) pre (node key) (node key) (Anchored setting origin entity) :=
      (agrees_node hkey).imp fun _ _ _ _ hstands => ⟨key, hanchors, hstands⟩
    have habout {key : ArtifactKey} (hkey : key.entity? = some entity) :=
      Program.mem_artifacts hentity hkey
    rw [anchorAmong]
    refine (agrees_issueFor requester entity origin).bind_fact ?_
    rintro token _ ⟨rfl, htoken⟩
    split
    · rename_i hinside
      split
      · rename_i hkind
        exact hnode (habout rfl) (.type hinside hkind)
      · rename_i hkind
        split
        · rename_i hbody
          exact hnode (habout rfl) (.code hinside hkind hbody)
        · rename_i hbody
          exact hnode (habout rfl) (.bodiless hinside hkind (Bool.eq_false_iff.mpr hbody))
      · rename_i hkind
        exact hnode (habout rfl) (.signature hinside hkind)
      · rename_i hkind
        split
        · rename_i field hfield
          have hfound := hunmet _ _ hfield
          refine (ih _ (hsize ▸ Bindings.size_erase_lt hfield) _ ?_
            (Program.mem_mentioned_of_field hfound (.inr rfl)) rfl).imp ?_
          · intro other description hother
            rw [Bindings.find?_erase] at hother
            split at hother
            · cases hother
            · exact hunmet _ _ hother
          · rintro _ _ _ _ ⟨key, hanchors, hstands⟩
            exact ⟨key, .field hinside hkind hfound hanchors, hstands⟩
        · exact Agrees.throw fun _ => Fault.noConfusion
      · exact Agrees.throw fun _ => Fault.noConfusion
    · rename_i houtside
      have houtside := Bool.eq_false_iff.mpr houtside
      exact hnode (Program.importCell_mem_artifacts houtside htoken) (.cell houtside htoken)

theorem agrees_anchor (requester : ArtifactKey) (hentity : entity ∈ setting.program.mentioned) :
    Agrees (bond setting) pre (anchor setting requester entity origin)
      (anchor setting requester entity origin) (Anchored setting origin entity) :=
  agrees_anchorAmong setting.program.fields (fun _ _ => id) requester hentity

section Needs

/-- Both dependencies lead to an artifact, for one reason. -/
structure Points (key : ArtifactKey) (a b : Dependency) (drafts : Draft × Draft) : Prop where
  stands : Stands key a.target b.target drafts
  reason : a.reason = b.reason

theorem Points.alike {a b : Dependency} (h : Points key a b drafts) :
    Dependency.Alike (Same drafts) a b :=
  ⟨h.stands.same, h.reason⟩

/-- Both dependencies lead to the anchor of an entity. -/
def PointsToAnchor (setting : Setting) (origin : ModuleIndex) (entity : Entity) (a b : Dependency)
    (drafts : Draft × Draft) : Prop :=
  ∃ key, Anchors setting origin entity key ∧ Points key a b drafts

theorem agrees_need (hkey : key ∈ setting.program.artifacts) (reason : String) :
    Agrees (bond setting) pre (need key reason) (need key reason) (Points key) :=
  (agrees_node hkey).bind fun _ _ => Agrees.pure fun _ h => ⟨h.2, rfl⟩

theorem agrees_needAnchor (requester : ArtifactKey)
    (hentity : entity ∈ setting.program.mentioned) (reason : String) :
    Agrees (bond setting) pre (needAnchor setting requester entity origin reason)
      (needAnchor setting requester entity origin reason)
      (PointsToAnchor setting origin entity) := by
  refine (agrees_anchor requester hentity).bind fun _ _ => Agrees.pure ?_
  rintro _ ⟨_, key, hanchors, hstands⟩
  exact ⟨key, hanchors, hstands, rfl⟩

theorem agrees_needArguments (requester : ArtifactKey) {instantiation : Instantiation}
    (harguments : ∀ argument ∈ instantiation.arguments, argument ∈ setting.program.mentioned) :
    Agrees (bond setting) pre (needArguments setting requester instantiation origin)
      (needArguments setting requester instantiation origin) fun left right drafts =>
        Answered (fun argument a b => PointsToAnchor setting origin argument a b drafts)
          instantiation.arguments left right :=
  Agrees.mapM fun argument hargument => agrees_needAnchor requester (harguments argument hargument) _

theorem alike_of_anchored {items : List Entity} {left right : List Dependency}
    (h : Answered (fun entity a b => PointsToAnchor setting origin entity a b drafts)
      items left right) : List.Forall₂ (Dependency.Alike (Same drafts)) left right :=
  h.agree.imp fun _ _ ⟨_, _, _, _, hpoints⟩ => hpoints.alike

/-- What the data of an artifact refers to, and the module that refers to it. -/
inductive Refers (setting : Setting) : ArtifactKey → Entity → ModuleIndex → Prop
  | base {type base description} (htype : setting.program.type? type = some description)
      (hbase : description.base = some base) : Refers setting (.typeLayout type) base type.module
  | argument {entity argument instantiation}
      (hentity : setting.program.instantiation? entity = some instantiation)
      (hargument : argument ∈ instantiation.arguments) :
      Refers setting (.genericDictionary entity) argument entity.module

/-- The anchor of whatever the data refers to is among the needs. -/
def Covers (setting : Setting) (key : ArtifactKey) (always : List Dependency) (draft : Draft) :
    Prop :=
  ∀ entity origin, Refers setting key entity origin → ∃ anchor, Anchors setting origin entity anchor ∧
    ∃ dependency ∈ always, draft.arena.key? dependency.target = some anchor

/-- The needs are alike, and what the data refers to is covered. -/
structure Needed (setting : Setting) (key : ArtifactKey) (a b : Expansion)
    (drafts : Draft × Draft) : Prop where
  alike : Expansion.Alike (Same drafts) a b
  covers : Covers setting key a.always drafts.1

theorem exists_dependency_of_answered {items : List Entity} {left right always : List Dependency}
    (h : Answered (fun entity a b => PointsToAnchor setting origin entity a b drafts)
      items left right) (hleft : ∀ dependency ∈ left, dependency ∈ always)
    (hentity : entity ∈ items) :
    ∃ anchor, Anchors setting origin entity anchor ∧
      ∃ dependency ∈ always, drafts.1.arena.key? dependency.target = some anchor := by
  obtain ⟨a, ha, _, _, anchor, hanchors, hpoints⟩ := h.covered entity hentity
  exact ⟨anchor, hanchors, a, hleft a ha, hpoints.stands.1⟩

/-- Data that refers to nothing is covered. -/
theorem needed_of_alike {left right : Expansion}
    (h : Expansion.Alike (Same drafts) left right)
    (hkey : ∀ entity origin, ¬ Refers setting key entity origin) :
    Needed setting key left right drafts :=
  ⟨h, fun entity origin hrefers => absurd hrefers (hkey entity origin)⟩

theorem agrees_methodCodeNeeds (method : Entity) :
    Agrees (bond setting) pre (methodCodeNeeds setting method) (methodCodeNeeds setting method)
      (Needed setting (.methodCode method)) := by
  refine (agrees_described _ _).bind_fact ?_
  rintro description _ ⟨rfl, hdescription⟩
  have howner := Program.mem_mentioned_of_method hdescription (.inr (.inl rfl))
  have hmethod := Program.mem_mentioned_of_method hdescription (.inl rfl)
  refine (agrees_needAnchor _ howner _).bind fun owner other => ?_
  split
  · refine (agrees_need (Program.mem_artifacts hmethod rfl) _).bind fun dictionary other' => ?_
    apply Agrees.pure
    rintro drafts ⟨⟨_, _, _, howner⟩, hdictionary⟩
    refine needed_of_alike ⟨.cons howner.alike (.cons hdictionary.alike .nil), .nil⟩ ?_
    exact fun _ _ h => by cases h
  · apply Agrees.pure
    rintro drafts ⟨_, _, _, howner⟩
    refine needed_of_alike ⟨.cons howner.alike .nil, .nil⟩ ?_
    exact fun _ _ h => by cases h

theorem agrees_typeLayoutNeeds (type : Entity) :
    Agrees (bond setting) pre (typeLayoutNeeds setting type) (typeLayoutNeeds setting type)
      (Needed setting (.typeLayout type)) := by
  refine (agrees_described _ _).bind_fact ?_
  rintro description _ ⟨rfl, hdescription⟩
  have hmentioned {other : Entity} := @Program.mem_mentioned_of_type _ _ _ hdescription other
  have hcovers {left right always : List Dependency} {drafts : Draft × Draft}
      (h : Answered (fun entity a b => PointsToAnchor setting type.module entity a b drafts)
        description.base.toList left right) (hleft : ∀ dependency ∈ left, dependency ∈ always) :
      Covers setting (.typeLayout type) always drafts.1 := by
    rintro _ _ hrefers
    cases hrefers with
    | base htype hbase =>
      rw [hdescription] at htype
      cases htype
      exact exists_dependency_of_answered h hleft (Option.mem_toList.mpr hbase)
  refine (Agrees.mapM fun base hbase => agrees_needAnchor (.typeLayout type)
    (hmentioned (.inr (.inl (Option.mem_toList.mp hbase)))) "base type").bind fun bases others => ?_
  split
  · apply Agrees.pure
    rintro drafts ⟨_, hbases⟩
    exact ⟨⟨alike_of_anchored hbases, .nil⟩, hcovers hbases fun _ => id⟩
  · rename_i instantiation hinstantiation
    have hnamed {other : Entity} (hother : other ∈ instantiation.definition :: instantiation.arguments) :
        other ∈ setting.program.mentioned := by
      apply hmentioned
      rw [hinstantiation]
      exact .inr (.inr hother)
    refine (agrees_needAnchor _ (hnamed List.mem_cons_self) _).bind fun definition other => ?_
    refine (agrees_needArguments _ fun argument hargument =>
      hnamed (List.mem_cons_of_mem _ hargument)).bind fun arguments others' => ?_
    apply Agrees.pure
    rintro drafts ⟨⟨⟨_, hbases⟩, _, _, hdefinition⟩, harguments⟩
    refine ⟨⟨List.rel_append (alike_of_anchored hbases)
      (.cons hdefinition.alike (alike_of_anchored harguments)), .nil⟩, hcovers hbases ?_⟩
    exact fun _ => List.mem_append_left _

theorem agrees_needSlot {method : Entity} (hmethod : method ∈ setting.program.mentioned) :
    Agrees (bond setting) pre (needSlot setting method) (needSlot setting method)
      fun a b drafts => GuardedDependency.Alike (Same drafts) a b := by
  have hintroducer := Program.introducer_mem_mentioned hmethod
  refine (agrees_node (Program.mem_artifacts hintroducer rfl)).bind fun guard guard' => ?_
  refine (agrees_node (Program.mem_artifacts hmethod rfl)).bind fun target target' => ?_
  apply Agrees.pure
  rintro drafts ⟨⟨_, hguard⟩, htarget⟩
  exact ⟨htarget.same, hguard.same, rfl, rfl⟩

theorem agrees_vtableNeeds (type : Entity) :
    Agrees (bond setting) pre (vtableNeeds setting type) (vtableNeeds setting type)
      (Needed setting (.vtable type)) := by
  refine (agrees_described _ _).bind_fact ?_
  rintro description _ ⟨rfl, hdescription⟩
  have hmentioned {other : Entity} := @Program.mem_mentioned_of_type _ _ _ hdescription other
  refine (agrees_need (Program.mem_artifacts (hmentioned (.inl rfl)) rfl) _).bind
    fun owner owner' => ?_
  refine (Agrees.mapM fun base hbase => agrees_need (Program.mem_artifacts (hmentioned (.inr (.inl
    (Option.mem_toList.mp (List.mem_of_mem_filter hbase))))) rfl) "base vtable").bind
      fun bases bases' => ?_
  refine (Agrees.mapM fun method hmethod => agrees_needSlot ?_).bind fun slots slots' => ?_
  · have hvirtual := (List.mem_filter.mp hmethod).2
    rw [Bool.and_eq_true] at hvirtual
    exact Program.mem_mentioned_of_isVirtual hvirtual.1
  · apply Agrees.pure
    rintro drafts ⟨⟨⟨_, howner⟩, hbases⟩, hslots⟩
    refine needed_of_alike ⟨.cons howner.alike (hbases.agree.imp ?_), hslots.agree.imp ?_⟩ ?_
    · exact fun _ _ ⟨_, _, hpoints⟩ => hpoints.alike
    · exact fun _ _ ⟨_, _, halike⟩ => halike
    · exact fun _ _ h => by cases h

theorem agrees_genericDictionaryNeeds (entity : Entity) :
    Agrees (bond setting) pre (genericDictionaryNeeds setting entity)
      (genericDictionaryNeeds setting entity) (Needed setting (.genericDictionary entity)) := by
  refine (agrees_described _ _).bind_fact ?_
  rintro instantiation _ ⟨rfl, hinstantiation⟩
  have hmentioned {other : Entity} :=
    @Program.mem_mentioned_of_instantiation _ _ _ hinstantiation other
  refine (agrees_needArguments _ fun argument hargument =>
    hmentioned (.inr (List.mem_cons_of_mem _ hargument))).bind fun arguments arguments' => ?_
  refine (agrees_need (Program.mem_artifacts (hmentioned (.inl rfl)) rfl) _).bind
    fun signature signature' => ?_
  apply Agrees.pure
  rintro drafts ⟨⟨_, harguments⟩, hsignature⟩
  refine ⟨⟨List.rel_append (alike_of_anchored harguments) (.cons hsignature.alike .nil), .nil⟩, ?_⟩
  rintro _ _ hrefers
  cases hrefers with
  | argument hfound hargument =>
    rw [hinstantiation] at hfound
    cases hfound
    exact exists_dependency_of_answered harguments (fun _ => List.mem_append_left _) hargument

theorem agrees_virtualMethodUseNeeds (slot : Entity) :
    Agrees (bond setting) pre (virtualMethodUseNeeds setting slot)
      (virtualMethodUseNeeds setting slot) (Needed setting (.virtualMethodUse slot)) := by
  have hrefers : ∀ entity origin, ¬ Refers setting (.virtualMethodUse slot) entity origin :=
    fun _ _ h => by cases h
  rw [virtualMethodUseNeeds]
  split
  · exact Agrees.pure fun _ _ => needed_of_alike ⟨.nil, .nil⟩ hrefers
  · rename_i description hdescription
    have howner := Program.mem_mentioned_of_method hdescription (.inr (.inl rfl))
    split
    · refine (agrees_need (Program.mem_artifacts howner rfl) _).bind fun owner owner' => ?_
      exact Agrees.pure fun _ h => needed_of_alike ⟨.cons h.2.alike .nil, .nil⟩ hrefers
    · exact Agrees.pure fun _ _ => needed_of_alike ⟨.nil, .nil⟩ hrefers

theorem agrees_needs (setting : Setting) (key : ArtifactKey) :
    Agrees (bond setting) pre (needs setting key) (needs setting key) (Needed setting key) := by
  have hnothing (key : ArtifactKey) (hkey : ∀ entity origin, ¬ Refers setting key entity origin) :
      Agrees (bond setting) pre (Pure.pure {} : Drafting Expansion) (Pure.pure {} : Drafting Expansion)
        (Needed setting key) :=
    Agrees.pure fun _ _ => needed_of_alike ⟨.nil, .nil⟩ hkey
  cases key with
  | methodCode method => exact agrees_methodCodeNeeds method
  | typeLayout type => exact agrees_typeLayoutNeeds type
  | vtable type => exact agrees_vtableNeeds type
  | genericDictionary entity => exact agrees_genericDictionaryNeeds entity
  | virtualMethodUse slot => exact agrees_virtualMethodUseNeeds slot
  | signature entity => exact hnothing _ fun _ _ h => by cases h
  | importCell token => exact hnothing _ fun _ _ h => by cases h
  | helperCell helper => exact hnothing _ fun _ _ h => by cases h

end Needs

end Drafting

end PortableImage
