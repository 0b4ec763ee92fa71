import PortableImage.Artifact.Draft
import PortableImage.Dispatch
import PortableImage.Session.Bound
/-!
# What there can be in an image

The artifacts of an image are about entities that the program mentions.  Reading a description leads
from such an entity to such entities again.  So all keys come from one list, and a session may take
more rounds than the list is long.
-/

namespace PortableImage

namespace Program

variable {program : Program} {bubble : Bubble} {entity : Entity}

theorem mem_mentioned_of_type {description : TypeDescription}
    (h : program.type? entity = some description) {other : Entity}
    (hother : other = entity ∨ description.base = some other ∨
      other ∈ instantiationEntities description.instantiation) : other ∈ program.mentioned := by
  have hentry := Bindings.mem_entries_of_find? h
  simp only [mentioned, List.mem_append, List.mem_flatMap]
  refine .inl (.inl (.inl (.inl ⟨_, hentry, ?_⟩)))
  simpa [Option.mem_toList, or_assoc] using hother

theorem mem_mentioned_of_method {description : MethodDescription}
    (h : program.method? entity = some description) {other : Entity}
    (hother : other = entity ∨ other = description.owner ∨ description.overrides = some other ∨
      other ∈ instantiationEntities description.instantiation) : other ∈ program.mentioned := by
  have hentry := Bindings.mem_entries_of_find? h
  simp only [mentioned, List.mem_append, List.mem_flatMap]
  refine .inl (.inl (.inl (.inr ⟨_, hentry, ?_⟩)))
  simpa [Option.mem_toList, or_assoc] using hother

theorem mem_mentioned_of_field {description : FieldDescription}
    (h : program.field? entity = some description) {other : Entity}
    (hother : other = entity ∨ other = description.owner) : other ∈ program.mentioned := by
  have hentry := Bindings.mem_entries_of_find? h
  simp only [mentioned, List.mem_append, List.mem_flatMap]
  refine .inl (.inl (.inr ⟨_, hentry, ?_⟩))
  simpa using hother

theorem mem_mentioned_of_contains (h : program.contains entity) : entity ∈ program.mentioned := by
  unfold contains at h
  split at h
  · obtain ⟨description, hdescription⟩ := Option.isSome_iff_exists.mp h
    exact mem_mentioned_of_type hdescription (.inl rfl)
  · obtain ⟨description, hdescription⟩ := Option.isSome_iff_exists.mp h
    exact mem_mentioned_of_method hdescription (.inl rfl)
  · obtain ⟨description, hdescription⟩ := Option.isSome_iff_exists.mp h
    exact mem_mentioned_of_field hdescription (.inl rfl)
  · have hkey := (Bindings.mem_keys_iff program.signatures entity).mpr h
    simp only [mentioned, List.mem_append]
    exact .inl (.inr hkey)
  · cases h

theorem mem_mentioned_of_meaning {module : ModuleIndex} {token : Token}
    (h : program.meaning module token = .ok entity) : entity ∈ program.mentioned := by
  unfold meaning at h
  split at h
  · cases h
  · split at h
    · rename_i target htarget
      obtain rfl := Except.ok.inj h
      have hentry := List.mem_map_of_mem (f := Prod.snd) (Bindings.mem_entries_of_find? htarget)
      simp only [mentioned, List.mem_append]
      exact .inr hentry
    · split at h
      · cases h
      · split at h
        · rename_i hcontains
          obtain rfl := Except.ok.inj h
          exact mem_mentioned_of_contains hcontains
        · cases h

theorem mem_mentioned_of_instantiation {instantiation : Instantiation}
    (h : program.instantiation? entity = some instantiation) {other : Entity}
    (hother : other = entity ∨ other ∈ instantiationEntities (some instantiation)) :
    other ∈ program.mentioned := by
  unfold instantiation? at h
  split at h
  · obtain ⟨description, hdescription, hinstantiation⟩ := Option.bind_eq_some_iff.mp h
    apply mem_mentioned_of_type hdescription
    rw [hinstantiation]
    exact hother.imp_right .inr
  · obtain ⟨description, hdescription, hinstantiation⟩ := Option.bind_eq_some_iff.mp h
    apply mem_mentioned_of_method hdescription
    rw [hinstantiation]
    exact hother.imp_right fun hmem => .inr (.inr hmem)
  · cases h

theorem mem_mentioned_of_isVirtual (h : program.isVirtual entity) :
    entity ∈ program.mentioned := by
  obtain ⟨description, hdescription, _⟩ := (Option.any_eq_true _ _).mp h
  exact mem_mentioned_of_method hdescription (.inl rfl)

theorem introducer_mem_mentioned (h : entity ∈ program.mentioned) :
    program.introducer entity ∈ program.mentioned := by
  have hamong : ∀ (unmet : Bindings Entity MethodDescription) (method : Entity),
      (∀ other description, unmet.find? other = some description →
        program.method? other = some description) →
      method ∈ program.mentioned → introducerAmong unmet method ∈ program.mentioned := by
    intro unmet method hunmet hmethod
    induction hsize : unmet.size using Nat.strongRecOn generalizing unmet method with
    | ind size ih =>
      rw [introducerAmong]
      split
      · exact hmethod
      · rename_i description hdescription
        split
        · exact hmethod
        · rename_i next hnext
          refine ih _ (hsize ▸ Bindings.size_erase_lt hdescription) _ _ ?_ ?_ rfl
          · intro other found hfound
            rw [Bindings.find?_erase] at hfound
            split at hfound
            · cases hfound
            · exact hunmet other found hfound
          · exact mem_mentioned_of_method (hunmet _ _ hdescription) (.inr (.inr (.inl hnext)))
  exact hamong program.methods entity (fun _ _ => id) h

theorem mem_mentioned_of_rule {method target : Entity}
    (h : program.rule bubble method = .monomorphic target) : target ∈ program.mentioned := by
  unfold rule at h
  split at h
  · split at h
    · cases h
    · rename_i description hdescription
      split at h
      · obtain rfl := Ruling.monomorphic.inj h
        exact mem_mentioned_of_method hdescription (.inl rfl)
      · split at h
        · rename_i single hsingle
          obtain rfl := Ruling.monomorphic.inj h
          have hmem : single ∈ program.candidates bubble method := by
            rw [hsingle]
            exact List.mem_singleton_self single
          have hreal := (List.mem_filter.mp hmem).2
          rw [Bool.and_eq_true] at hreal
          obtain ⟨found, hfound, _⟩ := (Option.any_eq_true _ _).mp hreal.2
          exact mem_mentioned_of_method hfound (.inl rfl)
        · cases h
  · cases h

/-- The artifacts there can be about an entity. -/
def artifactsAbout (entity : Entity) : List ArtifactKey :=
  [.methodCode entity, .typeLayout entity, .vtable entity, .genericDictionary entity,
    .signature entity, .virtualMethodUse entity]

/-- Every artifact there can be. -/
def artifacts (program : Program) : List ArtifactKey :=
  program.mentioned.flatMap artifactsAbout ++ RuntimeHelper.all.map .helperCell ++
    program.leastReferences.entries.filterMap fun entry =>
      (PortableToken.ofToken? entry.1.1 entry.2).map .importCell

theorem mem_artifacts {key : ArtifactKey} (h : entity ∈ program.mentioned)
    (hkey : key.entity? = some entity) : key ∈ program.artifacts := by
  rw [artifacts, List.append_assoc]
  refine List.mem_append_left _ (List.mem_flatMap.mpr ⟨entity, h, ?_⟩)
  cases key <;> simp_all [ArtifactKey.entity?, artifactsAbout]

theorem helperCell_mem_artifacts (program : Program) (helper : RuntimeHelper) :
    .helperCell helper ∈ program.artifacts := by
  have hall : helper ∈ RuntimeHelper.all := by cases helper <;> decide
  exact List.mem_append_left _ (List.mem_append_right _ (List.mem_map_of_mem hall))

theorem importCell_mem_artifacts {origin : ModuleIndex} {token : PortableToken}
    (houtside : bubble.contains entity = false)
    (h : program.portableToken bubble entity origin = .ok token) :
    .importCell token ∈ program.artifacts := by
  rw [portableToken, houtside, if_neg Bool.false_ne_true] at h
  split at h
  · rename_i row hrow
    unfold portable at h
    split at h
    · rename_i portable hportable
      obtain rfl := Except.ok.inj h
      refine List.mem_append_right _ (List.mem_filterMap.mpr
        ⟨_, Bindings.mem_entries_of_find? hrow, ?_⟩)
      rw [hportable]
      rfl
    · cases h
  · cases h

theorem length_flatMap_artifactsAbout (entities : List Entity) :
    (entities.flatMap artifactsAbout).length = 6 * entities.length := by
  induction entities with
  | nil => rfl
  | cons entity entities ih =>
    rw [List.flatMap_cons, List.length_append, ih, List.length_cons]
    show 6 + _ = _
    omega

/-- There are fewer artifacts than rounds. -/
theorem length_artifacts_lt_rounds (program : Program) :
    program.artifacts.length < program.rounds := by
  have hcells := List.length_filterMap_le (fun entry : (ModuleIndex × Entity) × Token =>
    (PortableToken.ofToken? entry.1.1 entry.2).map ArtifactKey.importCell)
    program.leastReferences.entries
  rw [artifacts, List.length_append, List.length_append, length_flatMap_artifactsAbout,
    List.length_map, rounds, Bindings.size]
  omega

end Program

namespace Drafting

/-- The artifact that makes a reference of a module to an entity valid, by its key. -/
inductive Anchors (setting : Setting) (origin : ModuleIndex) : Entity → ArtifactKey → Prop
  | cell {entity token} (houtside : setting.bubble.contains entity = false)
      (htoken : setting.program.portableToken setting.bubble entity origin = .ok token) :
      Anchors setting origin entity (.importCell token)
  | type {entity} (hinside : setting.bubble.contains entity) (hkind : entity.kind? = some .type) :
      Anchors setting origin entity (.typeLayout entity)
  | code {entity} (hinside : setting.bubble.contains entity)
      (hkind : entity.kind? = some .method) (hbody : setting.hasBody entity) :
      Anchors setting origin entity (.methodCode entity)
  | bodiless {entity} (hinside : setting.bubble.contains entity)
      (hkind : entity.kind? = some .method) (hbody : setting.hasBody entity = false) :
      Anchors setting origin entity (.signature entity)
  | signature {entity} (hinside : setting.bubble.contains entity)
      (hkind : entity.kind? = some .signature) : Anchors setting origin entity (.signature entity)
  | field {entity description key} (hinside : setting.bubble.contains entity)
      (hkind : entity.kind? = some .field)
      (hfield : setting.program.field? entity = some description)
      (howner : Anchors setting origin description.owner key) : Anchors setting origin entity key

/-- A reference has one anchor. -/
theorem Anchors.unique {setting : Setting} {origin : ModuleIndex} {entity : Entity}
    {key other : ArtifactKey} (h : Anchors setting origin entity key)
    (hother : Anchors setting origin entity other) : key = other := by
  induction h with
  | field hinside hkind hfield howner ih =>
    cases hother with
    | field _ _ hfield' howner' =>
      rw [hfield] at hfield'
      cases hfield'
      exact ih howner'
    | _ => simp_all
  | _ => cases hother <;> simp_all

end Drafting

end PortableImage
