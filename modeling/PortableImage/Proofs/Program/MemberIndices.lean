import PortableImage.Proofs.Program.Admission
/-!
# Indices of members

The methods and fields of a type and the methods that override another one are read from indices,
while a description names its owner and its slot itself.  A member that is registered again gets a
new description, and is indexed under what this one names.  It is not taken out from under what the
former one named.  So an index lists, under each source, all members that have ever named it, and it
mirrors the descriptions exactly where none of these has moved away.
-/

namespace PortableImage

namespace Program

variable {δ : Type}

/-- An index lists under a source, in strictly ascending order, the members whose descriptions name
it. -/
structure Mirrored (index : Entity → List Entity) (current : Entity → Option δ)
    (source? : δ → Option Entity) (source : Entity) : Prop where
  ascending : (index source).Pairwise (· < ·)
  members : ∀ member, member ∈ index source ↔
    ∃ description, current member = some description ∧ source? description = some source

/-- An index and the descriptions in force, after all the descriptions that were accepted in the
past. -/
structure Indexed (past : List (Entity × δ)) (index : Entity → List Entity)
    (current : Entity → Option δ) (source? : δ → Option Entity) : Prop where
  /-- The description accepted last is in force. -/
  in_force : ∀ member description, current member = some description ↔
    Bindings.LastOf past member description
  ascending : ∀ source, (index source).Pairwise (· < ·)
  /-- Whatever was accepted is indexed for good. -/
  members : ∀ source member, member ∈ index source ↔
    ∃ description, (member, description) ∈ past ∧ source? description = some source
  /-- The index is right about a source exactly if no member has been moved away from it. -/
  mirrored_iff : ∀ source, Mirrored index current source? source ↔
    ∀ member former, (member, former) ∈ past → source? former = some source →
      ∃ description, current member = some description ∧ source? description = some source

variable {past : List (Entity × δ)} {index : Entity → List Entity}
  {current : Entity → Option δ} {source? : δ → Option Entity}

theorem Indexed.of_members
    (hcurrent : ∀ member description, current member = some description ↔
      Bindings.LastOf past member description)
    (hascending : ∀ source, (index source).Pairwise (· < ·))
    (hmembers : ∀ source member, member ∈ index source ↔
      ∃ description, (member, description) ∈ past ∧ source? description = some source) :
    Indexed past index current source? where
  in_force := hcurrent
  ascending := hascending
  members := hmembers
  mirrored_iff source := by
    constructor
    · intro h member former hformer hsource
      exact (h.members member).mp ((hmembers source member).mpr ⟨former, hformer, hsource⟩)
    · intro h
      refine ⟨hascending source, fun member => ⟨fun hmember => ?_, ?_⟩⟩
      · obtain ⟨former, hformer, hsource⟩ := (hmembers source member).mp hmember
        exact h member former hformer hsource
      · rintro ⟨description, hdescription, hsource⟩
        exact (hmembers source member).mpr
          ⟨description, ((hcurrent member description).mp hdescription).mem, hsource⟩

/-- Where every member has been registered once, the index is right about every source. -/
theorem Indexed.mirrored_of_nodup (h : Indexed past index current source?)
    (honce : (past.map Prod.fst).Nodup) (source : Entity) :
    Mirrored index current source? source := by
  refine (h.mirrored_iff source).mpr fun member former hformer hsource => ⟨former, ?_, hsource⟩
  exact (h.in_force member former).mpr (Bindings.lastOf_of_nodup honce hformer)

/-- Links and descriptions that were filled from one list make an index. -/
theorem indexed_addEach (past : List (Entity × δ)) (source? : δ → Option Entity) :
    Indexed past (({} : Links).addEach source? past).targets
      ((∅ : Bindings Entity δ).putEach past).find? source? := by
  apply Indexed.of_members
  · exact fun member description => Bindings.find?_putEach_eq_some_iff
  · exact Links.pairwise_targets (Links.nodup_addEach List.nodup_nil past)
  · intro source member
    rw [Links.mem_targets, Links.mem_addEach]
    exact or_iff_left List.not_mem_nil

/-- After any registrations, accepted or refused, the indices of methods, fields and overriders list
all members that were ever registered under a source, and are right about a source exactly if none
of these has moved away. -/
theorem indexed_registerAll (registrations : List Registration) :
    Indexed ((({} : Program).accepted registrations).filterMap Registration.methodBinding?)
      (({} : Program).registerAll registrations).declaredMethods
      (({} : Program).registerAll registrations).method? (fun method => some method.owner) ∧
    Indexed ((({} : Program).accepted registrations).filterMap Registration.fieldBinding?)
      (({} : Program).registerAll registrations).declaredFields
      (({} : Program).registerAll registrations).field? (fun field => some field.owner) ∧
    Indexed ((({} : Program).accepted registrations).filterMap Registration.methodBinding?)
      (({} : Program).registerAll registrations).directOverriders
      (({} : Program).registerAll registrations).method? MethodDescription.overrides := by
  have hmethods := methods_registerAll {} registrations
  have hfields := fields_registerAll {} registrations
  have howned := ownedMethods_registerAll {} registrations
  have hownedFields := ownedFields_registerAll {} registrations
  have hoverriders := overriders_registerAll {} registrations
  refine ⟨?_, ?_, ?_⟩
  · have h := indexed_addEach
      ((({} : Program).accepted registrations).filterMap Registration.methodBinding?)
      (fun method => some method.owner)
    rw [← hmethods, ← howned] at h
    exact h
  · have h := indexed_addEach
      ((({} : Program).accepted registrations).filterMap Registration.fieldBinding?)
      (fun field => some field.owner)
    rw [← hfields, ← hownedFields] at h
    exact h
  · have h := indexed_addEach
      ((({} : Program).accepted registrations).filterMap Registration.methodBinding?)
      MethodDescription.overrides
    rw [← hmethods, ← hoverriders] at h
    exact h

section Moved

def formerOwner : Entity := ⟨⟨0⟩, .ofParts .typeDef 1⟩

def latterOwner : Entity := ⟨⟨0⟩, .ofParts .typeDef 2⟩

def movedMethod : Entity := ⟨⟨0⟩, .ofParts .methodDef 1⟩

/-- A method that is registered for one type and then for another. -/
def movedRegistrations : List Registration :=
  [.module "App" "/app.dll",
    .type { id := formerOwner, name := "First" },
    .type { id := latterOwner, name := "Second" },
    .method { id := movedMethod, owner := formerOwner, name := "Run" },
    .method { id := movedMethod, owner := latterOwner, name := "Run" }]

/-- A method that has moved to another type is still listed under the first. -/
theorem not_forall_mirrored :
    ¬ ∀ (registrations : List Registration) (source : Entity),
      Mirrored (({} : Program).registerAll registrations).declaredMethods
        (({} : Program).registerAll registrations).method? (fun method => some method.owner)
        source ∧
      Mirrored (({} : Program).registerAll registrations).declaredFields
        (({} : Program).registerAll registrations).field? (fun field => some field.owner) source ∧
      Mirrored (({} : Program).registerAll registrations).directOverriders
        (({} : Program).registerAll registrations).method? MethodDescription.overrides source := by
  intro h
  have hlisted : movedMethod ∈
      (({} : Program).registerAll movedRegistrations).declaredMethods formerOwner := by
    rw [declaredMethods, Links.mem_targets]
    decide +kernel
  have hmoved : (({} : Program).registerAll movedRegistrations).method? movedMethod =
      some { id := movedMethod, owner := latterOwner, name := "Run" } := by decide +kernel
  obtain ⟨description, hdescription, howner⟩ :=
    ((h movedRegistrations formerOwner).1.members movedMethod).mp hlisted
  rw [hmoved] at hdescription
  cases hdescription
  revert howner
  decide +kernel

end Moved

end Program

end PortableImage
