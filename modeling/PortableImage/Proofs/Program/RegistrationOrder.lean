import PortableImage.Proofs.Program.ReferenceRows
import PortableImage.Proofs.Program.Family
/-!
# The order of registrations

Loaders hand over what they find in no particular order.  Where no entity and no row of a module is
registered twice, every order leads to the same answers: a map is given each key once, links are a
relation, and the least of some rows is the same whichever of them comes first.
-/

namespace PortableImage

theorem ascending_congr {α : Type} [Ranked α] {list other : List α} (h : list.Perm other) :
    ascending list = ascending other := by
  have hperm : (ascending list).Perm (ascending other) :=
    (ascending_perm list).trans (h.trans (ascending_perm other).symm)
  refine hperm.eq_of_pairwise (fun a b _ _ hab hba => ?_) (pairwise_ascending list)
    (pairwise_ascending other)
  exact Std.le_antisymm hab hba

namespace Bindings

variable {κ α : Type} [DecidableEq κ]

theorem contains_congr {map map' : Bindings κ α} (h : ∀ key, map'.find? key = map.find? key)
    (key : κ) : map'.contains key = map.contains key := by
  rw [contains, contains, h]

theorem keys_perm {map map' : Bindings κ α} (h : ∀ key, map'.find? key = map.find? key) :
    map'.keys.Perm map.keys := by
  have hdistinct : map.keys.Nodup := map.distinct
  have hdistinct' : map'.keys.Nodup := map'.distinct
  rw [List.perm_ext_iff_of_nodup hdistinct' hdistinct]
  intro key
  rw [mem_keys_iff, mem_keys_iff, contains_congr h]

/-- Where no key is given twice, the order in which a map is filled does not matter. -/
theorem find?_putEach_of_perm {pairs others : List (κ × α)} (hperm : pairs.Perm others)
    (hdistinct : (pairs.map Prod.fst).Nodup) (map : Bindings κ α) (key : κ) :
    (map.putEach others).find? key = (map.putEach pairs).find? key := by
  have hkeys (list : List (κ × α)) (h : list.Perm pairs) : (list.reverse.map Prod.fst).Nodup :=
    (((List.reverse_perm list).trans h).map Prod.fst).nodup_iff.mpr hdistinct
  have hlookup : (⟨others.reverse, hkeys others hperm.symm⟩ : Bindings κ α).find? key =
      (⟨pairs.reverse, hkeys pairs (List.Perm.refl _)⟩ : Bindings κ α).find? key := by
    apply Option.ext
    intro value
    rw [find?_eq_some_iff, find?_eq_some_iff, List.mem_reverse, List.mem_reverse, hperm.mem_iff]
  rw [find?_putEach, find?_putEach]
  exact congrArg (fun found => found.or (map.find? key)) hlookup

end Bindings

namespace Links

theorem targets_congr {links other : Links} (h : other.pairs.Perm links.pairs) (source : Entity) :
    other.targets source = links.targets source :=
  ascending_congr ((h.filter _).map _)

theorem perm_addEach {δ : Type} {source? : δ → Option Entity} {links : Links}
    (hnodup : links.pairs.Nodup) {members others : List (Entity × δ)} (h : members.Perm others) :
    (links.addEach source? others).pairs.Perm (links.addEach source? members).pairs := by
  refine (List.perm_ext_iff_of_nodup (nodup_addEach hnodup others)
    (nodup_addEach hnodup members)).mpr fun pair => ?_
  obtain ⟨source, member⟩ := pair
  rw [mem_addEach, mem_addEach]
  exact or_congr_left (exists_congr fun _ => and_congr_left fun _ => h.mem_iff.symm)

end Links

namespace Program

section Queries

variable {program other : Program}

/-- Programs with the same parts, which may hold them in different orders. -/
structure Rearranged (program other : Program) : Prop where
  modules : other.modules = program.modules
  types : ∀ entity, other.types.find? entity = program.types.find? entity
  methods : ∀ entity, other.methods.find? entity = program.methods.find? entity
  fields : ∀ entity, other.fields.find? entity = program.fields.find? entity
  signatures : ∀ entity, other.signatures.find? entity = program.signatures.find? entity
  references : ∀ row, other.references.find? row = program.references.find? row
  rows : ∀ module entity, other.rowFor? module entity = program.rowFor? module entity
  ownedMethods : other.ownedMethods.pairs.Perm program.ownedMethods.pairs
  ownedFields : other.ownedFields.pairs.Perm program.ownedFields.pairs
  overriders : other.overriders.pairs.Perm program.overriders.pairs

/-- Programs that answer every question alike. -/
structure Indistinguishable (program other : Program) : Prop where
  module? : ∀ module, other.module? module = program.module? module
  moduleAt? : ∀ path, other.moduleAt? path = program.moduleAt? path
  moduleNamed? : ∀ name, other.moduleNamed? name = program.moduleNamed? name
  type? : ∀ entity, other.type? entity = program.type? entity
  method? : ∀ entity, other.method? entity = program.method? entity
  field? : ∀ entity, other.field? entity = program.field? entity
  signature? : ∀ entity, other.signature? entity = program.signature? entity
  contains : ∀ entity, other.contains entity = program.contains entity
  declaredMethods : ∀ owner, other.declaredMethods owner = program.declaredMethods owner
  declaredFields : ∀ owner, other.declaredFields owner = program.declaredFields owner
  directOverriders : ∀ slot, other.directOverriders slot = program.directOverriders slot
  family : ∀ method, other.family method = program.family method
  introducer : ∀ method, other.introducer method = program.introducer method
  methodsIn : ∀ module, other.methodsIn module = program.methodsIn module
  meaning : ∀ module token, other.meaning module token = program.meaning module token
  rowFor? : ∀ module entity, other.rowFor? module entity = program.rowFor? module entity

theorem family_congr (h : other.overriders.pairs.Perm program.overriders.pairs) (method : Entity) :
    other.family method = program.family method := by
  refine ascending_congr ((List.perm_ext_iff_of_nodup (nodup_familyFrom List.nodup_nil)
    (nodup_familyFrom List.nodup_nil)).mpr fun target => ?_)
  have hleads : Leads other.overriders.pairs = Leads program.overriders.pairs := by
    funext source target
    exact propext h.mem_iff
  rw [mem_familyFrom, mem_familyFrom, hleads]

theorem introducerAmong_congr {unmet unmet' : Bindings Entity MethodDescription}
    (h : ∀ entity, unmet'.find? entity = unmet.find? entity) (method : Entity) :
    introducerAmong unmet' method = introducerAmong unmet method := by
  fun_induction introducerAmong unmet method generalizing unmet' with
  | case1 unmet method hnone =>
    rw [introducerAmong]
    split
    · rfl
    · rename_i description hdescription
      rw [h, hnone] at hdescription
      cases hdescription
  | case2 unmet method description hfind hends =>
    rw [introducerAmong]
    split
    · rfl
    · rename_i found hfound
      obtain rfl := Option.some.inj (hfound.symm.trans ((h method).trans hfind))
      rw [hends]
  | case3 unmet method description hfind next hnext ih =>
    rw [introducerAmong]
    split
    · rename_i hnone
      rw [h, hfind] at hnone
      cases hnone
    · rename_i found hfound
      obtain rfl := Option.some.inj (hfound.symm.trans ((h method).trans hfind))
      simp only [hnext]
      apply ih
      intro entity
      rw [Bindings.find?_erase, Bindings.find?_erase, h]

theorem Rearranged.indistinguishable (h : Rearranged program other) :
    Indistinguishable program other := by
  have hcontains (entity : Entity) : other.contains entity = program.contains entity := by
    simp only [contains, Bindings.contains_congr h.types, Bindings.contains_congr h.methods,
      Bindings.contains_congr h.fields, Bindings.contains_congr h.signatures]
  exact {
    module? := fun module => by rw [module?, module?, h.modules]
    moduleAt? := fun path => by rw [moduleAt?, moduleAt?, findModule?, findModule?, h.modules]
    moduleNamed? := fun name => by
      rw [moduleNamed?, moduleNamed?, findModule?, findModule?, h.modules]
    type? := h.types
    method? := h.methods
    field? := h.fields
    signature? := h.signatures
    contains := hcontains
    declaredMethods := Links.targets_congr h.ownedMethods
    declaredFields := Links.targets_congr h.ownedFields
    directOverriders := Links.targets_congr h.overriders
    family := family_congr h.overriders
    introducer := introducerAmong_congr h.methods
    methodsIn := fun module => ascending_congr ((Bindings.keys_perm h.methods).filter _)
    meaning := fun module token => by simp only [meaning, h.references, hcontains]
    rowFor? := h.rows }

end Queries

section WithoutModules

variable {program : Program} {registrations : List Registration}

/-- Nothing but a module changes what will be refused. -/
theorem modules_register {registration : Registration} (h : registration.isModule = false) :
    (program.register registration).modules = program.modules := by
  by_cases hrefused : program.refusal? registration = none
  · rw [register_of_accepted hrefused]
    cases registration with
    | module name path => cases h
    | _ => rfl
  · rw [register_of_refused hrefused]

theorem modules_registerAll (h : ∀ registration ∈ registrations, registration.isModule = false) :
    (program.registerAll registrations).modules = program.modules := by
  induction registrations generalizing program with
  | nil => rfl
  | cons first registrations ih =>
    obtain ⟨hfirst, hrest⟩ := List.forall_mem_cons.mp h
    exact (ih hrest).trans (modules_register hfirst)

theorem refusals_eq_map (h : ∀ registration ∈ registrations, registration.isModule = false) :
    program.refusals registrations = registrations.map program.refusal? := by
  induction registrations generalizing program with
  | nil => rfl
  | cons first registrations ih =>
    obtain ⟨hfirst, hrest⟩ := List.forall_mem_cons.mp h
    have hsame : (program.register first).refusal? = program.refusal? :=
      funext (refusal?_congr (modules_register hfirst))
    rw [refusals, ih hrest, hsame, List.map_cons]

theorem accepted_eq_filter (h : ∀ registration ∈ registrations, registration.isModule = false) :
    program.accepted registrations =
      registrations.filter fun registration => program.refusal? registration = none := by
  induction registrations generalizing program with
  | nil => rfl
  | cons first registrations ih =>
    obtain ⟨hfirst, hrest⟩ := List.forall_mem_cons.mp h
    have hsame : (program.register first).refusal? = program.refusal? :=
      funext (refusal?_congr (modules_register hfirst))
    rw [accepted, ih hrest, hsame, List.filter_cons]
    simp only [decide_eq_true_eq]

end WithoutModules

section Reordered

variable {registrations reordered : List Registration}

theorem nodup_keys {κ α : Type} {binding? : Registration → Option (κ × α)}
    {key? : Registration → Option κ}
    (hkey : ∀ registration pair, binding? registration = some pair →
      key? registration = some pair.1)
    (hnodup : (registrations.filterMap key?).Nodup) :
    ((registrations.filterMap binding?).map Prod.fst).Nodup := by
  rw [List.Nodup, List.pairwise_map, List.pairwise_filterMap]
  refine (List.pairwise_filterMap.mp hnodup).imp ?_
  intro first second hne pair hpair pair' hpair'
  exact hne _ (hkey _ _ hpair) _ (hkey _ _ hpair')

theorem find?_reordered {κ α : Type} [DecidableEq κ] {binding? : Registration → Option (κ × α)}
    {key? : Registration → Option κ}
    (hkey : ∀ registration pair, binding? registration = some pair →
      key? registration = some pair.1)
    (hperm : registrations.Perm reordered) (hnodup : (registrations.filterMap key?).Nodup)
    (map : Bindings κ α) (key : κ) :
    (map.putEach (reordered.filterMap binding?)).find? key =
      (map.putEach (registrations.filterMap binding?)).find? key :=
  Bindings.find?_putEach_of_perm (hperm.filterMap _) (nodup_keys hkey hnodup) map key

theorem leastRow_comm (old : Option Token) (first second : Token) :
    leastRow (some (leastRow old first)) second = leastRow (some (leastRow old second)) first := by
  obtain ⟨first⟩ := first
  obtain ⟨second⟩ := second
  cases old with
  | none => simp only [leastRow]; grind
  | some row => obtain ⟨row⟩ := row; simp only [leastRow]; grind

/-- What is left when a host has made its calls in two orders. -/
structure Confluent (program : Program) (registrations reordered : List Registration) : Prop where
  /-- Every call is answered the same in both. -/
  answers : ∃ answer : Registration → Option Fault,
    program.refusals registrations = registrations.map answer ∧
      program.refusals reordered = reordered.map answer
  queries : Indistinguishable (program.registerAll registrations) (program.registerAll reordered)

/-- Links of a program that was put together from nothing are held once. -/
theorem nodup_links (earlier : List Registration) :
    (({} : Program).registerAll earlier).ownedMethods.pairs.Nodup ∧
      (({} : Program).registerAll earlier).ownedFields.pairs.Nodup ∧
      (({} : Program).registerAll earlier).overriders.pairs.Nodup := by
  rw [ownedMethods_registerAll, ownedFields_registerAll, overriders_registerAll]
  exact ⟨Links.nodup_addEach List.nodup_nil _, Links.nodup_addEach List.nodup_nil _,
    Links.nodup_addEach List.nodup_nil _⟩

/-- What is accepted of registrations of different entities and different rows can be accepted in any
order. -/
theorem rearranged_of_perm {program : Program} (hlinks : program.ownedMethods.pairs.Nodup ∧
      program.ownedFields.pairs.Nodup ∧ program.overriders.pairs.Nodup)
    (hmodules : (program.registerAll reordered).modules =
      (program.registerAll registrations).modules)
    (haccepted : (program.accepted registrations).Perm (program.accepted reordered))
    (hentities : ((program.accepted registrations).filterMap Registration.entity?).Nodup)
    (hrows : ((program.accepted registrations).filterMap Registration.row?).Nodup) :
    Rearranged (program.registerAll registrations) (program.registerAll reordered) := by
  constructor
  case modules => exact hmodules
  case types =>
    rw [types_registerAll, types_registerAll]
    refine find?_reordered (fun registration pair h => ?_) haccepted hentities _
    cases registration <;> cases h
    rfl
  case methods =>
    rw [methods_registerAll, methods_registerAll]
    refine find?_reordered (fun registration pair h => ?_) haccepted hentities _
    cases registration <;> cases h
    rfl
  case fields =>
    rw [fields_registerAll, fields_registerAll]
    refine find?_reordered (fun registration pair h => ?_) haccepted hentities _
    cases registration <;> cases h
    rfl
  case signatures =>
    rw [signatures_registerAll, signatures_registerAll]
    refine find?_reordered (fun registration pair h => ?_) haccepted hentities _
    cases registration <;> cases h
    rfl
  case references =>
    rw [references_registerAll, references_registerAll]
    refine find?_reordered (fun registration pair h => ?_) haccepted hrows _
    cases registration <;> cases h
    rfl
  case rows =>
    intro module entity
    rw [rowFor?_registerAll, rowFor?_registerAll]
    have hsame := (haccepted.filterMap Registration.referenceBinding?).symm
    refine (hsame.filterMap _).foldl_eq' (fun first _ second _ old => ?_) _
    exact congrArg some (leastRow_comm old first second)
  case ownedMethods =>
    rw [ownedMethods_registerAll, ownedMethods_registerAll]
    exact Links.perm_addEach hlinks.1 (haccepted.filterMap _)
  case ownedFields =>
    rw [ownedFields_registerAll, ownedFields_registerAll]
    exact Links.perm_addEach hlinks.2.1 (haccepted.filterMap _)
  case overriders =>
    rw [overriders_registerAll, overriders_registerAll]
    exact Links.perm_addEach hlinks.2.2 (haccepted.filterMap _)

/-- Whatever was registered before, registrations of different entities and different rows can be
made in any order. -/
theorem confluent_of_perm (earlier : List Registration) (hperm : registrations.Perm reordered)
    (hmodules : ∀ registration ∈ registrations, registration.isModule = false)
    (hentities : (registrations.filterMap Registration.entity?).Nodup)
    (hrows : (registrations.filterMap Registration.row?).Nodup) :
    Confluent (({} : Program).registerAll earlier) registrations reordered := by
  have hlinks := nodup_links earlier
  generalize ({} : Program).registerAll earlier = program at hlinks ⊢
  have hmodules' : ∀ registration ∈ reordered, registration.isModule = false :=
    fun registration hmem => hmodules registration (hperm.mem_iff.mpr hmem)
  have haccepted : (program.accepted registrations).Perm (program.accepted reordered) := by
    rw [accepted_eq_filter hmodules, accepted_eq_filter hmodules']
    exact hperm.filter _
  have hsublist : (program.accepted registrations).Sublist registrations := by
    rw [accepted_eq_filter hmodules]
    exact List.filter_sublist
  have hsame : (program.registerAll reordered).modules =
      (program.registerAll registrations).modules :=
    (modules_registerAll hmodules').trans (modules_registerAll hmodules).symm
  exact {
    answers := ⟨program.refusal?, refusals_eq_map hmodules, refusals_eq_map hmodules'⟩
    queries := (rearranged_of_perm hlinks hsame haccepted (hentities.sublist (hsublist.filterMap _))
      (hrows.sublist (hsublist.filterMap _))).indistinguishable }

def loadedModules : List Registration := [.module "App" "/app.dll", .module "Lib" "/lib.dll"]

/-- A definition or reference of the first module. -/
def loaded (table : Table) (row : UInt32) : Entity := ⟨⟨0⟩, .ofParts table row⟩

/-- Two classes of which one overrides a method of the other, two rows for one type elsewhere, and a
field that is not one. -/
def loadedRegistrations : List Registration :=
  [.type { id := loaded .typeDef 1, name := "Shape" },
    .type { id := loaded .typeDef 2, name := "Disc", base := some (loaded .typeDef 1) },
    .method { id := loaded .methodDef 1, owner := loaded .typeDef 1, name := "Area" },
    .method { id := loaded .methodDef 2, owner := loaded .typeDef 2, name := "Area"
              overrides := some (loaded .methodDef 1) },
    .field { id := loaded .typeSpec 1, owner := loaded .typeDef 2, name := "radius" },
    .signature (loaded .standAloneSig 1) [7, 0],
    .reference ⟨0⟩ (.ofParts .typeRef 2) ⟨⟨1⟩, .ofParts .typeDef 1⟩,
    .reference ⟨0⟩ (.ofParts .typeRef 1) ⟨⟨1⟩, .ofParts .typeDef 1⟩]

/-- What was loaded can be registered backward. -/
theorem confluent_reverse :
    Confluent (({} : Program).registerAll loadedModules) loadedRegistrations
      loadedRegistrations.reverse :=
  confluent_of_perm loadedModules (List.reverse_perm _).symm (by decide) (by decide +kernel)
    (by decide +kernel)

end Reordered

end Program

end PortableImage
