import PortableImage.Proofs.Program.Admission
import PortableImage.Proofs.Portable.DiscoveryOrder
import Mathlib.Data.Set.Operations
/-!
# Rows of references

A module refers to an entity by a row.  Forward, a row stands for what it was registered for last.
Backward, an entity is answered with the least row that was ever registered for it.  A row that is
registered again stands for its new entity, and still is an answer for the former one.  So the two
directions agree about an entity exactly where its least row has not been given away.
-/

namespace PortableImage

/-- A row is one of some rows, and has the least value of them. -/
def IsLeastRow (rows : Set Token) (row : Token) : Prop :=
  row ∈ rows ∧ ∀ other ∈ rows, row.value ≤ other.value

theorem IsLeastRow.unique {rows : Set Token} {row other : Token} (h : IsLeastRow rows row)
    (hother : IsLeastRow rows other) : row = other := by
  have hvalue : row.value = other.value :=
    UInt32.le_antisymm (h.2 other hother.1) (hother.2 row h.1)
  cases row
  cases other
  exact congrArg Token.mk hvalue

/-- The rows of a module that were registered for an entity. -/
def rowsFor (module : ModuleIndex) (entity : Entity)
    (past : List ((ModuleIndex × Token) × Entity)) : List Token :=
  past.filterMap fun binding =>
    if binding.1.1 = module ∧ binding.2 = entity then some binding.1.2 else none

theorem mem_rowsFor {module : ModuleIndex} {entity : Entity}
    {past : List ((ModuleIndex × Token) × Entity)} {row : Token} :
    row ∈ rowsFor module entity past ↔ ((module, row), entity) ∈ past := by
  simp only [rowsFor, List.mem_filterMap, Option.ite_none_right_eq_some, Option.some.injEq]
  constructor
  · rintro ⟨⟨⟨origin, other⟩, target⟩, hmem, ⟨rfl, rfl⟩, rfl⟩
    exact hmem
  · intro hmem
    exact ⟨_, hmem, ⟨rfl, rfl⟩, rfl⟩

namespace Program

/-- The lesser of two rows is one of them, and no greater than either. -/
theorem leastRow_some (first second : Token) :
    (leastRow (some first) second = first ∨ leastRow (some first) second = second) ∧
      (leastRow (some first) second).value ≤ first.value ∧
      (leastRow (some first) second).value ≤ second.value := by
  by_cases h : second.value < first.value
  · simp only [leastRow, if_pos h]
    exact ⟨.inr trivial, UInt32.le_of_lt h, UInt32.le_refl _⟩
  · simp only [leastRow, if_neg h]
    exact ⟨.inl trivial, UInt32.le_refl _, UInt32.not_lt.mp h⟩

/-- Keeping the lesser row all along, one ends with the least. -/
theorem isLeastRow_foldl (first : Token) (rows : List Token) : ∃ least,
    rows.foldl (fun old row => some (leastRow old row)) (some first) = some least ∧
      IsLeastRow {row | row ∈ first :: rows} least := by
  induction rows generalizing first with
  | nil => exact ⟨first, rfl, List.mem_cons_self, by simp⟩
  | cons second rows ih =>
    obtain ⟨hone, hfirst, hsecond⟩ := leastRow_some first second
    obtain ⟨least, hleast, hmem, hle⟩ := ih (leastRow (some first) second)
    have hkept := hle _ List.mem_cons_self
    refine ⟨least, hleast, ?_, fun other hother => ?_⟩
    · rcases List.mem_cons.mp hmem with rfl | hrest
      · rcases hone with h | h <;> rw [h] <;> simp
      · exact List.mem_cons_of_mem _ (List.mem_cons_of_mem _ hrest)
    · rcases List.mem_cons.mp hother with rfl | hother
      · exact UInt32.le_trans hkept hfirst
      · rcases List.mem_cons.mp hother with rfl | hrest
        · exact UInt32.le_trans hkept hsecond
        · exact hle other (List.mem_cons_of_mem _ hrest)

theorem exists_isLeastRow {rows : List Token} {row : Token} (h : row ∈ rows) :
    ∃ least, IsLeastRow {other | other ∈ rows} least := by
  cases rows with
  | nil => cases h
  | cons first rows =>
    obtain ⟨least, _, hleast⟩ := isLeastRow_foldl first rows
    exact ⟨least, hleast⟩

theorem foldl_leastRow_eq_some_iff (rows : List Token) (row : Token) :
    rows.foldl (fun old row => some (leastRow old row)) none = some row ↔
      IsLeastRow {other | other ∈ rows} row := by
  cases rows with
  | nil => simp [IsLeastRow]
  | cons first rows =>
    obtain ⟨least, hleast, h⟩ := isLeastRow_foldl first rows
    rw [List.foldl_cons, leastRow, hleast, Option.some.injEq]
    exact ⟨fun heq => heq ▸ h, h.unique⟩

theorem rowFor?_registerAll (program : Program) (registrations : List Registration)
    (module : ModuleIndex) (entity : Entity) :
    (program.registerAll registrations).rowFor? module entity =
      (rowsFor module entity ((program.accepted registrations).filterMap
        Registration.referenceBinding?)).foldl
        (fun old row => some (leastRow old row)) (program.rowFor? module entity) := by
  rw [registerAll_eq, rowsFor, List.filterMap_filterMap]
  refine foldl_extend (fun program => program.rowFor? module entity)
    (fun program registration => ?_) _ _
  cases registration with
  | reference origin row target =>
    simp only [extend, rowFor?, Registration.referenceBinding?, Option.bind_some,
      Bindings.find?_put, Prod.mk.injEq]
    by_cases h : module = origin ∧ entity = target
    · obtain ⟨rfl, rfl⟩ := h
      simp only [and_self, if_true]
    · rw [if_neg h, if_neg fun heq => h ⟨heq.1.symm, heq.2.symm⟩]
  | _ => rfl

/-- A reference whose token is in no table is refused. -/
theorem table?_of_binding {program : Program} {registration : Registration}
    {module : ModuleIndex} {row : Token} {target : Entity}
    (h : program.refusal? registration = none)
    (hbinding : registration.referenceBinding? = some ((module, row), target)) :
    ∃ table, row.table? = some table := by
  cases registration with
  | reference origin other entity =>
    cases hbinding
    rw [refusal?, enter, registerReference] at h
    cases hrequire : program.requireModule module with
    | error fault => rw [hrequire] at h; cases h
    | ok _ =>
      cases htable : row.table? with
      | some table => exact ⟨table, rfl⟩
      | none => rw [hrequire, htable] at h; cases h
  | _ => cases hbinding

theorem meaning_of_find? {program : Program} {module : ModuleIndex} {row : Token}
    {target : Entity} (htable : ∃ table, row.table? = some table)
    (h : program.references.find? (module, row) = some target) :
    program.meaning module row = .ok target := by
  obtain ⟨table, htable⟩ := htable
  rw [meaning, htable, h]

/-- Backward and forward, the references of a module to an entity agree. -/
structure RowsAgree (program : Program) (module : ModuleIndex) (entity : Entity) : Prop where
  /-- The answer is the least row that stands for the entity, and there is none if no row does. -/
  least : ∀ row, program.rowFor? module entity = some row ↔
    IsLeastRow {row | program.references.find? (module, row) = some entity} row
  resolves : ∀ row, program.rowFor? module entity = some row →
    program.meaning module row = .ok entity

/-- The references of a module to an entity, after all the references that were accepted in the
past. -/
structure ReferencesOf (past : List ((ModuleIndex × Token) × Entity)) (program : Program)
    (module : ModuleIndex) (entity : Entity) : Prop where
  /-- Forward, a row stands for what it was registered for last. -/
  forward : ∀ row target, program.references.find? (module, row) = some target ↔
    Bindings.LastOf past (module, row) target
  /-- Backward, the least row that was ever registered is the answer. -/
  backward : ∀ row, program.rowFor? module entity = some row ↔
    IsLeastRow {row | ((module, row), entity) ∈ past} row
  means : ∀ row, program.references.find? (module, row) = some entity →
    program.meaning module row = .ok entity
  /-- The two agree exactly if the answer has not been registered for something else since. -/
  agree_iff : RowsAgree program module entity ↔
    ∀ row, program.rowFor? module entity = some row →
      program.references.find? (module, row) = some entity

/-- Where every row has been registered once, both directions are right. -/
theorem ReferencesOf.agree_of_nodup {past : List ((ModuleIndex × Token) × Entity)}
    {program : Program} {module : ModuleIndex} {entity : Entity}
    (h : ReferencesOf past program module entity) (honce : (past.map Prod.fst).Nodup) :
    RowsAgree program module entity := by
  refine h.agree_iff.mpr fun row hrow => (h.forward row entity).mpr ?_
  exact Bindings.lastOf_of_nodup honce ((h.backward row).mp hrow).1

/-- After any registrations, accepted or refused, the references of a module to an entity are right
in both directions exactly if the least row that was ever registered has not been given away. -/
theorem referencesOf_registerAll (registrations : List Registration) (module : ModuleIndex)
    (entity : Entity) :
    ReferencesOf
      ((({} : Program).accepted registrations).filterMap Registration.referenceBinding?)
      (({} : Program).registerAll registrations) module entity := by
  generalize hprogram : ({} : Program).registerAll registrations = program
  generalize hpast : (({} : Program).accepted registrations).filterMap
    Registration.referenceBinding? = past
  have hforward (row : Token) (target : Entity) :
      program.references.find? (module, row) = some target ↔
        Bindings.LastOf past (module, row) target := by
    rw [← hprogram, references_registerAll, hpast]
    exact Bindings.find?_putEach_eq_some_iff
  have hbackward (row : Token) : program.rowFor? module entity = some row ↔
      IsLeastRow {row | row ∈ rowsFor module entity past} row := by
    rw [← hprogram, rowFor?_registerAll, hpast]
    exact foldl_leastRow_eq_some_iff _ row
  have hmeans (row : Token) (h : program.references.find? (module, row) = some entity) :
      program.meaning module row = .ok entity := by
    have hmem := ((hforward row entity).mp h).mem
    rw [← hpast] at hmem
    obtain ⟨registration, haccepted, hbinding⟩ := List.mem_filterMap.mp hmem
    obtain ⟨before, hbefore⟩ := exists_of_mem_accepted haccepted
    exact meaning_of_find? (table?_of_binding hbefore hbinding) h
  have hsince (row : Token) (h : program.references.find? (module, row) = some entity) :
      row ∈ rowsFor module entity past := mem_rowsFor.mpr ((hforward row entity).mp h).mem
  refine ⟨hforward, fun row => ?_, hmeans, fun h row hrow => ((h.least row).mp hrow).1, fun h => ?_⟩
  · simpa only [mem_rowsFor] using hbackward row
  · have hleast (row : Token) (hrow : program.rowFor? module entity = some row) :
        IsLeastRow {row | program.references.find? (module, row) = some entity} row :=
      ⟨h row hrow, fun other hother => ((hbackward row).mp hrow).2 other (hsince other hother)⟩
    refine ⟨fun row => ⟨hleast row, fun hrow => ?_⟩, fun row hrow => hmeans row (h row hrow)⟩
    -- A row that stands for the entity was registered for it, so there is an answer.
    obtain ⟨answer, hanswer⟩ := exists_isLeastRow (hsince row hrow.1)
    rw [← hbackward] at hanswer
    rw [hanswer, (hleast answer hanswer).unique hrow]

/-- A row that was registered again is an answer for an entity it does not stand for any more. -/
theorem not_forall_rowsAgree :
    ¬ ∀ (registrations : List Registration) (module : ModuleIndex) (entity : Entity),
      RowsAgree (({} : Program).registerAll registrations) module entity := by
  intro h
  have hanswer : (({} : Program).registerAll reusedRegistrations).rowFor? ⟨0⟩
      ⟨⟨1⟩, .ofParts .typeDef 1⟩ = some (.ofParts .typeRef 1) := by decide +kernel
  have hstands : (({} : Program).registerAll reusedRegistrations).references.find?
      (⟨0⟩, .ofParts .typeRef 1) = some ⟨⟨1⟩, .ofParts .typeDef 2⟩ := by decide +kernel
  have hleast := ((h reusedRegistrations ⟨0⟩ ⟨⟨1⟩, .ofParts .typeDef 1⟩).least _).mp hanswer
  have hsame := hstands.symm.trans hleast.1
  revert hsame
  decide +kernel

end Program

end PortableImage
