import PortableImage.Proofs.Portable.TokenTables
import PortableImage.Proofs.Program.Assembly
/-!
# The order of discovery

Whether the table of an image depends on the order in which references were discovered is a question
about tokens alone.  The answers never depend on it.  The table does exactly if one token is the
answer for two entities, because then the first of the two holds it.  This can happen: a row that is
registered again stands for a new entity, while the former one keeps it as its least reference.
-/

namespace PortableImage

variable {program : Program} {bubble : Bubble} {ledger : Ledger}

namespace Program

/-- What the program answers an entity and the module that refers to it. -/
def answer (program : Program) (bubble : Bubble) (call : Entity × ModuleIndex) :
    Except Fault PortableToken :=
  program.portableToken bubble call.1 call.2

/-- The entity a call gives a token to. -/
def claimant? (program : Program) (bubble : Bubble) (token : PortableToken)
    (call : Entity × ModuleIndex) : Option Entity :=
  match program.answer bubble call with
  | .ok given => if given = token then some call.1 else none
  | .error _ => none

theorem claimant?_eq_some_iff {token : PortableToken} {call : Entity × ModuleIndex}
    {entity : Entity} : program.claimant? bubble token call = some entity ↔
      program.answer bubble call = .ok token ∧ call.1 = entity := by
  unfold claimant?
  cases program.answer bubble call with
  | ok given => simp
  | error fault => simp

/-- No token is the answer to two calls about different entities. -/
def Unambiguous (program : Program) (bubble : Bubble) (calls : List (Entity × ModuleIndex)) :
    Prop :=
  ∀ first ∈ calls, ∀ second ∈ calls, ∀ token, program.answer bubble first = .ok token →
    program.answer bubble second = .ok token → first.1 = second.1

end Program

namespace Ledger

/-- The answers to calls one after another, and the ledger that remembers them. -/
def issueAll (program : Program) (bubble : Bubble) :
    List (Entity × ModuleIndex) → Ledger → List (Except Fault PortableToken) × Ledger
  | [], ledger => ([], ledger)
  | call :: calls, ledger =>
    let first := issue program bubble call.1 call.2 ledger
    let later := issueAll program bubble calls first.2
    (first.1 :: later.1, later.2)

/-- From a fresh ledger, two sequences of calls get the answers each call gets anyway, and lead to
ledgers that cannot be told apart. -/
structure Concordant (program : Program) (bubble : Bubble)
    (calls others : List (Entity × ModuleIndex)) : Prop where
  answers : ∃ answer : Entity × ModuleIndex → Except Fault PortableToken,
    (issueAll program bubble calls {}).1 = calls.map answer ∧
      (issueAll program bubble others {}).1 = others.map answer
  holders : ∀ token, (issueAll program bubble calls {}).2.holder? token =
    (issueAll program bubble others {}).2.holder? token
  table : (issueAll program bubble calls {}).2.table = (issueAll program bubble others {}).2.table
  encoded : (issueAll program bubble calls {}).2.table.encode =
    (issueAll program bubble others {}).2.table.encode

theorem holder?_issue (h : Sound program bubble ledger) (call : Entity × ModuleIndex)
    (token : PortableToken) :
    (issue program bubble call.1 call.2 ledger).2.holder? token =
      (ledger.holder? token).or (program.claimant? bubble token call) := by
  rcases issue_snd program bubble call.1 call.2 ledger with
    ⟨hsame, ⟨given, hfind⟩ | ⟨fault, hfault⟩⟩ | ⟨given, hgiven, hrecord⟩
  · have hheld := h.held _ _ _ hfind
    have hgiven : program.answer bubble call = .ok given :=
      (program.portableToken_home bubble call.1 call.2).symm.trans (h.token _ _ _ hfind)
    rw [hsame, Program.claimant?, hgiven]
    by_cases htoken : given = token
    · rw [← htoken]
      obtain ⟨holder, hholder⟩ := Option.isSome_iff_exists.mp hheld
      rw [hholder, Option.some_or]
    · simp only [if_neg htoken, Option.or_none]
  · have hanswer : program.answer bubble call = .error fault := hfault
    simp only [hsame, Program.claimant?, hanswer, Option.or_none]
  · have hanswer : program.answer bubble call = .ok given := hgiven
    rw [hrecord, holder?_record ledger call.1 (Program.module_of_portableToken hgiven),
      Program.claimant?, hanswer]
    by_cases htoken : token = given
    · subst htoken
      rw [if_pos rfl]
      cases ledger.holder? token <;> simp
    · simp only [if_neg htoken, if_neg (Ne.symm htoken), Option.or_none]

/-- A sound ledger answers every call as the program does, and a token it does not hold goes to the
first call that is given it. -/
theorem Sound.issueAll (h : Sound program bubble ledger) (calls : List (Entity × ModuleIndex)) :
    (issueAll program bubble calls ledger).1 = calls.map (program.answer bubble) ∧
      ∀ token, (issueAll program bubble calls ledger).2.holder? token =
        (ledger.holder? token).or (calls.findSome? (program.claimant? bubble token)) := by
  induction calls generalizing ledger with
  | nil => exact ⟨rfl, fun token => by rw [List.findSome?_nil, Option.or_none, Ledger.issueAll]⟩
  | cons call calls ih =>
    obtain ⟨hanswers, hholders⟩ := ih (h.issue call.1 call.2)
    refine ⟨?_, fun token => ?_⟩
    · rw [Ledger.issueAll, hanswers, h.issue_fst]
      rfl
    · rw [Ledger.issueAll, hholders, holder?_issue h, Option.or_assoc, List.findSome?_cons]
      cases program.claimant? bubble token call <;> rfl

theorem Sound.sound_issueAll (h : Sound program bubble ledger)
    (calls : List (Entity × ModuleIndex)) :
    Sound program bubble (Ledger.issueAll program bubble calls ledger).2 := by
  induction calls generalizing ledger with
  | nil => exact h
  | cons call calls ih => exact ih (h.issue call.1 call.2)

theorem holder?_issueAll (program : Program) (bubble : Bubble)
    (calls : List (Entity × ModuleIndex)) (token : PortableToken) :
    (issueAll program bubble calls {}).2.holder? token =
      calls.findSome? (program.claimant? bubble token) :=
  ((sound_empty program bubble).issueAll calls).2 token

theorem findSome?_claimant?_iff {calls : List (Entity × ModuleIndex)}
    (h : program.Unambiguous bubble calls) {token : PortableToken} {entity : Entity} :
    calls.findSome? (program.claimant? bubble token) = some entity ↔
      ∃ call ∈ calls, program.claimant? bubble token call = some entity := by
  constructor
  · exact List.exists_of_findSome?_eq_some
  · rintro ⟨call, hcall, hclaims⟩
    obtain ⟨hanswer, rfl⟩ := Program.claimant?_eq_some_iff.mp hclaims
    cases hfirst : calls.findSome? (program.claimant? bubble token) with
    | none =>
      rw [List.findSome?_eq_none_iff.mp hfirst call hcall] at hclaims
      cases hclaims
    | some entity =>
      obtain ⟨other, hother, hothers⟩ := List.exists_of_findSome?_eq_some hfirst
      obtain ⟨hanswer', rfl⟩ := Program.claimant?_eq_some_iff.mp hothers
      rw [h other hother call hcall token hanswer' hanswer]

/-- Calls can be made in any order if and only if no two of them give one token to two entities. -/
theorem concordant_iff_unambiguous (program : Program) (bubble : Bubble)
    (calls : List (Entity × ModuleIndex)) :
    (∀ others : List (Entity × ModuleIndex), others.Perm calls →
      Concordant program bubble calls others) ↔ program.Unambiguous bubble calls := by
  constructor
  · intro h first hfirst second hsecond token hanswer hanswer'
    -- Each of the two calls can be made first, and then its entity holds the token.
    have hholder (call : Entity × ModuleIndex) (hcall : call ∈ calls)
        (hgiven : program.answer bubble call = .ok token) :
        (issueAll program bubble calls {}).2.holder? token = some call.1 := by
      have hclaims := Program.claimant?_eq_some_iff.mpr ⟨hgiven, rfl⟩
      rw [(h _ (List.perm_cons_erase hcall).symm).holders, holder?_issueAll,
        List.findSome?_cons, hclaims]
    have hheld := hholder first hfirst hanswer
    rw [hholder second hsecond hanswer'] at hheld
    exact (Option.some.inj hheld).symm
  · intro h others hperm
    have hothers : program.Unambiguous bubble others := fun first hfirst second hsecond =>
      h first (hperm.mem_iff.mp hfirst) second (hperm.mem_iff.mp hsecond)
    have hholders (token : PortableToken) :
        (issueAll program bubble calls {}).2.holder? token =
          (issueAll program bubble others {}).2.holder? token := by
      rw [holder?_issueAll, holder?_issueAll]
      apply Option.ext
      intro entity
      rw [findSome?_claimant?_iff h, findSome?_claimant?_iff hothers]
      exact exists_congr fun call => and_congr_left fun _ => hperm.mem_iff.symm
    have hsound (calls : List (Entity × ModuleIndex)) :
        Sound program bubble (issueAll program bubble calls {}).2 :=
      (sound_empty program bubble).sound_issueAll calls
    have htable := (hsound calls).table_eq (hsound others) hholders
    exact {
      answers := ⟨program.answer bubble, ((sound_empty program bubble).issueAll calls).1,
        ((sound_empty program bubble).issueAll others).1⟩
      holders := hholders
      table := htable
      encoded := congrArg TokenTable.encode htable }

end Ledger

section RowsOnce

/-- The row that a registration lets stand for an entity. -/
def Registration.row? : Registration → Option (ModuleIndex × Token)
  | .reference origin row _ => some (origin, row)
  | _ => none

theorem Token.number_of_table? {token : Token} {table : Table} (h : token.table? = some table) :
    table.number = token.tableNumber := by
  simpa using List.find?_some h

theorem PortableToken.eq_of_ofToken? {module module' : ModuleIndex} {token token' : Token}
    {portable : PortableToken} (h : ofToken? module token = some portable)
    (h' : ofToken? module' token' = some portable) : module = module' ∧ token = token' := by
  obtain ⟨table, htable, rfl⟩ := Option.map_eq_some_iff.mp h
  obtain ⟨table', htable', hportable⟩ := Option.map_eq_some_iff.mp h'
  obtain ⟨hmodule, hkind, hrow⟩ := PortableToken.mk.inj hportable
  obtain rfl := PortableKind.ofTable_injective hkind
  have hnumber := (Token.number_of_table? htable).symm.trans (Token.number_of_table? htable')
  exact ⟨hmodule.symm, Token.ext_of_parts hnumber hrow.symm⟩

namespace Program

theorem ofToken?_of_portable {module : ModuleIndex} {token : Token} {given : PortableToken}
    (h : portable module token = .ok given) : PortableToken.ofToken? module token = some given := by
  unfold portable at h
  cases htoken : PortableToken.ofToken? module token with
  | none => rw [htoken] at h; cases h
  | some other => rw [htoken] at h; rw [Except.ok.inj h]

/-- The least reference of a module to an entity stands for that entity. -/
def Faithful (program : Program) : Prop :=
  ∀ module target row, program.rowFor? module target = some row →
    program.references.find? (module, row) = some target

theorem rows_of_enter {program after : Program} {registration : Registration}
    (h : program.enter registration = .ok after) :
    (registration.row? = none ∧ after.references = program.references ∧
      after.leastReferences = program.leastReferences) ∨
    ∃ origin reference target, registration.row? = some (origin, reference) ∧
      after.references = program.references.put (origin, reference) target ∧
      after.leastReferences = program.leastReferences.put (origin, target)
        (leastRow (program.rowFor? origin target) reference) := by
  cases registration with
  | module name path =>
    cases h
    exact .inl ⟨rfl, rfl, rfl⟩
  | method description | type description | field description | signature entity data =>
    rw [eq_of_check h]
    exact .inl ⟨rfl, rfl, rfl⟩
  | reference origin reference target =>
    rw [enter, registerReference] at h
    cases hrequire : program.requireModule origin with
    | error fault => rw [hrequire] at h; cases h
    | ok _ =>
      rw [hrequire] at h
      by_cases hadmits : reference.table?.any admitsReference
      · rw [if_pos hadmits] at h
        cases h
        exact .inr ⟨origin, reference, target, rfl, rfl, rfl⟩
      · rw [if_neg hadmits] at h
        cases h

theorem leastRow_eq (old : Option Token) (reference : Token) :
    leastRow old reference = reference ∨ old = some (leastRow old reference) := by
  cases old with
  | none => exact .inl rfl
  | some row =>
    simp only [leastRow]
    split
    · exact .inl rfl
    · exact .inr rfl

theorem Faithful.enter {program after : Program} {registration : Registration}
    (hfaithful : program.Faithful) (h : program.enter registration = .ok after)
    (hnew : ∀ row, registration.row? = some row → program.references.find? row = none) :
    after.Faithful := by
  rcases rows_of_enter h with ⟨_, hreferences, hleast⟩ |
    ⟨origin, reference, target, hrow, hreferences, hleast⟩
  · intro module other row hfind
    rw [rowFor?, hleast] at hfind
    rw [hreferences]
    exact hfaithful module other row hfind
  · intro module other row hfind
    rw [rowFor?, hleast, Bindings.find?_put] at hfind
    rw [hreferences, Bindings.find?_put]
    by_cases htarget : (module, other) = (origin, target)
    · rw [if_pos htarget] at hfind
      obtain ⟨rfl, rfl⟩ := Prod.mk.inj htarget
      obtain rfl := Option.some.inj hfind
      rcases leastRow_eq (program.rowFor? module other) reference with hreference | hold
      · rw [hreference, if_pos rfl]
      · split
        · rfl
        · exact hfaithful module other _ hold
    · rw [if_neg htarget] at hfind
      have hold := hfaithful module other row hfind
      rw [if_neg]
      · exact hold
      · intro hsame
        rw [hsame, hnew _ hrow] at hold
        cases hold

theorem faithful_of_assemble {registrations : List Registration} {program : Program}
    (h : assemble registrations = .ok program)
    (honce : (registrations.filterMap Registration.row?).Nodup) : program.Faithful := by
  refine of_foldlM_once (F := fun program row => program.references.find? row = none)
    (fun _ _ _ hfaithful h hnew => hfaithful.enter h hnew) ?_ ?_ h honce fun _ _ => rfl
  · intro program after registration row h hnone hother
    rcases rows_of_enter h with ⟨_, hreferences, _⟩ | ⟨origin, reference, target, hrow, hput, _⟩
    · rwa [hreferences]
    · rw [hput, Bindings.find?_put, if_neg]
      · exact hnone
      · rintro rfl
        exact hother hrow
  · intro module target row hfind
    cases hfind

/-- Where every reference row has been registered once, and none is also a definition of the bubble,
the order of discovery never matters. -/
theorem Faithful.unambiguous {program : Program} {bubble : Bubble} (hfaithful : program.Faithful)
    (happart : ∀ module row, (program.references.find? (module, row)).isSome →
      bubble.hasModule module → program.contains ⟨module, row⟩ = false)
    (calls : List (Entity × ModuleIndex)) : program.Unambiguous bubble calls := by
  -- The row of a token tells the entity: as a definition inside the bubble, as a reference outside.
  have hrow (call : Entity × ModuleIndex) (token : PortableToken)
      (hanswer : program.answer bubble call = .ok token) :
      ∃ row : ModuleIndex × Token, PortableToken.ofToken? row.1 row.2 = some token ∧
        ((bubble.hasModule row.1 ∧ program.contains ⟨row.1, row.2⟩ ∧ call.1 = ⟨row.1, row.2⟩) ∨
          program.references.find? row = some call.1) := by
    rw [answer, portableToken] at hanswer
    by_cases hinside : bubble.contains call.1
    · rw [if_pos hinside] at hanswer
      by_cases hknown : program.contains call.1
      · rw [if_pos hknown] at hanswer
        exact ⟨(call.1.module, call.1.token), ofToken?_of_portable hanswer,
          .inl ⟨hinside, hknown, rfl⟩⟩
      · rw [if_neg hknown] at hanswer
        cases hanswer
    · rw [if_neg hinside] at hanswer
      cases hfind : program.rowFor? call.2 call.1 with
      | none => rw [hfind] at hanswer; cases hanswer
      | some row =>
        rw [hfind] at hanswer
        exact ⟨(call.2, row), ofToken?_of_portable hanswer, .inr (hfaithful _ _ _ hfind)⟩
  intro first _ second _ token hanswer hanswer'
  obtain ⟨row, htoken, hfirst⟩ := hrow first token hanswer
  obtain ⟨row', htoken', hsecond⟩ := hrow second token hanswer'
  have hsame : row = row' := Prod.ext_iff.mpr (PortableToken.eq_of_ofToken? htoken htoken')
  subst hsame
  rcases hfirst with ⟨hmember, hknown, hfirst⟩ | hfirst <;>
    rcases hsecond with ⟨hmember', hknown', hsecond⟩ | hsecond
  · rw [hfirst, hsecond]
  · rw [happart row.1 row.2 (by rw [hsecond]; rfl) hmember] at hknown
    cases hknown
  · rw [happart row.1 row.2 (by rw [hfirst]; rfl) hmember'] at hknown'
    cases hknown'
  · rw [hfirst] at hsecond
    exact Option.some.inj hsecond

end Program

end RowsOnce

section Reused

def reusedRegistrations : List Registration :=
  [.module "App" "/app.dll", .module "Lib" "/lib.dll",
    .type { id := ⟨⟨1⟩, .ofParts .typeDef 1⟩, name := "First" },
    .type { id := ⟨⟨1⟩, .ofParts .typeDef 2⟩, name := "Second" },
    .reference ⟨0⟩ (.ofParts .typeRef 1) ⟨⟨1⟩, .ofParts .typeDef 1⟩,
    .reference ⟨0⟩ (.ofParts .typeRef 1) ⟨⟨1⟩, .ofParts .typeDef 2⟩]

def reusedBubble : Bubble := ⟨[⟨0⟩], true⟩

def firstUse : Entity × ModuleIndex := (⟨⟨1⟩, .ofParts .typeDef 1⟩, ⟨0⟩)

def secondUse : Entity × ModuleIndex := (⟨⟨1⟩, .ofParts .typeDef 2⟩, ⟨0⟩)

def reusedToken : PortableToken := ⟨⟨0⟩, .typeImport, 1⟩

/-- A row that is registered for a second type is still the least reference to the first one. -/
theorem not_forall_concordant :
    ¬ ∀ (registrations : List Registration) (program : Program) (bubble : Bubble)
      (calls others : List (Entity × ModuleIndex)),
      Program.assemble registrations = .ok program → others.Perm calls →
        Ledger.Concordant program bubble calls others := by
  intro h
  cases hassemble : Program.assemble reusedRegistrations with
  | error fault => cases hassemble
  | ok program =>
    have hconcordant := h reusedRegistrations program reusedBubble [firstUse, secondUse]
      [secondUse, firstUse] hassemble (List.Perm.swap ..)
    cases hassemble
    have hholders := hconcordant.holders reusedToken
    rw [Ledger.holder?_issueAll, Ledger.holder?_issueAll] at hholders
    revert hholders
    decide +kernel

end Reused

end PortableImage
