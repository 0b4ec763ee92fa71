import PortableImage.Proofs.Portable.LedgerHistories
import PortableImage.Proofs.Program.Admission
/-!
# Tokens for what a module names

Code of the bubble names what it uses by tokens of its own module.  Each has to be turned into a
portable token before the image may rely on it.  The way there leads over two maps: the row is
followed to the entity it stands for, and then the entity is looked up backward.  Whatever was
registered, in whatever order, the second map has an answer for everything the first one leads to
outside the bubble.  Inside the bubble a row may stand for an entity that is not registered.  That
is the only way for such a question to fail.
-/

namespace PortableImage

namespace Program

/-- What registrations keep true of the rows of references: what a row stands for has a row
backward, and only rows that may stand for an entity of another module are answers. -/
structure RowsKept (program : Program) : Prop where
  backward : ∀ module row target, program.references.find? (module, row) = some target →
    (program.rowFor? module target).isSome
  admitted : ∀ module target row, program.rowFor? module target = some row →
    row.table?.any admitsReference

variable {program after : Program} {registration : Registration} {bubble : Bubble}
  {entity : Entity} {module : ModuleIndex} {row : Token}

theorem RowsKept.empty : RowsKept {} where
  backward _ _ _ h := by cases h
  admitted _ _ _ h := by cases h

theorem admits_of_enter (h : program.enter registration = .ok after)
    (hrow : registration.row? = some (module, row)) : row.table?.any admitsReference := by
  cases registration with
  | reference origin reference target =>
    cases hrow
    rw [enter, registerReference] at h
    cases hrequire : program.requireModule module with
    | error fault => rw [hrequire] at h; cases h
    | ok _ =>
      by_contra hadmits
      rw [hrequire, if_neg hadmits] at h
      cases h
  | _ => cases hrow

theorem RowsKept.enter (hkept : program.RowsKept) (h : program.enter registration = .ok after) :
    after.RowsKept := by
  rcases rows_of_enter h with ⟨_, hreferences, hleast⟩ |
    ⟨origin, reference, target, hrow, hreferences, hleast⟩
  · constructor
    · intro module row target hfind
      rw [hreferences] at hfind
      rw [rowFor?, hleast]
      exact hkept.backward module row target hfind
    · intro module target row hfind
      rw [rowFor?, hleast] at hfind
      exact hkept.admitted module target row hfind
  · constructor
    · intro module row other hfind
      rw [rowFor?, hleast, Bindings.find?_put]
      by_cases hnew : (module, other) = (origin, target)
      · rw [if_pos hnew]
        rfl
      · rw [if_neg hnew]
        rw [hreferences, Bindings.find?_put] at hfind
        split at hfind
        · rename_i hsame
          obtain ⟨rfl, rfl⟩ := Prod.mk.inj hsame
          exact absurd (Option.some.inj hfind ▸ rfl) hnew
        · exact hkept.backward module row other hfind
    · intro module other row hfind
      rw [rowFor?, hleast, Bindings.find?_put] at hfind
      split at hfind
      · obtain rfl := Option.some.inj hfind
        rcases leastRow_eq (program.rowFor? origin target) reference with hreference | hold
        · rw [hreference]
          exact admits_of_enter h hrow
        · exact hkept.admitted origin target _ hold
      · exact hkept.admitted module other row hfind

/-- Where all parts of a program have grown, so has what is registered. -/
theorem contains_mono (hcontains : program.contains entity)
    (htypes : ∀ entity, program.types.contains entity → after.types.contains entity)
    (hmethods : ∀ entity, program.methods.contains entity → after.methods.contains entity)
    (hfields : ∀ entity, program.fields.contains entity → after.fields.contains entity)
    (hsignatures : ∀ entity,
      program.signatures.contains entity → after.signatures.contains entity) :
    after.contains entity := by
  unfold contains at hcontains ⊢
  cases hkind : entity.kind? with
  | none => rw [hkind] at hcontains; cases hcontains
  | some kind =>
    rw [hkind] at hcontains
    cases kind with
    | type => exact htypes entity hcontains
    | method => exact hmethods entity hcontains
    | field => exact hfields entity hcontains
    | signature => exact hsignatures entity hcontains

/-- What is registered stays registered. -/
theorem contains_of_enter (h : program.enter registration = .ok after)
    (hcontains : program.contains entity) : after.contains entity := by
  rw [eq_extend_of_enter h]
  cases registration with
  | module name path | reference origin row target => exact hcontains
  | type description =>
    exact contains_mono hcontains (fun _ h => Bindings.contains_put _ h _ _) (fun _ h => h)
      (fun _ h => h) (fun _ h => h)
  | method description =>
    exact contains_mono hcontains (fun _ h => h) (fun _ h => Bindings.contains_put _ h _ _)
      (fun _ h => h) (fun _ h => h)
  | field description =>
    exact contains_mono hcontains (fun _ h => h) (fun _ h => h)
      (fun _ h => Bindings.contains_put _ h _ _) (fun _ h => h)
  | signature entity data =>
    exact contains_mono hcontains (fun _ h => h) (fun _ h => h) (fun _ h => h)
      (fun _ h => Bindings.contains_put _ h _ _)

theorem exists_kind_of_contains (h : program.contains entity) :
    ∃ kind, entity.kind? = some kind := by
  cases hkind : entity.kind? with
  | none => rw [contains, hkind] at h; cases h
  | some kind => exact ⟨kind, rfl⟩

theorem register_cases (program : Program) (registration : Registration) :
    program.enter registration = .ok (program.register registration) ∨
      program.register registration = program := by
  unfold register
  cases program.enter registration with
  | ok after => exact .inl rfl
  | error fault => exact .inr rfl

end Program

/-- The kinds of rows that may stand for what another module defines. -/
def PortableKind.referring : List PortableKind :=
  [.typeImport, .memberImport, .typeSpec, .methodSpec]

theorem PortableKind.ofTable_mem_referring {table : Table} (h : Program.admitsReference table) :
    ofTable table ∈ referring := by
  revert h
  cases table <;> decide

theorem PortableToken.referring_of_admits {module : ModuleIndex} {row : Token}
    {token : PortableToken} (hadmits : row.table?.any Program.admitsReference)
    (h : Program.portable module row = .ok token) : token.kind ∈ PortableKind.referring := by
  obtain ⟨table, htable, rfl⟩ := Option.map_eq_some_iff.mp (Program.ofToken?_of_portable h)
  rw [htable] at hadmits
  exact PortableKind.ofTable_mem_referring hadmits

theorem PortableToken.exists_of_admits {row : Token} (module : ModuleIndex)
    (hadmits : row.table?.any Program.admitsReference) :
    ∃ token, Program.portable module row = .ok token := by
  cases htable : row.table? with
  | none => rw [htable] at hadmits; cases hadmits
  | some table =>
    exact ⟨⟨module, .ofTable table, row.row⟩, by simp [Program.portable, ofToken?, htable]⟩

namespace Ledger

/-- A host at work on one bubble: it registers one thing after another, whether that is accepted or
refused, and between two registrations it asks the ledger. -/
inductive Service (bubble : Bubble) : Program → Ledger → Prop
  | start : Service bubble {} {}
  | register {program ledger} (registration : Registration) (h : Service bubble program ledger) :
      Service bubble (program.register registration) ledger
  | ask {program ledger} (entity : Entity) (origin : ModuleIndex)
      (h : Service bubble program ledger) :
      Service bubble program (issue program bubble entity origin ledger).2

variable {bubble : Bubble} {program : Program} {ledger : Ledger} {entity : Entity}
  {module origin : ModuleIndex}

/-- What is recorded for an entity, as seen from the program: a token for one of the bubble stands
in the entity's module and the entity is registered, and a token for one outside is a row of the
module it was asked from. -/
structure Supported (bubble : Bubble) (program : Program) (entity : Entity) (home : ModuleIndex)
    (token : PortableToken) : Prop where
  module : token.module = home
  registered : bubble.contains entity → program.contains entity
  referring : bubble.contains entity = false → token.kind ∈ PortableKind.referring

theorem supported_of_portableToken {token : PortableToken} (hkept : program.RowsKept)
    (h : program.portableToken bubble entity origin = .ok token) :
    Supported bubble program entity (bubble.home entity origin) token := by
  refine ⟨Program.module_of_portableToken h, fun hinside => ?_, fun houtside => ?_⟩
  · rw [Program.portableToken, if_pos hinside] at h
    by_contra hunknown
    rw [if_neg hunknown] at h
    cases h
  · rw [Program.portableToken, if_neg (Bool.eq_false_iff.mp houtside)] at h
    cases hrow : program.rowFor? origin entity with
    | none => rw [hrow] at h; cases h
    | some row =>
      rw [hrow] at h
      exact PortableToken.referring_of_admits (hkept.admitted origin entity row hrow) h

/-- Throughout the service of a ledger the rows are kept and everything recorded is supported. -/
theorem Service.supported (h : Service bubble program ledger) : program.RowsKept ∧
    ∀ home entity token, ledger.token? home entity = some token →
      Supported bubble program entity home token := by
  induction h with
  | start => exact ⟨.empty, fun _ _ _ h => by cases h⟩
  | @register program ledger registration _ ih =>
    obtain ⟨hkept, hsupported⟩ := ih
    rcases program.register_cases registration with henter | hsame
    · refine ⟨hkept.enter henter, fun home entity token hfind => ?_⟩
      obtain ⟨hmodule, hregistered, hreferring⟩ := hsupported home entity token hfind
      exact ⟨hmodule, fun h => Program.contains_of_enter henter (hregistered h), hreferring⟩
    · rw [hsame]
      exact ⟨hkept, hsupported⟩
  | @ask program ledger entity origin _ ih =>
    obtain ⟨hkept, hsupported⟩ := ih
    refine ⟨hkept, fun home other token hfind => ?_⟩
    rcases issue_cases program bubble entity origin ledger with
      ⟨_, _, hissue⟩ | ⟨given, _, hgiven, hissue⟩ | ⟨_, _, hissue⟩
    · rw [hissue] at hfind
      exact hsupported home other token hfind
    · rw [hissue] at hfind
      rcases token?_of_record hfind with hold | ⟨⟨rfl, rfl⟩, rfl⟩
      · exact hsupported home other token hold
      · exact supported_of_portableToken hkept hgiven
    · rw [hissue] at hfind
      exact hsupported home other token hfind

/-- A module of the bubble that names an entity outside has a row for it. -/
theorem exists_row_of_meaning {token : Token} (hkept : program.RowsKept)
    (hmember : bubble.hasModule module) (hmeaning : program.meaning module token = .ok entity)
    (houtside : bubble.contains entity = false) :
    ∃ row, program.rowFor? module entity = some row := by
  unfold Program.meaning at hmeaning
  cases htable : token.table? with
  | none => rw [htable] at hmeaning; cases hmeaning
  | some table =>
    cases hfind : program.references.find? (module, token) with
    | some target =>
      rw [htable, hfind] at hmeaning
      obtain rfl := Except.ok.inj hmeaning
      exact Option.isSome_iff_exists.mp (hkept.backward module token _ hfind)
    | none =>
      -- A definition of the module itself is one of the bubble.
      rw [htable, hfind] at hmeaning
      simp only at hmeaning
      split at hmeaning
      · cases hmeaning
      · split at hmeaning
        · obtain rfl := Except.ok.inj hmeaning
          rw [Bubble.contains, hmember] at houtside
          cases houtside
        · cases hmeaning

/-- What a module of the bubble names has a token as it stands, unless it is an entity of the bubble
that is not registered. -/
theorem portableToken_of_meaning {token : Token} (hkept : program.RowsKept)
    (hmember : bubble.hasModule module) (hmeaning : program.meaning module token = .ok entity) :
    (∃ given, program.portableToken bubble entity module = .ok given) ∨
      (program.portableToken bubble entity module = .error (.entityNotFound entity) ∧
        bubble.contains entity ∧ program.contains entity = false) := by
  by_cases hinside : bubble.contains entity
  · by_cases hregistered : program.contains entity
    · obtain ⟨kind, hkind⟩ := Program.exists_kind_of_contains hregistered
      exact .inl (Program.exists_portableToken hinside hkind hregistered module)
    · refine .inr ⟨?_, hinside, Bool.eq_false_iff.mpr hregistered⟩
      rw [Program.portableToken, if_pos hinside, if_neg hregistered]
  · obtain ⟨row, hrow⟩ :=
      exists_row_of_meaning hkept hmember hmeaning (Bool.eq_false_iff.mpr hinside)
    obtain ⟨given, hgiven⟩ := PortableToken.exists_of_admits module (hkept.admitted _ _ _ hrow)
    refine .inl ⟨given, ?_⟩
    rw [Program.portableToken, if_neg hinside, hrow]
    exact hgiven

/-- A module asks for the token of an entity: how the answer fails, and where the token stands that
it gives. -/
structure Tokenized (bubble : Bubble) (program : Program) (ledger : Ledger) (entity : Entity)
    (module : ModuleIndex) : Prop where
  /-- The entity is one of the bubble that is not registered, and no other fault occurs. -/
  fails : ∀ fault, (issue program bubble entity module ledger).1 = .error fault ↔
    fault = .entityNotFound entity ∧ bubble.contains entity ∧ program.contains entity = false
  inside : ∀ token, (issue program bubble entity module ledger).1 = .ok token →
    bubble.contains entity → token.module = entity.module
  outside : ∀ token, (issue program bubble entity module ledger).1 = .ok token →
    bubble.contains entity = false →
      token.module = module ∧ token.kind ∈ PortableKind.referring

theorem Tokenized.of_supported {token : PortableToken}
    (hissue : (issue program bubble entity module ledger).1 = .ok token)
    (h : Supported bubble program entity (bubble.home entity module) token) :
    Tokenized bubble program ledger entity module := by
  have hsame {given : PortableToken}
      (hgiven : (issue program bubble entity module ledger).1 = .ok given) : given = token :=
    Except.ok.inj (hgiven.symm.trans hissue)
  constructor
  · intro fault
    rw [hissue]
    refine iff_of_false (fun hfault => by cases hfault) ?_
    rintro ⟨_, hinside, hunknown⟩
    rw [h.registered hinside] at hunknown
    cases hunknown
  · intro given hgiven hinside
    rw [hsame hgiven, h.module, Bubble.home, if_pos hinside]
  · intro given hgiven houtside
    rw [hsame hgiven, h.module, Bubble.home, if_neg (Bool.eq_false_iff.mp houtside)]
    exact ⟨rfl, h.referring houtside⟩

/-- After any registrations and questions, whatever a module of the bubble names by a token of its
own has a portable token from that module, unless it is an entity of the bubble that is not
registered. -/
theorem tokenized_of_meaning {token : Token} (h : Service bubble program ledger)
    (hmember : bubble.hasModule module) (hmeaning : program.meaning module token = .ok entity) :
    Tokenized bubble program ledger entity module := by
  obtain ⟨hkept, hsupported⟩ := h.supported
  rcases issue_cases program bubble entity module ledger with
    ⟨given, hfind, hissue⟩ | ⟨given, _, hgiven, hissue⟩ | ⟨fault, hfault, hissue⟩
  · exact .of_supported (congrArg Prod.fst hissue) (hsupported _ _ _ hfind)
  · exact .of_supported (congrArg Prod.fst hissue) (supported_of_portableToken hkept hgiven)
  · rcases portableToken_of_meaning hkept hmember hmeaning with ⟨given, hgiven⟩ | ⟨hother, hunknown⟩
    · rw [hfault] at hgiven
      cases hgiven
    · obtain rfl := Except.error.inj (hfault.symm.trans hother)
      refine ⟨fun fault => ?_, fun _ h => ?_, fun _ h => ?_⟩
      · rw [hissue]
        exact ⟨fun h => ⟨(Except.error.inj h).symm, hunknown⟩, fun h => congrArg _ h.1.symm⟩
      · rw [hissue] at h
        cases h
      · rw [hissue] at h
        cases h

theorem Service.registerAll (h : Service bubble program ledger)
    (registrations : List Registration) :
    Service bubble (program.registerAll registrations) ledger := by
  induction registrations generalizing program with
  | nil => exact h
  | cons registration registrations ih => exact ih (h.register registration)

section Dangling

def rowOne : Token := .ofParts .typeSpec 1

def rowTwo : Token := .ofParts .typeRef 2

/-- An entity of the bubble that is never registered. -/
def ghostType : Entity := ⟨⟨0⟩, .ofParts .typeDef 9⟩

/-- The first type outside the bubble has two rows, of which the lesser one is then registered again
for an entity that does not exist.  Another row stands in a module that does not exist. -/
def danglingProgram : Program :=
  ({} : Program).registerAll [.module "App" "/app.dll", .module "Lib" "/lib.dll",
    .type { id := firstType, name := "First" }, .reference ⟨0⟩ (.ofParts .typeRef 5) firstType,
    .reference ⟨0⟩ rowTwo firstType, .reference ⟨7⟩ rowTwo firstType,
    .reference ⟨0⟩ rowTwo ghostType, .reference ⟨0⟩ rowOne secondType]

def danglingLedger : Ledger := (issue danglingProgram outrunBubble firstType ⟨0⟩ {}).2

theorem service_dangling : Service outrunBubble danglingProgram danglingLedger :=
  (Service.start.registerAll _).ask firstType ⟨0⟩

/-- What the second row stands for has no token.  The first row is a type of another module by its
instantiation, and its token has that kind. -/
theorem tokenized_dangling :
    danglingProgram.meaning ⟨0⟩ rowTwo = .ok ghostType ∧
      (issue danglingProgram outrunBubble ghostType ⟨0⟩ danglingLedger).1 =
        .error (.entityNotFound ghostType) ∧
      danglingProgram.meaning ⟨0⟩ rowOne = .ok secondType ∧
      ∃ token, (issue danglingProgram outrunBubble secondType ⟨0⟩ danglingLedger).1 = .ok token ∧
        token.module = ⟨0⟩ ∧ token.kind ∈ PortableKind.referring := by
  have htwo : danglingProgram.meaning ⟨0⟩ rowTwo = .ok ghostType := by decide +kernel
  have hone : danglingProgram.meaning ⟨0⟩ rowOne = .ok secondType := by decide +kernel
  have hghost := tokenized_of_meaning service_dangling (by decide) htwo
  have hsecond := tokenized_of_meaning service_dangling (by decide) hone
  have htoken : (issue danglingProgram outrunBubble secondType ⟨0⟩ danglingLedger).1 =
      .ok ⟨⟨0⟩, .typeSpec, 1⟩ := by decide +kernel
  refine ⟨htwo, (hghost.fails _).mpr ⟨rfl, by decide, by decide +kernel⟩, hone, _, htoken, ?_⟩
  exact hsecond.outside _ htoken (by decide)

end Dangling

end Ledger

end PortableImage
