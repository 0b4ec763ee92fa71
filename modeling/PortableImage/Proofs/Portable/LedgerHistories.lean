import Mathlib
import PortableImage.Proofs.Portable.DiscoveryOrder
/-!
# Histories of a ledger

A ledger lives longer than a program stays the same: between two questions more may be registered,
and a row that is registered later can be less than one that was given out.  The ledger holds on to
what it has answered.  Its two maps mirror the past: from entities to tokens what each question was
answered, from tokens to entities who was given the token first.
-/

namespace PortableImage

/-- A question that was put to a ledger, and what was answered. -/
structure Query where
  entity : Entity
  origin : ModuleIndex
  answer : Except Fault PortableToken

namespace Query

/-- The entity of a question that was answered with a token. -/
def recipient? (token : PortableToken) (query : Query) : Option Entity :=
  match query.answer with
  | .ok given => if given = token then some query.entity else none
  | .error _ => none

theorem recipient?_eq_some_iff {token : PortableToken} {query : Query} {entity : Entity} :
    query.recipient? token = some entity ↔ query.answer = .ok token ∧ query.entity = entity := by
  unfold recipient?
  cases query.answer with
  | ok given => simp
  | error fault => simp

theorem isSome_findSome?_iff {past : List Query} {token : PortableToken} :
    (past.findSome? (recipient? token)).isSome ↔ ∃ query ∈ past, query.answer = .ok token := by
  rw [List.findSome?_isSome_iff]
  refine exists_congr fun query => and_congr_right fun _ => ?_
  rw [Option.isSome_iff_exists]
  simp [recipient?_eq_some_iff]

end Query

namespace Ledger

/-- The questions a ledger has answered since it was empty, while more and more was registered. -/
inductive History (bubble : Bubble) : List Query → Program → Ledger → Prop
  | start (program : Program) : History bubble [] program {}
  | register {past program ledger} {registration : Registration} {after : Program}
      (h : History bubble past program ledger)
      (hregister : program.enter registration = .ok after) : History bubble past after ledger
  | ask {past program ledger} (h : History bubble past program ledger) (entity : Entity)
      (origin : ModuleIndex) :
      History bubble
        (past ++ [⟨entity, origin, (issue program bubble entity origin ledger).1⟩]) program
        (issue program bubble entity origin ledger).2

variable {bubble : Bubble} {past : List Query} {program : Program} {ledger : Ledger}
  {entity : Entity} {origin : ModuleIndex} {token : PortableToken}

section Questions

/-- A question is answered from memory, answered anew and recorded, or fails. -/
theorem issue_cases (program : Program) (bubble : Bubble) (entity : Entity) (origin : ModuleIndex)
    (ledger : Ledger) :
    (∃ token, ledger.token? (bubble.home entity origin) entity = some token ∧
      issue program bubble entity origin ledger = (.ok token, ledger)) ∨
    (∃ token, ledger.token? (bubble.home entity origin) entity = none ∧
      program.portableToken bubble entity origin = .ok token ∧
      issue program bubble entity origin ledger =
        (.ok token, ledger.record (bubble.home entity origin) entity token)) ∨
    ∃ fault, program.portableToken bubble entity origin = .error fault ∧
      issue program bubble entity origin ledger = (.error fault, ledger) := by
  unfold issue
  cases hfind : ledger.token? (bubble.home entity origin) entity with
  | some token => exact .inl ⟨token, rfl, by simp only [hfind]⟩
  | none =>
    cases htoken : program.portableToken bubble entity origin with
    | ok token => exact .inr (.inl ⟨token, rfl, rfl, by simp only [hfind]⟩)
    | error fault => exact .inr (.inr ⟨fault, rfl, by simp only [hfind]⟩)

theorem issue_of_token? (h : ledger.token? (bubble.home entity origin) entity = some token)
    (program : Program) : issue program bubble entity origin ledger = (.ok token, ledger) := by
  simp only [issue, h]

theorem issue_eq_of_contains (h : bubble.contains entity) (program : Program)
    (origin origin' : ModuleIndex) (ledger : Ledger) :
    issue program bubble entity origin ledger = issue program bubble entity origin' ledger := by
  simp only [issue, Bubble.home, Program.portableToken, if_pos h]

/-- Inside the bubble a token is that of the entity itself. -/
theorem ofToken?_of_portableToken (h : bubble.contains entity)
    (htoken : program.portableToken bubble entity origin = .ok token) :
    PortableToken.ofToken? entity.module entity.token = some token := by
  rw [Program.portableToken, if_pos h] at htoken
  split at htoken
  · exact Program.ofToken?_of_portable htoken
  · cases htoken

end Questions

/-- The maps of a ledger say what was answered in the past, and nothing else. -/
structure Recalls (bubble : Bubble) (past : List Query) (ledger : Ledger) : Prop where
  filed : ledger.Filed
  token : ∀ query ∈ past, ∀ token, query.answer = .ok token →
    ledger.token? (bubble.home query.entity query.origin) query.entity = some token
  query : ∀ home entity token, ledger.token? home entity = some token →
    ∃ query ∈ past, query.entity = entity ∧ query.answer = .ok token
  holder : ∀ token, ledger.holder? token = past.findSome? (Query.recipient? token)
  own : ∀ query ∈ past, ∀ token, query.answer = .ok token → bubble.contains query.entity →
    PortableToken.ofToken? query.entity.module query.entity.token = some token

theorem recalls_empty (bubble : Bubble) : Recalls bubble [] {} where
  filed _ _ _ h := by cases h
  token _ h := by cases h
  query _ _ _ h := by cases h
  holder _ := rfl
  own _ h := by cases h

/-- A question that was answered as one before it leaves the ledger as it is. -/
theorem Recalls.repeated (h : Recalls bubble past ledger)
    (hfind : ledger.token? (bubble.home entity origin) entity = some token) :
    Recalls bubble (past ++ [⟨entity, origin, .ok token⟩]) ledger := by
  obtain ⟨former, hformer, hentity, hanswer⟩ := h.query _ _ _ hfind
  refine ⟨h.filed, ?_, ?_, ?_, ?_⟩
  · intro query hquery given hgiven
    rcases List.mem_append.mp hquery with hquery | hquery
    · exact h.token query hquery given hgiven
    · rw [List.mem_singleton.mp hquery] at hgiven ⊢
      exact Except.ok.inj hgiven ▸ hfind
  · intro home other given hgiven
    obtain ⟨query, hquery, hasked⟩ := h.query home other given hgiven
    exact ⟨query, List.mem_append_left _ hquery, hasked⟩
  · intro other
    rw [h.holder, List.findSome?_append]
    by_cases hother : token = other
    · -- The former question has given the token to somebody.
      subst hother
      obtain ⟨holder, hholder⟩ := Option.isSome_iff_exists.mp
        (Query.isSome_findSome?_iff.mpr ⟨former, hformer, hanswer⟩)
      rw [hholder, Option.some_or]
    · simp [Query.recipient?, hother]
  · intro query hquery given hgiven hinside
    rcases List.mem_append.mp hquery with hquery | hquery
    · exact h.own query hquery given hgiven hinside
    · rw [List.mem_singleton.mp hquery] at hgiven hinside ⊢
      rw [← Except.ok.inj hgiven, ← hentity]
      exact h.own former hformer token hanswer (hentity ▸ hinside)

/-- The answer to a new question is recorded, and the token goes to its entity unless it was given
out before. -/
theorem Recalls.recorded (h : Recalls bubble past ledger)
    (hfind : ledger.token? (bubble.home entity origin) entity = none)
    (htoken : program.portableToken bubble entity origin = .ok token) :
    Recalls bubble (past ++ [⟨entity, origin, .ok token⟩])
      (ledger.record (bubble.home entity origin) entity token) := by
  have hhome := Program.module_of_portableToken htoken
  refine ⟨h.filed.record hhome entity, ?_, ?_, ?_, ?_⟩
  · intro query hquery given hgiven
    rw [token?_record, hfind, Option.getD_none]
    rcases List.mem_append.mp hquery with hquery | hquery
    · have hold := h.token query hquery given hgiven
      rw [if_neg]
      · exact hold
      · rintro ⟨hsame, hentity⟩
        rw [hsame, hentity, hfind] at hold
        cases hold
    · rw [List.mem_singleton.mp hquery] at hgiven ⊢
      rw [if_pos ⟨rfl, rfl⟩, Except.ok.inj hgiven]
  · intro home other given hgiven
    rcases token?_of_record hgiven with hold | ⟨⟨rfl, rfl⟩, rfl⟩
    · obtain ⟨query, hquery, hasked⟩ := h.query home other given hold
      exact ⟨query, List.mem_append_left _ hquery, hasked⟩
    · exact ⟨_, List.mem_append_right _ List.mem_cons_self, rfl, rfl⟩
  · intro other
    rw [holder?_record ledger entity hhome, List.findSome?_append, ← h.holder]
    by_cases hother : other = token
    · subst hother
      cases ledger.holder? other <;> simp [Query.recipient?]
    · simp [Query.recipient?, hother, Ne.symm hother]
  · intro query hquery given hgiven hinside
    rcases List.mem_append.mp hquery with hquery | hquery
    · exact h.own query hquery given hgiven hinside
    · rw [List.mem_singleton.mp hquery] at hgiven hinside ⊢
      rw [← Except.ok.inj hgiven]
      exact ofToken?_of_portableToken hinside htoken

/-- A question that failed says nothing. -/
theorem Recalls.failed (h : Recalls bubble past ledger) (entity : Entity) (origin : ModuleIndex)
    (fault : Fault) : Recalls bubble (past ++ [⟨entity, origin, .error fault⟩]) ledger := by
  have hanswered {query : Query} {given : PortableToken}
      (hquery : query ∈ past ++ [⟨entity, origin, .error fault⟩])
      (hgiven : query.answer = .ok given) : query ∈ past := by
    rcases List.mem_append.mp hquery with hquery | hquery
    · exact hquery
    · rw [List.mem_singleton.mp hquery] at hgiven
      cases hgiven
  refine ⟨h.filed, ?_, ?_, ?_, ?_⟩
  · exact fun query hquery given hgiven => h.token query (hanswered hquery hgiven) given hgiven
  · intro home other given hgiven
    obtain ⟨query, hquery, hasked⟩ := h.query home other given hgiven
    exact ⟨query, List.mem_append_left _ hquery, hasked⟩
  · intro token
    rw [h.holder, List.findSome?_append]
    simp [Query.recipient?]
  · exact fun query hquery given hgiven => h.own query (hanswered hquery hgiven) given hgiven

theorem History.recalls (h : History bubble past program ledger) : Recalls bubble past ledger := by
  induction h with
  | start program => exact recalls_empty bubble
  | register _ _ ih => exact ih
  | @ask past program ledger _ entity origin ih =>
    rcases issue_cases program bubble entity origin ledger with
      ⟨token, hfind, hissue⟩ | ⟨token, hfind, htoken, hissue⟩ | ⟨fault, _, hissue⟩
    · rw [hissue]
      exact ih.repeated hfind
    · rw [hissue]
      exact ih.recorded hfind htoken
    · rw [hissue]
      exact ih.failed entity origin fault

theorem size_eq (ledger : Ledger) : ledger.size = ledger.table.entries.length := by
  have hsum (entries : List (ModuleIndex × Partition)) (count : Nat) :
      entries.foldl (fun count entry => count + entry.2.entities.size) count =
        count + (entries.flatMap fun entry =>
          entry.2.entities.entries.map fun pair => TableEntry.mk pair.1 pair.2).length := by
    induction entries generalizing count with
    | nil => rfl
    | cons entry entries ih =>
      rw [List.foldl_cons, ih]
      simp [Bindings.size, Nat.add_assoc]
  rw [size, table, List.length_mergeSort, hsum, Nat.zero_add]

/-- A table without equal tokens is in strictly ascending order. -/
theorem Filed.ascending (h : ledger.Filed) :
    ledger.table.entries.Pairwise fun a b => a.token < b.token := by
  have hdistinct := List.pairwise_map.mp h.nodup_table
  exact (pairwise_table ledger).imp₂ (fun _ _ => Ranked.lt_of_le_of_ne) hdistinct

/-- What can be seen of a ledger mirrors the questions of the past. -/
structure Mirrors (bubble : Bubble) (past : List Query) (ledger : Ledger) : Prop where
  /-- A question that was answered with a token is so answered ever after. -/
  stands : ∀ query ∈ past, ∀ token, query.answer = .ok token → ∀ program : Program,
    issue program bubble query.entity query.origin ledger = (.ok token, ledger)
  ascending : ledger.table.entries.Pairwise fun a b => a.token < b.token
  listed : ∀ token, (∃ entry ∈ ledger.table.entries, entry.token = token) ↔
    ∃ query ∈ past, query.answer = .ok token
  /-- A token stands for the entity that was given it first. -/
  first : ∀ entry ∈ ledger.table.entries,
    past.findSome? (Query.recipient? entry.token) = some entry.entity
  holder : ∀ token entity,
    ledger.holder? token = some entity ↔ ⟨token, entity⟩ ∈ ledger.table.entries
  size : ledger.size = ledger.table.entries.length
  failing : ∀ (program : Program) entity origin fault,
    (issue program bubble entity origin ledger).1 = .error fault →
      (issue program bubble entity origin ledger).2 = ledger
  /-- For an entity of the bubble it does not matter which module asks. -/
  origin : ∀ (program : Program) entity, bubble.contains entity → ∀ origin origin',
    issue program bubble entity origin ledger = issue program bubble entity origin' ledger
  distinct : ∀ query ∈ past, ∀ query' ∈ past, bubble.contains query.entity →
    bubble.contains query'.entity → ∀ token token', query.answer = .ok token →
      query'.answer = .ok token' → (token = token' ↔ query.entity = query'.entity)

/-- After every history of questions and registrations the ledger mirrors the questions. -/
theorem History.mirrors (h : History bubble past program ledger) : Mirrors bubble past ledger := by
  have hrecalls := h.recalls
  have hmem (entry : TableEntry) : entry ∈ ledger.table.entries ↔
      past.findSome? (Query.recipient? entry.token) = some entry.entity := by
    rw [hrecalls.filed.mem_table_iff, hrecalls.holder]
  refine ⟨?stands, hrecalls.filed.ascending, ?listed, ?first, ?holder, size_eq ledger, ?failing,
    ?origin, ?distinct⟩
  case stands =>
    exact fun query hquery token htoken => issue_of_token? (hrecalls.token query hquery token htoken)
  case listed =>
    intro token
    rw [← Query.isSome_findSome?_iff, Option.isSome_iff_exists]
    constructor
    · rintro ⟨entry, hentry, rfl⟩
      exact ⟨entry.entity, (hmem entry).mp hentry⟩
    · rintro ⟨entity, hentity⟩
      exact ⟨⟨token, entity⟩, (hmem _).mpr hentity, rfl⟩
  case first => exact fun entry hentry => (hmem entry).mp hentry
  case holder =>
    intro token entity
    rw [hrecalls.filed.mem_table_iff]
  case failing =>
    intro program entity origin fault hfault
    rcases issue_cases program bubble entity origin ledger with
      ⟨token, _, hissue⟩ | ⟨token, _, _, hissue⟩ | ⟨fault, _, hissue⟩
    · rw [hissue]
    · rw [hissue] at hfault
      cases hfault
    · rw [hissue]
  case origin => exact fun program entity hinside origin origin' =>
    issue_eq_of_contains hinside program origin origin' ledger
  case distinct =>
    intro query hquery query' hquery' hinside hinside' token token' hanswer hanswer'
    have hown := hrecalls.own query hquery token hanswer hinside
    have hown' := hrecalls.own query' hquery' token' hanswer' hinside'
    constructor
    · rintro rfl
      obtain ⟨hmodule, htoken⟩ := PortableToken.eq_of_ofToken? hown hown'
      calc query.entity = ⟨query.entity.module, query.entity.token⟩ := rfl
        _ = query'.entity := by rw [hmodule, htoken]
    · intro hentity
      rw [hentity, hown'] at hown
      exact (Option.some.inj hown).symm

section Outrun

def outrunBubble : Bubble := ⟨[⟨0⟩], false⟩

def ownType : Entity := ⟨⟨0⟩, .ofParts .typeDef 1⟩

def firstType : Entity := ⟨⟨1⟩, .ofParts .typeDef 1⟩

def secondType : Entity := ⟨⟨1⟩, .ofParts .typeDef 2⟩

/-- A type of the bubble, and a type outside with row 5. -/
def outrunProgram : Program :=
  (Program.assemble [.module "App" "/app.dll", .module "Lib" "/lib.dll",
    .type { id := ownType, name := "Own" }, .type { id := firstType, name := "First" },
    .reference ⟨0⟩ (.ofParts .typeRef 5) firstType]).toOption.getD {}

def lesserRow : Registration := .reference ⟨0⟩ (.ofParts .typeRef 2) firstType

def outrunMiddle : Program := (outrunProgram.enter lesserRow).toOption.getD {}

/-- Row 5 is registered once more, for another type. -/
def reusedRow : Registration := .reference ⟨0⟩ (.ofParts .typeRef 5) secondType

def outrunLater : Program := (outrunMiddle.enter reusedRow).toOption.getD {}

def rowFive : PortableToken := ⟨⟨0⟩, .typeImport, 5⟩

/-- The first type is asked for before and after the registrations.  At last a question fails, and
the type of the bubble is asked for in two modules. -/
def outrunPast : List Query :=
  [⟨firstType, ⟨0⟩, .ok rowFive⟩, ⟨firstType, ⟨0⟩, .ok rowFive⟩, ⟨secondType, ⟨0⟩, .ok rowFive⟩,
    ⟨secondType, ⟨1⟩, .error (.unresolvableReference secondType ⟨1⟩ none)⟩,
    ⟨ownType, ⟨0⟩, .ok ⟨⟨0⟩, .typeLayout, 1⟩⟩, ⟨ownType, ⟨1⟩, .ok ⟨⟨0⟩, .typeLayout, 1⟩⟩]

def outrunLedger : Ledger :=
  (issueAll outrunLater outrunBubble (outrunPast.tail.map fun query => (query.entity, query.origin))
    (issue outrunProgram outrunBubble firstType ⟨0⟩ {}).2).2

theorem history_outrun : History outrunBubble outrunPast outrunLater outrunLedger := by
  have hfirst : History outrunBubble _ outrunProgram _ :=
    (History.start outrunProgram).ask firstType ⟨0⟩
  have hmiddle : outrunProgram.enter lesserRow = .ok outrunMiddle := rfl
  have hlater : outrunMiddle.enter reusedRow = .ok outrunLater := rfl
  have hregistered := (hfirst.register hmiddle).register hlater
  have hasked := ((hregistered.ask firstType ⟨0⟩).ask secondType ⟨0⟩).ask secondType ⟨1⟩
  exact (hasked.ask ownType ⟨0⟩).ask ownType ⟨1⟩

/-- Row 5 goes on standing for the first type, which it was given out for. -/
theorem mirrors_outrun : Mirrors outrunBubble outrunPast outrunLedger ∧
    outrunLedger.table.entries = [⟨⟨⟨0⟩, .typeLayout, 1⟩, ownType⟩, ⟨rowFive, firstType⟩] := by
  have hmirrors := history_outrun.mirrors
  refine ⟨hmirrors, ?_⟩
  cbv

end Outrun

end Ledger

end PortableImage
