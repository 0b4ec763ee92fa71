import PortableImage.Proofs.Portable.LocalTokens
import PortableImage.Proofs.Portable.TypeSignatures
import PortableImage.Proofs.Session.AgreeingPlans
import PortableImage.Proofs.Session.Faults
/-!
# The way of a reference

A reference to a field of the bubble leads on to the owner of the field, and so on until the way ends
at something else.  All that is done on the way is to ask for the tokens of what is passed.  Only at
the end of the way a single artifact gets a node, unless it has one; and if some entity on the way has
no token, the arena is left as it was.
-/

namespace PortableImage

open PortableImage.Graph (Arena Handle Node)

variable {bubble : Bubble} {program : Program} {ledger : Ledger} {setting : Setting}
  {requester : ArtifactKey} {entity owner : Entity} {origin : ModuleIndex} {token : PortableToken}
  {way : List Entity} {draft : Draft}

namespace Ledger

/-- A module asks for the tokens of entities one after another. -/
def askEach (program : Program) (bubble : Bubble) (origin : ModuleIndex) (entities : List Entity)
    (ledger : Ledger) : Ledger :=
  (issueAll program bubble (entities.map fun entity => (entity, origin)) ledger).2

theorem issue_fst_askEach (entities : List Entity) (ledger : Ledger) (other : Entity)
    (origin' : ModuleIndex) :
    (issue program bubble other origin' (askEach program bubble origin entities ledger)).1 =
      (issue program bubble other origin' ledger).1 := by
  induction entities generalizing ledger with
  | nil => rfl
  | cons entity entities ih =>
    exact (ih _).trans (issue_fst_issue program bubble other entity origin' origin ledger)

theorem token?_askEach {home : ModuleIndex} {other : Entity}
    (h : ledger.token? home other = some token) (entities : List Entity) :
    (askEach program bubble origin entities ledger).token? home other = some token := by
  induction entities generalizing ledger with
  | nil => exact h
  | cons entity entities ih => exact ih (token?_issue h program bubble entity origin)

/-- Who has got a token when asked for first has it recorded in the end. -/
theorem token?_askEach_of_mem {entities : List Entity} (hmem : entity ∈ entities)
    (h : (issue program bubble entity origin ledger).1 = .ok token) :
    (askEach program bubble origin entities ledger).token? (bubble.home entity origin) entity =
      some token := by
  induction entities generalizing ledger with
  | nil => cases hmem
  | cons first entities ih =>
    rcases List.mem_cons.mp hmem with rfl | hmem
    · exact token?_askEach (token?_of_issue h) entities
    · refine ih hmem ?_
      rw [issue_fst_issue, h]

theorem Service.askEach (h : Service bubble program ledger) (entities : List Entity) :
    Service bubble program (askEach program bubble origin entities ledger) := by
  induction entities generalizing ledger with
  | nil => exact h
  | cons entity entities ih => exact ih (h.ask entity origin)

/-- An entity of the bubble that has a token is registered, also if the token is remembered. -/
theorem Service.contains_of_issue (h : Service bubble program ledger)
    (hinside : bubble.contains entity)
    (hissue : (issue program bubble entity origin ledger).1 = .ok token) :
    program.contains entity := by
  obtain ⟨hkept, hsupported⟩ := h.supported
  rcases issue_cases program bubble entity origin ledger with
    ⟨given, hfind, _⟩ | ⟨given, _, hgiven, _⟩ | ⟨fault, _, hfault⟩
  · exact (hsupported _ _ _ hfind).registered hinside
  · exact (supported_of_portableToken hkept hgiven).registered hinside
  · rw [hfault] at hissue
    cases hissue

/-- What a host has done with a ledger is a history of it. -/
theorem Service.exists_history (h : Service bubble program ledger) :
    ∃ past, History bubble past program ledger := by
  induction h with
  | start => exact ⟨[], .start {}⟩
  | @register program ledger registration _ ih =>
    obtain ⟨past, hpast⟩ := ih
    rcases program.register_cases registration with henter | hsame
    · exact ⟨past, hpast.register henter⟩
    · exact ⟨past, by rwa [hsame]⟩
  | ask entity origin _ ih =>
    obtain ⟨past, hpast⟩ := ih
    exact ⟨_, hpast.ask entity origin⟩

/-- Throughout the service of a ledger its table covers every token that is recorded. -/
theorem Service.exists_entry (h : Service bubble program ledger) {home : ModuleIndex}
    (hfind : ledger.token? home entity = some token) :
    ∃ entry ∈ ledger.table.entries, entry.token = token := by
  obtain ⟨past, hpast⟩ := h.exists_history
  obtain ⟨query, hquery, _, hanswer⟩ := hpast.recalls.query _ _ _ hfind
  exact (hpast.mirrors.listed token).mpr ⟨query, hquery, hanswer⟩

end Ledger

/-- A new key adds a node about which nothing has been decided, and a known one adds nothing. -/
theorem Graph.Arena.nodes_intern {κ : Type} [DecidableEq κ] (arena : Arena κ) (key : κ) :
    (arena.intern key).2.nodes =
      arena.nodes ++ (if arena.find? key = none then [{ key }] else [] : List (Node κ)) := by
  unfold intern
  split
  · rename_i node hfind
    rw [if_neg (by rw [hfind]; exact Option.some_ne_none node), List.append_nil]
  · rename_i hfind
    rw [if_pos hfind]
    rfl

namespace Setting

/-- Whether an entity is a field of the bubble. -/
def isInnerField (setting : Setting) (entity : Entity) : Bool :=
  setting.bubble.contains entity && entity.kind? = some .field

theorem isInnerField_iff : setting.isInnerField entity ↔
    setting.bubble.contains entity ∧ entity.kind? = some .field := by
  rw [isInnerField, Bool.and_eq_true, decide_eq_true_eq]

/-- The owner of a field of the bubble, if the field is described. -/
def owner? (setting : Setting) (entity : Entity) : Option Entity :=
  if setting.isInnerField entity then
    (setting.program.field? entity).map FieldDescription.owner
  else none

theorem owner?_eq_some_iff : setting.owner? entity = some owner ↔
    setting.isInnerField entity ∧
      ∃ field, setting.program.field? entity = some field ∧ field.owner = owner := by
  unfold owner?
  split
  · rename_i hfield
    rw [Option.map_eq_some_iff, and_iff_right hfield]
  · rename_i hfield
    exact iff_of_false (fun h => by cases h) fun h => hfield h.1

/-- From an entity to the owner of each field of the bubble, until there is none to go on to.  An
entity from which this does not end has no way. -/
inductive OwnerWay (setting : Setting) : Entity → List Entity → Prop
  | stop {entity : Entity} (h : setting.owner? entity = none) : OwnerWay setting entity [entity]
  | climb {entity owner : Entity} {way : List Entity} (h : setting.owner? entity = some owner)
      (hway : OwnerWay setting owner way) : OwnerWay setting entity (entity :: way)

/-- What makes a reference valid whose way ends at an entity with a token. -/
def anchorKey (setting : Setting) (entity : Entity) (token : PortableToken) : ArtifactKey :=
  if setting.bubble.contains entity then
    match entity.kind? with
    | some .type => .typeLayout entity
    | some .method => if setting.hasBody entity then .methodCode entity else .signature entity
    | _ => .signature entity
  else .importCell token

theorem OwnerWay.unique {other : List Entity} (h : setting.OwnerWay entity way)
    (hother : setting.OwnerWay entity other) : way = other := by
  induction h generalizing other with
  | stop h =>
    cases hother with
    | stop _ => rfl
    | climb h' _ => rw [h] at h'; cases h'
  | climb h _ ih =>
    cases hother with
    | stop h' => rw [h] at h'; cases h'
    | climb h' hway' =>
      obtain rfl := Option.some.inj (h.symm.trans h')
      rw [ih hway']

/-- From each entity on a way the rest of the way goes on. -/
theorem OwnerWay.exists_suffix (h : setting.OwnerWay entity way) {other : Entity}
    (hmem : other ∈ way) : ∃ rest, setting.OwnerWay other rest ∧ rest <:+ way := by
  induction h with
  | @stop entity h =>
    obtain rfl := List.mem_singleton.mp hmem
    exact ⟨_, .stop h, List.suffix_refl _⟩
  | climb h hway ih =>
    rcases List.mem_cons.mp hmem with rfl | hmem
    · exact ⟨_, .climb h hway, List.suffix_refl _⟩
    · obtain ⟨rest, hrest, hsuffix⟩ := ih hmem
      exact ⟨rest, hrest, hsuffix.trans (List.suffix_cons _ _)⟩

/-- No way comes back to where it started. -/
theorem OwnerWay.not_mem (h : setting.owner? entity = some owner)
    (hway : setting.OwnerWay owner way) : entity ∉ way := by
  intro hmem
  obtain ⟨rest, hrest, hsuffix⟩ := hway.exists_suffix hmem
  have hlength := hsuffix.length_le
  rw [hrest.unique (.climb h hway), List.length_cons] at hlength
  omega

end Setting

namespace Draft

/-- What a draft answers a module that asks for the token of an entity. -/
def resolve (setting : Setting) (origin : ModuleIndex) (draft : Draft) (entity : Entity) :
    Except Fault PortableToken :=
  (draft.ledger.issue setting.program setting.bubble entity origin).1

/-- The draft after a module has asked for the tokens of entities one after another. -/
def askEach (setting : Setting) (origin : ModuleIndex) (entities : List Entity) (draft : Draft) :
    Draft :=
  { draft with
    ledger := draft.ledger.askEach setting.program setting.bubble origin entities }

/-- A reference can pass an entity that has a token, and that is described if it is a field of the
bubble. -/
structure Passes (setting : Setting) (origin : ModuleIndex) (draft : Draft) (entity : Entity) :
    Prop where
  token : ∃ token, draft.resolve setting origin entity = .ok token
  described : setting.isInnerField entity → (setting.program.field? entity).isSome

theorem resolve_askEach (entities : List Entity) (draft : Draft) (other : Entity) :
    (draft.askEach setting origin entities).resolve setting origin other =
      draft.resolve setting origin other :=
  Ledger.issue_fst_askEach entities draft.ledger other origin

theorem passes_askEach_iff (entities : List Entity) (draft : Draft) (other : Entity) :
    (draft.askEach setting origin entities).Passes setting origin other ↔
      draft.Passes setting origin other := by
  constructor
  · rintro ⟨htoken, hdescribed⟩
    exact ⟨resolve_askEach entities draft other ▸ htoken, hdescribed⟩
  · rintro ⟨htoken, hdescribed⟩
    exact ⟨(resolve_askEach entities draft other).symm ▸ htoken, hdescribed⟩

end Draft

namespace Drafting

open Draft (Passes)

variable {unmet : Bindings Entity FieldDescription} {fault : Fault}

theorem issueFor_of_resolve (h : draft.resolve setting origin entity = .ok token) :
    issueFor setting requester entity origin draft =
      (.ok token, draft.askEach setting origin [entity]) := by
  have hissue : (issue setting entity origin draft).1 = .ok token := h
  rw [issueFor_eq, hissue]
  rfl

/-- A question without an answer changes nothing. -/
theorem issueFor_of_resolve_error (h : draft.resolve setting origin entity = .error fault) :
    issueFor setting requester entity origin draft =
      (.error (fault.requestedBy requester), draft) := by
  have hissue : (issue setting entity origin draft).1 = .error fault := h
  have hsame : (issue setting entity origin draft).2 = draft := by
    rcases Ledger.issue_cases setting.program setting.bubble entity origin draft.ledger with
      ⟨token, _, hanswer⟩ | ⟨token, _, _, hanswer⟩ | ⟨_, _, hanswer⟩
    · cases h.symm.trans (congrArg Prod.fst hanswer)
    · cases h.symm.trans (congrArg Prod.fst hanswer)
    · rw [issue, hanswer]
  rw [issueFor_eq, hissue, hsame]
  rfl

section Steps

theorem anchorAmong_of_resolve_error (h : draft.resolve setting origin entity = .error fault) :
    anchorAmong unmet setting requester entity origin draft =
      (.error (fault.requestedBy requester), draft) := by
  rw [anchorAmong, bind_of_error (issueFor_of_resolve_error h)]

/-- At the end of its way a reference asks for the node of its anchor. -/
theorem anchorAmong_of_stop (htoken : draft.resolve setting origin entity = .ok token)
    (hstop : setting.owner? entity = none)
    (hdescribed : setting.isInnerField entity → (setting.program.field? entity).isSome)
    (hkind : setting.bubble.contains entity → entity.kind? ≠ none) :
    anchorAmong unmet setting requester entity origin draft =
      node (setting.anchorKey entity token) (draft.askEach setting origin [entity]) := by
  rw [anchorAmong, bind_of_ok (issueFor_of_resolve htoken), Setting.anchorKey]
  by_cases hinside : setting.bubble.contains entity
  · rw [if_pos hinside, if_pos hinside]
    cases hfound : entity.kind? with
    | none => exact absurd hfound (hkind hinside)
    | some kind =>
      cases kind with
      | type => rfl
      | method => split <;> rfl
      | signature => rfl
      | field =>
        -- A field of the bubble is described, so that the way would go on.
        have hfield := Setting.isInnerField_iff.mpr ⟨hinside, hfound⟩
        obtain ⟨field, hfield'⟩ := Option.isSome_iff_exists.mp (hdescribed hfield)
        have hclimb := Setting.owner?_eq_some_iff.mpr ⟨hfield, field, hfield', rfl⟩
        rw [hstop] at hclimb
        cases hclimb
  · rw [if_neg hinside, if_neg hinside]

/-- Before that it goes on to the owner, for which the field has been met. -/
theorem anchorAmong_of_climb (htoken : draft.resolve setting origin entity = .ok token)
    (hclimb : setting.owner? entity = some owner)
    (hunmet : unmet.find? entity = setting.program.field? entity) :
    anchorAmong unmet setting requester entity origin draft =
      anchorAmong (unmet.erase entity) setting requester owner origin
        (draft.askEach setting origin [entity]) := by
  obtain ⟨hfield, field, hfound, rfl⟩ := Setting.owner?_eq_some_iff.mp hclimb
  obtain ⟨hinside, hkind⟩ := Setting.isInnerField_iff.mp hfield
  rw [anchorAmong, bind_of_ok (issueFor_of_resolve htoken), if_pos hinside]
  simp only [hkind]
  refine congrFun ?_ (draft.askEach setting origin [entity])
  split
  · rename_i other hother
    rw [Option.some.inj ((hunmet.trans hfound).symm.trans hother)]
  · rename_i hnone
    cases (hunmet.trans hfound).symm.trans hnone

end Steps

/-- How a reference comes to its end: at the last entity of its way, or at the first one that has no
token. -/
inductive Course (setting : Setting) (requester : ArtifactKey) (origin : ModuleIndex) (draft : Draft)
    (way : List Entity) : Except Fault Handle × Draft → Prop
  | arrives {last : Entity} {token : PortableToken} (hlast : way.getLast? = some last)
      (htoken : draft.resolve setting origin last = .ok token)
      (hpasses : ∀ other ∈ way, draft.Passes setting origin other) :
      Course setting requester origin draft way
        (node (setting.anchorKey last token) (draft.askEach setting origin way))
  | fails {passed rest : List Entity} {other : Entity} {fault : Fault}
      (hway : way = passed ++ other :: rest)
      (hpasses : ∀ former ∈ passed, draft.Passes setting origin former)
      (hfault : draft.resolve setting origin other = .error fault) :
      Course setting requester origin draft way
        (.error (fault.requestedBy requester), draft.askEach setting origin passed)

/-- What comes after an entity that can be passed comes after it all the same. -/
theorem Course.cons {run : Except Fault Handle × Draft}
    (h : Course setting requester origin (draft.askEach setting origin [entity]) way run)
    (hpasses : draft.Passes setting origin entity) :
    Course setting requester origin draft (entity :: way) run := by
  cases h with
  | @arrives last token hlast htoken hway =>
    have hlater : (draft.askEach setting origin [entity]).resolve setting origin last =
        draft.resolve setting origin last := Draft.resolve_askEach [entity] draft last
    refine .arrives (by rw [List.getLast?_cons, hlast]; rfl) (hlater ▸ htoken) ?_
    exact List.forall_mem_cons.mpr
      ⟨hpasses, fun other hother => (Draft.passes_askEach_iff _ _ _).mp (hway other hother)⟩
  | @fails passed rest other fault hway hpassed hfault =>
    rw [Draft.resolve_askEach] at hfault
    have hlonger : entity :: way = (entity :: passed) ++ other :: rest := congrArg _ hway
    refine .fails hlonger ?_ hfault
    exact List.forall_mem_cons.mpr
      ⟨hpasses, fun former hformer => (Draft.passes_askEach_iff _ _ _).mp (hpassed former hformer)⟩

section Service

/-- A ledger in service has tokens for registered entities of the bubble only, so that a field with
a token is described. -/
theorem passes_of_resolve
    (hservice : Ledger.Service setting.bubble setting.program draft.ledger)
    (h : draft.resolve setting origin entity = .ok token) : draft.Passes setting origin entity := by
  refine ⟨⟨token, h⟩, fun hfield => ?_⟩
  obtain ⟨hinside, hkind⟩ := Setting.isInnerField_iff.mp hfield
  have hregistered := hservice.contains_of_issue hinside h
  rw [Program.contains, hkind] at hregistered
  exact hregistered

theorem kind?_ne_none_of_resolve
    (hservice : Ledger.Service setting.bubble setting.program draft.ledger)
    (h : draft.resolve setting origin entity = .ok token)
    (hinside : setting.bubble.contains entity) : entity.kind? ≠ none := by
  obtain ⟨kind, hkind⟩ := Program.exists_kind_of_contains (hservice.contains_of_issue hinside h)
  rw [hkind]
  exact Option.some_ne_none kind

/-- Along a way that ends, a reference takes its course, if no field of the way has been met. -/
theorem course_anchorAmong (hway : setting.OwnerWay entity way)
    (hservice : Ledger.Service setting.bubble setting.program draft.ledger)
    (hunmet : ∀ other ∈ way, unmet.find? other = setting.program.field? other) :
    Course setting requester origin draft way
      (anchorAmong unmet setting requester entity origin draft) := by
  induction hway generalizing unmet draft with
  | @stop entity hstop =>
    cases hresolve : draft.resolve setting origin entity with
    | error fault =>
      rw [anchorAmong_of_resolve_error hresolve]
      exact .fails (List.nil_append _).symm (List.forall_mem_nil _) hresolve
    | ok token =>
      have hpasses := passes_of_resolve hservice hresolve
      rw [anchorAmong_of_stop hresolve hstop hpasses.described
        (kind?_ne_none_of_resolve hservice hresolve)]
      exact .arrives rfl hresolve (List.forall_mem_singleton.mpr hpasses)
  | @climb entity owner way hclimb hway ih =>
    cases hresolve : draft.resolve setting origin entity with
    | error fault =>
      rw [anchorAmong_of_resolve_error hresolve]
      exact .fails (List.nil_append _).symm (List.forall_mem_nil _) hresolve
    | ok token =>
      obtain ⟨hfound, hrest⟩ := List.forall_mem_cons.mp hunmet
      rw [anchorAmong_of_climb hresolve hclimb hfound]
      refine (ih (hservice.askEach [entity]) fun other hother => ?_).cons
        (passes_of_resolve hservice hresolve)
      -- The field that has been met does not come again.
      rw [Bindings.find?_erase, if_neg, hrest other hother]
      rintro rfl
      exact Setting.OwnerWay.not_mem hclimb hway hother

theorem course_anchor (hway : setting.OwnerWay entity way)
    (hservice : Ledger.Service setting.bubble setting.program draft.ledger) :
    Course setting requester origin draft way (anchor setting requester entity origin draft) :=
  course_anchorAmong hway hservice fun _ _ => rfl

end Service

/-- A draft with the node of a key, which is the only node it may have gained. -/
structure Found (draft : Draft) (key : ArtifactKey) (node : Handle) (after : Draft) : Prop where
  only : ∀ handle, after.arena.key? handle = some key ↔ handle = node
  nodes : after.arena.nodes = draft.arena.nodes ++
    (if draft.arena.find? key = none then [{ key }] else [] : List (Node ArtifactKey))
  progress : ∀ handle, after.arena.progress handle = draft.arena.progress handle

/-- The token of the entity is recorded, and the table of tokens covers it. -/
def Tokenized (setting : Setting) (origin : ModuleIndex) (draft after : Draft) (entity : Entity) :
    Prop :=
  ∃ token, draft.resolve setting origin entity = .ok token ∧
    after.ledger.token? (setting.bubble.home entity origin) entity = some token ∧
    ∃ entry ∈ after.ledger.table.entries, entry.token = token

/-- A reference finds its anchor if all of its way can be passed, and creates nothing else. -/
structure Exact (setting : Setting) (requester : ArtifactKey) (origin : ModuleIndex) (draft : Draft)
    (way : List Entity) (run : Except Fault Handle × Draft) : Prop where
  succeeds : (∃ node, run.1 = .ok node) ↔ ∀ other ∈ way, draft.Passes setting origin other
  /-- The anchor is that of the last entity on the way. -/
  found : ∀ node, run.1 = .ok node → ∃ last token, way.getLast? = some last ∧
    draft.resolve setting origin last = .ok token ∧
    Found draft (setting.anchorKey last token) node run.2
  tokenized : ∀ node, run.1 = .ok node → ∀ other ∈ way, Tokenized setting origin draft run.2 other
  /-- The fault is that of the first entity on the way that cannot be passed. -/
  first : ∀ fault, run.1 = .error fault → ∃ passed other rest cause,
    way = passed ++ other :: rest ∧ (∀ former ∈ passed, draft.Passes setting origin former) ∧
    draft.resolve setting origin other = .error cause ∧ fault = cause.requestedBy requester
  requested : ∀ entity module named, run.1 = .error (.unresolvableReference entity module named) →
    named = some requester
  arena : ∀ fault, run.1 = .error fault → run.2.arena = draft.arena

theorem found_node (key : ArtifactKey) (draft later : Draft) (h : later.arena = draft.arena) :
    ∃ found after, node key later = (.ok found, after) ∧ after.ledger = later.ledger ∧
      Found draft key found after := by
  refine ⟨_, _, rfl, rfl, ?_, ?_, ?_⟩
  · intro handle
    refine ⟨fun hkey => Graph.Arena.eq_of_key? hkey (Graph.Arena.key?_intern _ _), ?_⟩
    rintro rfl
    exact Graph.Arena.key?_intern _ _
  · rw [← h]
    exact Graph.Arena.nodes_intern _ _
  · intro handle
    rw [← h]
    exact Graph.Arena.progress_intern _ _ _

/-- A reference that has come to its end has found one anchor, or left the arena alone. -/
theorem Course.exact {run : Except Fault Handle × Draft}
    (h : Course setting requester origin draft way run)
    (hservice : Ledger.Service setting.bubble setting.program draft.ledger)
    (hblames : FailsOnly (Fault.Blames setting (some requester)) run.1) :
    Exact setting requester origin draft way run := by
  have hrequested (entity : Entity) (module : ModuleIndex) (named : Option ArtifactKey)
      (hfault : run.1 = .error (.unresolvableReference entity module named)) :
      named = some requester :=
    (hblames _ hfault entity module named rfl).1
  cases h with
  | @arrives last token hlast htoken hpasses =>
    obtain ⟨found, after, hrun, hledger, hfound⟩ :=
      found_node (setting.anchorKey last token) draft (draft.askEach setting origin way) rfl
    rw [hrun] at hrequested ⊢
    refine { succeeds := iff_of_true ⟨found, rfl⟩ hpasses, found := ?anchor, tokenized := ?tokens,
             first := fun _ h => (by cases h), requested := hrequested,
             arena := fun _ h => (by cases h) }
    case anchor =>
      intro node hnode
      obtain rfl := Except.ok.inj hnode
      exact ⟨last, token, hlast, htoken, hfound⟩
    case tokens =>
      intro _ _ other hother
      obtain ⟨given, hgiven⟩ := (hpasses other hother).token
      have hrecorded := Ledger.token?_askEach_of_mem hother hgiven
      have hentry := (hservice.askEach way).exists_entry hrecorded
      exact ⟨given, hgiven, hledger ▸ hrecorded, hledger ▸ hentry⟩
  | @fails passed rest other cause hway hpasses hcause =>
    refine { succeeds := iff_of_false (fun ⟨_, h⟩ => by cases h) fun hall => ?_,
             found := fun _ h => (by cases h), tokenized := fun _ h => (by cases h), first := ?_,
             requested := hrequested, arena := fun _ _ => rfl }
    · obtain ⟨token, htoken⟩ := (hall other (by simp [hway])).token
      cases hcause.symm.trans htoken
    · intro fault hfault
      exact ⟨passed, other, rest, cause, hway, hpasses, hcause, (Except.error.inj hfault).symm⟩

/-- Whatever is registered and asked beforehand, and whatever nodes there are: a reference whose way
ends finds its anchor exactly if everything on the way has a token and every field of the bubble on it
is described. -/
theorem exact_anchor (hservice : Ledger.Service setting.bubble setting.program draft.ledger)
    (hway : setting.OwnerWay entity way) (requester : ArtifactKey) (origin : ModuleIndex) :
    Exact setting requester origin draft way (anchor setting requester entity origin draft) :=
  (course_anchor hway hservice).exact hservice ((made_anchor entity origin).blaming draft)

section NestedFields

def innerField : Entity := ⟨⟨0⟩, .ofParts .field 1⟩

def outerField : Entity := ⟨⟨0⟩, .ofParts .field 2⟩

def farType : Entity := ⟨⟨1⟩, .ofParts .typeDef 1⟩

/-- A field of the bubble that is owned by another, which is owned by a type outside. -/
def nested : Setting where
  program := ({} : Program).registerAll [.module "App" "/app.dll", .module "Lib" "/lib.dll",
    .field { id := innerField, owner := outerField, name := "inner" },
    .field { id := outerField, owner := farType, name := "outer" },
    .reference ⟨0⟩ (.ofParts .typeRef 3) farType]
  bubble := ⟨[⟨0⟩], false⟩
  bodies := .declared

/-- One of the fields has been asked for, and an artifact has been marked. -/
def nestedDraft : Draft where
  ledger := (Ledger.issue nested.program nested.bubble outerField ⟨0⟩ {}).2
  arena := ((∅ : Arena ArtifactKey).intern (.vtable farType)).2.raise ⟨0⟩ .marked

theorem service_nested : Ledger.Service nested.bubble nested.program nestedDraft.ledger :=
  (Ledger.Service.start.registerAll _).ask outerField ⟨0⟩

theorem ownerWay_nested : nested.OwnerWay innerField [innerField, outerField, farType] :=
  .climb (by decide +kernel) (.climb (by decide +kernel) (.stop (by decide +kernel)))

/-- From the module with the row, the cell for the type outside is found.  From the other one there is
no way past that type, and only the tokens of the fields remain. -/
theorem exact_nested :
    (∃ node, (anchor nested (.vtable farType) innerField ⟨0⟩ nestedDraft).1 = .ok node ∧
      Found nestedDraft (.importCell ⟨⟨0⟩, .typeImport, 3⟩) node
        (anchor nested (.vtable farType) innerField ⟨0⟩ nestedDraft).2) ∧
    (anchor nested (.vtable farType) innerField ⟨1⟩ nestedDraft).1 =
      .error (.unresolvableReference farType ⟨1⟩ (some (.vtable farType))) ∧
    (anchor nested (.vtable farType) innerField ⟨1⟩ nestedDraft).2.arena = nestedDraft.arena := by
  have hnear := exact_anchor service_nested ownerWay_nested (.vtable farType) ⟨0⟩
  have hfar := exact_anchor service_nested ownerWay_nested (.vtable farType) ⟨1⟩
  have htoken : nestedDraft.resolve nested ⟨0⟩ farType = .ok ⟨⟨0⟩, .typeImport, 3⟩ := by
    decide +kernel
  have hpasses : ∀ other ∈ [innerField, outerField, farType], nestedDraft.Passes nested ⟨0⟩ other := by
    refine List.forall_mem_cons.mpr ⟨⟨⟨⟨⟨0⟩, .field, 1⟩, by decide +kernel⟩, by decide +kernel⟩, ?_⟩
    refine List.forall_mem_cons.mpr ⟨⟨⟨⟨⟨0⟩, .field, 2⟩, by decide +kernel⟩, by decide +kernel⟩, ?_⟩
    exact List.forall_mem_singleton.mpr ⟨⟨_, htoken⟩, by decide +kernel⟩
  have hfault : (anchor nested (.vtable farType) innerField ⟨1⟩ nestedDraft).1 =
      .error (.unresolvableReference farType ⟨1⟩ (some (.vtable farType))) := by
    cbv
  obtain ⟨node, hnode⟩ := hnear.succeeds.mpr hpasses
  obtain ⟨last, token, hlast, hgiven, hfound⟩ := hnear.found node hnode
  obtain rfl : farType = last := Option.some.inj hlast
  obtain rfl := Except.ok.inj (htoken.symm.trans hgiven)
  exact ⟨⟨node, hnode, hfound⟩, hfault, hfar.arena _ hfault⟩

end NestedFields

end Drafting

end PortableImage
