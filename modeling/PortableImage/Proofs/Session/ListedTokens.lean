import PortableImage.Proofs.Session.FreshSessions
import PortableImage.Proofs.Session.IssuedTokens
/-!
# Images list their tokens

A backend that quotes tokens puts no token into the code of a method but those it was given for that
method on asking for them.  With such a backend the workspace of a session is covered from the first
root to the last artifact.  The table is taken at the very end, when every token in the image has
been issued, so each of them has its one entry there.
-/

namespace PortableImage

open Relation (ReflTransGen)
open PortableImage.Graph (Analysis Arena Handle)

section Resolved

namespace Dialogue

variable {α σ : Type} (reply : (question : Question) → StateM σ question.Reply)

/-- The token a question for a token is answered with. -/
def token? : (question : Question) → question.Reply → Option PortableToken
  | .portable _, .ok (.token token) => some token
  | _, _ => none

/-- The tokens that a dialogue is given on asking for them. -/
def resolved : Dialogue α → σ → List PortableToken
  | result _, _ => []
  | ask question next, state =>
    (token? question (reply question state).1).toList ++
      resolved (next (reply question state).1) (reply question state).2

/-- Whatever the replies, the code cites only the given tokens and those given on the way. -/
def CitesOnly (given : List PortableToken) : Dialogue (Except Fault Layout) → Prop
  | result answer => ∀ layout, answer = .ok layout → ∀ token, layout.Cites token → token ∈ given
  | ask question next =>
    ∀ answer, CitesOnly (given ++ (token? question answer).toList) (next answer)

theorem CitesOnly.mem_resolved {given : List PortableToken}
    {dialogue : Dialogue (Except Fault Layout)} (h : dialogue.CitesOnly given) {state : σ}
    {layout : Layout} (hlayout : (dialogue.hold reply state).1 = .ok layout)
    {token : PortableToken} (hcites : layout.Cites token) :
    token ∈ given ++ resolved reply dialogue state := by
  induction dialogue generalizing given state with
  | result answer =>
    rw [resolved, List.append_nil]
    exact h layout hlayout token hcites
  | ask question next ih =>
    rw [resolved, ← List.append_assoc]
    exact ih _ (h _) hlayout

end Dialogue

variable {setting : Setting} {method : Entity} {token : PortableToken}

theorem Workspace.eq_of_plan {α : Type} {drafting : Drafting α} {answer : Except Fault α}
    {before after : Workspace} (h : Workspace.plan drafting before = (answer, after)) :
    drafting before.draft = (answer, after.draft) := by
  obtain ⟨hanswer, rfl⟩ := Prod.mk.inj h
  exact Prod.ext hanswer rfl

theorem Answering.eq_of_plan {α : Type} {drafting : Drafting α} {answer : Except Fault α}
    {before after : Desk} (h : Answering.plan drafting before = (answer, after)) :
    drafting before.workspace.draft = (answer, after.workspace.draft) := by
  obtain ⟨hanswer, rfl⟩ := Prod.mk.inj h
  exact Prod.ext hanswer rfl

theorem Answering.issued_of_token? {question : Question} {desk : Desk}
    (h : Dialogue.token? question (reply setting method question desk).1 = some token) :
    (reply setting method question desk).2.workspace.store.ledger.Issued token := by
  unfold Dialogue.token? at h
  split at h
  · rename_i row given hanswer
    obtain rfl := Option.some.inj h
    have hportable : portable setting method row desk =
        (.ok (.token given), (portable setting method row desk).2) := Prod.ext hanswer rfl
    obtain ⟨entity, _, _, hrest⟩ := bind_eq_ok hportable
    obtain ⟨_, middle, _, hrest⟩ := bind_eq_ok hrest
    obtain ⟨issued, later, hplan, hanswer⟩ := bind_eq_ok hrest
    obtain ⟨hgiven, hlater⟩ := Prod.mk.inj hanswer
    cases hgiven
    show (portable setting method row desk).2.workspace.store.ledger.Issued given
    rw [← hlater]
    exact Drafting.issued_of_issueFor (eq_of_plan hplan)
  · cases h

namespace Dialogue

variable {dialogue : Dialogue (Except Fault Layout)}

theorem steps_hold (setting : Setting) (method : Entity)
    (dialogue : Dialogue (Except Fault Layout)) (desk : Desk) :
    ReflTransGen (Desk.Step setting) desk
      (dialogue.hold (Answering.reply setting method) desk).2 := by
  induction dialogue generalizing desk with
  | result answer => exact .refl
  | ask question next ih =>
    exact (Answering.steps_reply setting method question desk).trans (ih _ _)

theorem issued_of_resolved {desk : Desk}
    (h : token ∈ resolved (Answering.reply setting method) dialogue desk) :
    (dialogue.hold (Answering.reply setting method) desk).2.workspace.store.ledger.Issued
      token := by
  induction dialogue generalizing desk with
  | result answer => cases h
  | ask question next ih =>
    rcases List.mem_append.mp h with hnow | hlater
    · have hissued := Answering.issued_of_token? (Option.mem_toList.mp hnow)
      have hrest := steps_hold setting method
        (next (Answering.reply setting method question desk).1)
        (Answering.reply setting method question desk).2
      exact Workspace.issued_of_steps (Desk.workspace_steps hrest) hissued
    · exact ih _ hlater

end Dialogue

end Resolved

/-- While the node was compiled, the code has come to cite no tokens but those that were given for
it on asking for them. -/
def Compiler.QuotesTokensAt (compiler : Compiler) (setting : Setting) (node : Handle)
    (before : Workspace) : Prop :=
  ∀ method needed planned body layout, before.arena.key? node = some (.methodCode method) →
    Workspace.plan (Drafting.needs setting (.methodCode method)) before = (.ok needed, planned) →
    setting.body? method = some body → (compiler.held setting method body planned).1 = .ok layout →
    ∀ token, layout.Cites token →
      token ∈ Dialogue.resolved (Answering.reply setting method) (compiler.dialogue method body)
        ⟨planned, []⟩

theorem Compiler.quotesTokensAt_of_citesOnly {compiler : Compiler} {setting : Setting}
    {node : Handle} {before : Workspace} (h : ∀ method body, setting.body? method = some body →
      (compiler.dialogue method body).CitesOnly []) : compiler.QuotesTokensAt setting node before :=
  fun method _ _ body _ _ _ hbody hheld _ hcites =>
    (h method body hbody).mem_resolved (Answering.reply setting method) hheld hcites

namespace Session

variable {setting : Setting} {compiler : Compiler} {node : Handle} {before after : Workspace}
  {token : PortableToken}

section Expanding

variable {planned worked : Workspace} {method : Entity}

theorem steps_needs {key : ArtifactKey} {answer : Except Fault Graph.Expansion}
    (h : Workspace.plan (Drafting.needs setting key) before = (answer, planned)) :
    ReflTransGen (Workspace.Step setting) before planned := by
  have hsteps := proceeds_plan (Drafting.proceeds_needs setting key) before
  rwa [h] at hsteps

theorem steps_held (compiler : Compiler) (method : Entity) (body : MethodBody)
    (planned : Workspace) :
    ReflTransGen (Workspace.Step setting) planned
      (compiler.held setting method body planned).2.workspace :=
  Desk.workspace_steps
    (Dialogue.steps_hold setting method (compiler.dialogue method body) ⟨planned, []⟩)

theorem steps_compile (hkey : planned.arena.key? node = some (.methodCode method))
    {answer : Except Fault CompiledMethod}
    (hcompile : compiler.compile setting node planned = (answer, worked)) :
    ReflTransGen (Workspace.Step setting) planned worked := by
  rcases compile_eq hkey hcompile with ⟨_, _, rfl⟩ | ⟨body, _, rfl, _⟩
  · exact .refl
  · exact steps_held compiler method body planned

/-- Expanding a node keeps the workspace covered, if the backend quotes tokens there. -/
theorem covered_expand (hcovered : before.Covered setting)
    (hquotes : compiler.QuotesTokensAt setting node before) :
    Workspace.Covered setting (expand compiler setting node before).2 := by
  have houtcome := outcome_expand compiler setting node before
  generalize (expand compiler setting node before).1 = answer,
    (expand compiler setting node before).2 = after at houtcome
  cases houtcome with
  | unknown hkey => exact hcovered
  | unneeded hkey hneeds => exact hcovered.steps (steps_needs hneeds)
  | needed hkey hother hneeds => exact hcovered.steps (steps_needs hneeds)
  | failed hkey hneeds hcompile =>
    exact (hcovered.steps (steps_needs hneeds)).steps
      (steps_compile (key?_planned hkey hneeds) hcompile)
  | compiled hkey hneeds hcompile =>
    rename_i method needed planned compiled worked
    have hplanned := key?_planned hkey hneeds
    have hworked := (hcovered.steps (steps_needs hneeds)).steps (steps_compile hplanned hcompile)
    refine hworked.keep node fun token hcites => ?_
    rcases compile_eq hplanned hcompile with ⟨_, hfault, _⟩ | ⟨body, hbody, rfl, hanswer⟩
    · cases hfault
    · obtain ⟨hheld, _⟩ := hanswer compiled rfl
      exact Dialogue.issued_of_resolved
        (hquotes method needed planned body _ hkey hneeds hbody hheld token hcites)

/-- The workspace is covered, if the backend has quoted tokens in all that was expanded so far. -/
def CoveredAfter (compiler : Compiler) (setting : Setting) (past : List (Handle × Workspace))
    (workspace : Workspace) : Prop :=
  (∀ survey ∈ past, compiler.QuotesTokensAt setting survey.1 survey.2) → workspace.Covered setting

theorem carries_covered (compiler : Compiler) (setting : Setting) :
    (expand compiler setting).Carries (CoveredAfter compiler setting) where
  expand past node workspace h hquotes := by
    refine covered_expand (h fun survey hsurvey => ?_) ?_
    · exact hquotes survey (List.mem_append_left _ hsurvey)
    · exact hquotes (node, workspace) (List.mem_append_right _ (List.mem_singleton_self _))
  rearrange _ _ _ hmoved h hquotes := (h hquotes).of_same hmoved.store hmoved.key?

end Expanding

section Starting

theorem not_importCell_of_rootKeys {root : Root} {key : ArtifactKey}
    (hkey : key ∈ setting.rootKeys root) (token : PortableToken) : key ≠ .importCell token := by
  rintro rfl
  cases root with
  | method entity => cases List.mem_singleton.mp hkey
  | type entity => rcases List.mem_pair.mp hkey with h | h <;> cases h
  | allMethods module =>
    obtain ⟨_, _, hmethod⟩ := List.mem_map.mp hkey
    cases hmethod

theorem steps_internEach {keys : List ArtifactKey}
    (hkeys : ∀ key ∈ keys, ∀ token, key ≠ .importCell token) (workspace : Workspace) :
    ReflTransGen (Workspace.Step setting) workspace
      { workspace with arena := (workspace.arena.internEach keys).2 } := by
  induction keys generalizing workspace with
  | nil => exact .refl
  | cons key keys ih =>
    have hnode : Draft.Step setting workspace.draft
        { workspace.draft with arena := (workspace.arena.intern key).2 } :=
      .node workspace.draft key fun token hcell => absurd hcell (hkeys key List.mem_cons_self token)
    refine .head (.plan workspace hnode) ?_
    exact ih (fun other hother => hkeys other (List.mem_cons_of_mem _ hother)) _

/-- Enlisting roots keeps the workspace covered, for no root asks for the cell of a token. -/
theorem covered_start (hcovered : before.Covered setting) (roots : List Root) :
    Workspace.Covered setting (start setting roots before).toSite := by
  have hrest : ∀ (rest : List Root) (analysis : Analysis ArtifactKey Shelf),
      Workspace.Covered setting analysis.toSite →
      Workspace.Covered setting (rest.foldl (enlist setting) analysis).toSite := by
    intro rest
    induction rest with
    | nil => exact fun analysis h => h
    | cons root rest ih =>
      intro analysis h
      have hcells : ∀ key ∈ setting.rootKeys root, ∀ token, key ≠ .importCell token :=
        fun _ hkey => not_importCell_of_rootKeys hkey
      have hmoved := rearranges_enlist setting analysis root
      exact ih _ ((h.steps (steps_internEach hcells analysis.toSite)).of_same hmoved.store
        hmoved.key?)
  exact hrest roots { toSite := before } hcovered

end Starting

section Emitting

theorem covered_emitNode (hcovered : before.Covered setting) {artifact : EmittedArtifact}
    (h : emitNode setting node before = (.ok artifact, after)) :
    after.Covered setting ∧
      (∀ token, before.store.ledger.Issued token → after.store.ledger.Issued token) ∧
      ∀ token, artifact.Names token → after.store.ledger.Issued token := by
  obtain ⟨planned, hplan, rfl⟩ := exists_planned_of_emitNode h
  have hsteps := proceeds_plan (Drafting.proceeds_emit setting node
    ((before.store.compiled.find? node).map CompiledMethod.toLayout)) before
  rw [hplan] at hsteps
  change ReflTransGen (Workspace.Step setting) before planned at hsteps
  refine ⟨(hcovered.steps hsteps).of_same rfl fun _ => Arena.key?_raise .., ?_, ?_⟩
  · exact fun token hissued =>
      show planned.store.ledger.Issued token from Workspace.issued_of_steps hsteps hissued
  · intro token hnames
    refine Drafting.issued_of_emit hcovered.draft (fun layout hlayout token hcites => ?_)
      (Workspace.eq_of_plan hplan) hnames
    obtain ⟨compiled, hcompiled, rfl⟩ := Option.map_eq_some_iff.mp hlayout
    exact hcovered.code node compiled hcompiled token hcites

theorem covered_emitEach {nodes : List Handle} {artifacts : List EmittedArtifact}
    (hcovered : before.Covered setting)
    (h : nodes.mapM (emitNode setting) before = (.ok artifacts, after)) :
    after.Covered setting ∧
      (∀ token, before.store.ledger.Issued token → after.store.ledger.Issued token) ∧
      ∀ artifact ∈ artifacts, ∀ token, artifact.Names token →
        after.store.ledger.Issued token := by
  induction nodes generalizing before artifacts with
  | nil =>
    rw [List.mapM_nil] at h
    cases h
    exact ⟨hcovered, fun _ => id, fun _ hmem => by cases hmem⟩
  | cons node nodes ih =>
    rw [List.mapM_cons] at h
    obtain ⟨first, middle, hfirst, hrest⟩ := bind_eq_ok h
    obtain ⟨others, later, hothers, hanswer⟩ := bind_eq_ok hrest
    cases hanswer
    obtain ⟨hmiddle, hkept, hnamed⟩ := covered_emitNode hcovered hfirst
    obtain ⟨hafter, hkept', hothersNamed⟩ := ih hmiddle hothers
    refine ⟨hafter, fun token hissued => hkept' token (hkept token hissued), ?_⟩
    intro artifact hmem token hnames
    rcases List.mem_cons.mp hmem with rfl | hmem
    · exact hkept' token (hnamed token hnames)
    · exact hothersNamed artifact hmem token hnames

end Emitting

variable {session finished : Session} {program : Program} {image : Image}

/-- Nothing has been done for the session yet, but it may have been cancelled. -/
def Idle (session : Session) : Prop :=
  ∃ cancelled, session.workspace = { Workspace.empty with cancelled }

theorem idle_of_build {order : Order} (h : order.build program = .ok session) : session.Idle :=
  ⟨false, workspace_of_build h⟩

theorem Idle.cancel (h : session.Idle) : session.cancel.Idle := by
  obtain ⟨_, hworkspace⟩ := h
  exact ⟨true, by rw [Session.cancel, hworkspace]⟩

theorem Idle.covered (h : session.Idle) (setting : Setting) : session.workspace.Covered setting := by
  obtain ⟨_, hworkspace⟩ := h
  rw [hworkspace]
  exact (Workspace.covered_empty setting).of_same rfl fun _ => rfl

/-- The code of every method cites no tokens but those that were given for it on asking for them. -/
def QuotesTokens (session : Session) (program : Program) : Prop :=
  ∀ survey ∈ session.expansions program,
    session.compiler.QuotesTokensAt (session.setting program) survey.1 survey.2

/-- Every token in an image stands in its table, once, and the ledger finds the entity of that entry
for it. -/
theorem lists_of_emit (hidle : session.Idle) (hquotes : session.QuotesTokens program)
    (h : session.emit program = (.ok (.completed image), finished)) :
    ∀ artifact ∈ image.artifacts, ∀ token, artifact.Names token → ∃ entity,
      image.tokens.Lists token entity ∧
        finished.workspace.store.ledger.holder? token = some entity := by
  obtain ⟨analysis, hanalyse, hemit, htable⟩ := exists_emission_of_emit h
  have hstart : CoveredAfter session.compiler (session.setting program) []
      (start (session.setting program) session.roots session.workspace).toSite :=
    fun _ => covered_start (hidle.covered (session.setting program)) session.roots
  have hanalysed : Workspace.Covered (session.setting program) analysis.toSite :=
    (carries_covered session.compiler (session.setting program)).saturate hstart hanalyse hquotes
  obtain ⟨hfinished, _, hnamed⟩ := covered_emitEach hanalysed hemit
  intro artifact hartifact token hnames
  rw [htable]
  exact hfinished.draft.sound.lists_issued (hnamed artifact hartifact token hnames)

section Imports

def typeShape : Entity := ⟨⟨0⟩, ⟨0x02000002⟩⟩
def shapeArea : Entity := ⟨⟨0⟩, ⟨0x06000002⟩⟩
def typeConsole : Entity := ⟨⟨1⟩, ⟨0x02000001⟩⟩

/-- The main method names a type of another module, and the area of a shape is left open. -/
def imports : Program :=
  (Program.assemble [.module "App" "/App.dll", .module "System" "/System.dll",
    .type { id := typeProgram, name := "Program" },
    .type { id := typeShape, name := "Shape" },
    .type { id := typeConsole, name := "Console" },
    .reference ⟨0⟩ ⟨0x01000001⟩ typeConsole,
    .method { id := main, owner := typeProgram, name := "Main", body := some { code := [0x2a] } },
    .method { id := shapeArea, owner := typeShape, name := "Area",
              flags := MethodFlags.dispatched }]).toOption.getD {}

/-- Its code is a pointer to what a row names, whatever the body. -/
def namingBackend (row : Token) : Backend where
  name := "naming"
  compile _ := .ask (.portable row) fun answer =>
    .result (answer.map fun target => Layout.place {} .absolute64 (some target))

def importOrder : Order where
  bubble := ⟨[⟨0⟩], false⟩
  input := "/App.dll"
  backend := some (namingBackend ⟨0x01000001⟩)
  roots := [.method main, .type typeShape]

def importSession : Session where
  bubble := importOrder.bubble
  bodies := .declared
  compiler := ⟨namingBackend ⟨0x01000001⟩, .ofParts .blended []⟩
  roots := importOrder.roots


theorem build_imports : importOrder.build imports = .ok importSession := by
  have hinput : imports.moduleAt? importOrder.input = some ⟨0⟩ := by
    have hmodules : imports.modules = [⟨"App", "/App.dll"⟩, ⟨"System", "/System.dll"⟩] := rfl
    simp [Program.moduleAt?, Program.findModule?, hmodules, importOrder, List.findIdx?_cons]
  have hknown : importOrder.roots.find? (fun root => !root.isKnown imports importOrder.bubble) =
      none := by decide +kernel
  have hroots : importOrder.effectiveRoots ⟨0⟩ = importOrder.roots := rfl
  unfold Order.build
  simp only [hinput, hroots, hknown]
  rfl

theorem emit_imports : ∃ image finished,
    importSession.emit imports = (.ok (.completed image), finished) ∧
    (image.artifacts.flatMap fun artifact =>
        artifact.relocations.map fun relocation => (artifact.key, relocation.symbol)) =
      [(.methodCode main, .token ⟨⟨0⟩, .typeImport, 1⟩),
        (.vtable typeShape, .token ⟨⟨0⟩, .method, 2⟩),
        (.importCell ⟨⟨0⟩, .typeImport, 1⟩, .token ⟨⟨0⟩, .typeImport, 1⟩)] := by
  have hsymbols : (completed? (importSession.emit imports).1).map (fun image =>
      image.artifacts.flatMap fun artifact =>
        artifact.relocations.map fun relocation => (artifact.key, relocation.symbol)) = some
        [(.methodCode main, .token ⟨⟨0⟩, .typeImport, 1⟩),
          (.vtable typeShape, .token ⟨⟨0⟩, .method, 2⟩),
          (.importCell ⟨⟨0⟩, .typeImport, 1⟩, .token ⟨⟨0⟩, .typeImport, 1⟩)] := by cbv
  obtain ⟨image, himage, hsymbols⟩ := Option.map_eq_some_iff.mp hsymbols
  exact ⟨image, _, Prod.ext (eq_of_completed? himage) rfl, hsymbols⟩

theorem citesOnly_naming (row : Token) (request : Request) :
    ((namingBackend row).compile request).CitesOnly [] := by
  intro answer layout hlayout token hcites
  cases answer with
  | error fault => cases hlayout
  | ok target =>
    cases hlayout
    obtain ⟨relocation, hmem, htoken⟩ := hcites
    rw [List.mem_singleton.mp hmem] at htoken
    cases htoken
    exact List.mem_singleton_self token

theorem quotesTokens_imports : importSession.QuotesTokens imports :=
  fun _ _ => Compiler.quotesTokensAt_of_citesOnly fun _ _ _ => citesOnly_naming _ _

/-- The code names the type, the table of the shape its open area, and the cell the type again. -/
theorem lists_of_emit_imports : ∃ image finished, importOrder.build imports = .ok importSession ∧
    importSession.Idle ∧ importSession.QuotesTokens imports ∧
    importSession.emit imports = (.ok (.completed image), finished) ∧
    (image.artifacts.flatMap fun artifact =>
        artifact.relocations.map fun relocation => (artifact.key, relocation.symbol)) =
      [(.methodCode main, .token ⟨⟨0⟩, .typeImport, 1⟩),
        (.vtable typeShape, .token ⟨⟨0⟩, .method, 2⟩),
        (.importCell ⟨⟨0⟩, .typeImport, 1⟩, .token ⟨⟨0⟩, .typeImport, 1⟩)] ∧
    ∀ artifact ∈ image.artifacts, ∀ token, artifact.Names token → ∃ entity,
      image.tokens.Lists token entity ∧
        finished.workspace.store.ledger.holder? token = some entity := by
  obtain ⟨image, finished, hemit, hsymbols⟩ := emit_imports
  have hidle := idle_of_build build_imports
  exact ⟨image, finished, build_imports, hidle, quotesTokens_imports, hemit, hsymbols,
    lists_of_emit hidle quotesTokens_imports hemit⟩

end Imports

end Session

end PortableImage
