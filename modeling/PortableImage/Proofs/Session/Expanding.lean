import PortableImage.Proofs.Session.Answers
import PortableImage.Session.Run
/-!
# How a session expands

The expander of a session creates nodes at most, and names only nodes that exist.  For the code of a
method it needs whatever the backend's questions have had noted, whether they could be answered or
not; `Dialogue.asked` lists these questions, each with the desk at which it was asked.  `Outcome` says
once what an expansion can come to.
-/

namespace PortableImage

open PortableImage.Graph (Arena Dependency Expander Expansion Handle)

namespace Dialogue

variable {α σ : Type} (reply : (question : Question) → StateM σ question.Reply)

/-- The questions of a dialogue, each with the state in which it is asked. -/
def asked : Dialogue α → σ → List (Question × σ)
  | result _, _ => []
  | ask question next, state =>
    (question, state) :: asked (next (reply question state).1) (reply question state).2

variable [Preorder σ] {reply}

theorem le_hold (hreply : ∀ question state, state ≤ (reply question state).2)
    (dialogue : Dialogue α) (state : σ) : state ≤ (dialogue.hold reply state).2 := by
  induction dialogue generalizing state with
  | result value => exact le_refl state
  | ask question next ih => exact (hreply question state).trans (ih _ _)

/-- What a question leaves behind is there in the end. -/
theorem le_hold_of_mem_asked (hreply : ∀ question state, state ≤ (reply question state).2)
    {dialogue : Dialogue α} {start state : σ} {question : Question}
    (h : (question, state) ∈ dialogue.asked reply start) :
    (reply question state).2 ≤ (dialogue.hold reply start).2 := by
  induction dialogue generalizing start with
  | result value => cases h
  | ask first next ih =>
    rcases List.mem_cons.mp h with h | h
    · obtain ⟨rfl, rfl⟩ := Prod.mk.inj h
      exact le_hold hreply _ _
    · exact ih _ h

end Dialogue

namespace Compiler

variable {pre : Workspace → Prop} (compiler : Compiler) (setting : Setting)

def dialogue (method : Entity) (body : MethodBody) : Dialogue (Except Fault Layout) :=
  compiler.backend.compile ⟨method, method.module, body, compiler.settings⟩

def held (method : Entity) (body : MethodBody) (workspace : Workspace) :
    Except Fault Layout × Desk :=
  (compiler.dialogue method body).hold (Answering.reply setting method) ⟨workspace, []⟩

theorem converse_eq (method : Entity) (body : MethodBody) (workspace : Workspace) :
    compiler.converse setting method body workspace =
      match (compiler.held setting method body workspace).1 with
      | .ok layout =>
        (.ok { layout with dependencies := (compiler.held setting method body workspace).2.noted },
          (compiler.held setting method body workspace).2.workspace)
      | .error fault =>
        (.error (blame method fault), (compiler.held setting method body workspace).2.workspace) :=
  rfl

theorem le_held (method : Entity) (body : MethodBody) (workspace : Workspace) :
    ⟨workspace, []⟩ ≤ (compiler.held setting method body workspace).2 :=
  Dialogue.le_hold (Answering.le_reply setting method) _ _

theorem yields_converse (method : Entity) (body : MethodBody) :
    Yields pre (compiler.converse setting method body) fun compiled workspace =>
      ∀ dependency ∈ compiled.dependencies, Drafting.Leads dependency workspace.draft := by
  intro workspace _
  obtain ⟨hgrows, added, hadded, hexists⟩ := compiler.le_held setting method body workspace
  rw [List.nil_append] at hadded
  rw [converse_eq]
  cases (compiler.held setting method body workspace).1 with
  | error fault => exact ⟨hgrows, fun _ hvalue => by cases hvalue⟩
  | ok layout =>
    refine ⟨hgrows, fun compiled hcompiled later hlater dependency hmem => ?_⟩
    obtain rfl := Except.ok.inj hcompiled
    apply (Arena.Grows.keeps hlater).isSome
    apply hexists
    rwa [← hadded]

theorem yields_keyOf (node : Handle) :
    Yields pre (Workspace.plan (Drafting.keyOf node)) fun key workspace =>
      workspace.arena.key? node = some key :=
  yields_plan (Drafting.yields_keyOf node)

theorem yields_compile (node : Handle) :
    Yields pre (compiler.compile setting node) fun compiled workspace =>
      ∀ dependency ∈ compiled.dependencies, Drafting.Leads dependency workspace.draft := by
  apply (yields_keyOf node).bind
  intro key
  split
  · split
    · exact Yields.throw _
    · apply (compiler.yields_converse setting _ _).bind
      intro compiled
      split
      · exact Yields.pure fun _ h => h.2
      · exact Yields.throw _
  · exact Yields.throw _

end Compiler

/-- The workspace in which the code compiled for a node is kept. -/
def Workspace.keep (workspace : Workspace) (node : Handle) (compiled : CompiledMethod) :
    Workspace :=
  { workspace with store := { workspace.store with
      compiled := workspace.store.compiled.put node compiled } }

theorem Workspace.find?_keep (workspace : Workspace) (node other : Handle)
    (compiled : CompiledMethod) : (workspace.keep node compiled).store.compiled.find? other =
      if other = node then some compiled else workspace.store.compiled.find? other :=
  Bindings.find?_put ..

namespace Session

variable {pre : Workspace → Prop} (compiler : Compiler) (setting : Setting)

theorem yields_keep (node : Handle) (compiled : CompiledMethod) :
    Yields pre (modify fun workspace =>
        { workspace with store := { workspace.store with
            compiled := workspace.store.compiled.put node compiled } } : Working Unit)
      fun _ _ => True :=
  fun workspace _ => ⟨Arena.Grows.refl workspace.arena, fun _ _ _ _ => trivial⟩

theorem yields_expand (node : Handle) :
    Yields pre (expand compiler setting node) fun expansion workspace =>
      expansion.Names workspace.arena := by
  apply (Compiler.yields_keyOf node).bind
  intro key
  apply (yields_plan (Drafting.yields_needs setting key)).bind
  intro expansion
  split
  · apply (compiler.yields_compile setting node).bind
    intro compiled
    apply (yields_keep node compiled).bind
    intro _
    apply Yields.pure
    intro workspace h
    obtain ⟨⟨⟨_, hnames⟩, hcompiled⟩, _⟩ := h
    refine ⟨fun dependency hmem => ?_, hnames.guarded⟩
    rcases List.mem_append.mp hmem with hmem | hmem
    · exact hnames.always dependency hmem
    · exact hcompiled dependency hmem
  · exact Yields.pure fun _ h => h.2

/-- The expander of a session creates nodes at most, and names only nodes that exist. -/
theorem quiet_expand : (expand compiler setting : Expander ArtifactKey Shelf Fault).Quiet where
  grows node workspace _ := (yields_expand compiler setting node workspace (always_true _)).1
  names node workspace _ expansion hexpansion :=
    ((yields_expand compiler setting node workspace (always_true _)).2 expansion hexpansion).now

theorem plan_keyOf {node : Handle} {key : ArtifactKey} {workspace : Workspace}
    (hkey : workspace.arena.key? node = some key) :
    Workspace.plan (Drafting.keyOf node) workspace = (.ok key, workspace) := by
  have hkeyOf : Drafting.keyOf node workspace.draft = (.ok key, workspace.draft) :=
    Drafting.keyOf_of_key? hkey
  rw [Workspace.plan, hkeyOf]
  rfl

/-- What an expansion can come to. -/
inductive Outcome (node : Handle) (before : Workspace) : Except Fault Expansion → Workspace → Prop
  | unknown (hkey : before.arena.key? node = none) :
      Outcome node before (.error (.graph (.unknownNode node))) before
  | unneeded {key fault planned} (hkey : before.arena.key? node = some key)
      (hneeds : Workspace.plan (Drafting.needs setting key) before = (.error fault, planned)) :
      Outcome node before (.error fault) planned
  | needed {key expansion planned} (hkey : before.arena.key? node = some key)
      (hother : ∀ method, key ≠ .methodCode method)
      (hneeds : Workspace.plan (Drafting.needs setting key) before = (.ok expansion, planned)) :
      Outcome node before (.ok expansion) planned
  | failed {method needed planned fault worked}
      (hkey : before.arena.key? node = some (.methodCode method))
      (hneeds : Workspace.plan (Drafting.needs setting (.methodCode method)) before =
        (.ok needed, planned))
      (hcompile : compiler.compile setting node planned = (.error fault, worked)) :
      Outcome node before (.error fault) worked
  | compiled {method needed planned compiled worked}
      (hkey : before.arena.key? node = some (.methodCode method))
      (hneeds : Workspace.plan (Drafting.needs setting (.methodCode method)) before =
        (.ok needed, planned))
      (hcompile : compiler.compile setting node planned = (.ok compiled, worked)) :
      Outcome node before
        (.ok { needed with always := needed.always ++ compiled.dependencies })
        (worked.keep node compiled)

variable {compiler setting} {node : Handle} {before after planned worked : Workspace}
  {key : ArtifactKey} {method : Entity} {expansion : Expansion}

/-- Compiling leaves the workspace as the dialogue with the backend does, if there is one. -/
theorem compile_eq (hkey : planned.arena.key? node = some (.methodCode method))
    {answer : Except Fault CompiledMethod}
    (hcompile : compiler.compile setting node planned = (answer, worked)) :
    (∃ fault, answer = .error fault ∧ worked = planned) ∨ ∃ body,
      setting.body? method = some body ∧
        worked = (compiler.held setting method body planned).2.workspace ∧
        ∀ compiled, answer = .ok compiled →
          (compiler.held setting method body planned).1 = .ok compiled.toLayout ∧
          compiled.dependencies = (compiler.held setting method body planned).2.noted ∧
          Compiler.misplaced? compiled.toLayout = none := by
  rw [Compiler.compile, bind_of_ok (plan_keyOf hkey)] at hcompile
  cases hbody : setting.body? method with
  | none =>
    simp only [hbody] at hcompile
    cases hcompile
    exact .inl ⟨_, rfl, rfl⟩
  | some body =>
    refine .inr ⟨body, rfl, ?_⟩
    simp only [hbody] at hcompile
    have hconverse := compiler.converse_eq setting method body planned
    cases hheld : (compiler.held setting method body planned).1 with
    | error fault =>
      rw [hheld] at hconverse
      rw [bind_of_error hconverse] at hcompile
      cases hcompile
      exact ⟨rfl, fun _ h => by cases h⟩
    | ok layout =>
      rw [hheld] at hconverse
      rw [bind_of_ok hconverse] at hcompile
      cases hmisplaced : Compiler.misplaced? layout with
      | some relocation =>
        simp only [hmisplaced] at hcompile
        cases hcompile
        exact ⟨rfl, fun _ h => by cases h⟩
      | none =>
        simp only [hmisplaced] at hcompile
        cases hcompile
        refine ⟨rfl, fun compiled hcompiled => ?_⟩
        obtain rfl := Except.ok.inj hcompiled
        exact ⟨rfl, rfl, hmisplaced⟩

theorem outcome_expand (compiler : Compiler) (setting : Setting) (node : Handle)
    (before : Workspace) :
    Outcome compiler setting node before (expand compiler setting node before).1
      (expand compiler setting node before).2 := by
  cases hkey : before.arena.key? node with
  | none =>
    have hkeyOf : Workspace.plan (Drafting.keyOf node) before =
        (.error (.graph (.unknownNode node)), before) := by
      have hdraft : before.draft.arena.key? node = none := hkey
      rw [Workspace.plan, Drafting.keyOf_of_none hdraft]
      rfl
    rw [expand, bind_of_error hkeyOf]
    exact .unknown hkey
  | some key =>
    rw [expand, bind_of_ok (plan_keyOf hkey)]
    cases hneeds : Workspace.plan (Drafting.needs setting key) before with
    | mk answer planned =>
      cases answer with
      | error fault =>
        rw [bind_of_error hneeds]
        exact .unneeded hkey hneeds
      | ok needed =>
        rw [bind_of_ok hneeds]
        cases key with
        | methodCode method =>
          dsimp only
          cases hcompile : compiler.compile setting node planned with
          | mk answer worked =>
            cases answer with
            | error fault =>
              rw [bind_of_error hcompile]
              exact .failed hkey hneeds hcompile
            | ok compiled =>
              rw [bind_of_ok hcompile]
              exact .compiled hkey hneeds hcompile
        | _ =>
          refine .needed hkey (fun method hmethod => ?_) hneeds
          cases hmethod

theorem key?_planned {needed : Except Fault Expansion} {old : ArtifactKey}
    (hkey : before.arena.key? node = some old)
    (hneeds : Workspace.plan (Drafting.needs setting key) before = (needed, planned)) :
    planned.arena.key? node = some old := by
  have hgrows := (yields_plan (Drafting.yields_needs setting key) before (always_true _)).1
  rw [hneeds] at hgrows
  exact Arena.Grows.keeps hgrows node old hkey

theorem outcome_of_expand {answer : Except Fault Expansion}
    (h : expand compiler setting node before = (answer, after)) :
    Outcome compiler setting node before answer after := by
  have houtcome := outcome_expand compiler setting node before
  rwa [h] at houtcome

theorem vtableNeeds_of_expand {type : Entity} (hkey : before.arena.key? node = some (.vtable type))
    (h : expand compiler setting node before = (.ok expansion, after)) :
    Drafting.VTableNeeds setting type expansion after.arena := by
  cases outcome_of_expand h with
  | needed hkey' hother hneeds =>
    obtain rfl := Option.some.inj (hkey.symm.trans hkey')
    exact ((yields_plan (Drafting.yields_vtableNeeds setting type)).of_eq_ok hneeds).2
  | compiled hkey' hneeds hcompile =>
    rw [hkey] at hkey'
    cases hkey'

/-- For the code of a method, what has been noted at the end of the dialogue over its body is needed
on top of what the method needs anyhow. -/
theorem noted_of_expand (hkey : before.arena.key? node = some (.methodCode method))
    (h : expand compiler setting node before = (.ok expansion, after)) :
    ∃ needed planned body,
      Workspace.plan (Drafting.needs setting (.methodCode method)) before =
        (.ok needed, planned) ∧
      setting.body? method = some body ∧
      expansion.always = needed.always ++ (compiler.held setting method body planned).2.noted ∧
      after.arena = (compiler.held setting method body planned).2.workspace.arena := by
  cases outcome_of_expand h with
  | needed hkey' hother hneeds =>
    exact absurd (Option.some.inj (hkey'.symm.trans hkey)) (hother method)
  | compiled hkey' hneeds hcompile =>
    rename_i needed planned compiled worked
    obtain rfl := ArtifactKey.methodCode.inj (Option.some.inj (hkey.symm.trans hkey'))
    rcases compile_eq (key?_planned hkey hneeds) hcompile with ⟨_, hfault, _⟩ |
      ⟨body, hbody, rfl, hanswer⟩
    · cases hfault
    · obtain ⟨_, hnoted, _⟩ := hanswer compiled rfl
      exact ⟨needed, planned, body, hneeds, hbody, by rw [hnoted], rfl⟩

variable (compiler setting)

/-- What the backend asks while the node of a method is expanded: the method, the question, and the
desk at which it is asked. -/
def inquiries (node : Handle) (workspace : Workspace) : List (Entity × Question × Desk) :=
  match workspace.arena.key? node with
  | some (.methodCode method) =>
    match Workspace.plan (Drafting.needs setting (.methodCode method)) workspace,
        setting.body? method with
    | (.ok _, planned), some body =>
      ((compiler.dialogue method body).asked (Answering.reply setting method) ⟨planned, []⟩).map
        (method, ·)
    | _, _ => []
  | _ => []

variable {compiler setting}

/-- What is asked while the code of a method is expanded is asked in the dialogue over its body. -/
theorem exists_asked_of_inquiry {question : Question} {desk : Desk}
    (hasked : (method, question, desk) ∈ inquiries compiler setting node before) :
    ∃ needed planned body, before.arena.key? node = some (.methodCode method) ∧
      Workspace.plan (Drafting.needs setting (.methodCode method)) before =
        (.ok needed, planned) ∧ setting.body? method = some body ∧
      (question, desk) ∈ (compiler.dialogue method body).asked (Answering.reply setting method)
        ⟨planned, []⟩ := by
  rw [inquiries] at hasked
  split at hasked
  · rename_i owner hkey
    split at hasked
    · rename_i needed planned body hneeds hbody
      obtain ⟨⟨asked, state⟩, hmem, hpair⟩ := List.mem_map.mp hasked
      cases hpair
      exact ⟨needed, planned, body, hkey, hneeds, hbody, hmem⟩
    · cases hasked
  · cases hasked

/-- What a reply to the backend has noted, the code under compilation needs. -/
theorem needed_of_reply {question : Question} {desk : Desk} {dependency : Dependency}
    (h : expand compiler setting node before = (.ok expansion, after))
    (hasked : (method, question, desk) ∈ inquiries compiler setting node before)
    (hnoted : dependency ∈ (Answering.reply setting method question desk).2.noted)
    (hkey : (Answering.reply setting method question desk).2.workspace.arena.key?
      dependency.target = some key) :
    dependency ∈ expansion.always ∧ after.arena.key? dependency.target = some key := by
  obtain ⟨_, planned, body, hnode, hneeds, hbody, hmem⟩ := exists_asked_of_inquiry hasked
  obtain ⟨needed, planned', body', hneeds', hbody', halways, harena⟩ := noted_of_expand hnode h
  obtain ⟨_, rfl⟩ := Prod.mk.inj (hneeds.symm.trans hneeds')
  obtain rfl := Option.some.inj (hbody.symm.trans hbody')
  have hle := Dialogue.le_hold_of_mem_asked (Answering.le_reply setting method) hmem
  constructor
  · rw [halways]
    exact List.mem_append_right _ (Desk.mem_noted_of_le hle hnoted)
  · rw [harena]
    exact Arena.Grows.keeps hle.1 _ _ hkey

end Session

end PortableImage
