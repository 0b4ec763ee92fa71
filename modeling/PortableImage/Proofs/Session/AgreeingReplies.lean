import PortableImage.Proofs.Backend.Blindness
import PortableImage.Proofs.Program.Receivers
import PortableImage.Proofs.Session.AgreeingPlans
import PortableImage.Proofs.Session.Expanding
/-!
# Replies agree

Two desks are alike if their drafts are, if they have the same rulings, and if the same has been
noted at both.  A question put at both gets replies that differ in handles at most, and every node
that a reply points to has been noted.  So dialogues that are alike stay alike to their end.
-/

namespace PortableImage

open PortableImage.Graph (Arena Dependency Handle)

/-- What planning and answering leave alone: the code compiled so far, on either side, and the
cancellation flag, if nobody is going to raise it. -/
structure Custody where
  steady : Prop
  left : Bindings Handle CompiledMethod
  right : Bindings Handle CompiledMethod

structure Workspace.Alike (setting : Setting) (custody : Custody) (left right : Workspace) :
    Prop where
  draft : Draft.Alike setting left.draft right.draft
  rulings : left.store.rulings = right.store.rulings
  ruled : ∀ method ruling, left.store.rulings.find? method = some ruling →
    setting.program.rule setting.bubble method = ruling
  cancelled : left.cancelled = right.cancelled
  steady : custody.steady → left.cancelled = false
  left : left.store.compiled = custody.left
  right : right.store.compiled = custody.right

structure Desk.Alike (setting : Setting) (custody : Custody) (left right : Desk) : Prop where
  workspace : Workspace.Alike setting custody left.workspace right.workspace
  noted : List.Forall₂
    (Dependency.Alike (Arena.Same left.workspace.arena right.workspace.arena)) left.noted right.noted

/-- Rulings that are those of the program stay so when they are consulted, and the answer is one of
them. -/
theorem Program.ruled_consult (program : Program) {bubble : Bubble} {rulings : Rulings}
    (hruled : ∀ method ruling, rulings.find? method = some ruling →
      program.rule bubble method = ruling) (method : Entity) :
    program.rule bubble method = (rulings.consult program bubble method).1 ∧
      ∀ other ruling, (rulings.consult program bubble method).2.find? other = some ruling →
        program.rule bubble other = ruling := by
  obtain ⟨hanswer, hlater⟩ := Rulings.find?_consult (fun other ruling hother =>
    (hruled other ruling hother).symm) method
  exact ⟨hanswer.symm, fun other ruling hother => (hlater other ruling hother).symm⟩

section Working

variable {setting : Setting} {custody : Custody} {pre : Workspace × Workspace → Prop}

/-- Any fault may occur in a workspace, since a backend may fail with any. -/
def Working.bond (setting : Setting) (custody : Custody) : Bond Workspace Fault :=
  ⟨Workspace.Alike setting custody, fun _ => True⟩

theorem agrees_plan {α β : Type} {left : Drafting α} {right : Drafting β}
    {drafts : Draft × Draft → Prop} {post : α → β → Draft × Draft → Prop}
    (h : Agrees (Drafting.bond setting) drafts left right post)
    (hpre : ∀ workspaces, pre workspaces → drafts (workspaces.1.draft, workspaces.2.draft)) :
    Agrees (Working.bond setting custody) pre (Workspace.plan left) (Workspace.plan right)
      fun a b workspaces => post a b (workspaces.1.draft, workspaces.2.draft) := by
  intro workspaces halike hworkspaces
  obtain ⟨hgrows, hafter, hanswers⟩ := h (workspaces.1.draft, workspaces.2.draft) halike.draft
    fun later hlater => hpre (workspaces.1.withDraft later.1, workspaces.2.withDraft later.2)
      (hworkspaces _ hlater)
  refine ⟨hgrows, { halike with draft := hafter }, ?_⟩
  exact hanswers.imp (fun _ _ => trivial) fun a b hpost later hlater =>
    hpost (later.1.draft, later.2.draft) hlater

theorem agrees_planned {α β : Type} {left : Drafting α} {right : Drafting β}
    {post : α → β → Draft × Draft → Prop}
    (h : Agrees (Drafting.bond setting) (fun _ => True) left right post) :
    Agrees (Working.bond setting custody) (fun _ => True) (Workspace.plan left)
      (Workspace.plan right) fun a b workspaces =>
        post a b (workspaces.1.draft, workspaces.2.draft) :=
  agrees_plan h fun _ _ => trivial

theorem agrees_rule (method : Entity) :
    Agrees (Working.bond setting custody) pre (Workspace.rule setting method)
      (Workspace.rule setting method) fun ruling other _ =>
        ruling = other ∧ setting.program.rule setting.bubble method = ruling := by
  intro workspaces halike _
  obtain ⟨hruling, hruled⟩ := setting.program.ruled_consult halike.ruled method
  have hsame : Workspace.rule setting method workspaces.2 =
      (.ok (workspaces.1.store.rulings.consult setting.program setting.bubble method).1,
        { workspaces.2 with store := { workspaces.2.store with rulings :=
          (workspaces.1.store.rulings.consult setting.program setting.bubble method).2 } }) := by
    rw [halike.rulings]
    rfl
  rw [hsame]
  exact ⟨⟨Arena.Grows.refl _, Arena.Grows.refl _⟩, { halike with
    rulings := rfl
    ruled := hruled }, .ok fun _ _ => ⟨rfl, hruling⟩⟩

end Working

namespace Answering

variable {setting : Setting} {custody : Custody} {pre : Desk × Desk → Prop} {method : Entity}
  {desks : Desk × Desk} {a b : Handle}

def bond (setting : Setting) (custody : Custody) : Bond Desk Fault :=
  ⟨Desk.Alike setting custody, fun _ => True⟩

/-- Two handles stand for one artifact, which has been noted. -/
def Cited (desks : Desk × Desk) (a b : Handle) : Prop :=
  Arena.Same desks.1.workspace.arena desks.2.workspace.arena a b ∧
    a ∈ desks.1.noted.map Dependency.target

theorem Cited.mono {later : Desk × Desk} (h : Cited desks a b) (hle : desks ≤ later) :
    Cited later a b := by
  obtain ⟨hsame, hnoted⟩ := h
  obtain ⟨dependency, hmem, rfl⟩ := List.mem_map.mp hnoted
  exact ⟨hsame.mono (Arena.Grows.keeps hle.1.1) (Arena.Grows.keeps hle.2.1),
    List.mem_map_of_mem (Desk.mem_noted_of_le hle.1 hmem)⟩

theorem agrees_work {α β : Type} {left : Working α} {right : Working β}
    {workspaces : Workspace × Workspace → Prop} {post : α → β → Workspace × Workspace → Prop}
    (h : Agrees (Working.bond setting custody) workspaces left right post)
    (hpre : ∀ desks, pre desks → workspaces (desks.1.workspace, desks.2.workspace)) :
    Agrees (bond setting custody) pre (work left) (work right)
      fun a b desks => post a b (desks.1.workspace, desks.2.workspace) := by
  intro desks halike hdesks
  obtain ⟨hgrows, hafter, hanswers⟩ := h (desks.1.workspace, desks.2.workspace) halike.workspace
    fun later hlater => hpre ({ desks.1 with workspace := later.1 },
      { desks.2 with workspace := later.2 })
      (hdesks _ ⟨Desk.le_of_workspace hlater.1, Desk.le_of_workspace hlater.2⟩)
  refine ⟨⟨Desk.le_of_workspace hgrows.1, Desk.le_of_workspace hgrows.2⟩, ⟨hafter, ?_⟩, ?_⟩
  · exact halike.noted.imp fun _ _ => Dependency.Alike.imp fun _ _ hsame =>
      hsame.mono (Arena.Grows.keeps hgrows.1) (Arena.Grows.keeps hgrows.2)
  · exact hanswers.imp (fun _ => id) fun a b hpost later hlater =>
      hpost (later.1.workspace, later.2.workspace) ⟨hlater.1.1, hlater.2.1⟩

theorem agrees_plan {α β : Type} {left : Drafting α} {right : Drafting β}
    {post : α → β → Draft × Draft → Prop}
    (h : Agrees (Drafting.bond setting) (fun _ => True) left right post) :
    Agrees (bond setting custody) pre (plan left) (plan right)
      fun a b desks => post a b (desks.1.workspace.draft, desks.2.workspace.draft) :=
  agrees_work (agrees_planned h) fun _ (_ : pre _) => trivial

theorem agrees_consult (callee : Entity) :
    Agrees (bond setting custody) pre (work (Workspace.rule setting callee))
      (work (Workspace.rule setting callee)) fun ruling other _ =>
        ruling = other ∧ setting.program.rule setting.bubble callee = ruling :=
  agrees_work (@agrees_rule setting custody (fun _ => True) callee) fun _ _ => trivial

theorem agrees_meaning (module : ModuleIndex) (token : Token) :
    Agrees (bond setting custody) pre (liftM (setting.program.meaning module token))
      (liftM (setting.program.meaning module token)) fun entity other _ =>
        entity = other ∧ entity ∈ setting.program.mentioned :=
  (Agrees.lift fun _ _ => trivial).imp fun _ _ _ _ h =>
    ⟨h.1, Program.mem_mentioned_of_meaning h.2⟩

theorem agrees_entity (token : Token) (kind : DefinitionKind) :
    Agrees (bond setting custody) pre (entity setting method token kind)
      (entity setting method token kind) fun entity other _ =>
        entity = other ∧ entity ∈ setting.program.mentioned := by
  refine (agrees_meaning method.module token).bind_fact ?_
  rintro entity _ ⟨rfl, hentity⟩
  split
  · exact Agrees.pure fun _ _ => ⟨rfl, hentity⟩
  · exact Agrees.throw trivial

/-- What a reply points to has been noted. -/
abbrev Replies (target target' : Relocation.Target) (desks : Desk × Desk) : Prop :=
  Relocation.Target.Alike (Cited desks) target target'

theorem agrees_note (h : ∀ desks, pre desks →
      Arena.Same desks.1.workspace.arena desks.2.workspace.arena a b) (reason : String) :
    Agrees (bond setting custody) pre (note a reason) (note b reason) Replies := by
  intro desks halike hpre
  have hsame := h desks hpre.now
  have hle {desk : Desk} {node : Handle} (hnode : (desk.workspace.arena.key? node).isSome) :
      desk ≤ { desk with noted := desk.noted ++ [⟨node, reason⟩] } := by
    refine ⟨le_refl desk.workspace, [⟨node, reason⟩], rfl, fun dependency hmem => ?_⟩
    rw [List.mem_singleton.mp hmem]
    exact hnode
  refine ⟨⟨hle hsame.isSome_left, hle hsame.isSome_right⟩, ⟨halike.workspace, ?_⟩, .ok ?_⟩
  · exact List.rel_append halike.noted (.cons ⟨hsame, rfl⟩ .nil)
  · have hcited : Cited ({ desks.1 with noted := desks.1.noted ++ [⟨a, reason⟩] },
        { desks.2 with noted := desks.2.noted ++ [⟨b, reason⟩] }) a b :=
      ⟨hsame, List.mem_map.mpr ⟨⟨a, reason⟩, List.mem_append_right _ (List.mem_singleton_self _),
        rfl⟩⟩
    exact fun later hlater => .node (hcited.mono hlater)

theorem agrees_artifact {key : ArtifactKey} (hkey : key ∈ setting.program.artifacts)
    (reason : String) :
    Agrees (bond setting custody) pre (artifact key reason) (artifact key reason) Replies :=
  (agrees_plan (Drafting.agrees_node hkey)).bind fun _ _ => agrees_note (fun _ h => h.2.same) reason

section References

variable {entity : Entity} (hentity : entity ∈ setting.program.mentioned)
include hentity

theorem agrees_anchor :
    Agrees (bond setting custody) pre (anchor setting method entity) (anchor setting method entity)
      fun a b desks => Arena.Same desks.1.workspace.arena desks.2.workspace.arena a b :=
  (agrees_plan (Drafting.agrees_anchor _ hentity)).imp fun _ _ _ _ ⟨_, _, hstands⟩ => hstands.same

theorem agrees_reference (reason : String) :
    Agrees (bond setting custody) pre (reference setting method entity reason)
      (reference setting method entity reason) Replies :=
  (agrees_anchor hentity).bind fun _ _ => agrees_note (fun _ h => h.2) reason

theorem agrees_noteUse :
    Agrees (bond setting custody) pre (noteUse setting entity) (noteUse setting entity)
      fun _ _ _ => True := by
  rw [noteUse]
  split
  · have hkey : .virtualMethodUse (setting.program.introducer entity) ∈
        setting.program.artifacts :=
      Program.mem_artifacts (Program.introducer_mem_mentioned hentity) rfl
    exact (agrees_artifact hkey _).bind fun _ _ => Agrees.pure fun _ _ => trivial
  · exact Agrees.pure fun _ _ => trivial

theorem agrees_stubTarget :
    Agrees (bond setting custody) pre (stubTarget setting method entity)
      (stubTarget setting method entity)
      fun a b desks => Arena.Same desks.1.workspace.arena desks.2.workspace.arena a b := by
  rw [stubTarget]
  split
  · have hkey : .signature entity ∈ setting.program.artifacts :=
      Program.mem_artifacts hentity rfl
    exact (agrees_plan (Drafting.agrees_node hkey)).imp fun _ _ _ _ hstands => hstands.same
  · exact agrees_anchor hentity

theorem agrees_dispatchedCall :
    Agrees (bond setting custody) pre (dispatchedCall setting method entity)
      (dispatchedCall setting method entity) Replies := by
  refine (agrees_noteUse hentity).bind fun _ _ => ?_
  refine (agrees_stubTarget hentity).bind fun _ _ => ?_
  refine (agrees_artifact (Program.helperCell_mem_artifacts _ _) _).bind fun _ _ => ?_
  exact agrees_note (fun _ h => h.1.2) _

end References

theorem agrees_portable (token : Token) :
    Agrees (bond setting custody) pre (portable setting method token)
      (portable setting method token) Replies := by
  refine (agrees_meaning method.module token).bind_fact ?_
  rintro entity _ ⟨rfl, hentity⟩
  refine (agrees_reference hentity _).bind fun _ _ => ?_
  refine (agrees_plan (Drafting.agrees_issueFor _ entity method.module)).bind_fact ?_
  rintro token _ ⟨rfl, _⟩
  exact Agrees.pure fun _ _ => .token token

theorem agrees_call (token : Token) (mode : CallMode) :
    Agrees (bond setting custody) pre (call setting method token mode)
      (call setting method token mode) Replies := by
  refine (agrees_entity token .method).bind_fact ?_
  rintro callee _ ⟨rfl, hcallee⟩
  cases mode with
  | direct => exact agrees_reference hcallee _
  | dispatched =>
    refine (agrees_consult callee).bind_fact ?_
    rintro ruling _ ⟨rfl, hruling⟩
    cases ruling with
    | monomorphic target => exact agrees_reference (Program.mem_mentioned_of_rule hruling) _
    | unknown => exact agrees_dispatchedCall hcallee

theorem agrees_describe (token : Token) :
    Agrees (bond setting custody) pre (describe setting method token)
      (describe setting method token) Replies := by
  refine (agrees_entity token .type).bind_fact ?_
  rintro type _ ⟨rfl, htype⟩
  exact agrees_reference htype _

theorem agrees_locate (token : Token) :
    Agrees (bond setting custody) pre (locate setting method token) (locate setting method token)
      Replies := by
  refine (agrees_entity token .field).bind_fact ?_
  rintro field _ ⟨rfl, hfield⟩
  exact agrees_reference hfield _

theorem agrees_allocate (token : Token) :
    Agrees (bond setting custody) pre (allocate setting method token)
      (allocate setting method token) Replies := by
  refine (agrees_entity token .method).bind_fact ?_
  rintro constructor _ ⟨rfl, hconstructor⟩
  refine (agrees_plan (Drafting.agrees_described _ _)).bind_fact ?_
  rintro description _ ⟨rfl, hdescription⟩
  have howner := Program.mem_mentioned_of_method hdescription (.inr (.inl rfl))
  refine (agrees_artifact (Program.helperCell_mem_artifacts _ _) _).bind fun _ _ => ?_
  refine (agrees_reference hconstructor _).bind fun _ _ => ?_
  split
  · exact agrees_artifact (Program.mem_artifacts howner rfl) _
  · exact agrees_reference howner _

theorem agrees_ruling (token : Token) :
    Agrees (bond setting custody) pre (ruling setting method token) (ruling setting method token)
      fun ruling other _ => ruling = other := by
  refine (agrees_entity token .method).bind_fact ?_
  rintro callee _ ⟨rfl, _⟩
  exact (agrees_consult callee).imp fun _ _ _ _ h => h.1

variable {left right : Desk}

theorem alike_helper (helper : RuntimeHelper) (h : Desk.Alike setting custody left right) :
    Desk.Alike setting custody (Answering.helper helper left).2 (Answering.helper helper right).2 ∧
      Relocation.Target.Alike
        (Cited ((Answering.helper helper left).2, (Answering.helper helper right).2))
        (Answering.helper helper left).1 (Answering.helper helper right).1 := by
  obtain ⟨_, hafter, hanswers⟩ := (agrees_artifact
    (Program.helperCell_mem_artifacts setting.program helper) "helper call").start h
  refine ⟨hafter, ?_⟩
  cases hanswers with
  | ok htarget => exact htarget.now

/-- The same question at both desks is answered alike, and leaves both desks alike. -/
theorem alike_reply (question : Question) (hpatient : custody.steady → question ≠ .cancel)
    (h : Desk.Alike setting custody left right) :
    Desk.Alike setting custody (reply setting method question left).2
        (reply setting method question right).2 ∧
      question.Matches
        (Cited ((reply setting method question left).2, (reply setting method question right).2))
        (reply setting method question left).1 (reply setting method question right).1 := by
  have hanswering {action : Answering Relocation.Target}
      (haction : Agrees (bond setting custody) (fun _ => True) action action Replies) :
      Desk.Alike setting custody (action left).2 (action right).2 ∧
        Concur (fun _ => True) (Relocation.Target.Alike (Cited ((action left).2, (action right).2)))
          (action left).1 (action right).1 := by
    obtain ⟨_, hafter, hanswers⟩ := haction.start h
    exact ⟨hafter, hanswers.imp (fun _ => id) fun _ _ hpost => hpost.now⟩
  cases question with
  | portable token => exact hanswering (agrees_portable token)
  | call token mode => exact hanswering (agrees_call token mode)
  | describe token => exact hanswering (agrees_describe token)
  | allocate token => exact hanswering (agrees_allocate token)
  | locate token => exact hanswering (agrees_locate token)
  | helper name => exact alike_helper name h
  | ruling token =>
    obtain ⟨_, hafter, hanswers⟩ := (@agrees_ruling _ _ _ method token).start h
    refine ⟨hafter, ?_⟩
    show (ruling setting method token left).1 = (ruling setting method token right).1
    generalize (ruling setting method token left).1 = answer,
      (ruling setting method token right).1 = other at hanswers
    cases hanswers with
    | ok hsame => rw [hsame.now]
    | error _ => rfl
  | cancel =>
    refine ⟨⟨{ h.workspace with
      draft := h.workspace.draft
      cancelled := rfl
      steady := fun hsteady => absurd rfl (hpatient hsteady) }, h.noted⟩, rfl⟩

open Dialogue (received Patient)

/-- Dialogues that are alike stay alike, and end alike, when the desks are. -/
theorem alike_hold {α : Type} {R : Handle → Handle → Prop} {S : α → α → Prop}
    {dialogue other : Dialogue α} (h : Dialogue.Alike R S dialogue other)
    (hpatient : custody.steady → dialogue.Patient) (hdesks : Desk.Alike setting custody left right)
    (hR : ∀ a b, Cited ((dialogue.hold (reply setting method) left).2,
      (other.hold (reply setting method) right).2) a b → R a b) :
    Desk.Alike setting custody (dialogue.hold (reply setting method) left).2
        (other.hold (reply setting method) right).2 ∧
      S (dialogue.hold (reply setting method) left).1
        (other.hold (reply setting method) right).1 := by
  induction h generalizing left right with
  | result hresult => exact ⟨hdesks, hresult⟩
  | ask question hnext ih =>
    rename_i next next'
    obtain ⟨hafter, hmatches⟩ := @alike_reply setting custody method _ _ question
      (fun hsteady => (hpatient hsteady).1) hdesks
    have hleft := Dialogue.le_hold (le_reply setting method)
      (next (reply setting method question left).1) (reply setting method question left).2
    have hright := Dialogue.le_hold (le_reply setting method)
      (next' (reply setting method question right).1) (reply setting method question right).2
    refine ih _ _ (hmatches.imp fun a b hcited => ?_) (fun hsteady => (hpatient hsteady).2 _)
      hafter hR
    exact hR a b (hcited.mono ⟨hleft, hright⟩)

/-- At a desk that is alike to itself, what is received is noted. -/
theorem mem_noted_of_received {α : Type} {dialogue : Dialogue α} {desk : Desk}
    (hsteady : ¬ custody.steady) (hdesk : Desk.Alike setting custody desk desk) {node : Handle}
    (hnode : node ∈ received (reply setting method) dialogue desk) :
    node ∈ (dialogue.hold (reply setting method) desk).2.noted.map Dependency.target := by
  induction dialogue generalizing desk with
  | result value => cases hnode
  | ask question next ih =>
    obtain ⟨hafter, hmatches⟩ := @alike_reply setting custody method _ _ question
      (fun h => absurd h hsteady) hdesk
    rcases List.mem_append.mp hnode with hnode | hnode
    · obtain ⟨_, _, hnoted⟩ := Dialogue.holds_of_matches hmatches (Option.mem_toList.mp hnode)
      obtain ⟨dependency, hmem, rfl⟩ := List.mem_map.mp hnoted
      have hle := Dialogue.le_hold (le_reply setting method)
        (next (reply setting method question desk).1) (reply setting method question desk).2
      exact List.mem_map_of_mem (Desk.mem_noted_of_le hle hmem)
    · exact ih _ hafter hnode

end Answering

end PortableImage
