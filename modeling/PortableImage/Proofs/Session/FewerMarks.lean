import PortableImage.Proofs.Graph.Restaging
import PortableImage.Proofs.Session.Indifference
import PortableImage.Proofs.Session.Tracking
/-!
# Work in a workspace with fewer marks

A draft lies below another one if it has the same nodes, and fewer of them are marked.  The ledgers may
have been asked other questions, as long as both are sound.  Planning does not see the difference, for
it looks neither at marks nor at what a sound ledger remembers; nor does the expansion of an artifact,
up to the code that is kept for it.

Every orderly workspace lies above its bare one, in which nothing is marked, remembered or compiled.
Two bare workspaces are twins, whatever their nodes.  So with a blind backend the expansion of an
artifact depends on its key alone.
-/

namespace PortableImage

open PortableImage.Graph (Arena Dependency Expansion Handle)

/-- The drafts have the same nodes, and what is marked in the lower one is marked in the upper one.
For the shared artifacts it is the other way round as well. -/
structure Draft.Below (setting : Setting) (shared : ArtifactKey → Prop) (lower upper : Draft) :
    Prop where
  coincide : lower.arena.Coincide upper.arena
  sound : lower.ledger.Sound setting.program setting.bubble
  sound_upper : upper.ledger.Sound setting.program setting.bubble
  marked : ∀ key ∈ lower.arena.markedKeys, key ∈ upper.arena.markedKeys
  shared : ∀ key ∈ upper.arena.markedKeys, shared key → key ∈ lower.arena.markedKeys

namespace Drafting

variable {setting : Setting} {shared : ArtifactKey → Prop}

theorem below_node (key : ArtifactKey) : Indifferent (Draft.Below setting shared) (node key) := by
  intro lower upper h
  have hlower := Arena.Grows.intern lower.arena key
  have hupper := Arena.Grows.intern upper.arena key
  refine ⟨congrArg Except.ok (h.coincide.fst_intern key), { h with
    coincide := h.coincide.intern key
    marked := fun other hother => ?_
    shared := fun other hother hshared => ?_ }⟩
  · exact (hupper.mem_markedKeys other).mpr (h.marked other ((hlower.mem_markedKeys other).mp hother))
  · exact (hlower.mem_markedKeys other).mpr
      (h.shared other ((hupper.mem_markedKeys other).mp hother) hshared)

theorem below_keyOf (node : Handle) : Indifferent (Draft.Below setting shared) (keyOf node) := by
  intro lower upper h
  rw [keyOf, bind_get, bind_get, h.coincide node]
  cases upper.arena.key? node with
  | some key => exact ⟨rfl, h⟩
  | none => exact ⟨rfl, h⟩

/-- Sound ledgers give the same answers. -/
theorem below_issue (entity : Entity) (origin : ModuleIndex) :
    Indifferent (Draft.Below setting shared) (issue setting entity origin) := by
  intro lower upper h
  refine ⟨?_, { h with
    sound := h.sound.issue entity origin
    sound_upper := h.sound_upper.issue entity origin }⟩
  exact (h.sound.issue_fst entity origin).trans (h.sound_upper.issue_fst entity origin).symm

theorem below_issueFor (requester : ArtifactKey) (entity : Entity) (origin : ModuleIndex) :
    Indifferent (Draft.Below setting shared) (issueFor setting requester entity origin) := by
  intro lower upper h
  obtain ⟨hanswer, hafter⟩ := below_issue entity origin lower upper h
  rw [issueFor_eq, issueFor_eq, hanswer]
  exact ⟨rfl, hafter⟩

theorem Made.overlooks {requester : ArtifactKey} {α : Type} {drafting : Drafting α}
    (h : Made setting requester drafting) : Indifferent (Draft.Below setting shared) drafting :=
  h.indifferent below_node (below_issueFor requester)

end Drafting

namespace Workspace

variable {setting : Setting}

/-- The drafts lie below each other, and both sides rule as the program does. -/
structure Below (setting : Setting) (lower upper : Workspace) : Prop where
  draft : Draft.Below setting (fun _ => False) lower.draft upper.draft
  ruled : ∀ method ruling, lower.store.rulings.find? method = some ruling →
    setting.program.rule setting.bubble method = ruling
  ruled_upper : ∀ method ruling, upper.store.rulings.find? method = some ruling →
    setting.program.rule setting.bubble method = ruling

theorem below_plan {α : Type} {drafting : Drafting α}
    (h : Indifferent (Draft.Below setting fun _ => False) drafting) :
    Indifferent (Below setting) (plan drafting) := by
  intro lower upper hbelow
  obtain ⟨hanswer, hafter⟩ := h lower.draft upper.draft hbelow.draft
  exact ⟨hanswer, { hbelow with draft := hafter }⟩

theorem below_rule (method : Entity) : Indifferent (Below setting) (rule setting method) := by
  intro lower upper h
  obtain ⟨hruling, hruled⟩ := setting.program.ruled_consult h.ruled method
  obtain ⟨hruling', hruled'⟩ := setting.program.ruled_consult h.ruled_upper method
  exact ⟨congrArg Except.ok (hruling.symm.trans hruling'),
    { h with
      draft := h.draft
      ruled := hruled
      ruled_upper := hruled' }⟩

theorem hides_below (setting : Setting) : Hides setting (Below setting) where
  planning _ _ h := below_plan h.overlooks
  keyOf node := below_plan (Drafting.below_keyOf node)
  rule := below_rule
  keep _ _ _ _ h := { h with draft := h.draft }

end Workspace

namespace Workspace

variable {setting : Setting} {workspace left right : Workspace}

/-- The nodes of a workspace, with nothing marked, remembered or compiled. -/
def bare (workspace : Workspace) : Workspace := { arena := workspace.arena.bare, store := {} }

theorem coincide_bare (workspace : Workspace) : workspace.bare.arena.Coincide workspace.arena :=
  Arena.coincide_restage workspace.arena _

theorem Orderly.within_bare (h : workspace.Orderly setting) :
    workspace.bare.arena.Within setting.program.artifacts :=
  fun node key hkey => h.draft.within node key ((coincide_bare workspace node).symm.trans hkey)

theorem Orderly.bare (h : workspace.Orderly setting) : workspace.bare.Orderly setting :=
  orderly_of (Ledger.sound_empty _ _) (fun _ _ hruling => by cases hruling) h.within_bare

theorem Orderly.below_bare (h : workspace.Orderly setting) :
    Below setting workspace.bare workspace where
  draft := {
    coincide := coincide_bare workspace
    sound := Ledger.sound_empty _ _
    sound_upper := h.draft.sound
    marked := fun key hkey => absurd hkey (Arena.not_mem_markedKeys_bare _ key)
    shared := fun _ _ hshared => hshared.elim }
  ruled _ _ hruling := by cases hruling
  ruled_upper := h.ruled

theorem Orderly.twin_bare (hleft : left.Orderly setting) (hright : right.Orderly setting) :
    Twin setting False left.bare right.bare where
  alike := { hleft.bare with
    draft := ⟨rfl, Ledger.sound_empty _ _, Arena.alike_bare _ _, hleft.within_bare,
      hright.within_bare⟩
    rulings := rfl
    cancelled := rfl
    right := rfl }
  code := {
    forth := fun _ _ hcompiled => by cases hcompiled
    back := fun _ hcompiled => by cases hcompiled }

end Workspace

namespace Session

variable {compiler : Compiler} {setting : Setting}

/-- A dialogue comes to the same, even if it raises the flag. -/
theorem below_hold {α : Type} {method : Entity} (dialogue : Dialogue α) {left right : Desk}
    (h : Desk.Related (Workspace.Below setting) left right) :
    (dialogue.hold (Answering.reply setting method) left).1 =
        (dialogue.hold (Answering.reply setting method) right).1 ∧
      Desk.Related (Workspace.Below setting) (dialogue.hold (Answering.reply setting method) left).2
        (dialogue.hold (Answering.reply setting method) right).2 := by
  induction dialogue generalizing left right with
  | result value => exact ⟨rfl, h⟩
  | ask question next ih =>
    by_cases hquestion : question = .cancel
    · subst hquestion
      exact ih () ⟨{ h.workspace with draft := h.workspace.draft }, h.noted⟩
    · obtain ⟨hreply, hafter⟩ :=
        Answering.indifferent_reply (Workspace.hides_below setting) hquestion h
      rw [Dialogue.hold_ask, Dialogue.hold_ask, hreply]
      exact ih _ hafter

theorem below_converse (method : Entity) (body : MethodBody) :
    Indifferent (Workspace.Below setting) (compiler.converse setting method body) :=
  Compiler.corresponds_converse fun _ _ h =>
    below_hold (compiler.dialogue method body) ⟨h, rfl⟩

theorem below_compile (compiler : Compiler) (node : Handle) :
    Indifferent (Workspace.Below setting) (compiler.compile setting node) :=
  Compiler.corresponds_compile (Workspace.hides_below setting) below_converse node

theorem below_expand (compiler : Compiler) (node : Handle) :
    Indifferent (Workspace.Below setting) (expand compiler setting node) :=
  corresponds_expand (Workspace.hides_below setting) below_converse node

variable {lower upper left right : Workspace} {node a b : Handle} {expansion other : Expansion}
  {compiled code : CompiledMethod}

theorem Compiled.eq_of_below (h : lower.Below setting upper)
    (hlower : Compiled compiler setting node lower expansion compiled)
    (hupper : Compiled compiler setting node upper other code) : compiled = code := by
  obtain ⟨method, _, planned, _, hkey, hneeds, hcompile⟩ := hlower.code
  obtain ⟨method', _, planned', _, hkey', hneeds', hcompile'⟩ := hupper.code
  have hsame := (hkey.symm.trans (h.draft.coincide node)).trans hkey'
  cases hsame
  obtain ⟨_, hplanned⟩ :=
    Workspace.below_plan (Drafting.made_needs (.methodCode method)).overlooks lower upper h
  rw [hneeds, hneeds'] at hplanned
  obtain ⟨hanswer, _⟩ := below_compile compiler node planned planned' hplanned
  rw [hcompile, hcompile'] at hanswer
  exact Except.ok.inj hanswer

/-- The code compiled in a workspace is what its bare workspace keeps. -/
theorem Compiled.find?_bare (horderly : left.Orderly setting)
    (hanswer : (expand compiler setting node left).1 = .ok expansion)
    (h : Compiled compiler setting node left expansion compiled) :
    (expand compiler setting node left.bare).2.store.compiled.find? node = some compiled := by
  obtain ⟨method, _, _, _, hkey, _⟩ := h.code
  have hbare : left.bare.arena.key? node = some (.methodCode method) :=
    (Workspace.coincide_bare left node).trans hkey
  have hsame := (below_expand compiler node _ _ horderly.below_bare).1.trans hanswer
  rcases (outcome_expand compiler setting node left.bare).compiled_eq horderly.bare with
    ⟨hfails, _⟩ | ⟨_, code, _, hcode, hput⟩
  · exact absurd hsame (hfails method hbare expansion)
  · rw [hput, Bindings.find?_put, if_pos rfl, hcode.eq_of_below horderly.below_bare h]

section ByKey

variable (hblind : ∀ method body, setting.body? method = some body →
    (compiler.dialogue method body).Blind)
  (hleft : left.Orderly setting) (hright : right.Orderly setting)
  (hab : Arena.Same left.arena right.arena a b)
include hblind hleft hright hab

/-- What one artifact needs is the same in every workspace, but for the handles. -/
theorem alike_expand (h : (expand compiler setting a left).1 = .ok expansion)
    (h' : (expand compiler setting b right).1 = .ok other) :
    Expansion.Alike (Arena.Same (expand compiler setting a left).2.arena
      (expand compiler setting b right).2.arena) expansion other := by
  obtain ⟨hsame, hafter⟩ := below_expand compiler a _ _ hleft.below_bare
  obtain ⟨hsame', hafter'⟩ := below_expand compiler b _ _ hright.below_bare
  obtain ⟨_, hanswers⟩ := respects_expand hblind (fun hsteady : False => hsteady.elim) left.bare
    right.bare a b (hleft.twin_bare hright)
    (((Workspace.coincide_bare left).same_iff (Workspace.coincide_bare right)).mpr hab)
  rw [hsame.trans h, hsame'.trans h'] at hanswers
  cases hanswers with
  | ok halike =>
    exact halike.imp fun _ _ => (hafter.draft.coincide.same_iff hafter'.draft.coincide).mp

/-- What one method is compiled to is the same in every workspace, but for the handles. -/
theorem alike_code (h : (expand compiler setting a left).1 = .ok expansion)
    (h' : (expand compiler setting b right).1 = .ok other)
    (hcompiled : Compiled compiler setting a left expansion compiled)
    (hcode : Compiled compiler setting b right other code) :
    Layout.Alike (Arena.Same (expand compiler setting a left).2.arena
      (expand compiler setting b right).2.arena) compiled.toLayout code.toLayout := by
  obtain ⟨_, hafter⟩ := below_expand compiler a _ _ hleft.below_bare
  obtain ⟨_, hafter'⟩ := below_expand compiler b _ _ hright.below_bare
  obtain ⟨htwin, _⟩ := respects_expand hblind (fun hsteady : False => hsteady.elim) left.bare
    right.bare a b (hleft.twin_bare hright)
    (((Workspace.coincide_bare left).same_iff (Workspace.coincide_bare right)).mpr hab)
  have hkept (workspace : Workspace) (node : Handle) :=
    (yields_expand compiler setting node workspace (always_true _)).1
  have hsame : Arena.Same (expand compiler setting a left).2.arena
      (expand compiler setting b right).2.arena a b :=
    hab.mono (Arena.Grows.keeps (hkept left a)) (Arena.Grows.keeps (hkept right b))
  have hcoincide := @Arena.Coincide.same_iff _ _ _ _ _ hafter.draft.coincide hafter'.draft.coincide
  have hrel := htwin.code.find? (hcoincide.mpr hsame)
  rw [hcompiled.find?_bare hleft h, hcode.find?_bare hright h'] at hrel
  cases hrel with
  | some halike => exact halike.imp fun _ _ => hcoincide.mp

end ByKey

end Session

end PortableImage
