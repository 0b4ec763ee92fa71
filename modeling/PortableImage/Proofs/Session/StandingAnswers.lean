import PortableImage.Proofs.Portable.TypeSignatures
import PortableImage.Proofs.Session.AgreeingPlans
import PortableImage.Proofs.Session.Steps
/-!
# Answers that stand

What a draft has answered once, it answers again, whatever is asked in between: the same token for
an entity, and a node of the same key for a reference.
-/

namespace PortableImage

open Relation (ReflTransGen)
open PortableImage.Graph (Arena Handle)

namespace Draft

/-- Two drafts give the same answers to questions for tokens. -/
def SameAnswers (setting : Setting) (left right : Draft) : Prop :=
  ∀ entity origin, (Drafting.issue setting entity origin left).1 =
    (Drafting.issue setting entity origin right).1

/-- A later draft, which answers as the earlier one did. -/
structure Upholds (setting : Setting) (before after : Draft) : Prop where
  answers : before.SameAnswers setting after
  grows : before.arena.Grows after.arena

variable {setting : Setting} {a b c before after : Draft}

theorem Upholds.refl (draft : Draft) : draft.Upholds setting draft :=
  ⟨fun _ _ => rfl, Arena.Grows.refl draft.arena⟩

theorem Upholds.trans (hab : a.Upholds setting b) (hbc : b.Upholds setting c) :
    a.Upholds setting c :=
  ⟨fun entity origin => (hab.answers entity origin).trans (hbc.answers entity origin),
    hab.grows.trans hbc.grows⟩

theorem Step.upholds (h : Step setting before after) : before.Upholds setting after := by
  cases h with
  | ask h =>
    refine ⟨fun entity origin => ?_, Arena.Grows.refl _⟩
    cases h with
    | issue other origin' => exact (Ledger.issue_fst_issue ..).symm
  | node key => exact ⟨fun _ _ => rfl, Arena.Grows.intern _ key⟩

theorem upholds_of_steps (h : ReflTransGen (Step setting) before after) :
    before.Upholds setting after := by
  induction h with
  | refl => exact .refl before
  | tail _ hstep ih => exact ih.trans hstep.upholds

end Draft

namespace Drafting

variable {setting : Setting} {α : Type}

/-- Whatever work on a draft comes to, the answers given before it stand. -/
theorem upholds_of_proceeds {action : Drafting α} (h : Proceeds (Draft.Step setting) action)
    {before after : Draft} {answer : Except Fault α} (hanswer : action before = (answer, after)) :
    before.Upholds setting after := by
  have hsteps := h before
  rw [hanswer] at hsteps
  exact Draft.upholds_of_steps hsteps

/-- Where two drafts give the same answers, an action that finds a node in the one finds a node of
the same key in the other. -/
def FindsAlike (setting : Setting) (action : Drafting Handle) : Prop :=
  ∀ ⦃left right : Draft⦄, left.SameAnswers setting right → ∀ ⦃found : Handle⦄ ⦃after : Draft⦄,
    action left = (.ok found, after) → ∃ key other later,
      after.arena.key? found = some key ∧ action right = (.ok other, later) ∧
        later.arena.key? other = some key

theorem findsAlike_node (key : ArtifactKey) : FindsAlike setting (node key) := by
  intro left right _ found after hfound
  obtain ⟨hhandle, rfl⟩ := Prod.mk.inj hfound
  obtain rfl := Except.ok.inj hhandle
  exact ⟨key, _, _, Arena.key?_intern left.arena key, rfl, Arena.key?_intern right.arena key⟩

theorem findsAlike_throw (fault : Fault) : FindsAlike setting (throw fault) := by
  intro left right _ found after hfound
  cases (Prod.mk.inj hfound).1

/-- A question for a token has the same answer in both drafts, and leaves their answers the same. -/
theorem findsAlike_issueFor_bind (requester : ArtifactKey) (entity : Entity) (origin : ModuleIndex)
    {next : PortableToken → Drafting Handle} (h : ∀ token, FindsAlike setting (next token)) :
    FindsAlike setting (issueFor setting requester entity origin >>= next) := by
  intro left right hsame found after hfound
  obtain ⟨token, middle, hissue, hrest⟩ := bind_eq_ok hfound
  have hasked (draft : Draft) : draft.SameAnswers setting (issue setting entity origin draft).2 :=
    (upholds_of_proceeds (proceeds_issue setting entity origin) rfl).answers
  rw [issueFor_eq] at hissue
  obtain ⟨htoken, rfl⟩ := Prod.mk.inj hissue
  have hright : issueFor setting requester entity origin right =
      (.ok token, (issue setting entity origin right).2) := by
    rw [issueFor_eq, ← hsame entity origin, htoken]
  have hmiddle : (issue setting entity origin left).2.SameAnswers setting
      (issue setting entity origin right).2 := by
    intro other origin'
    rw [← hasked left, hsame, hasked right]
  obtain ⟨key, other, later, hkey, hother, hsamekey⟩ := h token hmiddle hrest
  exact ⟨key, other, later, hkey, (bind_of_ok hright).trans hother, hsamekey⟩

theorem findsAlike_anchorAmong (unmet : Bindings Entity FieldDescription) (requester : ArtifactKey)
    (entity : Entity) (origin : ModuleIndex) :
    FindsAlike setting (anchorAmong unmet setting requester entity origin) := by
  induction hsize : unmet.size using Nat.strongRecOn generalizing unmet entity with
  | ind size ih =>
    rw [anchorAmong]
    apply findsAlike_issueFor_bind
    intro token
    split
    · split
      · exact findsAlike_node _
      · split
        · exact findsAlike_node _
        · exact findsAlike_node _
      · exact findsAlike_node _
      · split
        · rename_i field hfield
          exact ih _ (hsize ▸ Bindings.size_erase_lt hfield) _ _ rfl
        · exact findsAlike_throw _
      · exact findsAlike_throw _
    · exact findsAlike_node _

/-- Asked of a draft, a reference of a module leads to the node of a key. -/
def Finds (setting : Setting) (requester : ArtifactKey) (origin : ModuleIndex) (draft : Draft)
    (entity : Entity) (key : ArtifactKey) : Prop :=
  ∃ node later, anchor setting requester entity origin draft = (.ok node, later) ∧
    later.arena.key? node = some key

/-- A reference leads where it would have led before. -/
theorem finds_of_anchor {requester : ArtifactKey} {entity : Entity} {origin : ModuleIndex}
    {before middle after : Draft} {node : Handle} (h : before.Upholds setting middle)
    (hanchor : anchor setting requester entity origin middle = (.ok node, after)) :
    ∃ key, after.arena.key? node = some key ∧ Finds setting requester origin before entity key := by
  have hback : middle.SameAnswers setting before := fun other origin' => (h.answers other origin').symm
  obtain ⟨key, other, later, hkey, hother, hsame⟩ :=
    findsAlike_anchorAmong setting.program.fields requester entity origin hback hanchor
  exact ⟨key, hkey, other, later, hother, hsame⟩

end Drafting

end PortableImage
