import PortableImage.Proofs.Program.Receivers
import PortableImage.Proofs.Session.Completion
/-!
# Used slots are filled

A virtual call that is not ruled on puts the use of its slot into the image.  A table of virtual
methods brings the tables of its bases along, and each of their slots that is used points to the
code of its method.  In which order calls and tables are come by does not matter, because the use of
a slot is the guard of the code that fills it.
-/

namespace PortableImage

open PortableImage.Graph (Analysis Arena Dependency GuardedDependency Visit)
open Relation (ReflTransGen)

namespace Session

/-- What the backend asks in the course of a session: the method under compilation, the question,
and the desk at which it is asked. -/
def transcript (session : Session) (program : Program) : List (Entity × Question × Desk) :=
  (session.expansions program).flatMap fun survey =>
    inquiries session.compiler (session.setting program) survey.1 survey.2

def InnerBase (session : Session) (program : Program) (type base : Entity) : Prop :=
  program.Base type base ∧ session.bubble.contains base

namespace Finished

variable {session after : Session} {program : Program} {image : Image}
  {visits : List (Visit ArtifactKey Shelf)} {analysis : Analysis ArtifactKey Shelf}
  {visit : Visit ArtifactKey Shelf} {key : ArtifactKey} {type base slot method : Entity}

theorem mem_keys_iff_markedKeys (h : session.Finished program image after visits analysis) :
    key ∈ image.keys ↔ key ∈ analysis.arena.markedKeys := by
  rw [h.mem_keys_iff]
  exact h.finishes.mem_markedKeys (fun _ => mem_emissionOrder.mp) key

theorem mem_keys_of_always (h : session.Finished program image after visits analysis)
    (hvisit : visit ∈ visits) {dependency : Dependency}
    (hdependency : dependency ∈ visit.expansion.always)
    (hkey : visit.after.arena.key? dependency.target = some key) : key ∈ image.keys := by
  obtain ⟨_, _, haccounts⟩ := h.accounts
  exact h.mem_keys_iff_markedKeys.mpr (haccounts.mem_markedKeys_of_always hvisit hdependency hkey)

/-- What an artifact needs once something else is in the image is in the image with it. -/
theorem mem_keys_of_guarded (h : session.Finished program image after visits analysis)
    (hvisit : visit ∈ visits) {dependency : GuardedDependency} {guard : ArtifactKey}
    (hdependency : dependency ∈ visit.expansion.guarded)
    (hkey : visit.after.arena.key? dependency.target = some key)
    (hguard : visit.after.arena.key? dependency.guard = some guard)
    (hthreshold : dependency.threshold = .marked) (hmem : guard ∈ image.keys) :
    key ∈ image.keys := by
  obtain ⟨_, _, haccounts⟩ := h.accounts
  exact h.mem_keys_iff_markedKeys.mpr (haccounts.mem_markedKeys_of_guarded hvisit h.settled
    hdependency hkey hguard hthreshold (h.mem_keys_iff_markedKeys.mp hmem))

theorem exists_visit (h : session.Finished program image after visits analysis)
    (hmem : key ∈ image.keys) :
    ∃ visit ∈ visits, visit.before.arena.key? visit.node = some key ∧
      expand session.compiler (session.setting program) visit.node visit.before =
        (.ok visit.expansion, visit.after) := by
  obtain ⟨_, _, haccounts⟩ := h.accounts
  rw [h.mem_keys_iff_markedKeys, Arena.mem_markedKeys] at hmem
  obtain ⟨node, hkey, hmarked⟩ := hmem
  obtain ⟨visit, hvisit, rfl, hbefore⟩ :=
    haccounts.exists_visit_of_isMarked (quiet_expand _ _) h.drained hkey hmarked
  exact ⟨visit, hvisit, hbefore, haccounts.sources.answered visit hvisit⟩

theorem exists_vtableNeeds (h : session.Finished program image after visits analysis)
    (hmem : .vtable type ∈ image.keys) :
    ∃ visit ∈ visits, Drafting.VTableNeeds (session.setting program) type visit.expansion
      visit.after.arena := by
  obtain ⟨visit, hvisit, hkey, hanswered⟩ := h.exists_visit hmem
  exact ⟨visit, hvisit, vtableNeeds_of_expand hkey hanswered⟩

theorem mem_keys_of_innerBase (h : session.Finished program image after visits analysis)
    (hmem : .vtable type ∈ image.keys) (hbase : session.InnerBase program type base) :
    .vtable base ∈ image.keys := by
  obtain ⟨visit, hvisit, hneeds⟩ := h.exists_vtableNeeds hmem
  obtain ⟨⟨description, htype, hfound⟩, hcontains⟩ := hbase
  obtain ⟨dependency, hdependency, hkey⟩ := hneeds.base description base htype hfound hcontains
  exact h.mem_keys_of_always hvisit hdependency hkey

theorem mem_keys_of_reflTransGen (h : session.Finished program image after visits analysis)
    (hmem : .vtable type ∈ image.keys)
    (hreach : ReflTransGen (session.InnerBase program) type base) : .vtable base ∈ image.keys := by
  induction hreach with
  | refl => exact hmem
  | tail _ hbase ih => exact h.mem_keys_of_innerBase ih hbase

/-- The code of a method with a slot in a table is in the image if the slot is used. -/
theorem mem_keys_of_use (h : session.Finished program image after visits analysis)
    (hmem : .vtable type ∈ image.keys)
    (hmethod : method ∈ Drafting.slotMethods (session.setting program) type)
    (huse : .virtualMethodUse (program.introducer method) ∈ image.keys) :
    .methodCode method ∈ image.keys := by
  obtain ⟨visit, hvisit, hneeds⟩ := h.exists_vtableNeeds hmem
  obtain ⟨dependency, hdependency, hkey, hguard, hthreshold⟩ := hneeds.slots method hmethod
  exact h.mem_keys_of_guarded hvisit hdependency hkey hguard hthreshold huse

/-- What a reply to the backend has noted is in the image. -/
theorem mem_keys_of_reply (h : session.Finished program image after visits analysis)
    {question : Question} {desk : Desk} {dependency : Dependency}
    (hasked : (method, question, desk) ∈ session.transcript program)
    (hnoted : dependency ∈
      (Answering.reply (session.setting program) method question desk).2.noted)
    (hkey : (Answering.reply (session.setting program) method question desk).2.workspace.arena.key?
      dependency.target = some key) : key ∈ image.keys := by
  obtain ⟨_, _, haccounts⟩ := h.accounts
  rw [transcript, List.mem_flatMap, ← h.asked] at hasked
  obtain ⟨survey, hsurvey, hinquiry⟩ := hasked
  obtain ⟨visit, hvisit, rfl⟩ := List.mem_map.mp hsurvey
  obtain ⟨hdependency, hneeded⟩ :=
    needed_of_reply (haccounts.sources.answered visit hvisit) hinquiry hnoted hkey
  exact h.mem_keys_of_always hvisit hdependency hneeded

/-- A dispatched call that is not ruled on puts the use of the slot into the image. -/
theorem mem_keys_of_call (h : session.Finished program image after visits analysis)
    {callee : Entity} {token : Token} {desk : Desk}
    (hasked : (method, .call token .dispatched, desk) ∈ session.transcript program)
    (hmeaning : program.meaning method.module token = .ok callee)
    (hkind : callee.kind? = some .method) (hvirtual : program.isVirtual callee)
    (hruling : (desk.workspace.store.rulings.consult program session.bubble callee).1 =
      .unknown) : .virtualMethodUse (program.introducer callee) ∈ image.keys := by
  obtain ⟨dependency, hnoted, hkey⟩ := Answering.noted_reply_dispatched (session.setting program)
    method hmeaning hkind hvirtual hruling
  exact h.mem_keys_of_reply hasked hnoted hkey

/-- A used slot points to the code of its method, in every table that has it. -/
theorem pointsTo_of_use (h : session.Finished program image after visits analysis)
    {table : EmittedArtifact} (htable : table ∈ image.artifacts) (hkey : table.key = .vtable type)
    (hdeclares : program.Declares slot type method)
    (hcode : .methodCode method ∈ image.keys) :
    table.PointsTo (Drafting.slotOffset (session.setting program) type method)
      (.methodCode method) := by
  obtain ⟨node, _, hemitted⟩ := exists_of_mem_right h.emitted htable
  apply hemitted.slots type hkey _ _ _ (h.mem_keys_iff.mp hcode)
  apply List.getElem?_idxOf
  exact List.mem_filter.mpr ⟨hdeclares.declared, hdeclares.isVirtual⟩

end Finished

/-- No slot that is used is left without code: calls that are not ruled on have the use of their
slot in the image, and so does every table, with its bases, have the code for it. -/
structure SlotsFilled (session : Session) (program : Program) (image : Image) : Prop where
  used : ∀ method token desk callee,
    (method, .call token .dispatched, desk) ∈ session.transcript program →
    program.meaning method.module token = .ok callee → callee.kind? = some .method →
    program.isVirtual callee →
    (desk.workspace.store.rulings.consult program session.bubble callee).1 = .unknown →
    .virtualMethodUse (program.introducer callee) ∈ image.keys
  filled : ∀ slot type above, .virtualMethodUse slot ∈ image.keys → .vtable type ∈ image.keys →
    ReflTransGen (session.InnerBase program) type above →
    ∃ table ∈ image.artifacts, table.key = .vtable above ∧
      ∀ method, program.Declares slot above method →
        (session.setting program).hasBody method →
        .methodCode method ∈ image.keys ∧
          table.PointsTo (Drafting.slotOffset (session.setting program) above method)
            (.methodCode method)

theorem slotsFilled_of_emit {session after : Session} {program : Program} {image : Image}
    (huntouched : session.Untouched)
    (h : session.emit program = (.ok (.completed image), after)) :
    session.SlotsFilled program image := by
  obtain ⟨visits, analysis, hfinished⟩ := finished_of_emit huntouched h
  constructor
  · intro method token desk callee hasked hmeaning hkind hvirtual hruling
    exact hfinished.mem_keys_of_call hasked hmeaning hkind hvirtual hruling
  · intro slot type above huse htype hreach
    have habove := hfinished.mem_keys_of_reflTransGen htype hreach
    obtain ⟨table, htable, hkey⟩ := List.mem_map.mp habove
    refine ⟨table, htable, hkey, fun method hdeclares hbody => ?_⟩
    have hmethod : method ∈ Drafting.slotMethods (session.setting program) above := by
      rw [Drafting.slotMethods, List.mem_filter, Bool.and_eq_true]
      exact ⟨hdeclares.declared, hdeclares.isVirtual, hbody⟩
    have hcode := hfinished.mem_keys_of_use habove hmethod (hdeclares.fills ▸ huse)
    exact ⟨hcode, hfinished.pointsTo_of_use htable hkey hdeclares hcode⟩

section Figures

/-- The main method asks for the area of a figure, and there is no ruling on that. -/
theorem mem_transcript_figures : ∃ desk,
    (main, .call figureArea.token .dispatched, desk) ∈ figureSession.transcript figures ∧
    (desk.workspace.store.rulings.consult figures figureSession.bubble figureArea).1 =
      .unknown := by
  have hany : ((figureSession.transcript figures).any fun inquiry =>
      inquiry.1 = main && inquiry.2.1 = .call figureArea.token .dispatched &&
        (inquiry.2.2.workspace.store.rulings.consult figures figureSession.bubble figureArea).1 =
          .unknown) = true := by cbv
  obtain ⟨⟨method, question, desk⟩, hmem, htest⟩ := List.any_eq_true.mp hany
  simp only [Bool.and_eq_true, decide_eq_true_eq] at htest
  obtain ⟨⟨rfl, rfl⟩, hruling⟩ := htest
  exact ⟨desk, hmem, hruling⟩

theorem declares_figures : figures.Declares figureArea typeFigure figureArea :=
  ⟨by decide +kernel, by decide +kernel, by decide +kernel⟩

theorem slotsFilled_of_emit_figures : ∃ image after,
    figureSession.emit figures = (.ok (.completed image), after) ∧
    .virtualMethodUse figureArea ∈ image.keys ∧
    ∃ table ∈ image.artifacts, table.key = .vtable typeFigure ∧
      table.PointsTo 16 (.methodCode figureArea) := by
  obtain ⟨image, after, hemit, hkeys⟩ := emit_figures
  have hfilled : figureSession.SlotsFilled figures image :=
    slotsFilled_of_emit (untouched_of_build build_figures) hemit
  obtain ⟨desk, hasked, hruling⟩ := mem_transcript_figures
  have huse := hfilled.used main figureArea.token desk figureArea hasked (by decide +kernel)
    (by decide +kernel) (by decide +kernel) hruling
  rw [declares_figures.fills] at huse
  have hbase : figureSession.InnerBase figures typeDisc typeFigure :=
    ⟨⟨{ id := typeDisc, name := "Disc", base := some typeFigure }, by decide +kernel, rfl⟩,
      by decide +kernel⟩
  obtain ⟨table, htable, hkey, hslots⟩ := hfilled.filled figureArea typeDisc typeFigure huse
    (by rw [hkeys]; decide) (.single hbase)
  obtain ⟨_, hpoints⟩ := hslots figureArea declares_figures (by decide +kernel)
  have hoffset : Drafting.slotOffset (figureSession.setting figures) typeFigure figureArea = 16 :=
    by decide +kernel
  rw [hoffset] at hpoints
  exact ⟨image, after, hemit, huse, table, htable, hkey, hpoints⟩

end Figures

end Session

end PortableImage
