import PortableImage.Proofs.Session.CleanEmissions
/-!
# The order of roots

In which order roots are named, and how often, decides about the handles in a session and about the
order of its worklist, but not about its image or its fault.  Two sessions of the same roots start as
twins.  With a backend that does not look at handles they stay twins to the end of the analysis, which
they reach with the same verdict, and through the emission after it.
-/

namespace PortableImage

open PortableImage.Graph (Analysis Arena Handle)

namespace Session

variable {setting : Setting} {compiler : Compiler} {roots others : List Root}

/-- Empty workspaces with the same roots marked are twins. -/
theorem twin_start (hroots : ∀ root ∈ roots, root.isKnown setting.program setting.bubble)
    (hothers : ∀ root, root ∈ others ↔ root ∈ roots) :
    Analysis.Alike (Workspace.Twin setting True) (start setting roots .empty)
      (start setting others .empty) := by
  have hleft := listed_start setting roots
  have hright : (start setting others .empty).Listed (roots.flatMap setting.rootKeys) := by
    refine (listed_start setting others).congr fun key => ?_
    rw [List.mem_flatMap, List.mem_flatMap]
    exact exists_congr fun root => and_congr_left fun _ => (hothers root).symm
  have hempty := Workspace.orderly_empty setting
  obtain ⟨horderly, hstore, hcancelled⟩ := orderly_start hempty hroots
  obtain ⟨horderly', hstore', hcancelled'⟩ := orderly_start hempty fun root hroot =>
    hroots root ((hothers root).mp hroot)
  refine hleft.alike hright ⟨{
    draft := {
      ledger := congrArg Shelf.ledger (hstore.trans hstore'.symm)
      sound := horderly.draft.sound
      arena := hleft.alike_arena hright
      within := horderly.draft.within
      within_right := horderly'.draft.within }
    rulings := congrArg Shelf.rulings (hstore.trans hstore'.symm)
    ruled := horderly.ruled
    cancelled := hcancelled.trans hcancelled'.symm
    steady := fun _ => hcancelled
    left := rfl
    right := rfl }, ?_, ?_⟩
  · intro node compiled hcompiled
    rw [hstore] at hcompiled
    cases hcompiled
  · intro node hnode
    rw [hstore'] at hnode
    cases hnode

section Verdicts

variable {program : Program} {session : Session} (hfresh : session.Fresh program)
  (hempty : session.workspace = .empty)
include hfresh hempty

/-- An analysis from known roots does not run out of rounds. -/
theorem analyse_ne_exhausted : (session.analyse program).1 ≠ .exhausted := by
  obtain ⟨marked, hstart, _⟩ := accounts_start
    (expand session.compiler (session.setting program)) (session.setting program) session.roots
    hfresh.untouched
  have hidle : (start (session.setting program) session.roots session.workspace).Idle := by
    rw [hempty]
    exact (listed_start _ _).idle
  refine hstart.saturate_ne_exhausted_of_scope (quiet_expand _ _)
    (keeps_orderly session.compiler (session.setting program))
    (fun site hsite => hsite.draft.within) hidle
    (orderly_start hfresh.orderly hfresh.known).1 ?_
  rw [List.length_nil, Nat.zero_add]
  exact program.length_artifacts_lt_rounds

variable (hothers : ∀ root, root ∈ others ↔ root ∈ session.roots)
  (hblind : ∀ method body, (session.setting program).body? method = some body →
    (session.compiler.dialogue method body).Blind)
  (hpatient : ∀ method body, (session.setting program).body? method = some body →
    (session.compiler.dialogue method body).Patient)
include hothers hblind hpatient

/-- Analyses of the same roots come to the same verdict, and to twins. -/
theorem analyse_withRoots :
    (session.analyse program).1 = ({ session with roots := others }.analyse program).1 ∧
      Analysis.Alike (Workspace.Twin (session.setting program) True) (session.analyse program).2
        ({ session with roots := others }.analyse program).2 := by
  have hstart := @twin_start (session.setting program) _ _ hfresh.known hothers
  have hsaturate := hstart.saturate (Workspace.kinship_twin _ _) (quiet_expand _ _)
    (respects_expand hblind fun _ => hpatient) (listed_start _ _).idle (listed_start _ _).idle
    program.rounds
  rw [← hempty] at hsaturate
  exact hsaturate

theorem analyse_ne_cancelled : (session.analyse program).1 ≠ .cancelled := by
  intro h
  obtain ⟨_, htwins⟩ := analyse_withRoots hfresh hempty hothers hblind hpatient
  have hstopped := Analysis.cancelled_of_saturate h
  have hsteady := htwins.site.alike.steady trivial
  cases hstopped.symm.trans hsteady

end Verdicts

section Ends

variable {program : Program} {left right : Session} {analysis analysis' : Analysis ArtifactKey Shelf}

/-- Both sessions are over: with the same image, or with the same fault. -/
def EndAlike (answer other : Except Fault Emission) : Prop :=
  (∃ image, answer = .ok (.completed image) ∧ other = .ok (.completed image)) ∨
    ∃ fault, answer = .error fault ∧ other = .error fault

theorem run_of_failed {fault : Fault} (h : left.analyse program = (.failed fault, analysis)) :
    (left.run program).1 = .error fault := by
  unfold analyse at h
  rw [run]
  simp only [h]

/-- The marked nodes of twins are emitted in the same order. -/
theorem same_emissionOrder {steady : Prop} {left right : Workspace}
    (htwin : Workspace.Twin setting steady left right) :
    List.Forall₂ (Arena.Same left.arena right.arena) (emissionOrder left) (emissionOrder right) :=
  Graph.forall₂_same_of_map_eq (Graph.map_key?_mergeSort_eq htwin.alike.draft.arena.perm_marked)
    fun _ hnode => Arena.isSome_key?_of_isMarked (mem_emissionOrder.mp hnode)

theorem endAlike_of_completed (hsetting : right.setting program = left.setting program)
    (hleft : left.analyse program = (.completed, analysis))
    (hright : right.analyse program = (.completed, analysis'))
    (htwins : Analysis.Alike (Workspace.Twin (left.setting program) True) analysis analysis')
    (hfurnished : Workspace.Furnished (left.setting program) analysis.toSite) :
    EndAlike (left.run program).1 (right.run program).1 := by
  obtain ⟨hanswers, htwin⟩ := agree_emitEach htwins.site hfurnished
    (same_emissionOrder htwins.site) fun node => mem_emissionOrder.mp
  change Concur Fault.Benign Eq (emitMarked (left.setting program) analysis.toSite).1
    (emitMarked (left.setting program) analysis'.toSite).1 at hanswers
  have htables : (emitMarked (left.setting program) analysis.toSite).2.store.ledger =
      (emitMarked (left.setting program) analysis'.toSite).2.store.ledger :=
    htwin.alike.draft.ledger
  rw [run_of_completed hleft, run_of_completed hright, hsetting, htables, htwins.counts]
  generalize (emitMarked (left.setting program) analysis.toSite).1 = answer,
    (emitMarked (left.setting program) analysis'.toSite).1 = other at hanswers
  cases hanswers with
  | ok hsame =>
    rw [hsame]
    exact .inl ⟨_, rfl, rfl⟩
  | error _ => exact .inr ⟨_, rfl, rfl⟩

end Ends

variable {order : Order} {program : Program} {session : Session}

section Figures

theorem patient_figures (method : Entity) (body : MethodBody)
    (hbody : (figureSession.setting figures).body? method = some body) :
    (figureSession.compiler.dialogue method body).Patient := by
  have hdeclared : figures.declaredBody? method = some body := hbody
  exact Bytecode.patient_of_isPlain (isPlain_figures hdeclared) "bytes"

/-- The roots of the example, turned round, with one of them named twice. -/
def figureRoots : List Root := [.type typeDisc, .method main, .type typeDisc]

theorem mem_figureRoots (root : Root) : root ∈ figureRoots ↔ root ∈ figureOrder.roots := by
  simp only [figureRoots, figureOrder, List.mem_cons, List.not_mem_nil, or_false]
  tauto

end Figures

end Session

end PortableImage
