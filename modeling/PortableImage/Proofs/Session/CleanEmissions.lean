import PortableImage.Proofs.Session.AgreeingEmissions
/-!
# Emission has no errors of its own

After a completed analysis an artifact may still be impossible to write, because a token or a number
does not fit.  But emission never finds the graph itself wanting: all code is compiled, all places lie
inside the data, and whatever a place points to is marked.
-/

namespace PortableImage

open PortableImage.Graph (Analysis Arena Handle)

namespace Session

variable {setting : Setting} {before : Workspace} {node : Handle} {nodes : List Handle}

/-- The calls of an emission, each with the workspace in which it is made.  A fault ends it. -/
def emissions (setting : Setting) : List Handle → Workspace → List (Handle × Workspace)
  | [], _ => []
  | node :: nodes, workspace =>
    (node, workspace) ::
      match emitNode setting node workspace with
      | (.ok _, later) => emissions setting nodes later
      | (.error _, _) => []

/-- Nothing that the emission of a node looks for is missing. -/
structure EmitsCleanly (setting : Setting) (node : Handle) (before : Workspace) : Prop where
  answer : ∀ cause, (emitNode setting node before).1 ≠ .error (.graph cause)
  code : ∀ method, before.arena.key? node = some (.methodCode method) →
    (before.store.compiled.find? node).isSome
  inside : ∀ key layout draft, before.arena.key? node = some key →
    Drafting.layoutOf setting (codeFor before node) key before.draft = (.ok layout, draft) →
    ∀ relocation ∈ layout.relocations, relocation.stop ≤ layout.data.length
  marked : ∀ key layout draft, before.arena.key? node = some key →
    Drafting.layoutOf setting (codeFor before node) key before.draft = (.ok layout, draft) →
    ∀ relocation ∈ layout.relocations, ∀ target, relocation.target = .node target →
      (draft.arena.progress target).isMarked

section Clean

variable (horderly : before.Orderly setting) (hfurnished : before.Furnished setting)
include horderly hfurnished

/-- The layout of a marked artifact, as it comes to be written. -/
theorem fits_of_layoutOf (hmarked : (before.arena.progress node).isMarked) {key : ArtifactKey}
    {layout : Layout} {draft : Draft} (hkey : before.arena.key? node = some key)
    (h : Drafting.layoutOf setting (codeFor before node) key before.draft = (.ok layout, draft)) :
    Drafting.Fits (draft, draft) layout layout := by
  have hprepared := prepared_of_furnished (hfurnished.twin_self horderly) hfurnished ⟨hkey, hkey⟩
    hmarked
  obtain ⟨_, _, hanswers⟩ := Drafting.agrees_layoutOf
    (fun drafts (hle : (before.draft, before.draft) ≤ drafts) => hprepared.mono hle)
    (before.draft, before.draft) horderly.draft (fun _ hle => hle)
  rw [h] at hanswers
  cases hanswers with
  | ok hfits => exact hfits.now

theorem emitsCleanly_of_furnished (hmarked : (before.arena.progress node).isMarked) :
    EmitsCleanly setting node before where
  answer cause hanswer := by
    have hself := Arena.same_self (Arena.isSome_key?_of_isMarked hmarked)
    obtain ⟨hconcur, _⟩ := agree_emitNode (hfurnished.twin_self horderly) hfurnished hself hmarked
    rw [hanswer] at hconcur
    cases hconcur with
    | error hbenign => exact hbenign cause rfl
  code method hkey := hfurnished.compiled node method hkey hmarked
  inside key layout draft hkey hlayout :=
    (fits_of_layoutOf horderly hfurnished hmarked hkey hlayout).inside
  marked key layout draft hkey hlayout relocation hrelocation target htarget := by
    have hfits := fits_of_layoutOf horderly hfurnished hmarked hkey hlayout
    obtain ⟨_, _, hself⟩ := exists_of_mem_left hfits.alike.relocations hrelocation
    obtain ⟨_, hsame⟩ := hself.target.holds htarget
    exact hsame.marked

theorem orderly_emitNode (hmarked : (before.arena.progress node).isMarked) :
    (emitNode setting node before).2.Orderly setting := by
  have hself := Arena.same_self (Arena.isSome_key?_of_isMarked hmarked)
  obtain ⟨_, hafter⟩ := agree_emitNode (hfurnished.twin_self horderly) hfurnished hself hmarked
  exact hafter.alike

theorem emitsCleanly_of_mem_emissions
    (hmarked : ∀ node ∈ nodes, (before.arena.progress node).isMarked) :
    ∀ call ∈ emissions setting nodes before, EmitsCleanly setting call.1 call.2 := by
  induction nodes generalizing before with
  | nil => exact fun call hcall => by cases hcall
  | cons node nodes ih =>
    intro call hcall
    have hnode := hmarked node List.mem_cons_self
    rw [emissions] at hcall
    rcases List.mem_cons.mp hcall with rfl | hcall
    · exact emitsCleanly_of_furnished horderly hfurnished hnode
    · have hcontinues : before.Continues (emitNode setting node before).2 :=
        continues_emitNode hnode
      have hafter := orderly_emitNode horderly hfurnished hnode
      split at hcall
      · rename_i artifact later hemit
        rw [hemit] at hcontinues hafter
        refine ih hafter (hfurnished.mono hcontinues) (fun other hother => ?_) call hcall
        exact (hcontinues.marked other).mpr (hmarked other (List.mem_cons_of_mem _ hother))
      · cases hcall

end Clean

variable {session : Session} {program : Program} {analysis : Analysis ArtifactKey Shelf}

theorem run_of_completed (h : session.analyse program = (.completed, analysis)) :
    (session.run program).1 =
      (emitMarked (session.setting program) analysis.toSite).1.map fun artifacts =>
        .completed ⟨artifacts,
          (emitMarked (session.setting program) analysis.toSite).2.store.ledger.table,
          analysis.counts⟩ := by
  unfold analyse at h
  rw [run]
  simp only [h]
  rfl

/-- After a completed analysis nothing is missing: not at any marked node, and not in any call of the
emission that follows, so the session does not fail by its graph. -/
theorem emitsCleanly_of_analyse (hfresh : session.Fresh program) (hquotes : session.Quotes program)
    (h : session.analyse program = (.completed, analysis)) :
    (∀ node, (analysis.arena.progress node).isMarked →
      EmitsCleanly (session.setting program) node analysis.toSite) ∧
    (∀ call ∈ emissions (session.setting program) (emissionOrder analysis.toSite) analysis.toSite,
      EmitsCleanly (session.setting program) call.1 call.2) ∧
    ∀ cause, (session.run program).1 ≠ .error (.graph cause) := by
  obtain ⟨visits, hanalysed⟩ := analysed_of_analyse hfresh h
  have horderly := hanalysed.tracked.orderly
  have hfurnished := hanalysed.furnished hquotes
  have hmarked : ∀ node ∈ emissionOrder analysis.toSite,
      (analysis.arena.progress node).isMarked := fun node => mem_emissionOrder.mp
  refine ⟨fun node => emitsCleanly_of_furnished horderly hfurnished,
    emitsCleanly_of_mem_emissions horderly hfurnished hmarked, fun cause hfault => ?_⟩
  have hself : List.Forall₂ (Arena.Same analysis.arena analysis.arena)
      (emissionOrder analysis.toSite) (emissionOrder analysis.toSite) :=
    List.forall₂_same.mpr fun node hnode =>
      Arena.same_self (Arena.isSome_key?_of_isMarked (hmarked node hnode))
  obtain ⟨hconcur, _⟩ := agree_emitEach (hfurnished.twin_self horderly) hfurnished hself hmarked
  change Concur Fault.Benign Eq (emitMarked (session.setting program) analysis.toSite).1
    (emitMarked (session.setting program) analysis.toSite).1 at hconcur
  rw [run_of_completed h] at hfault
  generalize (emitMarked (session.setting program) analysis.toSite).1 = answer at hconcur hfault
  cases hconcur with
  | ok _ => cases hfault
  | error hbenign => exact hbenign cause (Except.error.inj hfault)

section Figures

/-- The bodies of the example name no handles, and none of them stops the session. -/
theorem isPlain_figures {method : Entity} {body : MethodBody}
    (hbody : figures.declaredBody? method = some body) :
    ∀ instruction ∈ Bytecode.decode body.code, instruction.isPlain := by
  have hall : figures.methods.entries.all fun entry => entry.2.body.all fun body =>
      (Bytecode.decode body.code).all Bytecode.Instruction.isPlain := by decide +kernel
  have hentry {other : Entity} {description : MethodDescription}
      (hfound : figures.method? other = some description) (hown : description.body = some body) :
      ∀ instruction ∈ Bytecode.decode body.code, instruction.isPlain := by
    have hplain := List.all_eq_true.mp hall _ (Bindings.mem_entries_of_find? hfound)
    rw [hown] at hplain
    exact List.all_eq_true.mp hplain
  obtain ⟨description, hfound, hrest⟩ := Option.bind_eq_some_iff.mp hbody
  split at hrest
  · rename_i own hown
    exact hentry hfound (hown.trans hrest)
  · obtain ⟨_, _, hrest⟩ := Option.bind_eq_some_iff.mp hrest
    obtain ⟨definition, hdefinition, hown⟩ := Option.bind_eq_some_iff.mp hrest
    exact hentry hdefinition hown

theorem blind_figures (method : Entity) (body : MethodBody)
    (hbody : (figureSession.setting figures).body? method = some body) :
    (figureSession.compiler.dialogue method body).Blind := by
  have hdeclared : figures.declaredBody? method = some body := hbody
  exact Bytecode.blind_of_isPlain (isPlain_figures hdeclared) "bytes"

theorem quotes_figures : figureSession.Quotes figures :=
  fun _ _ => Compiler.quotesAt_of_blind blind_figures

theorem emitsCleanly_of_analyse_figures : ∃ analysis,
    figureSession.Fresh figures ∧ figureSession.Quotes figures ∧
    figureSession.analyse figures = (.completed, analysis) ∧
    (∀ node, (analysis.arena.progress node).isMarked →
      EmitsCleanly (figureSession.setting figures) node analysis.toSite) ∧
    (∀ call ∈ emissions (figureSession.setting figures) (emissionOrder analysis.toSite)
      analysis.toSite, EmitsCleanly (figureSession.setting figures) call.1 call.2) ∧
    ∀ cause, (figureSession.run figures).1 ≠ .error (.graph cause) := by
  obtain ⟨_, _, hemit, _⟩ := emit_figures
  obtain ⟨analysis, hanalyse, _⟩ := exists_emission_of_emit hemit
  exact ⟨analysis, fresh_of_build build_figures, quotes_figures, hanalyse,
    emitsCleanly_of_analyse (fresh_of_build build_figures) quotes_figures hanalyse⟩

end Figures

end Session

end PortableImage
