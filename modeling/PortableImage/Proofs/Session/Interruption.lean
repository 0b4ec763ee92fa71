import PortableImage.Proofs.Graph.Interruption
import PortableImage.Proofs.Session.Indifference
import PortableImage.Proofs.Session.RootOrder
/-!
# Interrupted sessions

Nothing that a session does in its workspace looks at the cancellation flag; only the analysis does,
between two expansions.  So a session whose backend asks for the end does, until it is stopped, what
the same session does with a backend that leaves out these questions.
-/

namespace PortableImage

open PortableImage.Graph (Analysis Handle Site)

/-- The first workspace is the second with the flag down. -/
def Workspace.Calmed (left right : Workspace) : Prop := left = Site.calm right

open Workspace (Calmed)

namespace Workspace

theorem indifferent_plan_calmed {α : Type} (drafting : Drafting α) :
    Indifferent Calmed (plan drafting) := by
  rintro _ workspace rfl
  exact ⟨rfl, rfl⟩

theorem hides_calmed (setting : Setting) : Hides setting Calmed where
  planning _ drafting _ := indifferent_plan_calmed drafting
  keyOf _ := indifferent_plan_calmed _
  rule method := by
    rintro _ workspace rfl
    exact ⟨rfl, rfl⟩
  keep := by
    rintro _ workspace node compiled rfl
    rfl

end Workspace

namespace Dialogue

/-- The dialogue without the requests to stop the session. -/
def calm {α : Type} : Dialogue α → Dialogue α
  | result value => result value
  | ask .cancel next => (next ()).calm
  | ask question next => ask question fun reply => (next reply).calm

/-- Without the requests to stop, a dialogue comes to the same. -/
theorem hold_calm {α : Type} (setting : Setting) (method : Entity) (dialogue : Dialogue α)
    {left right : Desk} (h : Desk.Related Calmed left right) :
    (dialogue.calm.hold (Answering.reply setting method) left).1 =
        (dialogue.hold (Answering.reply setting method) right).1 ∧
      Desk.Related Calmed (dialogue.calm.hold (Answering.reply setting method) left).2
        (dialogue.hold (Answering.reply setting method) right).2 := by
  induction dialogue generalizing left right with
  | result value => exact ⟨rfl, h⟩
  | ask question next ih =>
    by_cases hquestion : question = .cancel
    · subst hquestion
      exact ih () ⟨h.workspace, h.noted⟩
    · have hcalm : (ask question next).calm = ask question fun reply => (next reply).calm := by
        cases question with
        | cancel => exact absurd rfl hquestion
        | _ => rfl
      obtain ⟨hreply, hafter⟩ :=
        Answering.indifferent_reply (Workspace.hides_calmed setting) hquestion h
      rw [hcalm, hold_ask, hold_ask, hreply]
      exact ih _ hafter

end Dialogue

namespace Compiler

/-- The compiler whose backend never asks for the session to be stopped. -/
def calm (compiler : Compiler) : Compiler :=
  { compiler with backend := { compiler.backend with
      compile := fun request => (compiler.backend.compile request).calm } }

theorem corresponds_converse_calm (compiler : Compiler) (setting : Setting) (method : Entity)
    (body : MethodBody) : Corresponds Calmed (compiler.calm.converse setting method body)
      (compiler.converse setting method body) :=
  corresponds_converse fun _ _ h =>
    Dialogue.hold_calm setting method (compiler.dialogue method body) ⟨h, rfl⟩

end Compiler

namespace Session

theorem expander_mutes (compiler : Compiler) (setting : Setting) :
    (expand compiler.calm setting : Graph.Expander ArtifactKey Shelf Fault).Mutes
      (expand compiler setting) := by
  intro node workspace hcancelled
  obtain ⟨hanswer, hafter⟩ := corresponds_expand (Workspace.hides_calmed setting)
    (compiler.corresponds_converse_calm setting) node workspace workspace
    (Site.calm_of_not_cancelled hcancelled).symm
  exact Prod.ext hanswer hafter

theorem indifferent_emitNode (setting : Setting) (node : Handle) :
    Indifferent Calmed (emitNode setting node) := by
  have hraise : Indifferent Calmed (modify fun workspace =>
      { workspace with arena := workspace.arena.raise node .emitted } : Working Unit) := by
    rintro _ workspace rfl
    exact ⟨rfl, rfl⟩
  rintro _ workspace rfl
  rw [emitNode, bind_get, bind_get]
  exact ((Workspace.indifferent_plan_calmed _).bind fun artifact =>
    hraise.bind fun _ => Corresponds.pure artifact) _ workspace rfl

theorem indifferent_emitMarked (setting : Setting) : Indifferent Calmed (emitMarked setting) := by
  rintro _ workspace rfl
  exact Corresponds.mapM (fun node _ => indifferent_emitNode setting node) _ workspace rfl

theorem start_calm (setting : Setting) (roots : List Root) (workspace : Workspace) :
    start setting roots (Site.calm workspace) = (start setting roots workspace).calm := by
  have hrest : ∀ (rest : List Root) (analysis : Analysis ArtifactKey Shelf),
      rest.foldl (enlist setting) analysis.calm = (rest.foldl (enlist setting) analysis).calm := by
    intro rest
    induction rest with
    | nil => exact fun _ => rfl
    | cons root rest ih =>
      intro analysis
      have henlist : enlist setting analysis.calm root = (enlist setting analysis root).calm :=
        (Analysis.calm_markEach
          { analysis with arena := (analysis.arena.internEach (setting.rootKeys root)).2 }
          (analysis.arena.internEach (setting.rootKeys root)).1).symm
      rw [List.foldl_cons, List.foldl_cons, henlist, ih]
  exact hrest roots { toSite := workspace }

/-- The same session as if nobody ever asked for it to be stopped. -/
def calm (session : Session) : Session :=
  { session with compiler := session.compiler.calm, workspace := Site.calm session.workspace }

variable {session : Session} {program : Program} {analysis : Analysis ArtifactKey Shelf}

theorem analyse_calm_eq (session : Session) (program : Program) :
    session.calm.analyse program =
      (start (session.setting program) session.roots session.workspace).calm.saturate
        (expand session.compiler.calm (session.setting program)) program.rounds :=
  congrArg (Analysis.saturate _ _) (start_calm _ _ _)

/-- The analysis of a session is cancelled, or it comes to what it comes to if nobody asks for it to
be stopped. -/
theorem analyse_calm (session : Session) (program : Program) :
    (session.analyse program).1 = .cancelled ∨
      (session.analyse program).1 = (session.calm.analyse program).1 ∧
        ((session.analyse program).1 = .completed →
          (session.analyse program).2.calm = (session.calm.analyse program).2) := by
  rw [analyse_calm_eq]
  exact Analysis.saturate_calm (expander_mutes _ _) _ _

theorem analyse_calm_ne_cancelled (session : Session) (program : Program) :
    (session.calm.analyse program).1 ≠ .cancelled := by
  rw [analyse_calm_eq]
  exact Analysis.calm_ne_cancelled (expander_mutes _ _) _ _

theorem run_of_cancelled (h : session.analyse program = (.cancelled, analysis)) :
    (session.run program).1 = .ok .cancelled ∧
      (session.run program).2.workspace = analysis.toSite := by
  unfold analyse at h
  rw [run]
  simp only [h]
  exact ⟨trivial, trivial⟩

theorem run_of_exhausted (h : session.analyse program = (.exhausted, analysis)) :
    (session.run program).1 = .ok .exhausted := by
  unfold analyse at h
  rw [run]
  simp only [h]

theorem cancelled_of_run (h : (session.run program).1 = .ok .cancelled) :
    (session.analyse program).1 = .cancelled := by
  cases hanalyse : session.analyse program with
  | mk verdict analysis =>
    cases verdict with
    | cancelled => rfl
    | failed fault =>
      rw [run_of_failed hanalyse] at h
      cases h
    | exhausted =>
      rw [run_of_exhausted hanalyse] at h
      cases h
    | completed =>
      rw [run_of_completed hanalyse] at h
      cases hemit : (emitMarked (session.setting program) analysis.toSite).1 with
      | error fault =>
        rw [hemit] at h
        cases h
      | ok artifacts =>
        rw [hemit] at h
        cases h

/-- A session is cancelled, or its answer is the one it gives if nobody asks for it to be stopped. -/
theorem run_calm (session : Session) (program : Program) :
    (session.run program).1 = .ok .cancelled ∨
      (session.run program).1 = (session.calm.run program).1 := by
  have hanalyse := analyse_calm session program
  have hgoes := analyse_calm_ne_cancelled session program
  cases hleft : session.analyse program with
  | mk verdict analysis =>
    cases hright : session.calm.analyse program with
    | mk verdict' analysis' =>
      rw [hleft, hright] at hanalyse
      rw [hright] at hgoes
      rcases hanalyse with hcancelled | ⟨hverdict, hafter⟩
      · obtain rfl : verdict = .cancelled := hcancelled
        exact .inl (run_of_cancelled hleft).1
      · obtain rfl : verdict = verdict' := hverdict
        right
        cases verdict with
        | cancelled => exact absurd rfl hgoes
        | failed fault => rw [run_of_failed hleft, run_of_failed hright]
        | exhausted => rw [run_of_exhausted hleft, run_of_exhausted hright]
        | completed =>
          obtain rfl : analysis.calm = analysis' := hafter rfl
          have hsetting : session.calm.setting program = session.setting program := rfl
          obtain ⟨hanswer, hemitted⟩ :=
            indifferent_emitMarked (session.setting program) _ analysis.toSite rfl
          rw [run_of_completed hleft, run_of_completed hright, hsetting, Analysis.calm_toSite,
            hanswer, hemitted]
          rfl

theorem emit_calm (session : Session) (program : Program) :
    (session.emit program).1 = .ok .cancelled ∨
      (session.emit program).1 = (session.calm.emit program).1 := by
  have hconsumed : session.calm.consumed = session.consumed := rfl
  rw [emit, emit, hconsumed]
  split
  · exact .inr rfl
  · exact run_calm session program

theorem emit_calm_ne_cancelled (session : Session) (program : Program) :
    (session.calm.emit program).1 ≠ .ok .cancelled := by
  rw [emit]
  split
  · exact fun h => by cases h
  · intro h
    exact analyse_calm_ne_cancelled session program (cancelled_of_run h)

/-- A session that was cancelled has emitted nothing. -/
theorem not_emitted_of_cancelled (huntouched : session.Untouched)
    (h : (session.emit program).1 = .ok .cancelled) (node : Handle) :
    (session.emit program).2.workspace.arena.progress node ≠ .emitted := by
  rw [emit] at h ⊢
  split at h
  · cases h
  rename_i hconsumed
  rw [if_neg hconsumed]
  obtain ⟨_, hleft⟩ := run_of_cancelled (Prod.ext (cancelled_of_run h) rfl)
  rw [hleft]
  obtain ⟨_, hstart, _⟩ := accounts_start
    (expand session.compiler (session.setting program)) (session.setting program) session.roots
    huntouched
  have hstill (node : Handle) (workspace : Workspace) :=
    (yields_expand session.compiler (session.setting program) node workspace (always_true _)).1
  have hle := Analysis.progress_saturate_le
    (fun node workspace other => Graph.Arena.Grows.progress (hstill node workspace) other)
    hstart.tally.progress_le program.rounds node
  intro hemitted
  change (session.analyse program).2.arena.progress node ≤ _ at hle
  rw [hemitted] at hle
  exact absurd hle (by decide)

end Session

end PortableImage
