import PortableImage.Proofs.Graph.Starting
import PortableImage.Proofs.Session.AgreeingExpansions
/-!
# What a session keeps track of

Taken with itself, a workspace is alike to itself exactly if its ledger is sound, its rulings are
those of the program, and its artifacts are artifacts there can be.  Every expansion keeps such a
workspace orderly, and along a whole analysis the session keeps track of where the code it has
compiled comes from.
-/

namespace PortableImage

open PortableImage.Graph (Analysis Arena Dependency Expander Expansion Handle Site)

def Workspace.Orderly (setting : Setting) (workspace : Workspace) : Prop :=
  Workspace.Alike setting ⟨False, workspace.store.compiled, workspace.store.compiled⟩
    workspace workspace

namespace Workspace

variable {setting : Setting} {before after : Workspace}

theorem orderly_of_alike (h : Workspace.Alike setting
    ⟨False, before.store.compiled, before.store.compiled⟩ after after) :
    after.Orderly setting ∧ after.store.compiled = before.store.compiled :=
  ⟨{ h with
      left := rfl
      right := rfl }, h.left⟩

theorem Orderly.keep (h : before.Orderly setting) (node : Handle) (compiled : CompiledMethod) :
    (before.keep node compiled).Orderly setting :=
  { h with
    draft := h.draft
    left := rfl
    right := rfl }

theorem orderly_of {workspace : Workspace}
    (hsound : workspace.store.ledger.Sound setting.program setting.bubble)
    (hruled : ∀ method ruling, workspace.store.rulings.find? method = some ruling →
      setting.program.rule setting.bubble method = ruling)
    (hwithin : workspace.arena.Within setting.program.artifacts) : workspace.Orderly setting where
  draft := ⟨rfl, hsound, fun _ => rfl, hwithin, hwithin⟩
  rulings := rfl
  ruled := hruled
  cancelled := rfl
  steady h := h.elim
  left := rfl
  right := rfl

theorem Orderly.rearrange (h : before.Orderly setting) (hmoved : before.Rearranges after) :
    after.Orderly setting := by
  refine orderly_of ?_ ?_ fun node key hkey => ?_
  · rw [hmoved.store]
    exact h.draft.sound
  · rw [hmoved.store]
    exact h.ruled
  · exact h.draft.within node key ((hmoved.key? node).symm.trans hkey)

theorem Orderly.intern (h : before.Orderly setting) {keys : List ArtifactKey}
    (hkeys : ∀ key ∈ keys, key ∈ setting.program.artifacts) :
    Orderly setting { before with arena := (before.arena.internEach keys).2 } :=
  orderly_of h.draft.sound h.ruled (h.draft.within.internEach hkeys)

/-- An orderly workspace makes a desk that is alike to itself. -/
theorem Orderly.desk (h : before.Orderly setting) :
    Desk.Alike setting ⟨False, before.store.compiled, before.store.compiled⟩ ⟨before, []⟩
      ⟨before, []⟩ := ⟨h, .nil⟩

theorem orderly_empty (setting : Setting) : Orderly setting .empty :=
  orderly_of (Ledger.sound_empty _ _) (fun _ _ h => by cases h) (Arena.within_empty _)

end Workspace

namespace Session

variable {compiler : Compiler} {setting : Setting} {node : Handle} {before planned worked : Workspace}
  {key : ArtifactKey} {method : Entity}

theorem needs_orderly (h : before.Orderly setting) {answer : Except Fault Expansion}
    (hneeds : Workspace.plan (Drafting.needs setting key) before = (answer, planned)) :
    planned.Orderly setting ∧ planned.store.compiled = before.store.compiled ∧
      ∀ expansion, answer = .ok expansion →
        Drafting.Covers setting key expansion.always planned.draft := by
  obtain ⟨_, hafter, hanswers⟩ := (agrees_planned (Drafting.agrees_needs setting key)).start h
  simp only [hneeds] at hafter hanswers
  obtain ⟨horderly, hcompiled⟩ := Workspace.orderly_of_alike hafter
  refine ⟨horderly, hcompiled, fun expansion hexpansion => ?_⟩
  subst hexpansion
  cases hanswers with
  | ok hneeded => exact hneeded.now.covers

theorem held_orderly (h : planned.Orderly setting) (compiler : Compiler) (method : Entity)
    (body : MethodBody) :
    (compiler.held setting method body planned).2.workspace.Orderly setting ∧
      (compiler.held setting method body planned).2.workspace.store.compiled =
        planned.store.compiled := by
  have hself : Dialogue.Alike Eq (fun _ _ => True) (compiler.dialogue method body)
      (compiler.dialogue method body) := Dialogue.alike_refl (fun _ => trivial) _
  obtain ⟨hafter, _⟩ := Answering.alike_hold hself (fun hsteady : False => hsteady.elim) h.desk
    fun a b (hcited : Answering.Cited _ a b) => by
      obtain ⟨⟨_, ha, hb⟩, _⟩ := hcited
      exact Arena.eq_of_key? ha hb
  exact Workspace.orderly_of_alike hafter.workspace

/-- What a method was compiled to, at which node and from which workspace. -/
structure Compiled (compiler : Compiler) (setting : Setting) (node : Handle) (before : Workspace)
    (expansion : Expansion) (compiled : CompiledMethod) : Prop where
  code : ∃ method needed planned worked, before.arena.key? node = some (.methodCode method) ∧
    Workspace.plan (Drafting.needs setting (.methodCode method)) before = (.ok needed, planned) ∧
    compiler.compile setting node planned = (.ok compiled, worked)
  noted : ∀ dependency ∈ compiled.dependencies, dependency ∈ expansion.always

/-- The dialogue that the code of a method comes from. -/
theorem Compiled.exists_held {expansion : Expansion} {compiled : CompiledMethod}
    (h : Compiled compiler setting node before expansion compiled) :
    ∃ method needed planned body, before.arena.key? node = some (.methodCode method) ∧
      Workspace.plan (Drafting.needs setting (.methodCode method)) before = (.ok needed, planned) ∧
      setting.body? method = some body ∧
      (compiler.held setting method body planned).1 = .ok compiled.toLayout ∧
      compiled.dependencies = (compiler.held setting method body planned).2.noted ∧
      Compiler.misplaced? compiled.toLayout = none := by
  obtain ⟨method, needed, planned, worked, hkey, hneeds, hcompile⟩ := h.code
  rcases compile_eq (key?_planned hkey hneeds) hcompile with ⟨_, hfault, _⟩ |
    ⟨body, hbody, _, hanswer⟩
  · cases hfault
  · exact ⟨method, needed, planned, body, hkey, hneeds, hbody, hanswer compiled rfl⟩

/-- Compiled code has all its places inside. -/
theorem Compiled.inside {expansion : Expansion} {compiled : CompiledMethod}
    (h : Compiled compiler setting node before expansion compiled) :
    ∀ relocation ∈ compiled.relocations, relocation.stop ≤ compiled.data.length := by
  obtain ⟨_, _, _, _, _, _, _, _, _, hmisplaced⟩ := h.exists_held
  intro relocation hrelocation
  have hinside := List.find?_eq_none.mp hmisplaced relocation hrelocation
  rw [decide_eq_true_eq] at hinside
  exact Nat.not_lt.mp hinside

namespace Outcome

variable {answer : Except Fault Expansion} {after : Workspace}

theorem worked_orderly {needed : Except Fault Expansion} {compiled : Except Fault CompiledMethod}
    (horderly : before.Orderly setting) (hkey : before.arena.key? node = some (.methodCode method))
    (hneeds : Workspace.plan (Drafting.needs setting (.methodCode method)) before =
      (needed, planned))
    (hcompile : compiler.compile setting node planned = (compiled, worked)) :
    worked.Orderly setting ∧ worked.store.compiled = before.store.compiled := by
  obtain ⟨hplanned, hsame, _⟩ := needs_orderly horderly hneeds
  rcases compile_eq (key?_planned hkey hneeds) hcompile with ⟨_, _, rfl⟩ | ⟨body, _, rfl, _⟩
  · exact ⟨hplanned, hsame⟩
  · obtain ⟨hworked, hsame'⟩ := held_orderly hplanned compiler method body
    exact ⟨hworked, hsame'.trans hsame⟩

theorem orderly (h : Outcome compiler setting node before answer after)
    (horderly : before.Orderly setting) : after.Orderly setting := by
  cases h with
  | unknown hkey => exact horderly
  | unneeded hkey hneeds => exact (needs_orderly horderly hneeds).1
  | needed hkey hother hneeds => exact (needs_orderly horderly hneeds).1
  | failed hkey hneeds hcompile => exact (worked_orderly horderly hkey hneeds hcompile).1
  | compiled hkey hneeds hcompile => exact (worked_orderly horderly hkey hneeds hcompile).1.keep _ _

theorem compiled_eq (h : Outcome compiler setting node before answer after)
    (horderly : before.Orderly setting) :
    ((∀ method, before.arena.key? node = some (.methodCode method) →
        ∀ expansion, answer ≠ .ok expansion) ∧
        after.store.compiled = before.store.compiled) ∨
      ∃ expansion compiled, answer = .ok expansion ∧
        Compiled compiler setting node before expansion compiled ∧
        after.store.compiled = before.store.compiled.put node compiled := by
  cases h with
  | unknown hkey => exact .inl ⟨fun _ _ _ => by simp, rfl⟩
  | unneeded hkey hneeds =>
    exact .inl ⟨fun _ _ _ => by simp, (needs_orderly horderly hneeds).2.1⟩
  | needed hkey hother hneeds =>
    refine .inl ⟨fun method hmethod => ?_, (needs_orderly horderly hneeds).2.1⟩
    exact absurd (Option.some.inj (hkey.symm.trans hmethod)) (hother method)
  | failed hkey hneeds hcompile =>
    exact .inl ⟨fun _ _ _ => by simp, (worked_orderly horderly hkey hneeds hcompile).2⟩
  | compiled hkey hneeds hcompile =>
    rename_i method needed planned compiled worked
    refine .inr ⟨_, compiled, rfl, ⟨⟨method, needed, planned, worked, hkey, hneeds, hcompile⟩, ?_⟩, ?_⟩
    · exact fun _ => List.mem_append_right _
    · show worked.store.compiled.put node compiled = _
      rw [(worked_orderly horderly hkey hneeds hcompile).2]

theorem covers {expansion : Expansion} (h : Outcome compiler setting node before (.ok expansion) after)
    (horderly : before.Orderly setting) (hkey : before.arena.key? node = some key) :
    Drafting.Covers setting key expansion.always after.draft := by
  cases h with
  | needed hkey' hother hneeds =>
    obtain rfl := Option.some.inj (hkey.symm.trans hkey')
    exact (needs_orderly horderly hneeds).2.2 _ rfl
  | compiled hkey' hneeds hcompile =>
    obtain rfl := Option.some.inj (hkey.symm.trans hkey')
    exact fun _ _ hrefers => by cases hrefers

end Outcome

/-- Where the compiled code comes from: every piece from an expansion of its node, and every
expansion that came to a result has left its piece. -/
structure Tracked (compiler : Compiler) (setting : Setting) (past : List (Handle × Workspace))
    (workspace : Workspace) : Prop where
  orderly : workspace.Orderly setting
  surveyed : ∀ survey ∈ past, survey.2.Orderly setting
  source : ∀ node compiled, workspace.store.compiled.find? node = some compiled →
    ∃ before expansion, (node, before) ∈ past ∧
      (expand compiler setting node before).1 = .ok expansion ∧
      Compiled compiler setting node before expansion compiled
  kept : ∀ node before method, (node, before) ∈ past →
    before.arena.key? node = some (.methodCode method) →
    ∀ expansion, (expand compiler setting node before).1 = .ok expansion →
      (workspace.store.compiled.find? node).isSome

theorem Tracked.expand {past : List (Handle × Workspace)}
    (h : Tracked compiler setting past before) (node : Handle) :
    Tracked compiler setting (past ++ [(node, before)])
      (Session.expand compiler setting node before).2 := by
  have houtcome := outcome_expand compiler setting node before
  have hpast : ∀ survey ∈ past ++ [(node, before)], survey.2.Orderly setting := by
    intro survey hsurvey
    rcases List.mem_append.mp hsurvey with hsurvey | hsurvey
    · exact h.surveyed survey hsurvey
    · rw [List.mem_singleton.mp hsurvey]
      exact h.orderly
  have hlast : ∀ {other : Handle} {earlier : Workspace}, (other, earlier) ∈ past ++ [(node, before)] →
      (other, earlier) ∈ past ∨ other = node ∧ earlier = before := by
    intro other earlier hmem
    rw [List.mem_append, List.mem_singleton, Prod.mk.injEq] at hmem
    exact hmem
  rcases houtcome.compiled_eq h.orderly with ⟨hfailed, hsame⟩ |
    ⟨expansion, compiled, hanswer, hcompiled, hput⟩
  · refine ⟨houtcome.orderly h.orderly, hpast, ?_, ?_⟩
    · intro other code hcode
      rw [hsame] at hcode
      obtain ⟨earlier, expansion, hmem, hsource⟩ := h.source other code hcode
      exact ⟨earlier, expansion, List.mem_append_left _ hmem, hsource⟩
    · intro other earlier method hmem hkey expansion hexpansion
      rw [hsame]
      rcases hlast hmem with hmem | ⟨rfl, rfl⟩
      · exact h.kept other earlier method hmem hkey expansion hexpansion
      · exact absurd hexpansion (hfailed method hkey expansion)
  · refine ⟨houtcome.orderly h.orderly, hpast, ?_, ?_⟩
    · intro other code hcode
      rw [hput, Bindings.find?_put] at hcode
      split at hcode
      · rename_i hother
        subst hother
        obtain rfl := Option.some.inj hcode
        exact ⟨before, expansion, List.mem_append_right _ (List.mem_singleton_self _), hanswer,
          hcompiled⟩
      · obtain ⟨earlier, expansion, hmem, hsource⟩ := h.source other code hcode
        exact ⟨earlier, expansion, List.mem_append_left _ hmem, hsource⟩
    · intro other earlier method hmem hkey expansion hexpansion
      rw [hput, Bindings.find?_put]
      split
      · rfl
      · rename_i hother
        rcases hlast hmem with hmem | ⟨hnode, _⟩
        · exact h.kept other earlier method hmem hkey expansion hexpansion
        · exact absurd hnode hother

theorem carries_tracked (compiler : Compiler) (setting : Setting) :
    (expand compiler setting).Carries (Tracked compiler setting) where
  expand _ node _ h := h.expand node
  rearrange past old new hmoved h := by
    refine ⟨h.orderly.rearrange hmoved, h.surveyed, ?_, ?_⟩
    · rw [hmoved.store]
      exact h.source
    · rw [hmoved.store]
      exact h.kept

theorem keeps_orderly (compiler : Compiler) (setting : Setting) :
    (expand compiler setting).Keeps (Workspace.Orderly setting) where
  expand _ node before h := (outcome_expand compiler setting node before).orderly h
  rearrange _ _ _ hmoved h := h.rearrange hmoved

end Session

end PortableImage
