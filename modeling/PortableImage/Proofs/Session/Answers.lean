import PortableImage.Proofs.Session.Planning
import PortableImage.Backend.Compiler
/-!
# What answering yields

At the desk the workspace grows, and what has been noted stays noted; everything that is noted
leads to an existing node.  So a dialogue, however it goes, leaves the desk with dependencies that
exist and with whatever was noted on the way.
-/

namespace PortableImage

open PortableImage.Graph (Arena Dependency Handle)

/-- Desks are ordered by growth: notes are added, for nodes that exist. -/
instance : Preorder Desk where
  le before after := before.workspace ≤ after.workspace ∧
    ∃ added, after.noted = before.noted ++ added ∧
      ∀ dependency ∈ added, (after.workspace.arena.key? dependency.target).isSome
  le_refl desk := ⟨le_refl desk.workspace, [], (List.append_nil _).symm, fun _ h => by cases h⟩
  le_trans a b c := by
    rintro ⟨hab, added, hadded, hexists⟩ ⟨hbc, more, hmore, hmoreExists⟩
    refine ⟨hab.trans hbc, added ++ more, by rw [hmore, hadded, List.append_assoc], ?_⟩
    intro dependency hmem
    rcases List.mem_append.mp hmem with hmem | hmem
    · exact (Arena.Grows.keeps hbc).isSome (hexists dependency hmem)
    · exact hmoreExists dependency hmem

namespace Desk

theorem le_of_workspace {desk : Desk} {workspace : Workspace} (h : desk.workspace ≤ workspace) :
    desk ≤ { desk with workspace := workspace } :=
  ⟨h, [], (List.append_nil _).symm, fun _ hmem => by cases hmem⟩

theorem mem_noted_of_le {before after : Desk} (h : before ≤ after) {dependency : Dependency}
    (hmem : dependency ∈ before.noted) : dependency ∈ after.noted := by
  obtain ⟨_, added, hadded, _⟩ := h
  rw [hadded]
  exact List.mem_append_left _ hmem

end Desk

theorem yields_plan {α : Type} {pre : Workspace → Prop} {drafting : Drafting α}
    {post : α → Draft → Prop} (h : Yields (fun _ => True) drafting post) :
    Yields pre (Workspace.plan drafting) fun value workspace => post value workspace.draft := by
  intro workspace _
  obtain ⟨hgrows, hvalue⟩ := h workspace.draft (always_true _)
  exact ⟨hgrows, fun value hanswer later hlater => hvalue value hanswer later.draft hlater⟩

theorem yields_rule {pre : Workspace → Prop} (setting : Setting) (method : Entity) :
    Yields pre (Workspace.rule setting method) fun _ _ => True :=
  fun workspace _ => ⟨Arena.Grows.refl workspace.arena, fun _ _ _ _ => trivial⟩

namespace Answering

variable {pre : Desk → Prop}

theorem yields_work {α : Type} {working : Working α} {post : α → Workspace → Prop}
    (h : Yields (fun _ => True) working post) :
    Yields pre (work working) fun value desk => post value desk.workspace := by
  intro desk _
  obtain ⟨hgrows, hvalue⟩ := h desk.workspace (always_true _)
  exact ⟨Desk.le_of_workspace hgrows,
    fun value hanswer later hlater => hvalue value hanswer later.workspace hlater.1⟩

theorem yields_plan {α : Type} {drafting : Drafting α} {post : α → Draft → Prop}
    (h : Yields (fun _ => True) drafting post) :
    Yields pre (plan drafting) fun value desk => post value desk.workspace.draft :=
  yields_work (PortableImage.yields_plan h)

/-- A note about an existing node is made and stays. -/
theorem yields_note {node : Handle}
    (hnode : ∀ desk, pre desk → Drafting.Exists node desk.workspace.draft) (reason : String) :
    Yields pre (note node reason) fun _ desk => ⟨node, reason⟩ ∈ desk.noted := by
  intro desk hpre
  have hle : desk ≤ { desk with noted := desk.noted ++ [⟨node, reason⟩] } := by
    refine ⟨le_refl desk.workspace, [⟨node, reason⟩], rfl, fun dependency hmem => ?_⟩
    rw [List.mem_singleton.mp hmem]
    exact hnode desk hpre.now
  refine ⟨hle, fun value _ later hlater => Desk.mem_noted_of_le hlater ?_⟩
  exact List.mem_append_right _ (List.mem_singleton_self _)

variable (setting : Setting) (method : Entity)

theorem yields_entity (token : Token) (kind : DefinitionKind) :
    Yields pre (entity setting method token kind) fun _ _ => True := by
  apply (Yields.lift _).bind
  intro entity
  split
  · exact Yields.pure fun _ _ => trivial
  · exact Yields.throw _

theorem yields_anchor (entity : Entity) :
    Yields pre (anchor setting method entity) fun node desk =>
      Drafting.Exists node desk.workspace.draft :=
  yields_plan (Drafting.yields_anchor _ _ _ _)

theorem yields_reference (entity : Entity) (reason : String) :
    Yields pre (reference setting method entity reason) fun _ _ => True := by
  apply (yields_anchor setting method entity).bind
  intro node
  exact (yields_note (fun _ h => h.2) reason).imp fun _ _ _ _ => trivial

omit setting method in
theorem yields_artifact (key : ArtifactKey) (reason : String) :
    Yields pre (artifact key reason) fun _ desk => ∃ dependency ∈ desk.noted,
      desk.workspace.arena.key? dependency.target = some key := by
  apply (yields_plan (Drafting.yields_node key)).bind
  intro node
  refine (yields_note (fun _ h => Drafting.exists_of_key? h.2) reason).imp ?_
  exact fun _ _ h hmem => ⟨_, hmem, h.2⟩

theorem yields_portable (token : Token) :
    Yields pre (portable setting method token) fun _ _ => True := by
  apply (Yields.lift _).bind
  intro entity
  apply (yields_reference setting method entity _).bind
  intro _
  apply (yields_plan (Drafting.yields_issueFor _ _ _ _)).bind
  intro resolved
  exact Yields.pure fun _ _ => trivial

omit method in
theorem yields_noteUse (callee : Entity) :
    Yields pre (noteUse setting callee) fun _ _ => True := by
  rw [noteUse]
  split
  · exact (yields_artifact _ _).bind fun _ => Yields.pure fun _ _ => trivial
  · exact Yields.pure fun _ _ => trivial

theorem yields_stubTarget (callee : Entity) :
    Yields pre (stubTarget setting method callee) fun node desk =>
      Drafting.Exists node desk.workspace.draft := by
  rw [stubTarget]
  split
  · exact yields_plan (Drafting.yields_node_exists _)
  · exact yields_anchor setting method callee

/-- What is left of a dispatched call once the use of the slot is noted. -/
theorem yields_stub (callee : Entity) :
    Yields pre (do
      let target ← stubTarget setting method callee
      let _ ← artifact (.helperCell .delayLoadVirtualCall) "virtual dispatch stub"
      note target "virtual call target") fun _ _ => True := by
  apply (yields_stubTarget setting method callee).bind
  intro target
  apply (yields_artifact _ _).bind
  intro _
  exact (yields_note (fun _ h => h.1.2) _).imp fun _ _ _ _ => trivial

theorem yields_dispatchedCall (callee : Entity) :
    Yields pre (dispatchedCall setting method callee) fun _ _ => True :=
  (yields_noteUse setting callee).bind fun _ => yields_stub setting method callee

theorem yields_call (token : Token) (mode : CallMode) :
    Yields pre (call setting method token mode) fun _ _ => True := by
  apply (yields_entity setting method token .method).bind
  intro callee
  cases mode with
  | direct => exact yields_reference setting method callee _
  | dispatched =>
    apply (yields_work (yields_rule setting callee)).bind
    intro ruling
    cases ruling with
    | monomorphic target => exact yields_reference setting method target _
    | unknown => exact yields_dispatchedCall setting method callee

theorem yields_describe (token : Token) :
    Yields pre (describe setting method token) fun _ _ => True :=
  (yields_entity setting method token .type).bind fun type => yields_reference setting method type _

theorem yields_allocate (token : Token) :
    Yields pre (allocate setting method token) fun _ _ => True := by
  apply (yields_entity setting method token .method).bind
  intro constructor
  apply (yields_plan (Drafting.yields_described _ _)).bind
  intro description
  apply (yields_artifact _ _).bind
  intro _
  apply (yields_reference setting method constructor _).bind
  intro _
  split
  · exact (yields_artifact _ _).imp fun _ _ _ _ => trivial
  · exact yields_reference setting method description.owner _

theorem yields_locate (token : Token) :
    Yields pre (locate setting method token) fun _ _ => True :=
  (yields_entity setting method token .field).bind fun field =>
    yields_reference setting method field _

theorem yields_ruling (token : Token) :
    Yields pre (ruling setting method token) fun _ _ => True :=
  (yields_entity setting method token .method).bind fun _ => yields_work (yields_rule setting _)

theorem le_reply (question : Question) (desk : Desk) :
    desk ≤ (reply setting method question desk).2 := by
  have hany := always_true desk
  cases question with
  | portable token => exact (yields_portable setting method token desk hany).1
  | call token mode => exact (yields_call setting method token mode desk hany).1
  | describe token => exact (yields_describe setting method token desk hany).1
  | allocate token => exact (yields_allocate setting method token desk hany).1
  | locate token => exact (yields_locate setting method token desk hany).1
  | ruling token => exact (yields_ruling setting method token desk hany).1
  | cancel => exact Desk.le_of_workspace (Arena.Grows.refl desk.workspace.arena)
  | helper name =>
    refine ⟨Arena.Grows.intern desk.workspace.arena _, [_], rfl, fun dependency hmem => ?_⟩
    rw [List.mem_singleton.mp hmem]
    show (Option.isSome (Arena.key? (Arena.intern _ _).2 (Arena.intern _ _).1)) = true
    rw [Arena.key?_intern]
    rfl

theorem entity_of_meaning {token : Token} {meant : Entity} {kind : DefinitionKind}
    (hmeaning : setting.program.meaning method.module token = .ok meant)
    (hkind : meant.kind? = some kind) (desk : Desk) :
    entity setting method token kind desk = (.ok meant, desk) := by
  rw [entity, hmeaning]
  show (if meant.kind? = some kind then Pure.pure meant
    else throw (.invalidToken token) : Answering Entity) desk = _
  rw [if_pos hkind]
  rfl

/-- A dispatched call that is not ruled on is made after the ruling was recorded. -/
theorem reply_dispatched_of_unknown {token : Token} {callee : Entity} {desk : Desk}
    (hmeaning : setting.program.meaning method.module token = .ok callee)
    (hkind : callee.kind? = some .method)
    (hruling : (desk.workspace.store.rulings.consult setting.program setting.bubble callee).1 =
      .unknown) :
    reply setting method (.call token .dispatched) desk =
      dispatchedCall setting method callee (work (Workspace.rule setting callee) desk).2 := by
  have hruled : work (Workspace.rule setting callee) desk =
      (.ok .unknown, (work (Workspace.rule setting callee) desk).2) :=
    Prod.ext (congrArg Except.ok hruling) rfl
  show call setting method token .dispatched desk = _
  rw [call, bind_of_ok (entity_of_meaning setting method hmeaning hkind desk)]
  exact bind_of_ok hruled

/-- A dispatched call of a virtual method that is not ruled on notes the use of its slot, whatever
else happens. -/
theorem noted_reply_dispatched {token : Token} {callee : Entity} {desk : Desk}
    (hmeaning : setting.program.meaning method.module token = .ok callee)
    (hkind : callee.kind? = some .method) (hvirtual : setting.program.isVirtual callee)
    (hruling : (desk.workspace.store.rulings.consult setting.program setting.bubble callee).1 =
      .unknown) :
    ∃ dependency ∈ (reply setting method (.call token .dispatched) desk).2.noted,
      (reply setting method (.call token .dispatched) desk).2.workspace.arena.key?
        dependency.target = some (.virtualMethodUse (setting.program.introducer callee)) := by
  generalize hruled : (work (Workspace.rule setting callee) desk).2 = ruled
  have hcall : reply setting method (.call token .dispatched) desk =
      dispatchedCall setting method callee ruled := by
    rw [← hruled]
    exact reply_dispatched_of_unknown setting method hmeaning hkind hruling
  have huse : noteUse setting callee ruled = (.ok (), (artifact
      (.virtualMethodUse (setting.program.introducer callee)) "virtual call" ruled).2) := by
    rw [noteUse, if_pos hvirtual]
    rfl
  have hartifact : Yields (fun _ => True)
      (artifact (.virtualMethodUse (setting.program.introducer callee)) "virtual call") _ :=
    yields_artifact _ _
  have hrest : (artifact (.virtualMethodUse (setting.program.introducer callee)) "virtual call"
      ruled).2 ≤ (dispatchedCall setting method callee ruled).2 := by
    rw [dispatchedCall, bind_of_ok huse]
    exact (yields_stub setting method callee _ (always_true _)).1
  rw [hcall]
  exact (hartifact ruled (always_true _)).2 _ rfl _ hrest

end Answering

end PortableImage
