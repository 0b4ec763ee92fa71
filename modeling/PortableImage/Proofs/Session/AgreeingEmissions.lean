import PortableImage.Proofs.Session.Furnishing
/-!
# Emissions agree

A node is emitted alike in twin workspaces of which one is furnished: both steps have the same
artifact, or fail with one fault, which does not come from the graph.  Emission takes nothing away,
so this holds of every step to the end, or to the first fault.
-/

namespace PortableImage

open PortableImage.Graph (Arena Handle)

namespace Session

variable {setting : Setting} {steady : Prop} {before planned left right : Workspace}
  {node a b : Handle} {nodes nodes' : List Handle}

/-- The code compiled for a node, as far as emission is concerned. -/
def codeFor (workspace : Workspace) (node : Handle) : Option Layout :=
  (workspace.store.compiled.find? node).map CompiledMethod.toLayout

theorem emitNode_of_ok {artifact : EmittedArtifact}
    (h : Workspace.plan (Drafting.emit setting node (codeFor before node)) before =
      (.ok artifact, planned)) :
    emitNode setting node before =
      (.ok artifact, { planned with arena := planned.arena.raise node .emitted }) := by
  unfold codeFor at h
  rw [emitNode, bind_get, bind_of_ok h]
  rfl

theorem emitNode_of_error {fault : Fault}
    (h : Workspace.plan (Drafting.emit setting node (codeFor before node)) before =
      (.error fault, planned)) : emitNode setting node before = (.error fault, planned) := by
  unfold codeFor at h
  rw [emitNode, bind_get, bind_of_error h]

/-- What emission answers does not depend on what becomes of the node. -/
theorem fst_emitNode (setting : Setting) (node : Handle) (before : Workspace) :
    (emitNode setting node before).1 =
      (Drafting.emit setting node (codeFor before node) before.draft).1 := by
  have hplanned : (Workspace.plan (Drafting.emit setting node (codeFor before node)) before).1 =
      (Drafting.emit setting node (codeFor before node) before.draft).1 := rfl
  cases hplan : Workspace.plan (Drafting.emit setting node (codeFor before node)) before with
  | mk answer planned =>
    rw [← hplanned, hplan]
    cases answer with
    | error fault => rw [emitNode_of_error hplan]
    | ok artifact => rw [emitNode_of_ok hplan]

theorem emitEach_of_ok {artifact : EmittedArtifact} {later : Workspace}
    (h : emitNode setting node before = (.ok artifact, later)) :
    (node :: nodes).mapM (emitNode setting) before =
      ((nodes.mapM (emitNode setting) later).1.map (artifact :: ·),
        (nodes.mapM (emitNode setting) later).2) := by
  rw [List.mapM_cons, bind_of_ok h]
  cases hrest : nodes.mapM (emitNode setting) later with
  | mk answer last =>
    cases answer with
    | error fault => exact bind_of_error hrest
    | ok artifacts => exact bind_of_ok hrest

theorem emitEach_of_error {fault : Fault} {later : Workspace}
    (h : emitNode setting node before = (.error fault, later)) :
    (node :: nodes).mapM (emitNode setting) before = (.error fault, later) := by
  rw [List.mapM_cons, bind_of_error h]

theorem rearranges_raise (workspace : Workspace) (node : Handle) :
    workspace.Rearranges { workspace with arena := workspace.arena.raise node .emitted } :=
  ⟨fun _ => Arena.key?_raise .., rfl, rfl⟩

/-- Emission takes nothing away, whether it comes to an artifact or not. -/
theorem continues_emitNode (hmarked : (before.arena.progress node).isMarked) :
    before.Continues (emitNode setting node before).2 := by
  have hgrows := (yields_plan (Drafting.yields_emit setting node (codeFor before node)) before
    (always_true _)).1
  have hcompiled : (Workspace.plan (Drafting.emit setting node (codeFor before node))
      before).2.store.compiled = before.store.compiled := rfl
  cases hplan : Workspace.plan (Drafting.emit setting node (codeFor before node)) before with
  | mk answer planned =>
    rw [hplan] at hgrows hcompiled
    have hplanned : before.Continues planned :=
      ⟨Arena.Grows.keeps hgrows, fun node => by rw [Arena.Grows.progress hgrows], hcompiled⟩
    cases answer with
    | error fault =>
      rw [emitNode_of_error hplan]
      exact hplanned
    | ok artifact =>
      rw [emitNode_of_ok hplan]
      have hnode := (hplanned.marked node).mpr hmarked
      have hraised := Arena.Finishes.raise (Arena.isSome_key?_of_isMarked hnode)
      refine hplanned.trans ⟨hraised.keeps, hraised.isMarked_iff fun other hother => ?_, rfl⟩
      rwa [List.mem_singleton.mp hother]

/-- What a marked artifact needs for its emission is there, in both workspaces. -/
theorem prepared_of_furnished {key : ArtifactKey} (htwin : Workspace.Twin setting steady left right)
    (hfurnished : left.Furnished setting) (hstands : Drafting.Stands key a b (left.draft, right.draft))
    (hmarked : (left.arena.progress a).isMarked) :
    Drafting.Prepared setting key (codeFor left a) (codeFor right b) (left.draft, right.draft) where
  ready := hfurnished.ready a key hstands.1 hmarked
  code method hkey := by
    subst hkey
    obtain ⟨compiled, hcompiled⟩ := Option.isSome_iff_exists.mp
      (hfurnished.compiled a method hstands.1 hmarked)
    have hfits := hfurnished.fits a compiled hcompiled
    have hrel := htwin.code.find? hstands.same
    rw [hcompiled] at hrel
    cases hright : right.store.compiled.find? b with
    | none =>
      rw [hright] at hrel
      cases hrel
    | some other =>
      rw [hright] at hrel
      cases hrel with
      | some halike =>
        exact ⟨compiled.toLayout, other.toLayout, by rw [codeFor, hcompiled]; rfl,
          by rw [codeFor, hright]; rfl, hfits.alongside halike⟩

section Step

variable (htwin : Workspace.Twin setting steady left right) (hfurnished : left.Furnished setting)
  (hab : Arena.Same left.arena right.arena a b) (hmarked : (left.arena.progress a).isMarked)
include htwin hfurnished hab hmarked

theorem agree_plan_emit :
    Concur Fault.Benign Eq
      (Workspace.plan (Drafting.emit setting a (codeFor left a)) left).1
      (Workspace.plan (Drafting.emit setting b (codeFor right b)) right).1 ∧
    Workspace.Twin setting steady
      (Workspace.plan (Drafting.emit setting a (codeFor left a)) left).2
      (Workspace.plan (Drafting.emit setting b (codeFor right b)) right).2 := by
  obtain ⟨key, ha, hb⟩ := hab
  have hprepared := prepared_of_furnished htwin hfurnished ⟨ha, hb⟩ hmarked
  obtain ⟨⟨hgrows, hgrows'⟩, hafter, hanswers⟩ := Drafting.agrees_emit
    (fun drafts (hle : (left.draft, right.draft) ≤ drafts) =>
      ⟨Arena.Grows.keeps hle.1 _ _ ha, Arena.Grows.keeps hle.2 _ _ hb⟩)
    (fun drafts hle => hprepared.mono hle) (left.draft, right.draft) htwin.alike.draft
    (fun _ hle => hle)
  refine ⟨hanswers.imp (fun _ => id) fun _ _ hsame => hsame.now, htwin.grow hgrows hgrows' ?_⟩
  exact { htwin.alike with draft := hafter }

theorem agree_emitNode :
    Concur Fault.Benign Eq (emitNode setting a left).1 (emitNode setting b right).1 ∧
      Workspace.Twin setting steady (emitNode setting a left).2 (emitNode setting b right).2 := by
  obtain ⟨hanswers, hplanned⟩ := agree_plan_emit htwin hfurnished hab hmarked
  have hgrows := (yields_plan (Drafting.yields_emit setting a (codeFor left a)) left
    (always_true _)).1
  have hgrows' := (yields_plan (Drafting.yields_emit setting b (codeFor right b)) right
    (always_true _)).1
  cases hleft : Workspace.plan (Drafting.emit setting a (codeFor left a)) left with
  | mk answer planned =>
  cases hright : Workspace.plan (Drafting.emit setting b (codeFor right b)) right with
  | mk answer' planned' =>
  rw [hleft, hright] at hanswers hplanned
  rw [hleft] at hgrows
  rw [hright] at hgrows'
  cases hanswers with
  | error hfault =>
    rw [emitNode_of_error hleft, emitNode_of_error hright]
    exact ⟨.error hfault, hplanned⟩
  | ok hsame =>
    rw [emitNode_of_ok hleft, emitNode_of_ok hright]
    refine ⟨.ok hsame, ?_⟩
    apply (Workspace.kinship_twin setting steady).rearrange _ _ _ _ hplanned
      (rearranges_raise planned a) (rearranges_raise planned' b)
    exact hplanned.alike.draft.arena.raise
      (hab.mono (Arena.Grows.keeps hgrows) (Arena.Grows.keeps hgrows')) .emitted

end Step

/-- All nodes are emitted alike, up to the first fault. -/
theorem agree_emitEach (htwin : Workspace.Twin setting steady left right)
    (hfurnished : left.Furnished setting)
    (hnodes : List.Forall₂ (Arena.Same left.arena right.arena) nodes nodes')
    (hmarked : ∀ node ∈ nodes, (left.arena.progress node).isMarked) :
    Concur Fault.Benign Eq (nodes.mapM (emitNode setting) left).1
        (nodes'.mapM (emitNode setting) right).1 ∧
      Workspace.Twin setting steady (nodes.mapM (emitNode setting) left).2
        (nodes'.mapM (emitNode setting) right).2 := by
  induction nodes generalizing left right nodes' with
  | nil =>
    cases hnodes
    exact ⟨.ok rfl, htwin⟩
  | cons node nodes ih =>
    cases hnodes with
    | @cons _ node' _ nodes' hfirst hrest =>
      have hnode := hmarked node List.mem_cons_self
      have hnode' : (right.arena.progress node').isMarked := by rwa [← htwin.progress hfirst]
      have hcontinues : left.Continues (emitNode setting node left).2 := continues_emitNode hnode
      have hcontinues' : right.Continues (emitNode setting node' right).2 :=
        continues_emitNode hnode'
      obtain ⟨hanswer, hafter⟩ := agree_emitNode htwin hfurnished hfirst hnode
      have hothers : List.Forall₂ (Arena.Same (emitNode setting node left).2.arena
          (emitNode setting node' right).2.arena) nodes nodes' :=
        hrest.imp fun _ _ hxy => hxy.mono hcontinues.keeps hcontinues'.keeps
      obtain ⟨hanswers, hlast⟩ := ih hafter (hfurnished.mono hcontinues) hothers fun other hother =>
        (hcontinues.marked other).mpr (hmarked other (List.mem_cons_of_mem _ hother))
      cases hleft : emitNode setting node left with
      | mk answer later =>
      cases hright : emitNode setting node' right with
      | mk answer' later' =>
      rw [hleft, hright] at hanswer hafter hanswers hlast
      cases hanswer with
      | error hfault =>
        rw [emitEach_of_error hleft, emitEach_of_error hright]
        exact ⟨.error hfault, hafter⟩
      | ok hsame =>
        rw [emitEach_of_ok hleft, emitEach_of_ok hright, hsame]
        exact ⟨hanswers.map fun _ _ hrest => by rw [hrest], hlast⟩

end Session

end PortableImage
