import PortableImage.Proofs.Session.Emitting
import PortableImage.Proofs.Session.Expanding
/-!
# Finishing the marked artifacts

Emission goes through the marked nodes in the order of their keys.  A step finishes one node: it may
create nodes, and it moves the work on that node to its end.  Which artifacts are marked stays as it
is, so what is said of an artifact when it is emitted holds in the end.
-/

namespace PortableImage

open PortableImage.Graph (Arena Handle Progress keyLE)

namespace Graph.Arena

variable {κ : Type} {old middle new : Arena κ} {nodes others : List Handle}

/-- The other arena may have more nodes, and the work on the given ones is done. -/
structure Finishes (nodes : List Handle) (old new : Arena κ) : Prop where
  keeps : old.Keeps new
  progress : ∀ node, new.progress node = if node ∈ nodes then .emitted else old.progress node

theorem Finishes.of_grows (h : old.Grows new) : Finishes [] old new :=
  ⟨h.keeps, fun node => by rw [if_neg List.not_mem_nil, h.progress]⟩

theorem Finishes.trans (h : Finishes nodes old middle) (hlater : Finishes others middle new) :
    Finishes (nodes ++ others) old new := by
  refine ⟨h.keeps.trans hlater.keeps, fun node => ?_⟩
  rw [hlater.progress, h.progress]
  by_cases hnode : node ∈ nodes <;> by_cases hother : node ∈ others <;> simp [hnode, hother]

theorem Finishes.raise {arena : Arena κ} {node : Handle} (hknown : (arena.key? node).isSome) :
    Finishes [node] arena (arena.raise node .emitted) := by
  refine ⟨Keeps.of_key?_eq fun other => key?_raise .., fun other => ?_⟩
  rw [progress_raise_of_known hknown]
  simp only [List.mem_singleton]
  split
  · cases arena.progress node <;> rfl
  · rfl

theorem Finishes.isMarked_iff (h : Finishes nodes old new)
    (hnodes : ∀ node ∈ nodes, (old.progress node).isMarked) (node : Handle) :
    (new.progress node).isMarked ↔ (old.progress node).isMarked := by
  rw [h.progress]
  split
  · rename_i hnode
    exact iff_of_true rfl (hnodes node hnode)
  · rfl

theorem Finishes.mem_markedKeys (h : Finishes nodes old new)
    (hnodes : ∀ node ∈ nodes, (old.progress node).isMarked) (key : κ) :
    key ∈ new.markedKeys ↔ key ∈ old.markedKeys :=
  h.keeps.mem_markedKeys (h.isMarked_iff hnodes) key

end Graph.Arena

open Graph.Arena (Finishes)

variable {setting : Setting} {node : Handle} {artifact : EmittedArtifact}

/-- What is said of an artifact stands as long as the same artifacts are marked. -/
theorem Emitted.mono {old new : Arena ArtifactKey} (h : Emitted setting node artifact old)
    (hkeeps : old.Keeps new) (hmarked : ∀ key, key ∈ new.markedKeys ↔ key ∈ old.markedKeys) :
    Emitted setting node artifact new where
  key := hkeeps node _ h.key
  inside := h.inside
  closed relocation hmem key hsymbol := (hmarked key).mpr (h.closed relocation hmem key hsymbol)
  slots type htype index method hmethod hmem :=
    h.slots type htype index method hmethod ((hmarked _).mp hmem)

namespace Session

variable {before after : Workspace}

/-- A node that is emitted is planned for and then raised. -/
theorem exists_planned_of_emitNode (h : emitNode setting node before = (.ok artifact, after)) :
    ∃ planned, Workspace.plan (Drafting.emit setting node
        ((before.store.compiled.find? node).map CompiledMethod.toLayout)) before =
          (.ok artifact, planned) ∧
      after = { planned with arena := planned.arena.raise node .emitted } := by
  rw [emitNode, bind_get] at h
  obtain ⟨found, planned, hplan, hrest⟩ := bind_eq_ok h
  obtain ⟨_, raised, hraise, hanswer⟩ := bind_eq_ok hrest
  obtain ⟨hartifact, rfl⟩ := Prod.mk.inj hanswer
  obtain rfl := Except.ok.inj hartifact
  exact ⟨planned, hplan, (Prod.mk.inj hraise).2.symm⟩

theorem emitNode_eq_ok (hnode : (before.arena.progress node).isMarked)
    (h : emitNode setting node before = (.ok artifact, after)) :
    Finishes [node] before.arena after.arena ∧ Emitted setting node artifact after.arena := by
  obtain ⟨planned, hplan, rfl⟩ := exists_planned_of_emitNode h
  obtain ⟨hgrows, hemitted⟩ := (yields_plan (Drafting.yields_emit setting node _)).of_eq_ok hplan
  have hgrown : Finishes [] before.arena planned.arena := Finishes.of_grows hgrows
  have hplanned : (planned.arena.progress node).isMarked :=
    (hgrown.isMarked_iff (by simp) node).mpr hnode
  have hraised := Finishes.raise (Arena.isSome_key?_of_isMarked hplanned)
  refine ⟨hgrown.trans hraised, hemitted.mono hraised.keeps ?_⟩
  apply hraised.mem_markedKeys
  intro other hother
  rwa [List.mem_singleton.mp hother]

theorem emitEach_eq_ok {nodes : List Handle} {artifacts : List EmittedArtifact}
    (hnodes : ∀ node ∈ nodes, (before.arena.progress node).isMarked)
    (h : nodes.mapM (emitNode setting) before = (.ok artifacts, after)) :
    Finishes nodes before.arena after.arena ∧
      List.Forall₂ (fun node artifact => Emitted setting node artifact after.arena)
        nodes artifacts := by
  induction nodes generalizing before artifacts with
  | nil =>
    rw [List.mapM_nil] at h
    obtain ⟨hartifacts, rfl⟩ := Prod.mk.inj h
    obtain rfl := Except.ok.inj hartifacts
    exact ⟨Finishes.of_grows (Arena.Grows.refl _), .nil⟩
  | cons node nodes ih =>
    rw [List.mapM_cons] at h
    obtain ⟨artifact, middle, hfirst, hrest⟩ := bind_eq_ok h
    obtain ⟨others, later, hothers, hanswer⟩ := bind_eq_ok hrest
    obtain ⟨hartifacts, rfl⟩ := Prod.mk.inj hanswer
    obtain rfl := Except.ok.inj hartifacts
    obtain ⟨hfinishes, hemitted⟩ := emitNode_eq_ok (hnodes node List.mem_cons_self) hfirst
    have hmarked : ∀ other ∈ nodes, (middle.arena.progress other).isMarked := by
      intro other hother
      rw [hfinishes.isMarked_iff (by simpa using hnodes node List.mem_cons_self)]
      exact hnodes other (List.mem_cons_of_mem _ hother)
    obtain ⟨hlater, hmatch⟩ := ih hmarked hothers
    refine ⟨hfinishes.trans hlater, .cons ?_ hmatch⟩
    exact hemitted.mono hlater.keeps (hlater.mem_markedKeys hmarked)

end Session

namespace Session

theorem mem_emissionOrder {workspace : Workspace} {node : Handle} :
    node ∈ emissionOrder workspace ↔ (workspace.arena.progress node).isMarked := by
  rw [emissionOrder, List.mem_mergeSort, Arena.mem_marked]

/-- The emitted artifacts are the marked ones. -/
theorem mem_keys_iff_of_emitted {before after : Workspace} {artifacts : List EmittedArtifact}
    (hemitted : List.Forall₂ (fun node artifact => Emitted setting node artifact after.arena)
      (emissionOrder before) artifacts)
    (hfinishes : Finishes (emissionOrder before) before.arena after.arena) {key : ArtifactKey} :
    key ∈ artifacts.map EmittedArtifact.key ↔ key ∈ before.arena.markedKeys := by
  rw [List.mem_map, Arena.mem_markedKeys]
  constructor
  · rintro ⟨artifact, hmem, rfl⟩
    obtain ⟨node, hnode, hartifact⟩ := exists_of_mem_right hemitted hmem
    have hmarked := mem_emissionOrder.mp hnode
    obtain ⟨key, hkey⟩ := Option.isSome_iff_exists.mp (Arena.isSome_key?_of_isMarked hmarked)
    have hkept := hfinishes.keeps node key hkey
    rw [hartifact.key] at hkept
    exact ⟨node, hkept ▸ hkey, hmarked⟩
  · rintro ⟨node, hkey, hmarked⟩
    obtain ⟨artifact, hmem, hartifact⟩ :=
      exists_of_mem_left hemitted (mem_emissionOrder.mpr hmarked)
    have hkept := hfinishes.keeps node key hkey
    rw [hartifact.key] at hkept
    exact ⟨artifact, hmem, Option.some.inj hkept⟩

/-- The marked nodes are emitted in strictly ascending order of their keys. -/
theorem pairwise_emissionOrder (workspace : Workspace) :
    (emissionOrder workspace).Pairwise fun a b => ∃ first second,
      workspace.arena.key? a = some first ∧ workspace.arena.key? b = some second ∧
        first < second := by
  have hsorted := List.pairwise_mergeSort (Graph.keyLE_trans workspace.arena)
    (Graph.keyLE_total workspace.arena) workspace.arena.marked
  have honce : (emissionOrder workspace).Nodup :=
    (List.mergeSort_perm _ _).nodup_iff.mpr workspace.arena.nodup_marked
  refine (hsorted.and honce).imp_of_mem ?_
  rintro a b ha hb ⟨hle, hne⟩
  have hknown (node : Handle) (hnode : node ∈ emissionOrder workspace) :
      ∃ key, workspace.arena.key? node = some key :=
    Option.isSome_iff_exists.mp (Arena.isSome_key?_of_isMarked (mem_emissionOrder.mp hnode))
  obtain ⟨first, hfirst⟩ := hknown a ha
  obtain ⟨second, hsecond⟩ := hknown b hb
  refine ⟨first, second, hfirst, hsecond, Ranked.lt_of_le_of_ne ?_ ?_⟩
  · rw [keyLE, hfirst, hsecond] at hle
    exact of_decide_eq_true hle
  · rintro rfl
    exact hne (Arena.eq_of_key? hfirst hsecond)

end Session

end PortableImage
