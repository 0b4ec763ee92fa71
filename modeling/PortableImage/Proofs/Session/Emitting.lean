import PortableImage.Artifact.Emission
import PortableImage.Proofs.Session.Planning
/-!
# What emission yields

Emission creates nodes at most and marks none.  A finished artifact has the key of its node, its
places lie inside its data, and they point to marked artifacts only.  In a table of virtual methods
the slots follow each other behind a header of sixteen bytes, and a slot whose method is marked
points to the code of the method.
-/

namespace PortableImage

open PortableImage.Graph (Arena Handle)

def slotsFrom (start : Nat) (targets : List Relocation.Target) : List Relocation :=
  targets.mapIdx fun index target => ⟨UInt32.ofNat (start + 8 * index), .absolute64, target⟩

namespace Layout

variable {head layout next : Layout} {targets : List Relocation.Target}

theorem eq_of_count {value : Nat} (h : layout.count value = .ok next) :
    next = layout.word (UInt32.ofNat value) := by
  rw [count] at h
  split at h
  · exact (Except.ok.inj h).symm
  · cases h

theorem eq_of_slot {target : Option Relocation.Target} (h : layout.slot target = .ok next) :
    next = layout.place .absolute64 target ∧
      (target.isSome → layout.data.length < 0x100000000) := by
  rw [slot] at h
  split at h
  · cases h
  · rename_i hlength
    refine ⟨(Except.ok.inj h).symm, fun htarget => ?_⟩
    rw [htarget, Bool.true_and, decide_eq_true_iff] at hlength
    exact Nat.not_le.mp hlength

theorem length_word (layout : Layout) (value : UInt32) :
    (layout.word value).data.length = layout.data.length + 4 := by
  rw [word, List.length_append, Bytes.length_ofWord]

theorem length_place (layout : Layout) (kind : Relocation.Kind)
    (target : Option Relocation.Target) :
    (layout.place kind target).data.length = layout.data.length + kind.size := by
  show (layout.data ++ Bytes.zeros kind.size).length = _
  rw [List.length_append, Bytes.zeros, List.length_replicate]

/-- A layout is another one with slots behind it, and each of them has a word for an offset. -/
structure Extends (head : Layout) (targets : List Relocation.Target) (layout : Layout) : Prop where
  length : layout.data.length = head.data.length + 8 * targets.length
  relocations : layout.relocations = head.relocations ++ slotsFrom head.data.length targets
  within : ∀ index < targets.length, head.data.length + 8 * index < 0x100000000

theorem Extends.nil (head : Layout) : head.Extends [] head :=
  ⟨rfl, (List.append_nil _).symm, fun _ h => by cases h⟩

theorem Extends.slot {target : Relocation.Target} (h : head.Extends targets layout)
    (hslot : layout.slot (some target) = .ok next) : head.Extends (targets ++ [target]) next := by
  obtain ⟨rfl, hlength⟩ := eq_of_slot hslot
  constructor
  · rw [length_place, h.length, List.length_append]
    show _ + 8 = _ + 8 * (_ + 1)
    omega
  · show layout.relocations ++ [_] = _
    rw [h.relocations, slotsFrom, slotsFrom, List.mapIdx_concat, ← List.append_assoc, h.length]
  · intro index hindex
    rw [List.length_append] at hindex
    rcases Nat.lt_or_ge index targets.length with hlt | hge
    · exact h.within index hlt
    · have hlast := hlength rfl
      rw [h.length] at hlast
      have heq : index = targets.length := by
        simp only [List.length_singleton] at hindex
        omega
      rwa [heq]

theorem mem_slotsFrom {start : Nat} {relocation : Relocation} :
    relocation ∈ slotsFrom start targets ↔ ∃ index target, targets[index]? = some target ∧
      relocation = ⟨UInt32.ofNat (start + 8 * index), .absolute64, target⟩ := by
  rw [slotsFrom, List.mem_mapIdx]
  constructor
  · rintro ⟨index, hindex, rfl⟩
    exact ⟨index, _, List.getElem?_eq_getElem hindex, rfl⟩
  · rintro ⟨index, target, htarget, rfl⟩
    obtain ⟨hindex, rfl⟩ := List.getElem?_eq_some_iff.mp htarget
    exact ⟨index, hindex, rfl⟩

theorem Extends.toNat_offset (h : head.Extends targets layout) {index : Nat}
    (hindex : index < targets.length) :
    (UInt32.ofNat (head.data.length + 8 * index)).toNat = head.data.length + 8 * index := by
  have hwithin := h.within index hindex
  rw [UInt32.toNat_ofNat']
  omega

/-- A slot stands at its offset, and nothing else behind the head does. -/
theorem Extends.slot_iff (h : head.Extends targets layout) {relocation : Relocation} {index : Nat}
    {target : Relocation.Target} (htarget : targets[index]? = some target)
    (hhead : relocation ∉ head.relocations) :
    relocation ∈ layout.relocations ∧
        relocation.offset.toNat = head.data.length + 8 * index ↔
      relocation = ⟨UInt32.ofNat (head.data.length + 8 * index), .absolute64, target⟩ := by
  have hlt : index < targets.length := (List.getElem?_eq_some_iff.mp htarget).1
  rw [h.relocations, List.mem_append, or_iff_right hhead, mem_slotsFrom]
  constructor
  · rintro ⟨⟨other, found, hfound, rfl⟩, hoffset⟩
    have hother : other < targets.length := (List.getElem?_eq_some_iff.mp hfound).1
    rw [h.toNat_offset hother] at hoffset
    have heq : other = index := by omega
    subst heq
    rw [Option.some.inj (hfound.symm.trans htarget)]
  · rintro rfl
    exact ⟨⟨index, target, htarget, rfl⟩, h.toNat_offset hlt⟩

end Layout

namespace Drafting

variable {pre : Draft → Prop}

theorem yields_markedNode? (key : ArtifactKey) :
    Yields pre (markedNode? key) fun found draft =>
      (∀ node, found = some node → draft.arena.key? node = some key) ∧
      (found = none → key ∉ draft.arena.markedKeys) := by
  apply yields_get.bind
  intro before
  apply Yields.pure
  intro draft h
  have hgrows : before.arena.Grows draft.arena := h.2
  constructor
  · intro node hfound
    rw [Option.filter_eq_some_iff] at hfound
    exact hgrows.keeps _ _ (Arena.key?_of_find? hfound.1)
  · intro hnone hmem
    rw [hgrows.mem_markedKeys, Arena.mem_markedKeys] at hmem
    obtain ⟨node, hkey, hmarked⟩ := hmem
    rw [Option.filter_eq_none_iff] at hnone
    exact hnone node (Arena.find?_eq_some_iff.mpr hkey) hmarked

/-- What the slot of a method may be bound to: its code, if that is marked. -/
def BindsTo (method : Entity) (target : Relocation.Target) (draft : Draft) : Prop :=
  .methodCode method ∈ draft.arena.markedKeys →
    ∃ node, target = .node node ∧ draft.arena.key? node = some (.methodCode method)

theorem yields_slotTarget (setting : Setting) (type method : Entity) :
    Yields pre (slotTarget setting type method) (BindsTo method) := by
  apply (yields_markedNode? _).bind
  intro found
  cases found with
  | some node => exact Yields.pure fun draft h _ => ⟨node, rfl, h.2.1 node rfl⟩
  | none =>
    apply (yields_issue _ _ _).bind
    intro token
    apply Yields.pure
    intro draft h hmarked
    exact absurd hmarked (h.1.2.2 rfl)

theorem yields_appendSlot (setting : Setting) (type method : Entity) (layout : Layout) :
    Yields pre (appendSlot setting type layout method) fun next draft => ∃ target,
      BindsTo method target draft ∧ layout.slot (some target) = .ok next := by
  apply (yields_slotTarget setting type method).bind
  intro target
  exact (Yields.lift _).imp fun _ _ hpre hslot => ⟨target, hpre.2, hslot⟩

/-- The methods that have a slot in the table of a type. -/
def virtualMethods (setting : Setting) (type : Entity) : List Entity :=
  (setting.program.declaredMethods type).filter setting.program.isVirtual

/-- Where the slot of a method stands in the table of a type. -/
def slotOffset (setting : Setting) (type method : Entity) : Nat :=
  16 + 8 * (virtualMethods setting type).idxOf method

/-- A table of virtual methods: a header of sixteen bytes, then a slot for each method. -/
structure VTableLayout (setting : Setting) (type : Entity) (layout : Layout) (draft : Draft) :
    Prop where
  holds : ∃ (head : Layout) (targets : List Relocation.Target), head.data.length = 16 ∧
    (∀ relocation ∈ head.relocations, relocation.offset.toNat = 8) ∧
    head.Extends targets layout ∧
    List.Forall₂ (fun method target => BindsTo method target draft)
      (virtualMethods setting type) targets

theorem yields_baseTable? (base : Option Entity) :
    Yields pre (baseTable? base) fun _ _ => True := by
  cases base with
  | none => exact Yields.pure fun _ _ => trivial
  | some base => exact (yields_markedNode? _).imp fun _ _ _ _ => trivial

theorem header_of_slot {count : Nat} {base : Option Handle} {first head : Layout}
    (hfirst : Layout.count {} count = .ok first)
    (hhead : (first.word 0).slot (base.map .node) = .ok head) :
    head.data.length = 16 ∧ ∀ relocation ∈ head.relocations, relocation.offset.toNat = 8 := by
  obtain rfl := Layout.eq_of_count hfirst
  obtain ⟨rfl, _⟩ := Layout.eq_of_slot hhead
  refine ⟨by rw [Layout.length_place, Layout.length_word, Layout.length_word]; rfl, ?_⟩
  intro relocation hmem
  cases base with
  | none => cases hmem
  | some node =>
    rw [List.mem_singleton.mp hmem]
    rfl

theorem yields_layoutOfVTable (setting : Setting) (type : Entity) :
    Yields pre (layoutOfVTable setting type) (VTableLayout setting type) := by
  apply (yields_described _ _).bind
  intro description
  apply (Yields.lift _).bind
  intro first
  apply (yields_baseTable? _).bind
  intro base
  apply (Yields.lift _).bind
  intro head
  refine (Yields.foldlM (fun done layout draft => ∃ targets,
    head.Extends targets layout ∧
      List.Forall₂ (fun method target => BindsTo method target draft) done targets)
    (fun _ _ => ⟨[], Layout.Extends.nil head, .nil⟩) ?_).imp ?_
  · intro done layout method _
    refine (yields_appendSlot setting type method layout).imp ?_
    rintro next draft ⟨_, targets, hextends, hbinds⟩ ⟨target, htarget, hslot⟩
    exact ⟨targets ++ [target], hextends.slot hslot, List.rel_append hbinds (.cons htarget .nil)⟩
  · rintro layout draft ⟨⟨⟨_, hfirst⟩, _⟩, hhead⟩ ⟨targets, hextends, hbinds⟩
    obtain ⟨hlength, hoffsets⟩ := header_of_slot hfirst hhead
    exact ⟨head, targets, hlength, hoffsets, hextends, hbinds⟩

/-- In a table of virtual methods the offset of a slot has one relocation, to what the slot is bound
to. -/
theorem VTableLayout.slot {setting : Setting} {type : Entity} {layout : Layout} {draft : Draft}
    (h : VTableLayout setting type layout draft) {method : Entity} {index : Nat}
    (hmethod : (virtualMethods setting type)[index]? = some method) :
    ∃ target, BindsTo method target draft ∧ ∀ relocation,
      relocation ∈ layout.relocations ∧ relocation.offset.toNat = 16 + 8 * index ↔
        relocation = ⟨UInt32.ofNat (16 + 8 * index), .absolute64, target⟩ := by
  obtain ⟨head, targets, hlength, hoffsets, hextends, hbinds⟩ := h.holds
  obtain ⟨hlt, rfl⟩ := List.getElem?_eq_some_iff.mp hmethod
  have htarget := List.getElem?_eq_getElem (hbinds.length_eq ▸ hlt)
  refine ⟨_, hbinds.get hlt (hbinds.length_eq ▸ hlt), fun relocation => ?_⟩
  rw [← hlength]
  by_cases hhead : relocation ∈ head.relocations
  · have hoffset := hoffsets relocation hhead
    constructor
    · rintro ⟨_, hslot⟩
      omega
    · rintro rfl
      have hwithin := hextends.within index (hbinds.length_eq ▸ hlt)
      rw [UInt32.toNat_ofNat'] at hoffset
      omega
  · exact hextends.slot_iff htarget hhead

theorem yields_anchorOfBase (setting : Setting) (type : Entity) (base : Option Entity) :
    Yields pre (base.mapM fun base => anchor setting (.typeLayout type) base type.module)
      fun _ _ => True := by
  cases base with
  | none => exact Yields.pure fun _ _ => trivial
  | some base => exact (yields_anchor _ _ _ _).bind fun _ => Yields.pure fun _ _ => trivial

theorem yields_layoutOfType (setting : Setting) (type : Entity) :
    Yields pre (layoutOfType setting type) fun _ _ => True := by
  apply (yields_described _ _).bind
  intro description
  apply (Yields.lift _).bind
  intro fields
  apply (Yields.lift _).bind
  intro methods
  apply (Yields.lift _).bind
  intro head
  apply (yields_anchorOfBase setting type description.base).bind
  intro base
  exact (Yields.lift _).imp fun _ _ _ _ => trivial

theorem yields_layoutOfDictionary (setting : Setting) (entity : Entity) :
    Yields pre (layoutOfDictionary setting entity) fun _ _ => True := by
  apply (yields_described _ _).bind
  intro instantiation
  apply (Yields.lift _).bind
  intro head
  refine Yields.foldlM (fun _ _ _ => True) (fun _ _ => trivial) fun _ _ argument _ => ?_
  apply (yields_anchor _ _ _ _).bind
  intro target
  exact (Yields.lift _).imp fun _ _ _ _ => trivial

theorem yields_written (writing : Signature.Writing Unit) :
    Yields pre (written writing) fun _ _ => True :=
  fun draft _ => ⟨Arena.Grows.refl draft.arena, fun _ _ _ _ => trivial⟩

theorem yields_signatureOf (setting : Setting) (entity : Entity) :
    Yields pre (signatureOf setting entity) fun _ _ => True := by
  unfold signatureOf
  split
  · exact yields_written _
  · exact yields_written _
  · exact yields_written _
  · exact (yields_described _ _).imp fun _ _ _ _ => trivial
  · exact Yields.throw _

/-- The data of an artifact creates nodes at most; a table of virtual methods is one. -/
theorem yields_layoutOf (setting : Setting) (compiled : Option Layout) (key : ArtifactKey) :
    Yields pre (layoutOf setting compiled key) fun layout draft =>
      ∀ type, key = .vtable type → VTableLayout setting type layout draft := by
  have hothers {action : Drafting Layout} (hkey : ∀ type, key ≠ .vtable type)
      (h : Yields pre action fun _ _ => True) : Yields pre action fun layout draft =>
        ∀ type, key = .vtable type → VTableLayout setting type layout draft :=
    h.imp fun _ _ _ _ type htype => absurd htype (hkey type)
  cases key with
  | vtable type =>
    refine (yields_layoutOfVTable setting type).imp fun layout draft _ h other hother => ?_
    obtain rfl := ArtifactKey.vtable.inj hother
    exact h
  | methodCode method =>
    refine hothers (fun _ => ArtifactKey.noConfusion) ?_
    cases compiled with
    | none => exact Yields.throw _
    | some layout => exact Yields.pure fun _ _ => trivial
  | typeLayout type => exact hothers (by simp) (yields_layoutOfType setting type)
  | genericDictionary entity => exact hothers (by simp) (yields_layoutOfDictionary setting entity)
  | signature entity =>
    refine hothers (by simp) ?_
    exact (yields_signatureOf setting entity).bind fun _ => Yields.pure fun _ _ => trivial
  | importCell token => exact hothers (by simp) ((Yields.lift _).imp fun _ _ _ _ => trivial)
  | helperCell helper => exact hothers (by simp) (Yields.pure fun _ _ => trivial)
  | virtualMethodUse slot => exact hothers (by simp) (Yields.pure fun _ _ => trivial)

/-- A place that lies inside the data, and what stands there in the image: a token, or the key of a
marked node. -/
structure Placed (size : Nat) (relocation : Relocation) (placed : PlacedRelocation)
    (draft : Draft) : Prop where
  offset : placed.offset = relocation.offset
  kind : placed.kind = relocation.kind
  inside : relocation.stop ≤ size
  token : ∀ token, relocation.target = .token token → placed.symbol = .token token
  node : ∀ node, relocation.target = .node node → ∃ key,
    draft.arena.key? node = some key ∧ key ∈ draft.arena.markedKeys ∧ placed.symbol = .artifact key

theorem Placed.eq_of_symbol {size : Nat} {relocation : Relocation} {placed : PlacedRelocation}
    {draft : Draft} (h : Placed size relocation placed draft) {symbol : Symbol}
    (hsymbol : placed.symbol = symbol) :
    placed = ⟨relocation.offset, relocation.kind, symbol⟩ := by
  rw [← h.offset, ← h.kind, ← hsymbol]

theorem yields_placed (key : ArtifactKey) (size : Nat) (relocation : Relocation) :
    Yields pre (placed key size relocation) (Placed size relocation) := by
  unfold placed
  by_cases hsize : size < relocation.stop
  · simp only [if_pos hsize]
    exact Yields.throw _
  · simp only [if_neg hsize]
    cases htarget : relocation.target with
    | token token =>
      apply Yields.pure
      intro draft _
      refine ⟨rfl, rfl, Nat.not_lt.mp hsize, ?_, ?_⟩
      · intro other hother
        rw [htarget] at hother
        cases hother
        rfl
      · intro node hnode
        rw [htarget] at hnode
        cases hnode
    | node node =>
      apply yields_get.bind
      intro before
      by_cases hmarked : (before.arena.progress node).isMarked
      · rw [if_pos hmarked]
        apply (yields_keyOf node).bind
        intro found
        apply Yields.pure
        intro draft h
        obtain ⟨⟨_, hgrows⟩, hkey⟩ := h
        refine ⟨rfl, rfl, Nat.not_lt.mp hsize, ?_, ?_⟩
        · intro token htoken
          rw [htarget] at htoken
          cases htoken
        · intro other hother
          rw [htarget] at hother
          cases hother
          refine ⟨found, hkey, ?_, rfl⟩
          rwa [Arena.mem_markedKeys_iff hkey, Arena.Grows.progress hgrows]
      · rw [if_neg hmarked]
        exact Yields.throw _

end Drafting

/-- The place at an offset is a pointer to an artifact, and nothing else stands there. -/
structure EmittedArtifact.PointsTo (artifact : EmittedArtifact) (offset : Nat)
    (key : ArtifactKey) : Prop where
  present : ∃ relocation ∈ artifact.relocations, relocation.offset.toNat = offset
  only : ∀ relocation ∈ artifact.relocations, relocation.offset.toNat = offset →
    relocation.kind = .absolute64 ∧ relocation.symbol = .artifact key

/-- The artifact completes a layout: it has the same data, and at each place it names what is to be
filled in. -/
structure EmittedArtifact.Completes (artifact : EmittedArtifact) (layout : Layout)
    (draft : Draft) : Prop where
  data : artifact.data = layout.data
  placed : List.Forall₂ (fun relocation placed =>
    Drafting.Placed layout.data.length relocation placed draft) layout.relocations
    artifact.relocations

structure Emitted (setting : Setting) (node : Handle) (artifact : EmittedArtifact)
    (arena : Arena ArtifactKey) : Prop where
  key : arena.key? node = some artifact.key
  inside : ∀ relocation ∈ artifact.relocations,
    relocation.offset.toNat + relocation.kind.size ≤ artifact.data.length
  closed : ∀ relocation ∈ artifact.relocations, ∀ key, relocation.symbol = .artifact key →
    key ∈ arena.markedKeys
  slots : ∀ type, artifact.key = .vtable type → ∀ (index : Nat) (method : Entity),
    (Drafting.virtualMethods setting type)[index]? = some method →
    .methodCode method ∈ arena.markedKeys → artifact.PointsTo (16 + 8 * index) (.methodCode method)

namespace Drafting

variable {pre : Draft → Prop} {setting : Setting} {type method : Entity} {layout : Layout}
  {draft : Draft}

/-- Once a table is placed, a slot whose method is marked points to its code. -/
theorem VTableLayout.pointsTo (h : VTableLayout setting type layout draft) {size : Nat}
    {artifact : EmittedArtifact}
    (hplaced : List.Forall₂ (fun relocation placed => Placed size relocation placed draft)
      layout.relocations artifact.relocations) {index : Nat}
    (hmethod : (virtualMethods setting type)[index]? = some method)
    (hmarked : .methodCode method ∈ draft.arena.markedKeys) :
    artifact.PointsTo (16 + 8 * index) (.methodCode method) := by
  obtain ⟨target, hbinds, hslot⟩ := h.slot hmethod
  obtain ⟨node, rfl, hkey⟩ := hbinds hmarked
  constructor
  · obtain ⟨hmem, hoffset⟩ := (hslot _).mpr rfl
    obtain ⟨placed, hmem', hplaced⟩ := exists_of_mem_left hplaced hmem
    refine ⟨placed, hmem', ?_⟩
    rw [hplaced.offset]
    exact hoffset
  · intro placed hmem hoffset
    obtain ⟨relocation, hmem', hplaced⟩ := exists_of_mem_right hplaced hmem
    rw [hplaced.offset] at hoffset
    obtain rfl := (hslot relocation).mp ⟨hmem', hoffset⟩
    obtain ⟨key, hkey', _, hsymbol⟩ := hplaced.node node rfl
    obtain rfl := Option.some.inj (hkey.symm.trans hkey')
    exact ⟨hplaced.kind, hsymbol⟩

theorem yields_emit (setting : Setting) (node : Handle) (compiled : Option Layout) :
    Yields pre (emit setting node compiled) fun artifact draft =>
      Emitted setting node artifact draft.arena := by
  apply (yields_keyOf node).bind
  intro key
  apply (yields_layoutOf setting compiled key).bind
  intro layout
  refine (Yields.mapM fun relocation _ =>
    yields_placed key layout.data.length relocation).bind fun relocations => ?_
  apply Yields.pure
  intro draft h
  obtain ⟨⟨⟨_, hkey⟩, hlayout⟩, hplaced⟩ := h
  constructor
  · exact hkey
  · intro placed hmem
    obtain ⟨relocation, _, hplaced⟩ := exists_of_mem_right hplaced hmem
    rw [hplaced.offset, hplaced.kind]
    exact hplaced.inside
  · intro placed hmem symbol hsymbol
    obtain ⟨relocation, _, hplaced⟩ := exists_of_mem_right hplaced hmem
    cases htarget : relocation.target with
    | token token =>
      rw [hplaced.token token htarget] at hsymbol
      cases hsymbol
    | node target =>
      obtain ⟨found, _, hmarked, hfound⟩ := hplaced.node target htarget
      rw [hfound] at hsymbol
      cases hsymbol
      exact hmarked
  · intro type htype index method hmethod hmarked
    exact (hlayout type htype).pointsTo hplaced hmethod hmarked

section Runs

variable {before after : Draft} {node : Handle}

theorem keyOf_eq_ok {key : ArtifactKey} (h : keyOf node before = (.ok key, after)) :
    after = before ∧ before.arena.key? node = some key := by
  obtain ⟨draft, middle, hget, hrest⟩ := bind_eq_ok h
  cases hget
  cases hkey : before.arena.key? node with
  | none =>
    simp only [hkey] at hrest
    cases hrest
  | some found =>
    simp only [hkey] at hrest
    cases hrest
    exact ⟨rfl, rfl⟩

/-- An artifact that is emitted completes what its key lays out. -/
theorem emit_eq_ok {compiled : Option Layout} {artifact : EmittedArtifact}
    (h : emit setting node compiled before = (.ok artifact, after)) :
    before.arena.key? node = some artifact.key ∧ ∃ layout middle,
      layoutOf setting compiled artifact.key before = (.ok layout, middle) ∧
        artifact.Completes layout after ∧ middle.arena.Grows after.arena := by
  obtain ⟨key, _, hkey, hrest⟩ := bind_eq_ok h
  obtain ⟨rfl, hkey⟩ := keyOf_eq_ok hkey
  obtain ⟨layout, middle, hlayout, hrest⟩ := bind_eq_ok hrest
  obtain ⟨relocations, _, hplaced, hrest⟩ := bind_eq_ok hrest
  cases hrest
  obtain ⟨hgrows, hplaced⟩ := (Yields.mapM fun relocation _ =>
    yields_placed key layout.data.length relocation).of_eq_ok hplaced
  exact ⟨hkey, layout, middle, hlayout, ⟨rfl, hplaced⟩, hgrows⟩

end Runs

end Drafting

end PortableImage
