import PortableImage.Proofs.Session.AgreeingExpansions
import PortableImage.Proofs.Session.Emitting
/-!
# Layouts agree

The data of one artifact is the same in drafts that are alike, but for the handles in it.  Its places
lie inside, and the nodes they point to are marked, provided that the anchors of what the artifact
refers to are.  So the artifact is finished in both drafts, in the same form, or cannot be written in
either.
-/

namespace PortableImage

open PortableImage.Graph (Arena Handle)

namespace Drafting

variable {setting : Setting} {pre : Draft × Draft → Prop} {drafts later : Draft × Draft}
  {key : ArtifactKey} {a b : Handle}

/-- Two handles stand for one artifact, which is marked. -/
structure SameMarked (drafts : Draft × Draft) (a b : Handle) : Prop where
  same : Same drafts a b
  marked : (drafts.1.arena.progress a).isMarked

theorem SameMarked.mono (h : SameMarked drafts a b) (hle : drafts ≤ later) :
    SameMarked later a b where
  same := h.same.mono (Arena.Grows.keeps hle.1) (Arena.Grows.keeps hle.2)
  marked := by
    rw [Arena.Grows.progress hle.1]
    exact h.marked

/-- Layouts that differ in handles at most.  All places lie inside, and all nodes are marked. -/
structure Fits (drafts : Draft × Draft) (layout other : Layout) : Prop where
  alike : Layout.Alike (SameMarked drafts) layout other
  inside : ∀ relocation ∈ layout.relocations, relocation.stop ≤ layout.data.length

theorem Fits.mono {layout other : Layout} (h : Fits drafts layout other) (hle : drafts ≤ later) :
    Fits later layout other :=
  ⟨h.alike.imp fun _ _ hab => hab.mono hle, h.inside⟩

/-- What fits in one draft fits beside what is the same layout in another one. -/
theorem Fits.alongside {draft other : Draft} {layout layout' : Layout}
    (h : Fits (draft, draft) layout layout)
    (halike : Layout.Alike (Arena.Same draft.arena other.arena) layout layout') :
    Fits (draft, other) layout layout' where
  alike := h.alike.comp halike fun _ _ _ hxy ⟨_, hy', hz⟩ => by
    obtain ⟨key, hx, hy⟩ := hxy.same
    exact ⟨⟨key, hx, hy.symm.trans hy' ▸ hz⟩, hxy.marked⟩
  inside := h.inside

theorem fits_refl {layout : Layout} (h : layout.relocations = []) : Fits drafts layout layout where
  alike := ⟨rfl, by rw [h]; exact .nil⟩
  inside := by simp [h]

theorem relocations_of_count {layout next : Layout} {value : Nat}
    (h : layout.count value = .ok next) : next.relocations = layout.relocations := by
  rw [Layout.eq_of_count h]
  rfl

/-- The next place lies behind all others, so it lies inside the longer data. -/
theorem Fits.place {layout other : Layout} (h : Fits drafts layout other)
    {target target' : Option Relocation.Target}
    (htarget : Option.Rel (Relocation.Target.Alike (SameMarked drafts)) target target')
    (hlength : target.isSome → layout.data.length < 0x100000000) :
    Fits drafts (layout.place .absolute64 target) (other.place .absolute64 target') := by
  have hdata : layout.data ++ Bytes.zeros 8 = other.data ++ Bytes.zeros 8 := by rw [h.alike.data]
  have hgrown : (layout.data ++ Bytes.zeros 8).length = layout.data.length + 8 := by
    rw [List.length_append, Bytes.zeros, List.length_replicate]
  cases htarget with
  | none =>
    refine ⟨⟨hdata, h.alike.relocations⟩, fun relocation hmem => ?_⟩
    have hold := h.inside relocation hmem
    show relocation.stop ≤ (layout.data ++ Bytes.zeros 8).length
    omega
  | some halike =>
    refine ⟨⟨hdata, List.rel_append h.alike.relocations (.cons ⟨?_, rfl, halike⟩ .nil)⟩, ?_⟩
    · exact congrArg (fun data => UInt32.ofNat (List.length data)) h.alike.data
    · intro relocation hmem
      show relocation.stop ≤ (layout.data ++ Bytes.zeros 8).length
      rcases List.mem_append.mp hmem with hmem | hmem
      · have hold := h.inside relocation hmem
        omega
      · rw [List.mem_singleton.mp hmem]
        have hword : (UInt32.ofNat layout.data.length).toNat = layout.data.length := by
          have hlt := hlength rfl
          rw [UInt32.toNat_ofNat']
          omega
        show (UInt32.ofNat layout.data.length).toNat + 8 ≤ _
        omega

theorem Fits.slot {layout other : Layout} (h : Fits drafts layout other)
    {target target' : Option Relocation.Target}
    (htarget : Option.Rel (Relocation.Target.Alike (SameMarked drafts)) target target') :
    Concur Fault.Benign (Fits drafts) (layout.slot target) (other.slot target') := by
  have hsome : target.isSome = target'.isSome := by cases htarget <;> rfl
  rw [Layout.slot, Layout.slot, ← hsome, ← h.alike.data]
  split
  · exact .error fun _ => Fault.noConfusion
  · rename_i hlength
    refine .ok (h.place htarget fun hpresent => ?_)
    rw [hpresent, Bool.true_and, decide_eq_true_iff] at hlength
    exact Nat.not_le.mp hlength

theorem agrees_slot {layout other : Layout} {target target' : Option Relocation.Target}
    (h : ∀ drafts, pre drafts → Fits drafts layout other ∧
      Option.Rel (Relocation.Target.Alike (SameMarked drafts)) target target') :
    Agrees (bond setting) pre (liftM (layout.slot target)) (liftM (other.slot target'))
      fun next next' drafts => Fits drafts next next' :=
  Agrees.liftBoth fun drafts hpre => (h drafts hpre).1.slot (h drafts hpre).2

theorem agrees_count (layout : Layout) (value : Nat) :
    Agrees (bond setting) pre (liftM (layout.count value)) (liftM (layout.count value))
      fun next other _ => next = other ∧ layout.count value = .ok next := by
  refine Agrees.lift fun fault hfault => ?_
  unfold Layout.count at hfault
  split at hfault <;> cases hfault
  exact fun _ => Fault.noConfusion

theorem agrees_markedNode? (key : ArtifactKey) :
    Agrees (bond setting) pre (markedNode? key) (markedNode? key)
      fun node other drafts => Option.Rel (SameMarked drafts) node other := by
  refine agrees_get.bind fun left right => Agrees.pure ?_
  rintro drafts ⟨_, hle, halike⟩
  cases hleft : (left.arena.find? key).filter fun node => (left.arena.progress node).isMarked with
  | some node =>
    obtain ⟨hkey, hmarked⟩ := Arena.find?_filter_eq_some.mp hleft
    have hmarked' := halike.marked_iff.mp hmarked
    obtain ⟨other, hother, _⟩ := Arena.mem_markedKeys.mp hmarked'
    rw [Arena.find?_filter_eq_some.mpr ⟨hother, hmarked'⟩]
    refine .some (SameMarked.mono ⟨⟨key, hkey, hother⟩, ?_⟩ hle)
    exact (Arena.mem_markedKeys_iff hkey).mp hmarked
  | none =>
    cases hright : (right.arena.find? key).filter fun node => (right.arena.progress node).isMarked
      with
    | none => exact .none
    | some other =>
      obtain ⟨_, hmarked⟩ := Arena.find?_filter_eq_some.mp hright
      have hmarked' := halike.marked_iff.mpr hmarked
      obtain ⟨node, hkey, _⟩ := Arena.mem_markedKeys.mp hmarked'
      rw [Arena.find?_filter_eq_some.mpr ⟨hkey, hmarked'⟩] at hleft
      cases hleft

/-- The anchor of whatever the data of an artifact refers to is marked. -/
def Ready (setting : Setting) (key : ArtifactKey) (draft : Draft) : Prop :=
  ∀ entity origin anchor, Refers setting key entity origin →
    Anchors setting origin entity anchor → anchor ∈ draft.arena.markedKeys

theorem Ready.marked {entity : Entity} {origin : ModuleIndex} (h : Ready setting key drafts.1)
    (hrefers : Refers setting key entity origin)
    (hanchored : Anchored setting origin entity a b drafts) : SameMarked drafts a b := by
  obtain ⟨anchor, hanchors, hstands⟩ := hanchored
  refine ⟨hstands.same, ?_⟩
  have hmem := h entity origin anchor hrefers hanchors
  rwa [Arena.mem_markedKeys_iff hstands.1] at hmem

theorem agrees_layoutOfType {type : Entity}
    (hready : ∀ drafts, pre drafts → Ready setting (.typeLayout type) drafts.1) :
    Agrees (bond setting) pre (layoutOfType setting type) (layoutOfType setting type)
      fun layout other drafts => Fits drafts layout other := by
  refine (agrees_described _ _).bind_fact ?_
  rintro description _ ⟨rfl, hdescription⟩
  refine (agrees_count _ _).bind_fact ?_
  rintro fields _ ⟨rfl, hfields⟩
  refine (agrees_count _ _).bind_fact ?_
  rintro methods _ ⟨rfl, hmethods⟩
  refine (agrees_count _ _).bind_fact ?_
  rintro head _ ⟨rfl, hhead⟩
  have hplaces : head.relocations = [] := by
    rw [relocations_of_count hhead, relocations_of_count hmethods, relocations_of_count hfields]
    rfl
  cases hbase : description.base with
  | none => exact agrees_slot fun _ _ => ⟨fits_refl hplaces, .none⟩
  | some base =>
    have hmentioned := Program.mem_mentioned_of_type hdescription (.inr (.inl hbase))
    have hanchor : Agrees (bond setting) pre
        ((some base).mapM fun base => anchor setting (.typeLayout type) base type.module)
        ((some base).mapM fun base => anchor setting (.typeLayout type) base type.module)
        fun x y drafts => Option.Rel (SameMarked drafts) x y := by
      refine (agrees_anchor _ hmentioned).bind fun a b => Agrees.pure ?_
      rintro drafts ⟨hpre, hanchored⟩
      exact .some ((hready drafts hpre).marked (.base hdescription hbase) hanchored)
    refine hanchor.bind fun x y => agrees_slot ?_
    rintro drafts ⟨_, hrel⟩
    refine ⟨fits_refl hplaces, ?_⟩
    cases hrel with
    | none => exact .none
    | some hab => exact .some (.node hab)

theorem agrees_slotTarget (type method : Entity) :
    Agrees (bond setting) pre (slotTarget setting type method) (slotTarget setting type method)
      fun target other drafts => Relocation.Target.Alike (SameMarked drafts) target other := by
  refine (agrees_markedNode? _).bind fun x y => Agrees.pin fun start hstart => ?_
  obtain ⟨_, hrel⟩ := hstart.now
  cases hrel with
  | some hab => exact Agrees.pure fun drafts h => .node (hab.mono h.2)
  | none =>
    refine (agrees_issue method type.module).bind_fact ?_
    rintro token _ ⟨rfl, _⟩
    exact Agrees.pure fun _ _ => .token token

theorem agrees_appendSlot {layout other : Layout} (type method : Entity)
    (h : ∀ drafts, pre drafts → Fits drafts layout other) :
    Agrees (bond setting) pre (appendSlot setting type layout method)
      (appendSlot setting type other method) fun next next' drafts => Fits drafts next next' :=
  (agrees_slotTarget type method).bind fun _ _ => agrees_slot fun drafts hdrafts =>
    ⟨h drafts hdrafts.1, .some hdrafts.2⟩

theorem agrees_baseTable? (base : Option Entity) :
    Agrees (bond setting) pre (baseTable? base) (baseTable? base)
      fun x y drafts => Option.Rel (SameMarked drafts) x y := by
  cases base with
  | none => exact Agrees.pure fun _ _ => .none
  | some base => exact agrees_markedNode? _

theorem agrees_layoutOfVTable (type : Entity) :
    Agrees (bond setting) pre (layoutOfVTable setting type) (layoutOfVTable setting type)
      fun layout other drafts => Fits drafts layout other := by
  refine (agrees_described _ _).bind_fact ?_
  rintro description _ ⟨rfl, _⟩
  refine (agrees_count _ _).bind_fact ?_
  rintro head _ ⟨rfl, hhead⟩
  have hplaces : (head.word 0).relocations = [] := relocations_of_count hhead
  refine (agrees_baseTable? _).bind fun x y => ?_
  refine (@agrees_slot _ _ (head.word 0) (head.word 0) _ _ ?_).bind fun first other => ?_
  · rintro drafts ⟨_, hrel⟩
    refine ⟨fits_refl hplaces, ?_⟩
    cases hrel with
    | none => exact .none
    | some hab => exact .some (.node hab)
  · refine Agrees.foldlM (fun layout other drafts => Fits drafts layout other)
      (fun _ h => h.2) fun layout layout' method _ => ?_
    exact agrees_appendSlot type method fun _ h => h.2

theorem agrees_layoutOfDictionary {entity : Entity}
    (hready : ∀ drafts, pre drafts → Ready setting (.genericDictionary entity) drafts.1) :
    Agrees (bond setting) pre (layoutOfDictionary setting entity)
      (layoutOfDictionary setting entity) fun layout other drafts => Fits drafts layout other := by
  refine (agrees_described _ _).bind_fact ?_
  rintro instantiation _ ⟨rfl, hinstantiation⟩
  refine (agrees_count _ _).bind_fact ?_
  rintro head _ ⟨rfl, hhead⟩
  have hplaces : (head.word 0).relocations = [] := relocations_of_count hhead
  refine Agrees.foldlM (fun layout other drafts => Fits drafts layout other)
    (fun _ _ => fits_refl hplaces) fun layout layout' argument hargument => ?_
  have hmentioned := Program.mem_mentioned_of_instantiation hinstantiation
    (.inr (List.mem_cons_of_mem _ hargument))
  refine (agrees_anchor _ hmentioned).bind fun a b => agrees_slot ?_
  rintro drafts ⟨⟨hpre, hfits⟩, hanchored⟩
  exact ⟨hfits, .some (.node ((hready drafts hpre).marked (.argument hinstantiation hargument)
    hanchored))⟩

theorem agrees_written {context : Signature.Context} (hprogram : context.program = setting.program)
    (hbubble : context.bubble = setting.bubble) {writing : Signature.Writing Unit}
    (h : Signature.Careful context writing) :
    Agrees (bond setting) pre (written writing) (written writing) fun data other _ => data = other := by
  intro drafts halike _
  obtain ⟨hsteps, hfaults⟩ := h ⟨drafts.1.ledger, []⟩
  rw [hprogram, hbubble] at hsteps
  have hsame : written writing drafts.2 =
      ((writing ⟨drafts.1.ledger, []⟩).1.map fun _ => (writing ⟨drafts.1.ledger, []⟩).2.data,
        { drafts.2 with ledger := (writing ⟨drafts.1.ledger, []⟩).2.ledger }) := by
    rw [halike.ledger]
    rfl
  rw [hsame]
  refine ⟨⟨Arena.Grows.refl _, Arena.Grows.refl _⟩, { halike with
    ledger := rfl
    sound := halike.sound.steps hsteps }, ?_⟩
  show Concur _ _ ((writing ⟨drafts.1.ledger, []⟩).1.map _)
    ((writing ⟨drafts.1.ledger, []⟩).1.map _)
  cases hanswer : (writing ⟨drafts.1.ledger, []⟩).1 with
  | ok value => exact .ok fun _ _ => rfl
  | error fault => exact .error (hfaults fault hanswer)

theorem agrees_signatureOf (entity : Entity) :
    Agrees (bond setting) pre (signatureOf setting entity) (signatureOf setting entity)
      fun data other _ => data = other := by
  unfold signatureOf
  split
  · exact agrees_written rfl rfl (Signature.careful_writeType entity)
  · exact agrees_written rfl rfl (Signature.careful_writeMethod entity)
  · exact agrees_written rfl rfl (Signature.careful_writeField entity)
  · exact (agrees_described _ _).imp fun _ _ _ _ h => h.1
  · exact Agrees.throw fun _ => Fault.noConfusion

/-- What has to be there before an artifact is emitted: its code, if it is code, and the anchors of
what it refers to. -/
structure Prepared (setting : Setting) (key : ArtifactKey) (compiled other : Option Layout)
    (drafts : Draft × Draft) : Prop where
  ready : Ready setting key drafts.1
  code : ∀ method, key = .methodCode method → ∃ layout layout',
    compiled = some layout ∧ other = some layout' ∧ Fits drafts layout layout'

theorem Prepared.mono {compiled other : Option Layout} (h : Prepared setting key compiled other drafts)
    (hle : drafts ≤ later) : Prepared setting key compiled other later where
  ready entity origin anchor hrefers hanchors :=
    (Arena.Grows.mem_markedKeys hle.1 anchor).mpr (h.ready entity origin anchor hrefers hanchors)
  code method hkey := by
    obtain ⟨layout, layout', hlayout, hlayout', hfits⟩ := h.code method hkey
    exact ⟨layout, layout', hlayout, hlayout', hfits.mono hle⟩

theorem agrees_layoutOf {compiled other : Option Layout}
    (h : ∀ drafts, pre drafts → Prepared setting key compiled other drafts) :
    Agrees (bond setting) pre (layoutOf setting compiled key) (layoutOf setting other key)
      fun layout layout' drafts => Fits drafts layout layout' := by
  cases key with
  | methodCode method =>
    refine Agrees.pin fun start hstart => ?_
    obtain ⟨layout, layout', rfl, rfl, hfits⟩ := (h start hstart.now).code method rfl
    exact Agrees.pure fun drafts hdrafts => hfits.mono hdrafts.2
  | typeLayout type => exact agrees_layoutOfType fun drafts hpre => (h drafts hpre).ready
  | vtable type => exact agrees_layoutOfVTable type
  | genericDictionary entity => exact agrees_layoutOfDictionary fun drafts hpre => (h drafts hpre).ready
  | signature entity =>
    refine (agrees_signatureOf entity).bind_fact ?_
    rintro data _ rfl
    exact Agrees.pure fun _ _ => fits_refl rfl
  | importCell token => exact agrees_slot fun _ _ => ⟨fits_refl rfl, .some (.token token)⟩
  | helperCell helper => exact Agrees.pure fun _ _ => fits_refl rfl
  | virtualMethodUse slot => exact Agrees.pure fun _ _ => fits_refl rfl

section Placing

variable {size : Nat} {relocation other : Relocation} {draft : Draft}

theorem placed_token (hinside : relocation.stop ≤ size) {token : PortableToken}
    (htarget : relocation.target = .token token) :
    placed key size relocation draft =
      (.ok ⟨relocation.offset, relocation.kind, .token token⟩, draft) := by
  unfold placed
  simp only [if_neg (Nat.not_lt.mpr hinside), htarget]
  rfl

theorem placed_node (hinside : relocation.stop ≤ size) {node : Handle}
    (htarget : relocation.target = .node node) (hmarked : (draft.arena.progress node).isMarked)
    {found : ArtifactKey} (hkey : draft.arena.key? node = some found) :
    placed key size relocation draft =
      (.ok ⟨relocation.offset, relocation.kind, .artifact found⟩, draft) := by
  unfold placed
  simp only [if_neg (Nat.not_lt.mpr hinside), htarget]
  rw [bind_get, if_pos hmarked, bind_of_ok (keyOf_of_key? hkey)]
  rfl

theorem agrees_placed (hinside : relocation.stop ≤ size)
    (h : ∀ drafts, pre drafts → Relocation.Alike (SameMarked drafts) relocation other) :
    Agrees (bond setting) pre (placed key size relocation) (placed key size other)
      fun place place' _ => place = place' := by
  intro drafts halike hpre
  obtain ⟨hoffset, hkind, htarget⟩ := h drafts hpre.now
  have hinside' : other.stop ≤ size := by
    rw [Relocation.stop, ← hoffset, ← hkind]
    exact hinside
  generalize hleft : relocation.target = target, hright : other.target = target' at htarget
  cases htarget with
  | token token =>
    rw [placed_token hinside hleft, placed_token hinside' hright, hoffset, hkind]
    exact ⟨le_refl drafts, halike, .ok fun _ _ => rfl⟩
  | node hab =>
    have hprogress := halike.arena.progress hab.same
    obtain ⟨found, hkey, hkey'⟩ := hab.same
    rw [placed_node hinside hleft hab.marked hkey,
      placed_node hinside' hright (hprogress ▸ hab.marked) hkey', hoffset, hkind]
    exact ⟨le_refl drafts, halike, .ok fun _ _ => rfl⟩

end Placing

/-- An artifact is emitted alike, and what can go wrong does not come from the graph. -/
theorem agrees_emit {compiled other : Option Layout}
    (hstands : ∀ drafts, pre drafts → Stands key a b drafts)
    (hprepared : ∀ drafts, pre drafts → Prepared setting key compiled other drafts) :
    Agrees (bond setting) pre (emit setting a compiled) (emit setting b other)
      fun artifact artifact' _ => artifact = artifact' := by
  refine (agrees_keyOf hstands).bind_fact ?_
  rintro _ _ ⟨rfl, rfl⟩
  refine (agrees_layoutOf hprepared).bind fun layout layout' => Agrees.pin fun start hstart => ?_
  obtain ⟨_, hfits⟩ := hstart.now
  have hplaces : List.Forall₂ (fun relocation relocation' => relocation ∈ layout.relocations ∧
      Relocation.Alike (SameMarked start) relocation relocation')
      layout.relocations layout'.relocations :=
    forall₂_mem hfits.alike.relocations
  rw [← hfits.alike.data]
  refine (Agrees.mapBoth hplaces fun relocation relocation' h =>
    agrees_placed (hfits.inside relocation h.1) fun drafts hdrafts => ?_).bind_fact ?_
  · exact ⟨h.2.offset, h.2.kind, h.2.target.imp fun _ _ hab => hab.mono hdrafts.2⟩
  · intro places places' hsame
    rw [List.forall₂_eq_eq_eq] at hsame
    exact Agrees.pure fun _ _ => by rw [hsame]

end Drafting

end PortableImage
