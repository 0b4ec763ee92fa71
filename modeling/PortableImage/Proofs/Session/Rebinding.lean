import PortableImage.Proofs.Session.AgreeingLayouts
import PortableImage.Proofs.Session.FewerMarks
/-!
# Emission in a draft with fewer marks

What an artifact looks like depends on marks in one place only: a slot of a table of virtual methods
points to the code of its method if that is marked, and bears the token of the method otherwise.  So
from a lower draft to an upper one the data of an artifact stays, and every relocation does, unless it is
such a slot, which is then rebound from the token of its method to the code of the same method.
-/

namespace PortableImage

open PortableImage.Graph (Arena Handle)

/-- From the token of the method of a slot to its code, or no change at all. -/
inductive Relocation.Rebinds (setting : Setting) (arena : Arena ArtifactKey) :
    ArtifactKey → Relocation → Relocation → Prop
  | same {key} (relocation : Relocation) : Rebinds setting arena key relocation relocation
  | slot {type method index offset token node}
      (hmethod : (Drafting.virtualMethods setting type)[index]? = some method)
      (hoffset : UInt32.toNat offset = 16 + 8 * index)
      (htoken : setting.program.portableToken setting.bubble method type.module = .ok token)
      (hnode : arena.key? node = some (.methodCode method)) :
      Rebinds setting arena (.vtable type) ⟨offset, .absolute64, .token token⟩
        ⟨offset, .absolute64, .node node⟩

/-- In the image: the slot of a method bears its token in the first place, and is a pointer to the code
of the method in the second; or nothing has changed. -/
inductive PlacedRelocation.Rebinds (setting : Setting) :
    ArtifactKey → PlacedRelocation → PlacedRelocation → Prop
  | same {key} (relocation : PlacedRelocation) : Rebinds setting key relocation relocation
  | slot {type method index offset token}
      (hmethod : (Drafting.virtualMethods setting type)[index]? = some method)
      (hoffset : UInt32.toNat offset = 16 + 8 * index)
      (htoken : setting.program.portableToken setting.bubble method type.module = .ok token) :
      Rebinds setting (.vtable type) ⟨offset, .absolute64, .token token⟩
        ⟨offset, .absolute64, .artifact (.methodCode method)⟩

/-- The same data, with slots that may have been rebound. -/
structure Layout.Rebinds (setting : Setting) (arena : Arena ArtifactKey) (key : ArtifactKey)
    (lower upper : Layout) : Prop where
  data : lower.data = upper.data
  relocations : List.Forall₂ (Relocation.Rebinds setting arena key) lower.relocations
    upper.relocations

/-- The second artifact is the first one, with slots that may have been rebound. -/
structure EmittedArtifact.Rebinds (setting : Setting) (lower upper : EmittedArtifact) : Prop where
  key : lower.key = upper.key
  data : lower.data = upper.data
  relocations : List.Forall₂ (PlacedRelocation.Rebinds setting lower.key) lower.relocations
    upper.relocations

variable {setting : Setting} {arena : Arena ArtifactKey} {key : ArtifactKey}

theorem Layout.Rebinds.refl (layout : Layout) : Rebinds setting arena key layout layout :=
  ⟨rfl, List.forall₂_same.mpr fun relocation _ => .same relocation⟩

/-- A slot is appended to both layouts, at the same offset. -/
theorem Layout.Rebinds.slot {lower upper next next' : Layout} {target target' : Relocation.Target}
    (h : Rebinds setting arena key lower upper)
    (hnext : lower.slot (some target) = .ok next) (hnext' : upper.slot (some target') = .ok next')
    (htarget : ∀ offset : UInt32, offset.toNat = lower.data.length →
      Relocation.Rebinds setting arena key ⟨offset, .absolute64, target⟩
        ⟨offset, .absolute64, target'⟩) : Rebinds setting arena key next next' := by
  obtain ⟨rfl, hlength⟩ := eq_of_slot hnext
  obtain ⟨rfl, _⟩ := eq_of_slot hnext'
  have hword : (UInt32.ofNat lower.data.length).toNat = lower.data.length := by
    have hlt := hlength rfl
    rw [UInt32.toNat_ofNat']
    omega
  refine ⟨congrArg (· ++ Bytes.zeros Relocation.Kind.absolute64.size) h.data, ?_⟩
  show List.Forall₂ _ (lower.relocations ++ [⟨UInt32.ofNat lower.data.length, _, target⟩])
    (upper.relocations ++ [⟨UInt32.ofNat upper.data.length, _, target'⟩])
  rw [← h.data]
  exact List.rel_append h.relocations (.cons (htarget _ hword) .nil)

namespace Signature

variable {context : Context}

/-- Sheets with the same data, and with ledgers that are both sound. -/
structure Sheet.Related (context : Context) (left right : Sheet) : Prop where
  data : left.data = right.data
  sound : left.ledger.Sound context.program context.bubble
  sound_right : right.ledger.Sound context.program context.bubble

/-- What is written does not depend on what a sound ledger remembers. -/
theorem Made.indifferent {α : Type} {writing : Writing α} (h : Made context writing) :
    Indifferent (Sheet.Related context) writing := by
  induction h with
  | pure value => exact Corresponds.pure value
  | throw _ _ => exact Corresponds.throw _
  | write data =>
    exact fun _ _ hsheets => ⟨rfl, congrArg (· ++ data) hsheets.data, hsheets.sound,
      hsheets.sound_right⟩
  | issue entity =>
    intro left right hsheets
    refine ⟨?_, hsheets.data, hsheets.sound.issue entity context.module,
      hsheets.sound_right.issue entity context.module⟩
    exact (hsheets.sound.issue_fst entity context.module).trans
      (hsheets.sound_right.issue_fst entity context.module).symm
  | bind _ _ ih ihnext => exact ih.bind ihnext

end Signature

namespace Drafting

variable {shared : ArtifactKey → Prop} {draft later lower upper lower' upper' : Draft}

section Layouts

theorem below_written {context : Signature.Context} (hprogram : context.program = setting.program)
    (hbubble : context.bubble = setting.bubble) {writing : Signature.Writing Unit}
    (h : Signature.Made context writing) :
    Indifferent (Draft.Below setting shared) (written writing) := by
  intro lower upper hbelow
  obtain ⟨hanswer, hsheets⟩ := h.indifferent ⟨lower.ledger, []⟩ ⟨upper.ledger, []⟩
    ⟨rfl, by rw [hprogram, hbubble]; exact hbelow.sound,
      by rw [hprogram, hbubble]; exact hbelow.sound_upper⟩
  have hsound := hsheets.sound
  have hsound' := hsheets.sound_right
  rw [hprogram, hbubble] at hsound hsound'
  refine ⟨?_, { hbelow with
    sound := hsound
    sound_upper := hsound' }⟩
  show (writing ⟨lower.ledger, []⟩).1.map _ = (writing ⟨upper.ledger, []⟩).1.map _
  rw [hanswer, hsheets.data]

theorem below_signatureOf (entity : Entity) :
    Indifferent (Draft.Below setting shared) (signatureOf setting entity) := by
  unfold signatureOf
  split
  · exact below_written rfl rfl (Signature.made_writeType entity)
  · exact below_written rfl rfl (Signature.made_writeMethod entity)
  · exact below_written rfl rfl (Signature.made_writeField entity)
  · exact (@made_described setting (.signature entity) _ entity _).overlooks
  · exact Corresponds.throw _

/-- Only the layout of a table of virtual methods looks at marks. -/
theorem below_layoutOf (compiled : Option Layout) (hkey : ∀ type, key ≠ .vtable type) :
    Indifferent (Draft.Below setting shared) (layoutOf setting compiled key) := by
  cases key with
  | vtable type => exact absurd rfl (hkey type)
  | methodCode method =>
    cases compiled with
    | some layout => exact Corresponds.pure layout
    | none => exact Corresponds.throw _
  | typeLayout type => exact (made_layoutOfType type).overlooks
  | genericDictionary entity => exact (made_layoutOfDictionary entity).overlooks
  | signature entity => exact (below_signatureOf entity).bind fun data => Corresponds.pure _
  | importCell token => exact Corresponds.lift _
  | helperCell helper => exact Corresponds.pure _
  | virtualMethodUse slot => exact Corresponds.pure _

end Layouts

section Tables

/-- The table that a table of virtual methods is to point to as that of the base. -/
inductive BaseTable (setting : Setting) : ArtifactKey → ArtifactKey → Prop
  | vtable {type base description} (htype : setting.program.type? type = some description)
      (hbase : description.base = some base) : BaseTable setting (.vtable type) (.vtable base)

/-- Drafts below each other, of which the upper one has a given arena. -/
structure BelowIn (setting : Setting) (shared : ArtifactKey → Prop) (arena : Arena ArtifactKey)
    (lower upper : Draft) : Prop where
  below : Draft.Below setting shared lower upper
  arena : upper.arena = arena

/-- What is found in the lower draft is found in the upper one. -/
theorem parallel_markedNode? (key : ArtifactKey) :
    Parallel (BelowIn setting shared arena) (markedNode? key) (markedNode? key)
      fun found other => (∀ node, found = some node → other = some node) ∧
        (∀ node, other = some node → arena.key? node = some key) ∧
        (shared key → found = other) := by
  rintro lower upper h _ _ _ _ hleft hright
  cases hleft
  cases hright
  have hupper {node : Handle} (hfound : (lower.arena.find? key).filter (fun node =>
      (lower.arena.progress node).isMarked) = some node) : (upper.arena.find? key).filter (fun node =>
      (upper.arena.progress node).isMarked) = some node := by
    obtain ⟨hkey, hmarked⟩ := Arena.find?_filter_eq_some.mp hfound
    exact Arena.find?_filter_eq_some.mpr ⟨h.below.coincide node ▸ hkey, h.below.marked key hmarked⟩
  refine ⟨h, fun node => hupper, fun node hfound => ?_, fun hshared => Option.ext fun node => ?_⟩
  · rw [← h.arena]
    exact (Arena.find?_filter_eq_some.mp hfound).1
  · refine ⟨hupper, fun hfound => ?_⟩
    obtain ⟨hkey, hmarked⟩ := Arena.find?_filter_eq_some.mp hfound
    exact Arena.find?_filter_eq_some.mpr
      ⟨(h.below.coincide node).trans hkey, h.below.shared key hmarked hshared⟩

theorem parallel_described {α : Type} {related : Draft → Draft → Prop} (entity : Entity)
    (description : Option α) :
    Parallel related (described entity description) (described entity description)
      fun value other => value = other ∧ description = some value := by
  cases description with
  | none => exact fun _ _ _ _ _ _ _ hleft => by cases hleft
  | some value => exact Parallel.pure ⟨rfl, rfl⟩

theorem parallel_issue (entity : Entity) (origin : ModuleIndex) :
    Parallel (BelowIn setting shared arena) (issue setting entity origin)
      (issue setting entity origin) Eq := by
  apply Parallel.of_corresponds
  intro lower upper h
  obtain ⟨hanswer, hafter⟩ := below_issue entity origin lower upper h.below
  exact ⟨hanswer, hafter, h.arena⟩

/-- The same target, or the token of a method in the first place and its code in the second. -/
def SlotRebinds (setting : Setting) (arena : Arena ArtifactKey) (type method : Entity)
    (target target' : Relocation.Target) : Prop :=
  target = target' ∨ ∃ token node, target = .token token ∧ target' = .node node ∧
    setting.program.portableToken setting.bubble method type.module = .ok token ∧
    arena.key? node = some (.methodCode method)

theorem parallel_slotTarget (type method : Entity) :
    Parallel (BelowIn setting shared arena) (slotTarget setting type method)
      (slotTarget setting type method) (SlotRebinds setting arena type method) := by
  refine (parallel_markedNode? _).bind fun found other ⟨hlower, hupper, _⟩ => ?_
  cases found with
  | some node =>
    obtain rfl := hlower node rfl
    exact Parallel.pure (.inl rfl)
  | none =>
    cases other with
    | none =>
      refine (parallel_issue method type.module).bind ?_
      rintro token _ rfl
      exact Parallel.pure (.inl rfl)
    | some node =>
      -- Only the lower draft asks for the token.
      intro lower upper h _ _ _ _ hleft hright
      obtain ⟨token, later, hissue, hanswer⟩ := bind_eq_ok hleft
      cases hanswer
      cases hright
      have hsound := h.below.sound.issue method type.module
      have htoken := h.below.sound.issue_fst method type.module
      obtain ⟨htoken', hlater⟩ := Prod.mk.inj hissue
      subst hlater
      refine ⟨⟨{ h.below with sound := hsound }, h.arena⟩, .inr ⟨token, node, rfl, rfl, ?_,
        hupper node rfl⟩⟩
      exact htoken.symm.trans htoken'

theorem parallel_baseTable? {base : Option Entity}
    (hshared : ∀ found, base = some found → shared (.vtable found)) :
    Parallel (BelowIn setting shared arena) (baseTable? base) (baseTable? base) Eq := by
  cases base with
  | none => exact Parallel.pure rfl
  | some base =>
    intro lower upper h _ _ _ _ hleft hright
    obtain ⟨hafter, _, _, hsame⟩ := parallel_markedNode? _ lower upper h _ _ _ _ hleft hright
    exact ⟨hafter, hsame (hshared base rfl)⟩

theorem parallel_layoutOfVTable (type : Entity) :
    Parallel (BelowIn setting (BaseTable setting (.vtable type)) arena)
      (layoutOfVTable setting type) (layoutOfVTable setting type)
      (Layout.Rebinds setting arena (.vtable type)) := by
  refine (parallel_described _ _).bind ?_
  rintro description _ ⟨rfl, htype⟩
  refine Parallel.lift_self.bind ?_
  rintro head _ ⟨rfl, hhead⟩
  refine (parallel_baseTable? fun base hbase => .vtable htype hbase).bind ?_
  rintro base _ rfl
  refine Parallel.lift_self.bind ?_
  rintro first _ ⟨rfl, hfirst⟩
  -- The layouts so far are as long as the header and the slots of the methods done.
  refine (Parallel.foldlM (fun done lower upper =>
    Layout.Rebinds setting arena (.vtable type) lower upper ∧
      lower.data.length = 16 + 8 * done.length) ?_
    ⟨.refl first, (header_of_slot hhead hfirst).1⟩).imp fun _ _ h => h.1
  rintro done method rest lower upper hmethods ⟨hrebinds, hlength⟩
  have hmethod : (virtualMethods setting type)[done.length]? = some method := by
    rw [virtualMethods, hmethods, List.getElem?_append_right (le_refl _), Nat.sub_self]
    rfl
  refine (parallel_slotTarget type method).bind fun target target' htarget => ?_
  refine Parallel.lift fun next next' hnext hnext' => ⟨hrebinds.slot hnext hnext' ?_, ?_⟩
  · intro offset hoffset
    rcases htarget with rfl | ⟨token, node, rfl, rfl, htoken, hnode⟩
    · exact .same _
    · exact .slot hmethod (hoffset.trans hlength) htoken hnode
  · obtain ⟨rfl, _⟩ := Layout.eq_of_slot hnext
    rw [Layout.length_place, hlength, List.length_append]
    show _ + 8 = 16 + 8 * (_ + 1)
    omega

end Tables

section Emission

variable {compiled : Option Layout} {node : Handle} {size : Nat} {relocation other : Relocation}
  {place place' : PlacedRelocation} {artifact artifact' : EmittedArtifact} {layout layout' : Layout}

theorem rebinds_of_layoutOf (h : Draft.Below setting (BaseTable setting key) lower upper)
    (hlower : layoutOf setting compiled key lower = (.ok layout, lower'))
    (hupper : layoutOf setting compiled key upper = (.ok layout', upper')) :
    Draft.Below setting (BaseTable setting key) lower' upper' ∧
      layout.Rebinds setting upper'.arena key layout' := by
  by_cases hkey : ∃ type, key = .vtable type
  · obtain ⟨type, rfl⟩ := hkey
    obtain ⟨hafter, hrebinds⟩ :=
      parallel_layoutOfVTable type lower upper ⟨h, rfl⟩ _ _ _ _ hlower hupper
    exact ⟨hafter.below, hafter.arena ▸ hrebinds⟩
  · obtain ⟨hafter, rfl⟩ := Parallel.of_corresponds
      (below_layoutOf compiled fun type htype => hkey ⟨type, htype⟩) lower upper h _ _ _ _ hlower hupper
    exact ⟨hafter, .refl layout⟩

/-- A node that is marked in the end of both emissions stands for the same key in both. -/
theorem symbol_eq_of_placed {middle middle' : Draft}
    (hcoincide : middle.arena.Coincide middle'.arena) (hlower : middle.arena.Grows lower.arena)
    (hupper : middle'.arena.Grows upper.arena) (hplace : Placed size relocation place lower)
    (hplace' : Placed size relocation place' upper) : place.symbol = place'.symbol := by
  cases htarget : relocation.target with
  | token token => rw [hplace.token token htarget, hplace'.token token htarget]
  | node node =>
    obtain ⟨found, hfound, hmarked, hsymbol⟩ := hplace.node node htarget
    obtain ⟨found', hfound', _, hsymbol'⟩ := hplace'.node node htarget
    rw [Arena.mem_markedKeys_iff hfound, hlower.progress] at hmarked
    have hbefore := hupper.keeps _ _
      ((hcoincide node).symm.trans (hlower.keeps.key?_of_isMarked hmarked hfound))
    rw [hsymbol, hsymbol', Option.some.inj (hbefore.symm.trans hfound')]

theorem rebinds_of_placed {middle middle' : Draft}
    (hcoincide : middle.arena.Coincide middle'.arena) (hlower : middle.arena.Grows lower.arena)
    (hupper : middle'.arena.Grows upper.arena)
    (hrebinds : relocation.Rebinds setting middle'.arena key other)
    (hplace : Placed size relocation place lower) (hplace' : Placed size other place' upper) :
    place.Rebinds setting key place' := by
  cases hrebinds with
  | same =>
    have hsymbol := symbol_eq_of_placed hcoincide hlower hupper hplace hplace'
    rw [hplace.eq_of_symbol hsymbol, hplace'.eq_of_symbol rfl]
    exact .same _
  | slot hmethod hoffset htoken hnode =>
    obtain ⟨found, hfound, _, hsymbol⟩ := hplace'.node _ rfl
    obtain rfl := Option.some.inj ((hupper.keeps _ _ hnode).symm.trans hfound)
    rw [hplace.eq_of_symbol (hplace.token _ rfl), hplace'.eq_of_symbol hsymbol]
    exact .slot hmethod hoffset htoken

/-- Emitted in an upper draft, an artifact is the one of the lower draft with slots rebound. -/
theorem rebinds_of_emit (h : Draft.Below setting (BaseTable setting key) lower upper)
    (hkey : lower.arena.key? node = some key)
    (hlower : emit setting node compiled lower = (.ok artifact, lower'))
    (hupper : emit setting node compiled upper = (.ok artifact', upper')) :
    artifact.Rebinds setting artifact' := by
  obtain ⟨hnode, layout, middle, hlayout, ⟨hdata, hplaces⟩, hgrows⟩ := emit_eq_ok hlower
  obtain ⟨hnode', layout', middle', hlayout', ⟨hdata', hplaces'⟩, hgrows'⟩ := emit_eq_ok hupper
  obtain rfl := Option.some.inj (hnode.symm.trans hkey)
  have hsame : artifact.key = artifact'.key :=
    Option.some.inj (hnode.symm.trans ((h.coincide node).trans hnode'))
  rw [← hsame] at hlayout'
  obtain ⟨hmiddle, hrebinds⟩ := rebinds_of_layoutOf h hlayout hlayout'
  refine ⟨hsame, hdata.trans (hrebinds.data.trans hdata'.symm), ?_⟩
  rw [← hrebinds.data] at hplaces'
  have hslots := forall₂_comp hrebinds.relocations hplaces'
    (T := fun relocation place' => ∃ other, relocation.Rebinds setting middle'.arena artifact.key other ∧
      Placed layout.data.length other place' upper') fun _ other _ hother hplace =>
        ⟨other, hother, hplace⟩
  refine forall₂_comp hplaces.flip hslots fun _ _ _ hplace ⟨other, hother, hplace'⟩ => ?_
  exact rebinds_of_placed hmiddle.coincide hgrows hgrows' hother hplace hplace'

end Emission

section Midway

/-- The nodes of the upper draft, with the ledger and the marks of the lower one. -/
def midway (lower upper : Draft) : Draft :=
  { lower with arena := upper.arena.restage lower.arena.stage }

variable (hlower : Draft.Alike setting lower lower) (hupper : Draft.Alike setting upper upper)
  (hmarked : ∀ key ∈ lower.arena.markedKeys, key ∈ upper.arena.markedKeys)
include hlower hupper hmarked

theorem alike_midway : Draft.Alike setting lower (midway lower upper) where
  ledger := rfl
  sound := hlower.sound
  arena := Arena.alike_restage fun key hkey => by
    obtain ⟨node, hnode, _⟩ := Arena.mem_markedKeys.mp (hmarked key hkey)
    exact ⟨node, hnode⟩
  within := hlower.within
  within_right node key hkey := hupper.within node key
    ((Arena.coincide_restage upper.arena lower.arena.stage node).symm.trans hkey)

theorem below_midway (hshared : ∀ key ∈ upper.arena.markedKeys, shared key →
    key ∈ lower.arena.markedKeys) : Draft.Below setting shared (midway lower upper) upper := by
  have halike : lower.arena.Alike (midway lower upper).arena :=
    (alike_midway hlower hupper hmarked).arena
  exact {
    coincide := Arena.coincide_restage upper.arena lower.arena.stage
    sound := hlower.sound
    sound_upper := hupper.sound
    marked := fun key hkey => hmarked key (halike.marked_iff.mpr hkey)
    shared := fun key hkey hkept => halike.marked_iff.mp (hshared key hkey hkept) }

/-- Emitted where more is marked, an artifact is the same but for slots that are rebound.  On the way
from one draft to the other, first the nodes change and then the marks. -/
theorem rebinds_of_marks {a b : Handle} {compiled other : Option Layout}
    {artifact artifact' : EmittedArtifact} (hstands : Stands key a b (lower, upper))
    (hready : Ready setting key lower)
    (hcode : ∀ method, key = .methodCode method → ∃ layout layout', compiled = some layout ∧
      other = some layout' ∧ Fits (lower, lower) layout layout ∧
      Layout.Alike (Arena.Same lower.arena upper.arena) layout layout')
    (hshared : ∀ key' ∈ upper.arena.markedKeys, BaseTable setting key key' →
      key' ∈ lower.arena.markedKeys)
    (h : emit setting a compiled lower = (.ok artifact, lower'))
    (h' : emit setting b other upper = (.ok artifact', upper')) :
    artifact.Rebinds setting artifact' := by
  have hcoincide := Arena.coincide_restage upper.arena lower.arena.stage
  have hkey : (midway lower upper).arena.key? b = some key := (hcoincide b).trans hstands.2
  have hprepared : Prepared setting key compiled other (lower, midway lower upper) := by
    refine ⟨hready, fun method hmethod => ?_⟩
    obtain ⟨layout, layout', hcompiled, hother, hfits, halike⟩ := hcode method hmethod
    refine ⟨layout, layout', hcompiled, hother, hfits.alongside (halike.imp fun x y hsame => ?_)⟩
    obtain ⟨found, hx, hy⟩ := hsame
    exact ⟨found, hx, (hcoincide y).trans hy⟩
  obtain ⟨_, _, hanswers⟩ := agrees_emit
    (fun drafts (hle : (lower, midway lower upper) ≤ drafts) =>
      (⟨Arena.Grows.keeps hle.1 _ _ hstands.1, Arena.Grows.keeps hle.2 _ _ hkey⟩ :
        Stands key a b drafts))
    (fun drafts hle => hprepared.mono hle) (lower, midway lower upper)
    (alike_midway hlower hupper hmarked) fun _ hle => hle
  rw [h] at hanswers
  cases hmidway : emit setting b other (midway lower upper) with
  | mk answer later =>
    rw [hmidway] at hanswers
    cases hanswers with
    | ok hsame =>
      obtain rfl := hsame.now
      exact rebinds_of_emit (below_midway hlower hupper hmarked hshared) hkey hmidway h'

end Midway

end Drafting

end PortableImage
