import PortableImage.Proofs.Session.Completion
import PortableImage.Proofs.Session.Steps
/-!
# Tokens in an image have been issued

A token comes into an image in the code of a method, in a cell for it, or in a slot whose method is
not compiled.  A workspace is *covered* if every token in one of its cells or in the code compiled
there has been issued.  No step of work uncovers it, and in a covered workspace an artifact is
finished with no other tokens than issued ones.
-/

namespace PortableImage

open Relation (ReflTransGen)
open PortableImage.Graph (Arena Handle)

variable {setting : Setting} {token : PortableToken}

section Covered

structure Draft.Covered (setting : Setting) (draft : Draft) : Prop where
  sound : draft.ledger.Sound setting.program setting.bubble
  cells : ∀ node token, draft.arena.key? node = some (.importCell token) →
    draft.ledger.Issued token

namespace Draft

variable {before after : Draft}

theorem Step.issued (h : Step setting before after) (hissued : before.ledger.Issued token) :
    after.ledger.Issued token := by
  cases h with
  | ask hask => exact hissued.step hask
  | node key hcell => exact hissued

theorem issued_of_steps (h : ReflTransGen (Step setting) before after)
    (hissued : before.ledger.Issued token) : after.ledger.Issued token :=
  kept_of_steps (fun draft => draft.ledger.Issued token) h (fun _ _ => Step.issued) hissued

theorem Covered.step (hcovered : before.Covered setting) (h : Step setting before after) :
    after.Covered setting where
  sound := by
    cases h with
    | ask hask => exact hcovered.sound.step hask
    | node key hcell => exact hcovered.sound
  cells node token hkey := by
    cases h with
    | ask hask => exact (hcovered.cells node token hkey).step hask
    | node key hcell =>
      change (before.arena.intern key).2.key? node = _ at hkey
      rw [Arena.key?, Arena.get?_intern] at hkey
      split at hkey
      · exact hcell token (Option.some.inj hkey)
      · exact hcovered.cells node token hkey

theorem Covered.steps (hcovered : before.Covered setting)
    (h : ReflTransGen (Step setting) before after) : after.Covered setting :=
  kept_of_steps _ h (fun _ _ hstep hcovered => hcovered.step hstep) hcovered

end Draft

/-- A place of the layout is filled in with the token. -/
def Layout.Cites (layout : Layout) (token : PortableToken) : Prop :=
  ∃ relocation ∈ layout.relocations, relocation.target = .token token

structure Workspace.Covered (setting : Setting) (workspace : Workspace) : Prop where
  draft : workspace.draft.Covered setting
  code : ∀ node compiled, workspace.store.compiled.find? node = some compiled →
    ∀ token, compiled.toLayout.Cites token → workspace.store.ledger.Issued token

namespace Workspace

variable {before after : Workspace}

theorem covered_empty (setting : Setting) : Covered setting .empty where
  draft := ⟨Ledger.sound_empty _ _, fun _ _ h => by cases h⟩
  code _ _ h := by cases h

theorem Step.issued (h : Step setting before after) (hissued : before.store.ledger.Issued token) :
    after.store.ledger.Issued token := by
  cases h with
  | plan hplan => exact hplan.issued hissued
  | rule method => exact hissued
  | cancel => exact hissued

theorem issued_of_steps (h : ReflTransGen (Step setting) before after)
    (hissued : before.store.ledger.Issued token) : after.store.ledger.Issued token :=
  kept_of_steps (fun workspace => workspace.store.ledger.Issued token) h (fun _ _ => Step.issued)
    hissued

theorem Covered.step (hcovered : before.Covered setting) (h : Step setting before after) :
    after.Covered setting where
  draft := by
    cases h with
    | plan hplan => exact hcovered.draft.step hplan
    | rule method => exact hcovered.draft
    | cancel => exact hcovered.draft
  code node compiled hcompiled token hcites := by
    apply h.issued
    cases h <;> exact hcovered.code node compiled hcompiled token hcites

theorem Covered.steps (hcovered : before.Covered setting)
    (h : ReflTransGen (Step setting) before after) : after.Covered setting :=
  kept_of_steps _ h (fun _ _ hstep hcovered => hcovered.step hstep) hcovered

theorem Covered.keep (hcovered : before.Covered setting) (node : Handle) {compiled : CompiledMethod}
    (hcode : ∀ token, compiled.toLayout.Cites token → before.store.ledger.Issued token) :
    (before.keep node compiled).Covered setting where
  draft := hcovered.draft
  code other found hfound token hcites := by
    rw [find?_keep] at hfound
    split at hfound
    · obtain rfl := Option.some.inj hfound
      exact hcode token hcites
    · exact hcovered.code other found hfound token hcites

/-- What is covered does not depend on how far the work on the artifacts has come. -/
theorem Covered.of_same (hcovered : before.Covered setting) (hstore : after.store = before.store)
    (hkeys : ∀ node, after.arena.key? node = before.arena.key? node) :
    after.Covered setting := by
  have hledger : after.draft.ledger = before.draft.ledger := congrArg Shelf.ledger hstore
  refine ⟨⟨?_, fun node token hkey => ?_⟩, fun node compiled hcompiled token hcites => ?_⟩
  · rw [hledger]
    exact hcovered.draft.sound
  · rw [hledger]
    exact hcovered.draft.cells node token ((hkeys node).symm.trans hkey)
  · rw [hstore] at hcompiled ⊢
    exact hcovered.code node compiled hcompiled token hcites

end Workspace

theorem Desk.workspace_steps {before after : Desk}
    (h : ReflTransGen (Desk.Step setting) before after) :
    ReflTransGen (Workspace.Step setting) before.workspace after.workspace := by
  refine h.lift' Desk.workspace fun desk later hstep => ?_
  cases hstep with
  | work hwork => exact .single hwork
  | note dependency => exact .refl

end Covered

section Layouts

namespace Layout

variable {layout next : Layout}

theorem cites_of_count {value : Nat} (h : layout.count value = .ok next)
    (hcites : next.Cites token) : layout.Cites token := by
  rw [eq_of_count h] at hcites
  exact hcites

theorem cites_of_slot {target : Option Relocation.Target} (h : layout.slot target = .ok next)
    (hcites : next.Cites token) : layout.Cites token ∨ target = some (.token token) := by
  obtain ⟨rfl, _⟩ := eq_of_slot h
  obtain ⟨relocation, hmem, htoken⟩ := hcites
  cases target with
  | none => exact .inl ⟨relocation, hmem, htoken⟩
  | some target =>
    rcases List.mem_append.mp hmem with hmem | hmem
    · exact .inl ⟨relocation, hmem, htoken⟩
    · rw [List.mem_singleton.mp hmem] at htoken
      exact .inr (congrArg some htoken)

theorem not_cites_empty : ¬ Cites {} token := by
  rintro ⟨_, hmem, _⟩
  cases hmem

theorem not_cites_of_node {node : Option Handle} (h : layout.slot (node.map .node) = .ok next)
    (hlayout : ¬ layout.Cites token) : ¬ next.Cites token := by
  intro hcites
  rcases cites_of_slot h hcites with hold | hnew
  · exact hlayout hold
  · obtain ⟨_, _, htarget⟩ := Option.map_eq_some_iff.mp hnew
    cases htarget

end Layout

namespace Drafting

variable {pre : Draft → Prop} {before after : Draft}

theorem not_cites_layoutOfType (type : Entity) :
    Yields pre (layoutOfType setting type) fun layout _ => ∀ token, ¬ layout.Cites token := by
  apply (yields_described _ _).bind
  intro description
  apply (Yields.lift _).bind
  intro fields
  apply (Yields.lift _).bind
  intro methods
  apply (Yields.lift _).bind
  intro head
  apply (yields_anchorOfBase setting type description.base).bind
  intro base
  refine (Yields.lift _).imp fun layout _ hpre hslot token => ?_
  obtain ⟨⟨⟨⟨_, hfields⟩, hmethods⟩, hhead⟩, _⟩ := hpre
  apply Layout.not_cites_of_node hslot
  intro hcites
  have hfirst := Layout.cites_of_count hfields
    (Layout.cites_of_count hmethods (Layout.cites_of_count hhead hcites))
  exact Layout.not_cites_empty hfirst

theorem not_cites_layoutOfDictionary (entity : Entity) :
    Yields pre (layoutOfDictionary setting entity) fun layout _ =>
      ∀ token, ¬ layout.Cites token := by
  apply (yields_described _ _).bind
  intro instantiation
  apply (Yields.lift _).bind
  intro head
  refine Yields.foldlM (fun _ (layout : Layout) _ => ∀ token, ¬ layout.Cites token) ?_ ?_
  · rintro draft ⟨_, hhead⟩ token hcites
    exact Layout.not_cites_empty (Layout.cites_of_count hhead hcites)
  · intro _ layout argument _
    apply (yields_anchor _ _ _ _).bind
    intro target
    refine (Yields.lift _).imp fun next _ hpre hslot token => ?_
    have hplaced : layout.slot ((some target).map .node) = .ok next := hslot
    exact Layout.not_cites_of_node hplaced (hpre.1.2 token)

/-- The token in a slot has just been issued. -/
theorem issued_of_slotTarget {type method : Entity}
    (h : slotTarget setting type method before = (.ok (.token token), after)) :
    after.ledger.Issued token := by
  obtain ⟨found, middle, _, hrest⟩ := bind_eq_ok h
  cases found with
  | some node => cases hrest
  | none =>
    obtain ⟨given, later, hissue, hanswer⟩ := bind_eq_ok hrest
    cases hanswer
    exact issued_of_issue hissue

theorem cites_of_appendSlot {type method : Entity} {layout next : Layout}
    (h : appendSlot setting type layout method before = (.ok next, after))
    (hcites : next.Cites token) : layout.Cites token ∨ after.ledger.Issued token := by
  obtain ⟨target, middle, htarget, hrest⟩ := bind_eq_ok h
  cases hslot : layout.slot (some target) with
  | error fault =>
    rw [hslot] at hrest
    cases hrest
  | ok placed =>
    rw [hslot] at hrest
    cases hrest
    rcases Layout.cites_of_slot hslot hcites with hold | hnew
    · exact .inl hold
    · cases hnew
      exact .inr (issued_of_slotTarget htarget)

theorem cites_of_appendSlots {type : Entity} {methods : List Entity} {layout last : Layout}
    (h : methods.foldlM (appendSlot setting type) layout before = (.ok last, after))
    (hcites : last.Cites token) : layout.Cites token ∨ after.ledger.Issued token := by
  induction methods generalizing layout before with
  | nil =>
    rw [List.foldlM_nil] at h
    cases h
    exact .inl hcites
  | cons method methods ih =>
    rw [List.foldlM_cons] at h
    obtain ⟨next, middle, hnext, hrest⟩ := bind_eq_ok h
    rcases ih hrest with hnow | hissued
    · rcases cites_of_appendSlot hnext hnow with hold | hissued
      · exact .inl hold
      · have hlater := Proceeds.foldlM (proceeds_appendSlot setting type) methods next middle
        rw [hrest] at hlater
        exact .inr (Draft.issued_of_steps hlater hissued)
    · exact .inr hissued

theorem issued_of_layoutOfVTable {type : Entity} {layout : Layout}
    (h : layoutOfVTable setting type before = (.ok layout, after)) (hcites : layout.Cites token) :
    after.ledger.Issued token := by
  obtain ⟨description, _, _, h⟩ := bind_eq_ok h
  obtain ⟨head, _, hhead, h⟩ := bind_eq_ok h
  obtain ⟨base, _, _, h⟩ := bind_eq_ok h
  obtain ⟨start, _, hstart, h⟩ := bind_eq_ok h
  rcases cites_of_appendSlots h hcites with hold | hissued
  · obtain ⟨_, hcount⟩ := (Yields.lift _).of_eq_ok hhead
    obtain ⟨_, hslot⟩ := (Yields.lift _).of_eq_ok hstart
    refine absurd hold (Layout.not_cites_of_node hslot fun hcites => ?_)
    exact Layout.not_cites_empty (Layout.cites_of_count hcount hcites)
  · exact hissued

theorem issued_of_layoutOf (hcovered : before.Covered setting) {node : Handle} {key : ArtifactKey}
    (hkey : before.arena.key? node = some key) {compiled : Option Layout}
    (hcompiled : ∀ layout, compiled = some layout → ∀ token, layout.Cites token →
      before.ledger.Issued token) {layout : Layout}
    (h : layoutOf setting compiled key before = (.ok layout, after)) (hcites : layout.Cites token) :
    after.ledger.Issued token := by
  cases key with
  | methodCode method =>
    cases compiled with
    | none => cases h
    | some code =>
      cases h
      exact hcompiled layout rfl token hcites
  | typeLayout type =>
    exact absurd hcites (((not_cites_layoutOfType type).of_eq_ok h).2 token)
  | vtable type => exact issued_of_layoutOfVTable h hcites
  | genericDictionary entity =>
    exact absurd hcites (((not_cites_layoutOfDictionary entity).of_eq_ok h).2 token)
  | signature entity =>
    obtain ⟨data, _, _, h⟩ := bind_eq_ok h
    cases h
    exact absurd hcites Layout.not_cites_empty
  | importCell other =>
    cases h
    have hslot : Layout.slot {} (some (.token other)) =
        .ok (Layout.place {} .absolute64 (some (.token other))) := rfl
    rcases Layout.cites_of_slot hslot hcites with hold | hnew
    · exact absurd hold Layout.not_cites_empty
    · cases hnew
      exact hcovered.cells node token hkey
  | helperCell helper =>
    cases h
    exact absurd hcites Layout.not_cites_empty
  | virtualMethodUse slot =>
    cases h
    exact absurd hcites Layout.not_cites_empty

end Drafting

end Layouts

/-- The artifact is the cell for a token, or a place in it is filled in with the token. -/
def EmittedArtifact.Names (artifact : EmittedArtifact) (token : PortableToken) : Prop :=
  artifact.key = .importCell token ∨
    ∃ relocation ∈ artifact.relocations, relocation.symbol = .token token

/-- An artifact is finished with no other tokens than issued ones. -/
theorem Drafting.issued_of_emit {before after : Draft} (hcovered : before.Covered setting)
    {node : Handle} {compiled : Option Layout}
    (hcompiled : ∀ layout, compiled = some layout → ∀ token, layout.Cites token →
      before.ledger.Issued token) {artifact : EmittedArtifact}
    (h : emit setting node compiled before = (.ok artifact, after))
    (hnames : artifact.Names token) : after.ledger.Issued token := by
  have hend := hcovered.steps (proceeds_emit setting node compiled before)
  rw [h] at hend
  obtain ⟨key, found, hkeyOf, hrest⟩ := bind_eq_ok h
  obtain ⟨layout, laid, hlayout, hrest⟩ := bind_eq_ok hrest
  obtain ⟨relocations, later, hplaced, hanswer⟩ := bind_eq_ok hrest
  cases hanswer
  rcases hnames with hcell | ⟨placed, hmem, hsymbol⟩
  · have hkey := ((yields_emit setting node compiled).of_eq_ok h).2.key
    rw [hcell] at hkey
    exact hend.cells node token hkey
  · obtain ⟨rfl, hkey⟩ := keyOf_eq_ok hkeyOf
    obtain ⟨_, hmatch⟩ := (Yields.mapM fun relocation _ =>
      yields_placed key layout.data.length relocation).of_eq_ok hplaced
    obtain ⟨relocation, hrelocation, hplace⟩ := exists_of_mem_right hmatch hmem
    have hcites : layout.Cites token := by
      refine ⟨relocation, hrelocation, ?_⟩
      cases htarget : relocation.target with
      | token other =>
        rw [hplace.token other htarget] at hsymbol
        rw [Symbol.token.inj hsymbol]
      | node target =>
        obtain ⟨_, _, _, hartifact⟩ := hplace.node target htarget
        rw [hartifact] at hsymbol
        cases hsymbol
    have hlater := Proceeds.mapM (proceeds_placed setting key layout.data.length)
      layout.relocations laid
    rw [hplaced] at hlater
    exact Draft.issued_of_steps hlater (issued_of_layoutOf hcovered hkey hcompiled hlayout hcites)

end PortableImage
