import PortableImage.Proofs.Session.Emitting
/-!
# Tidy layouts

The loader fills in places by their offsets alone.  In *tidy* data it can: the places are pointers at
aligned offsets, one behind the other, over zeros.  Data stays tidy when more is appended, and when
a slot is appended at an aligned end; so a header with slots behind it is tidy.
-/

namespace PortableImage

open PortableImage.Graph (Arena Handle)

/-- The places are pointers at aligned offsets, one behind the other, and the data is zero where
they are. -/
structure Tidy (data : Bytes) (places : List (UInt32 × Relocation.Kind)) : Prop where
  pointers : ∀ place ∈ places, place.2 = .absolute64
  aligned : ∀ place ∈ places, 8 ∣ place.1.toNat
  blank : ∀ place ∈ places, ∀ index < 8, data[place.1.toNat + index]? = some 0
  apart : places.Pairwise fun before later => before.1.toNat + 8 ≤ later.1.toNat

namespace Tidy

variable {data : Bytes} {places : List (UInt32 × Relocation.Kind)}

theorem nil (data : Bytes) : Tidy data [] :=
  ⟨by simp, by simp, by simp, .nil⟩

theorem stop_le (h : Tidy data places) {place : UInt32 × Relocation.Kind} (hplace : place ∈ places) :
    place.1.toNat + 8 ≤ data.length := by
  obtain ⟨hlast, _⟩ := List.getElem?_eq_some_iff.mp (h.blank place hplace 7 (by decide))
  omega

theorem append (h : Tidy data places) (more : Bytes) : Tidy (data ++ more) places := by
  refine { h with blank := fun place hplace index hindex => ?_ }
  have hstop := h.stop_le hplace
  rw [List.getElem?_append_left (by omega)]
  exact h.blank place hplace index hindex

/-- A slot at an aligned end leaves everything tidy. -/
theorem concat (h : Tidy data places) (haligned : 8 ∣ data.length)
    (hlength : data.length < 0x100000000) :
    Tidy (data ++ Bytes.zeros 8) (places ++ [(UInt32.ofNat data.length, .absolute64)]) := by
  have hoffset : (UInt32.ofNat data.length).toNat = data.length := by
    rw [UInt32.toNat_ofNat']
    omega
  have hold := h.append (Bytes.zeros 8)
  constructor
  · exact List.forall_mem_append.mpr ⟨hold.pointers, by simp⟩
  · exact List.forall_mem_append.mpr ⟨hold.aligned, by simpa [hoffset] using haligned⟩
  · refine List.forall_mem_append.mpr ⟨hold.blank, ?_⟩
    intro place hplace index hindex
    rw [List.mem_singleton.mp hplace, hoffset, List.getElem?_append_right (by omega),
      Nat.add_sub_cancel_left, Bytes.zeros, List.getElem?_replicate, if_pos hindex]
  · refine List.pairwise_append.mpr ⟨h.apart, List.pairwise_singleton _ _, ?_⟩
    intro place hplace last hlast
    rw [List.mem_singleton.mp hlast, hoffset]
    exact h.stop_le hplace

end Tidy

namespace Layout

variable {head layout next : Layout} {targets : List Relocation.Target}

def places (layout : Layout) : List (UInt32 × Relocation.Kind) :=
  layout.relocations.map fun relocation => (relocation.offset, relocation.kind)

protected def Tidy (layout : Layout) : Prop := PortableImage.Tidy layout.data layout.places

theorem tidy_of_relocations_eq_nil (h : layout.relocations = []) : layout.Tidy := by
  rw [Layout.Tidy, places, h]
  exact .nil _

theorem Tidy.slot {target : Option Relocation.Target} (h : layout.Tidy)
    (haligned : 8 ∣ layout.data.length) (hslot : layout.slot target = .ok next) : next.Tidy := by
  obtain ⟨rfl, hlength⟩ := eq_of_slot hslot
  cases target with
  | none => exact PortableImage.Tidy.append h _
  | some target =>
    show PortableImage.Tidy _ ((layout.relocations ++ [_]).map _)
    rw [List.map_append]
    exact PortableImage.Tidy.concat h haligned (hlength rfl)

/-- A tidy layout that is another one with slots behind it. -/
structure Slotted (head : Layout) (targets : List Relocation.Target) (layout : Layout) : Prop
    extends head.Extends targets layout where
  opens : head.data <+: layout.data
  tidy : layout.Tidy

theorem Slotted.nil (h : head.Tidy) : head.Slotted [] head :=
  ⟨.nil head, List.prefix_rfl, h⟩

theorem Slotted.slot {target : Relocation.Target} (h : head.Slotted targets layout)
    (haligned : 8 ∣ head.data.length) (hslot : layout.slot (some target) = .ok next) :
    head.Slotted (targets ++ [target]) next := by
  refine ⟨h.toExtends.slot hslot, ?_, h.tidy.slot ?_ hslot⟩
  · obtain ⟨rfl, _⟩ := eq_of_slot hslot
    exact h.opens.trans (List.prefix_append _ _)
  · rw [h.length]
    exact Nat.dvd_add haligned (Nat.dvd_mul_right 8 _)

/-- Each slot has its place. -/
theorem Slotted.mem (h : head.Slotted targets layout) {index : Nat} {target : Relocation.Target}
    (htarget : targets[index]? = some target) :
    ⟨UInt32.ofNat (head.data.length + 8 * index), .absolute64, target⟩ ∈ layout.relocations := by
  rw [h.relocations]
  exact List.mem_append_right _ (mem_slotsFrom.mpr ⟨index, target, htarget, rfl⟩)

end Layout

/-- What a place points to comes to a symbol. -/
inductive Denotes (arena : Arena ArtifactKey) : Relocation.Target → Symbol → Prop
  | token (token : PortableToken) : Denotes arena (.token token) (.token token)
  | node {node : Handle} {key : ArtifactKey} (h : arena.key? node = some key) :
      Denotes arena (.node node) (.artifact key)

theorem Denotes.mono {arena later : Arena ArtifactKey} {target : Relocation.Target} {symbol : Symbol}
    (h : Denotes arena target symbol) (hkeeps : arena.Keeps later) :
    Denotes later target symbol := by
  cases h with
  | token token => exact .token token
  | node h => exact .node (hkeeps _ _ h)

theorem Denotes.unique {arena : Arena ArtifactKey} {target : Relocation.Target}
    {symbol other : Symbol} (h : Denotes arena target symbol) (hother : Denotes arena target other) :
    symbol = other := by
  cases h with
  | token token => cases hother; rfl
  | node h =>
    cases hother with
    | node hother => rw [Option.some.inj (h.symm.trans hother)]

/-- What a place points to comes to a symbol that is right for an item. -/
def Serves {α : Type} (arena : Arena ArtifactKey) (right : α → Symbol → Prop) (item : α)
    (target : Relocation.Target) : Prop :=
  ∃ symbol, Denotes arena target symbol ∧ right item symbol

theorem Serves.mono {α : Type} {arena later : Arena ArtifactKey} {right : α → Symbol → Prop}
    {item : α} {target : Relocation.Target} (h : Serves arena right item target)
    (hkeeps : arena.Keeps later) : Serves later right item target := by
  obtain ⟨symbol, hdenotes, hright⟩ := h
  exact ⟨symbol, hdenotes.mono hkeeps, hright⟩

theorem Drafting.Placed.denotes {size : Nat} {relocation : Relocation} {placed : PlacedRelocation}
    {draft : Draft} (h : Drafting.Placed size relocation placed draft) :
    Denotes draft.arena relocation.target placed.symbol := by
  cases htarget : relocation.target with
  | token token =>
    rw [h.token token htarget]
    exact .token token
  | node node =>
    obtain ⟨key, hkey, _, hsymbol⟩ := h.node node htarget
    rw [hsymbol]
    exact .node hkey

theorem Drafting.Placed.eq_of_denotes {size : Nat} {offset : UInt32} {kind : Relocation.Kind}
    {target : Relocation.Target} {placed : PlacedRelocation} {draft : Draft} {symbol : Symbol}
    (h : Drafting.Placed size ⟨offset, kind, target⟩ placed draft)
    (hsymbol : Denotes draft.arena target symbol) : placed = ⟨offset, kind, symbol⟩ :=
  h.eq_of_symbol (h.denotes.unique hsymbol)

/-- In an ascending list a value occurs once. -/
theorem filter_eq_singleton {α : Type} {rank : α → Nat} {items : List α}
    (h : items.Pairwise fun before later => rank before < rank later) {item : α}
    (hitem : item ∈ items) : items.filter (fun other => rank other = rank item) = [item] := by
  induction items with
  | nil => cases hitem
  | cons first rest ih =>
    obtain ⟨hfirst, hrest⟩ := List.pairwise_cons.mp h
    rcases List.mem_cons.mp hitem with rfl | hitem
    · rw [List.filter_cons_of_pos (by simp), List.filter_eq_nil_iff.mpr]
      intro other hother
      have hlt := hfirst other hother
      simp only [decide_eq_true_eq]
      omega
    · have hlt := hfirst item hitem
      rw [List.filter_cons_of_neg (by simp; omega)]
      exact ih hrest hitem

namespace EmittedArtifact

variable {artifact : EmittedArtifact}

def places (artifact : EmittedArtifact) : List (UInt32 × Relocation.Kind) :=
  artifact.relocations.map fun place => (place.offset, place.kind)

protected def Tidy (artifact : EmittedArtifact) : Prop :=
  PortableImage.Tidy artifact.data artifact.places

/-- What the loader fills in at an offset. -/
def placesAt (artifact : EmittedArtifact) (offset : Nat) : List PlacedRelocation :=
  artifact.relocations.filter fun place => place.offset.toNat = offset

theorem Tidy.placesAt_eq (h : artifact.Tidy) {place : PlacedRelocation}
    (hplace : place ∈ artifact.relocations) : artifact.placesAt place.offset.toNat = [place] := by
  apply filter_eq_singleton _ hplace
  refine (List.pairwise_map.mp h.apart).imp fun hapart => ?_
  simp only at hapart
  omega

variable {draft : Draft} {layout head : Layout} {targets : List Relocation.Target}

theorem Completes.tidy (h : artifact.Completes layout draft) (htidy : layout.Tidy) :
    artifact.Tidy := by
  rw [EmittedArtifact.Tidy, places, h.data, ← map_eq_map_of_forall₂ h.placed]
  · exact htidy
  · intro relocation placed hplaced
    rw [hplaced.offset, hplaced.kind]

theorem Completes.mem_relocations (h : artifact.Completes layout draft) {place : PlacedRelocation} :
    place ∈ artifact.relocations ↔ ∃ target,
      ⟨place.offset, place.kind, target⟩ ∈ layout.relocations ∧
        Denotes draft.arena target place.symbol := by
  constructor
  · intro hmem
    obtain ⟨relocation, hmem, hplaced⟩ := exists_of_mem_right h.placed hmem
    refine ⟨relocation.target, ?_, hplaced.denotes⟩
    rwa [hplaced.offset, hplaced.kind]
  · rintro ⟨target, hmem, hdenotes⟩
    obtain ⟨placed, hmem, hplaced⟩ := exists_of_mem_left h.placed hmem
    rwa [hplaced.eq_of_denotes hdenotes] at hmem

/-- From an offset on, the loader fills in one pointer for each item. -/
def SlotsFrom {α : Type} (artifact : EmittedArtifact) (start : Nat) (items : List α)
    (right : α → Symbol → Prop) : Prop :=
  ∀ index item, items[index]? = some item → ∃ symbol, right item symbol ∧
    artifact.placesAt (start + 8 * index) =
      [⟨UInt32.ofNat (start + 8 * index), .absolute64, symbol⟩]

/-- At the offset of a slot there is one pointer, to what the slot denotes. -/
theorem Completes.placesAt_slot (h : artifact.Completes layout draft)
    (hslotted : head.Slotted targets layout) {index : Nat} {target : Relocation.Target}
    (htarget : targets[index]? = some target) {symbol : Symbol}
    (hsymbol : Denotes draft.arena target symbol) :
    artifact.placesAt (head.data.length + 8 * index) =
      [⟨UInt32.ofNat (head.data.length + 8 * index), .absolute64, symbol⟩] := by
  obtain ⟨place, hmem, hplace⟩ := exists_of_mem_left h.placed (hslotted.mem htarget)
  obtain rfl := hplace.eq_of_denotes hsymbol
  have honly := (h.tidy hslotted.tidy).placesAt_eq hmem
  rwa [hslotted.toNat_offset (List.getElem?_eq_some_iff.mp htarget).1] at honly

theorem Completes.slotsFrom {α : Type} {items : List α} {right : α → Symbol → Prop}
    (h : artifact.Completes layout draft) (hslotted : head.Slotted targets layout)
    (hserves : List.Forall₂ (Serves draft.arena right) items targets) :
    artifact.SlotsFrom head.data.length items right := by
  intro index item hitem
  obtain ⟨hindex, rfl⟩ := List.getElem?_eq_some_iff.mp hitem
  have hlt : index < targets.length := hserves.length_eq ▸ hindex
  obtain ⟨symbol, hdenotes, hright⟩ := hserves.get hindex hlt
  exact ⟨symbol, hright, h.placesAt_slot hslotted (List.getElem?_eq_getElem hlt) hdenotes⟩

end EmittedArtifact

end PortableImage
