import PortableImage.Proofs.Session.IssuedTokens
import PortableImage.Proofs.Session.StandingAnswers
import PortableImage.Proofs.Session.TidyLayouts
/-!
# The slots of emitted artifacts

A table of virtual methods, a dictionary and a layout are each a header with slots behind it.  The
slots are appended one by one, at the end of the data written so far, while the draft goes on
growing.  What an item's slot holds in the image is nevertheless decided by the draft that emission
starts with, and where it stands by the index of the item.
-/

namespace PortableImage

open PortableImage.Graph (Arena Handle)

/-- The data opens with a count. -/
def Bytes.Counts (data : Bytes) (count : Nat) : Prop :=
  ∃ word : UInt32, word.toNat = count ∧ Bytes.ofWord word <+: data

theorem Bytes.Counts.of_isPrefix {data later : Bytes} {count : Nat} (h : data.Counts count)
    (hlater : data <+: later) : later.Counts count := by
  obtain ⟨word, hword, hopens⟩ := h
  exact ⟨word, hword, hopens.trans hlater⟩

namespace Layout

variable {layout next : Layout} {target : Option Relocation.Target}

theorem counts_of_count {value : Nat} (h : Layout.count {} value = .ok next) :
    next.data.Counts value := by
  rw [count] at h
  split at h
  · rename_i hlt
    obtain rfl := Except.ok.inj h
    exact ⟨UInt32.ofNat value, UInt32.toNat_ofNat_of_lt' hlt, List.prefix_rfl⟩
  · cases h

theorem relocations_of_slot (h : layout.slot target = .ok next) :
    next.relocations = layout.relocations ++
      (target.map fun held => ⟨UInt32.ofNat layout.data.length, .absolute64, held⟩).toList := by
  obtain ⟨rfl, -⟩ := eq_of_slot h
  cases target <;> simp [place]

theorem length_of_slot (h : layout.slot target = .ok next) :
    next.data.length = layout.data.length + 8 := by
  obtain ⟨rfl, -⟩ := eq_of_slot h
  rw [length_place]
  rfl

end Layout

namespace Drafting

section Runs

variable {α β : Type} {before after : Draft} {last : β}

theorem lift_eq_ok {answer : Except Fault α} {value : α}
    (h : (liftM answer : Drafting α) before = (.ok value, after)) :
    answer = .ok value ∧ after = before := by
  cases answer with
  | ok found =>
    cases h
    exact ⟨rfl, rfl⟩
  | error fault => cases h

theorem bind_lift_eq_ok {answer : Except Fault α} {next : α → Drafting β}
    (h : (liftM answer >>= next) before = (.ok last, after)) :
    ∃ value, answer = .ok value ∧ next value before = (.ok last, after) := by
  cases answer with
  | ok value => exact ⟨value, rfl, h⟩
  | error fault => cases h

theorem bind_described_eq_ok {entity : Entity} {description : Option α} {next : α → Drafting β}
    (h : (described entity description >>= next) before = (.ok last, after)) :
    ∃ value, description = some value ∧ next value before = (.ok last, after) := by
  cases description with
  | some value => exact ⟨value, rfl, h⟩
  | none => cases h

theorem markedNode?_eq_ok {key : ArtifactKey} {found : Option Handle}
    (h : markedNode? key before = (.ok found, after)) :
    after = before ∧ ∀ node, found = some node ↔
      before.arena.key? node = some key ∧ key ∈ before.arena.markedKeys := by
  cases h
  refine ⟨rfl, fun node => ?_⟩
  rw [Option.filter_eq_some_iff, Arena.find?_eq_some_iff]
  exact and_congr_right fun hkey => (Arena.mem_markedKeys_iff hkey).symm

theorem bind_baseTable?_eq_ok {base : Option Entity} {next : Option Handle → Drafting β}
    (h : (baseTable? base >>= next) before = (.ok last, after)) :
    ∃ found, (∀ node, found = some node ↔ ∃ type, base = some type ∧
      before.arena.key? node = some (.vtable type) ∧ .vtable type ∈ before.arena.markedKeys) ∧
      next found before = (.ok last, after) := by
  cases base with
  | none => exact ⟨none, by simp, h⟩
  | some type =>
    obtain ⟨found, middle, hfound, hnext⟩ := bind_eq_ok h
    obtain ⟨rfl, hfound⟩ := markedNode?_eq_ok hfound
    exact ⟨found, by simpa using hfound, hnext⟩

end Runs

variable {setting : Setting} {draft state before after : Draft} {head layout : Layout}

/-- Slots are appended one by one, and each is right for its item.  What is right does not change on
the way, since the draft upholds what it once answered. -/
theorem slotted_of_foldlM {α : Type} {right : α → Symbol → Prop}
    {append : Layout → α → Drafting Layout}
    (happend : ∀ layout item earlier next later, draft.Upholds setting earlier →
      append layout item earlier = (.ok next, later) → earlier.Upholds setting later ∧
        ∃ target, layout.slot (some target) = .ok next ∧ Serves later.arena right item target)
    (htidy : head.Tidy) (haligned : 8 ∣ head.data.length) (hstate : draft.Upholds setting state)
    {items : List α} (h : items.foldlM append head state = (.ok layout, after)) :
    draft.Upholds setting after ∧ ∃ targets, head.Slotted targets layout ∧
      List.Forall₂ (Serves after.arena right) items targets := by
  -- Slots are appended behind those that are there, so the last item is split off.
  induction items using List.reverseRecOn generalizing layout after with
  | nil =>
    cases h
    exact ⟨hstate, [], .nil htidy, .nil⟩
  | append_singleton items item ih =>
    rw [List.foldlM_append] at h
    obtain ⟨middle, earlier, hitems, hlast⟩ := bind_eq_ok h
    simp only [List.foldlM_cons, List.foldlM_nil, bind_pure] at hlast
    obtain ⟨hearlier, targets, hslotted, hall⟩ := ih hitems
    obtain ⟨hupholds, target, hslot, hserves⟩ :=
      happend middle item earlier layout after hearlier hlast
    have hkept := hall.imp fun _ _ hold => hold.mono hupholds.grows.keeps
    exact ⟨hearlier.trans hupholds, targets ++ [target], hslotted.slot haligned hslot,
      List.rel_append hkept (.cons hserves .nil)⟩

/-- What the slot of a method holds: its code if that is marked, else the token its type's module
knows it by. -/
inductive BoundTo (setting : Setting) (draft : Draft) (type method : Entity) : Symbol → Prop
  | code (h : .methodCode method ∈ draft.arena.markedKeys) :
      BoundTo setting draft type method (.artifact (.methodCode method))
  | token (h : .methodCode method ∉ draft.arena.markedKeys) {token : PortableToken}
      (htoken : (issue setting method type.module draft).1 = .ok token) :
      BoundTo setting draft type method (.token token)

theorem serves_of_slotTarget {type method : Entity} {target : Relocation.Target}
    (hstate : draft.Upholds setting state)
    (h : slotTarget setting type method state = (.ok target, after)) :
    Serves after.arena (BoundTo setting draft type) method target := by
  obtain ⟨found, middle, hfound, hrest⟩ := bind_eq_ok h
  obtain ⟨rfl, hmarked⟩ := markedNode?_eq_ok hfound
  simp only [hstate.grows.mem_markedKeys] at hmarked
  cases found with
  | some node =>
    cases hrest
    obtain ⟨hkey, hmem⟩ := (hmarked node).mp rfl
    exact ⟨_, .node hkey, .code hmem⟩
  | none =>
    -- A node that was marked at the start would have been found.
    have hunmarked : .methodCode method ∉ draft.arena.markedKeys := by
      intro hmem
      obtain ⟨node, hkey, -⟩ := Arena.mem_markedKeys.mp hmem
      cases (hmarked node).mpr ⟨hstate.grows.keeps _ _ hkey, hmem⟩
    obtain ⟨token, _, htoken, hrest⟩ := bind_eq_ok hrest
    cases hrest
    refine ⟨_, .token token, .token hunmarked ?_⟩
    rw [hstate.answers, htoken]

theorem appendSlot_eq_ok {type method : Entity} {next : Layout} (hstate : draft.Upholds setting state)
    (h : appendSlot setting type layout method state = (.ok next, after)) :
    state.Upholds setting after ∧ ∃ target, layout.slot (some target) = .ok next ∧
      Serves after.arena (BoundTo setting draft type) method target := by
  obtain ⟨target, middle, htarget, hrest⟩ := bind_eq_ok h
  obtain ⟨hslot, rfl⟩ := lift_eq_ok hrest
  exact ⟨upholds_of_proceeds (proceeds_appendSlot setting type layout method) h, target, hslot,
    serves_of_slotTarget hstate htarget⟩

/-- What the slot of an argument holds: the artifact that makes the reference valid. -/
def LeadsTo (setting : Setting) (requester : ArtifactKey) (origin : ModuleIndex) (draft : Draft)
    (entity : Entity) (symbol : Symbol) : Prop :=
  ∃ key, Finds setting requester origin draft entity key ∧ symbol = .artifact key

theorem serves_of_anchor {requester : ArtifactKey} {origin : ModuleIndex} {entity : Entity}
    {node : Handle} (hstate : draft.Upholds setting state)
    (h : anchor setting requester entity origin state = (.ok node, after)) :
    Serves after.arena (LeadsTo setting requester origin draft) entity (.node node) := by
  obtain ⟨key, hkey, hfinds⟩ := finds_of_anchor hstate h
  exact ⟨.artifact key, .node hkey, key, hfinds, rfl⟩

theorem appendArgument_eq_ok {entity argument : Entity} {next : Layout}
    (hstate : draft.Upholds setting state)
    (h : appendArgument setting entity layout argument state = (.ok next, after)) :
    state.Upholds setting after ∧ ∃ target, layout.slot (some target) = .ok next ∧
      Serves after.arena (LeadsTo setting (.genericDictionary entity) entity.module draft) argument
        target := by
  obtain ⟨node, middle, hanchor, hrest⟩ := bind_eq_ok h
  obtain ⟨hslot, rfl⟩ := lift_eq_ok hrest
  exact ⟨upholds_of_proceeds (proceeds_anchor setting _ _ _) hanchor, .node node, hslot,
    serves_of_anchor hstate hanchor⟩

end Drafting

end PortableImage
