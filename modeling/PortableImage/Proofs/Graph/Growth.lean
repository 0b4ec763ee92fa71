import PortableImage.Graph.Arena.Laws
import PortableImage.Graph.Expansion
import Mathlib.Data.List.Nodup
/-!
# Growth of an arena

Three views say all there is to know about a handle: its key, its progress and the dependencies
recorded for it.  An arena *grows* when it gets new nodes about which nothing has been decided, and
it *keeps* another one if every key stays behind its handle.  Expanders that only create nodes, and
only name nodes that exist, are *quiet*.
-/

namespace PortableImage.Graph

namespace Arena

variable {κ : Type}

def recorded? (arena : Arena κ) (node : Handle) : Option (List Edge) :=
  (arena.get? node).bind Node.dependencies

theorem isSome_key? {arena : Arena κ} {node : Handle} :
    (arena.key? node).isSome ↔ node.index < arena.size := by
  rw [key?, Option.isSome_map, ← Option.ne_none_iff_isSome, Ne, get?_eq_none_iff, Nat.not_le]

theorem isFresh_iff {arena : Arena κ} {node : Handle} :
    arena.isFresh node ↔ (arena.key? node).isSome ∧ arena.progress node = .unmarked := by
  unfold isFresh key? progress
  cases arena.get? node with
  | none => simp
  | some found => simp

theorem isMarked_of_not_isFresh {arena : Arena κ} {node : Handle}
    (hknown : (arena.key? node).isSome) (h : arena.isFresh node = false) :
    (arena.progress node).isMarked := by
  cases hprogress : arena.progress node with
  | unmarked => rw [isFresh_iff.mpr ⟨hknown, hprogress⟩] at h; cases h
  | _ => rfl

theorem isSome_key?_of_progress {arena : Arena κ} {node : Handle}
    (h : arena.progress node ≠ .unmarked) : (arena.key? node).isSome := by
  unfold progress at h
  unfold key?
  cases hget : arena.get? node with
  | none => simp [hget] at h
  | some found => rfl

theorem isSome_key?_of_isMarked {arena : Arena κ} {node : Handle}
    (h : (arena.progress node).isMarked) : (arena.key? node).isSome := by
  apply isSome_key?_of_progress
  intro hprogress
  rw [hprogress] at h
  cases h

theorem mem_marked {arena : Arena κ} {node : Handle} :
    node ∈ arena.marked ↔ (arena.progress node).isMarked := by
  simp only [marked, handles, List.mem_filter, List.mem_map, List.mem_range, and_iff_right_iff_imp]
  intro h
  exact ⟨node.index, isSome_key?.mp (isSome_key?_of_isMarked h), rfl⟩

theorem nodup_marked (arena : Arena κ) : arena.marked.Nodup := by
  apply List.Nodup.filter
  apply List.Nodup.map _ List.nodup_range
  intro a b h
  exact congrArg Handle.index h

/-- The keys of the needed nodes, in the order of their creation. -/
def markedKeys (arena : Arena κ) : List κ := arena.marked.filterMap arena.key?

section MarkedKeys

variable {arena : Arena κ} {node : Handle} {key : κ}

theorem mem_markedKeys :
    key ∈ arena.markedKeys ↔
      ∃ node, arena.key? node = some key ∧ (arena.progress node).isMarked := by
  rw [markedKeys, List.mem_filterMap]
  constructor
  · rintro ⟨node, hmarked, hkey⟩
    exact ⟨node, hkey, mem_marked.mp hmarked⟩
  · rintro ⟨node, hkey, hmarked⟩
    exact ⟨node, mem_marked.mpr hmarked, hkey⟩

theorem mem_markedKeys_iff (hkey : arena.key? node = some key) :
    key ∈ arena.markedKeys ↔ (arena.progress node).isMarked := by
  rw [mem_markedKeys]
  constructor
  · rintro ⟨other, hother, hmarked⟩
    rwa [eq_of_key? hkey hother]
  · exact fun hmarked => ⟨node, hkey, hmarked⟩

theorem nodup_markedKeys (arena : Arena κ) : arena.markedKeys.Nodup := by
  apply List.Nodup.filterMap _ arena.nodup_marked
  intro a b key ha hb
  exact eq_of_key? ha hb

end MarkedKeys

theorem recorded?_raise (arena : Arena κ) (node other : Handle) (progress : Progress) :
    (arena.raise node progress).recorded? other = arena.recorded? other := by
  rw [recorded?, raise, get?_modify, recorded?]
  split
  · cases arena.get? other <;> rfl
  · rfl

theorem progress_raise_of_known {arena : Arena κ} {node : Handle}
    (hknown : (arena.key? node).isSome) (other : Handle) (progress : Progress) :
    (arena.raise node progress).progress other =
      if other = node then (arena.progress node).max progress else arena.progress other := by
  rw [progress_raise]
  by_cases h : node = other
  · subst h
    simp [isSome_key?.mp hknown]
  · rw [if_neg (by simp [h]), if_neg (Ne.symm h)]

theorem key?_recordDependencies (arena : Arena κ) (node other : Handle) (edges : List Edge) :
    (arena.recordDependencies node edges).2.key? other = arena.key? other := by
  rw [recordDependencies, key?_modify]

theorem progress_recordDependencies (arena : Arena κ) (node other : Handle) (edges : List Edge) :
    (arena.recordDependencies node edges).2.progress other = arena.progress other := by
  rw [progress, recordDependencies, get?_modify, progress]
  by_cases h : node = other
  · rw [if_pos h]
    cases arena.get? other <;> rfl
  · rw [if_neg h]

theorem recorded?_recordDependencies {arena : Arena κ} {node : Handle}
    (hknown : (arena.key? node).isSome) (other : Handle) (edges : List Edge) :
    (arena.recordDependencies node edges).2.recorded? other =
      if other = node then some ((arena.recorded? node).getD edges)
      else arena.recorded? other := by
  rw [recorded?, recordDependencies, get?_modify]
  by_cases h : node = other
  · subst h
    rw [if_pos rfl, if_pos rfl, recorded?]
    unfold key? at hknown
    cases hget : arena.get? node with
    | none => rw [hget] at hknown; cases hknown
    | some found => rfl
  · rw [if_neg h, if_neg (Ne.symm h), recorded?]

/-- The keys of one arena stay behind their handles in the other. -/
def Keeps (old new : Arena κ) : Prop :=
  ∀ node key, old.key? node = some key → new.key? node = some key

namespace Keeps

theorem trans {a b c : Arena κ} (hab : a.Keeps b) (hbc : b.Keeps c) : a.Keeps c :=
  fun node key h => hbc node key (hab node key h)

theorem of_key?_eq {old new : Arena κ} (h : ∀ node, new.key? node = old.key? node) :
    old.Keeps new := by
  intro node key hkey
  rw [h, hkey]

variable {old new : Arena κ}

theorem isSome (h : old.Keeps new) {node : Handle} (hknown : (old.key? node).isSome) :
    (new.key? node).isSome := by
  obtain ⟨key, hkey⟩ := Option.isSome_iff_exists.mp hknown
  rw [h node key hkey]
  rfl

theorem key?_of_isMarked (h : old.Keeps new) {node : Handle} {key : κ}
    (hmarked : (old.progress node).isMarked) (hkey : new.key? node = some key) :
    old.key? node = some key := by
  obtain ⟨found, hfound⟩ := Option.isSome_iff_exists.mp (isSome_key?_of_isMarked hmarked)
  rw [hfound, ← h node found hfound, hkey]

theorem mem_markedKeys (h : old.Keeps new)
    (hmarked : ∀ node, (new.progress node).isMarked ↔ (old.progress node).isMarked) (key : κ) :
    key ∈ new.markedKeys ↔ key ∈ old.markedKeys := by
  rw [Arena.mem_markedKeys, Arena.mem_markedKeys]
  constructor
  · rintro ⟨node, hkey, hnode⟩
    rw [hmarked] at hnode
    exact ⟨node, h.key?_of_isMarked hnode hkey, hnode⟩
  · rintro ⟨node, hkey, hnode⟩
    exact ⟨node, h node key hkey, (hmarked node).mpr hnode⟩

end Keeps

/-- The other arena has some more nodes, about which nothing has been decided. -/
def Grows (old new : Arena κ) : Prop :=
  ∃ keys : List κ, new.nodes = old.nodes ++ keys.map fun key => { key := key }

namespace Grows

theorem refl (arena : Arena κ) : arena.Grows arena := ⟨[], by simp⟩

theorem trans {a b c : Arena κ} (hab : a.Grows b) (hbc : b.Grows c) : a.Grows c := by
  obtain ⟨first, hfirst⟩ := hab
  obtain ⟨second, hsecond⟩ := hbc
  exact ⟨first ++ second, by rw [hsecond, hfirst, List.map_append, List.append_assoc]⟩

variable {old new : Arena κ}

theorem get? (h : old.Grows new) (node : Handle) :
    new.get? node = old.get? node ∨
      old.get? node = none ∧ ∃ key, new.get? node = some { key := key } := by
  obtain ⟨keys, hkeys⟩ := h
  unfold Arena.get?
  rw [hkeys]
  rcases Nat.lt_or_ge node.index old.nodes.length with hlt | hge
  · left
    exact List.getElem?_append_left hlt
  · rw [List.getElem?_append_right hge, List.getElem?_map]
    cases hkey : keys[node.index - old.nodes.length]? with
    | none => left; rw [List.getElem?_eq_none hge]; rfl
    | some key => right; exact ⟨List.getElem?_eq_none hge, key, rfl⟩

theorem keeps (h : old.Grows new) : old.Keeps new := by
  intro node key hkey
  unfold key? at hkey ⊢
  rcases h.get? node with hget | ⟨hget, _⟩
  · rwa [hget]
  · rw [hget] at hkey
    cases hkey

theorem progress (h : old.Grows new) (node : Handle) : new.progress node = old.progress node := by
  unfold Arena.progress
  rcases h.get? node with hget | ⟨hold, key, hnew⟩
  · rw [hget]
  · rw [hold, hnew]

theorem recorded? (h : old.Grows new) (node : Handle) :
    new.recorded? node = old.recorded? node := by
  unfold Arena.recorded?
  rcases h.get? node with hget | ⟨hold, key, hnew⟩
  · rw [hget]
  · rw [hold, hnew]
    rfl

theorem mem_markedKeys (h : old.Grows new) (key : κ) :
    key ∈ new.markedKeys ↔ key ∈ old.markedKeys :=
  h.keeps.mem_markedKeys (fun node => by rw [h.progress]) key

variable [DecidableEq κ]

theorem intern (arena : Arena κ) (key : κ) : arena.Grows (arena.intern key).2 := by
  unfold Arena.intern
  split
  · exact refl arena
  · exact ⟨[key], rfl⟩

theorem internEach (arena : Arena κ) (keys : List κ) : arena.Grows (arena.internEach keys).2 := by
  induction keys generalizing arena with
  | nil => exact refl arena
  | cons key keys ih => exact (intern arena key).trans (ih _)

end Grows

/-- Every key gets the handle that stands at its place. -/
theorem key?_internEach [DecidableEq κ] (arena : Arena κ) (keys : List κ) :
    (arena.internEach keys).1.map (arena.internEach keys).2.key? = keys.map some := by
  induction keys generalizing arena with
  | nil => rfl
  | cons key keys ih =>
    have hfirst := (Grows.internEach (arena.intern key).2 keys).keeps _ _ (key?_intern arena key)
    rw [internEach, List.map_cons, List.map_cons, hfirst, ih]

end Arena

structure Expansion.Names {κ : Type} (expansion : Expansion) (arena : Arena κ) : Prop where
  always : ∀ dependency ∈ expansion.always, (arena.key? dependency.target).isSome
  guarded : ∀ dependency ∈ expansion.guarded, (arena.key? dependency.target).isSome

variable {κ σ ε : Type}

/-- On known nodes the expander creates nodes at most, and all its targets have one. -/
structure Expander.Quiet (expander : Expander κ σ ε) : Prop where
  grows : ∀ node (site : Site κ σ), (site.arena.key? node).isSome →
    site.arena.Grows (expander node site).2.arena
  names : ∀ node (site : Site κ σ), (site.arena.key? node).isSome →
    ∀ expansion, (expander node site).1 = .ok expansion →
      expansion.Names (expander node site).2.arena

end PortableImage.Graph
