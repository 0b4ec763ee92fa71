import PortableImage.Graph.Arena
/-!
# Laws of the arena

What each operation does to the two views of an arena, the key and the progress behind a handle.
`find?_eq_some_iff` says that handles and keys determine each other, `progress_raise` and
`progress_intern` that work only ever moves forward.
-/

namespace PortableImage.Graph.Arena

variable {κ : Type}

theorem key?_modify (arena : Arena κ) (node other : Handle) (f : Node κ → Node κ)
    (keeps : ∀ node, (f node).key = node.key) :
    (arena.modify node f keeps).key? other = arena.key? other := by
  rw [key?, get?_modify, key?]
  split
  · cases arena.get? other <;> simp [keeps]
  · rfl

@[simp] theorem key?_raise (arena : Arena κ) (node other : Handle) (progress : Progress) :
    (arena.raise node progress).key? other = arena.key? other :=
  key?_modify ..

@[simp] theorem size_raise (arena : Arena κ) (node : Handle) (progress : Progress) :
    (arena.raise node progress).size = arena.size :=
  size_modify ..

theorem get?_eq_none_iff {arena : Arena κ} {node : Handle} :
    arena.get? node = none ↔ arena.size ≤ node.index := by
  simp [get?, size]

/-- Raising a node raises that node alone, and nothing behind a handle that was never given out. -/
theorem progress_raise (arena : Arena κ) (node other : Handle) (progress : Progress) :
    (arena.raise node progress).progress other =
      if node = other ∧ other.index < arena.size then (arena.progress other).max progress
      else arena.progress other := by
  rw [Arena.progress, raise, get?_modify, Arena.progress]
  by_cases hnode : node = other
  · cases hget : arena.get? other with
    | none =>
      have hsize := get?_eq_none_iff.mp hget
      simp [hnode, Nat.not_lt.mpr hsize]
    | some found =>
      have hsize : other.index < arena.size := by
        rcases Nat.lt_or_ge other.index arena.size with hlt | hge
        · exact hlt
        · rw [get?_eq_none_iff.mpr hge] at hget
          cases hget
      simp [hnode, hsize]
  · simp [hnode]

/-- No two handles have one key. -/
theorem eq_of_key? {arena : Arena κ} {key : κ} {node other : Handle}
    (hnode : arena.key? node = some key) (hother : arena.key? other = some key) :
    node = other := by
  obtain ⟨node⟩ := node
  obtain ⟨other⟩ := other
  have hkeys (index : Nat) :
      arena.key? ⟨index⟩ = (arena.nodes.map Node.key)[index]? := by
    simp [key?, get?]
  rw [hkeys] at hnode hother
  have hlt : node < (arena.nodes.map Node.key).length := by
    obtain ⟨hlt, _⟩ := List.getElem?_eq_some_iff.mp hnode
    exact hlt
  rw [(List.getElem?_inj hlt arena.distinct).mp (hnode.trans hother.symm)]

variable [DecidableEq κ]

theorem get?_push (arena : Arena κ) (key : κ) (fresh : arena.find? key = none) (node : Handle) :
    (arena.push key fresh).get? node =
      if node.index = arena.size then some { key } else arena.get? node := by
  by_cases h : node.index = arena.size
  · simp [get?, push, h, size]
  · rw [if_neg h]
    simp only [get?, push]
    simp only [size] at h
    rcases Nat.lt_or_gt_of_ne h with hlt | hgt
    · exact List.getElem?_append_left hlt
    · rw [List.getElem?_eq_none (by simp; omega), List.getElem?_eq_none (by omega)]

theorem key?_of_find? {arena : Arena κ} {key : κ} {node : Handle}
    (h : arena.find? key = some node) : arena.key? node = some key := by
  obtain ⟨index, hindex, rfl⟩ := Option.map_eq_some_iff.mp h
  obtain ⟨hlt, hkey, _⟩ := List.findIdx?_eq_some_iff_getElem.mp hindex
  simpa [key?, get?, hlt] using hkey

theorem find?_eq_some_iff {arena : Arena κ} {key : κ} {node : Handle} :
    arena.find? key = some node ↔ arena.key? node = some key := by
  constructor
  · exact key?_of_find?
  · intro hkey
    cases hfind : arena.find? key with
    | none =>
      obtain ⟨found, hget, hfound⟩ := Option.map_eq_some_iff.mp hkey
      have hmem := List.mem_map_of_mem (f := Node.key) (List.mem_of_getElem? hget)
      exact absurd (hfound ▸ hmem) (not_mem_of_find?_eq_none hfind)
    | some other => rw [eq_of_key? (key?_of_find? hfind) hkey]

theorem get?_intern (arena : Arena κ) (key : κ) (node : Handle) :
    (arena.intern key).2.get? node =
      if arena.find? key = none ∧ node.index = arena.size then some { key }
      else arena.get? node := by
  unfold intern
  split
  · rename_i h
    simp [h]
  · rename_i h
    rw [get?_push]
    simp [h]

/-- A key has the handle it was given. -/
@[simp] theorem key?_intern (arena : Arena κ) (key : κ) :
    (arena.intern key).2.key? (arena.intern key).1 = some key := by
  unfold intern
  split
  · rename_i h
    exact key?_of_find? h
  · rw [key?, get?_push]
    simp

/-- Keys keep their handles. -/
theorem key?_intern_of_key? {arena : Arena κ} {old : κ} {node : Handle}
    (h : arena.key? node = some old) (key : κ) :
    (arena.intern key).2.key? node = some old := by
  have hlt : node.index ≠ arena.size := by
    intro hindex
    rw [key?, get?_eq_none_iff.mpr (by omega)] at h
    cases h
  rw [key?, get?_intern]
  simpa [hlt, key?] using h

/-- New nodes are unmarked, so that interning changes the progress behind no handle. -/
@[simp] theorem progress_intern (arena : Arena κ) (key : κ) (node : Handle) :
    (arena.intern key).2.progress node = arena.progress node := by
  rw [Arena.progress, get?_intern, Arena.progress]
  by_cases h : arena.find? key = none ∧ node.index = arena.size
  · rw [if_pos h, get?_eq_none_iff.mpr (by omega)]
  · rw [if_neg h]

end PortableImage.Graph.Arena
