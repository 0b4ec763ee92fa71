import PortableImage.Proofs.Graph.AlikeArenas
/-!
# The same nodes, at other stages

Arenas coincide if they have given the same handles to the same keys.  They stay so if the same keys
are interned in both, and the same handles are given out again, however far the work has come in each.
To compare arenas in which it has come unequally far, one of them is *restaged*: it gets the stages of
the other, and coincides with itself as it was before.
-/

namespace PortableImage.Graph.Arena

variable {κ : Type} {left right : Arena κ} {node : Handle} {key : κ}

/-- The same handles stand for the same keys. -/
def Coincide (left right : Arena κ) : Prop := ∀ node, left.key? node = right.key? node

theorem Coincide.size (h : left.Coincide right) : left.size = right.size := by
  have hlt (index : Nat) : index < left.size ↔ index < right.size := by
    have hleft := @isSome_key? κ left ⟨index⟩
    have hright := @isSome_key? κ right ⟨index⟩
    rw [← hleft, ← hright, h ⟨index⟩]
  have hself := hlt left.size
  have hother := hlt right.size
  omega

theorem Coincide.same_iff {left' right' : Arena κ} (hleft : left.Coincide left')
    (hright : right.Coincide right') {a b : Handle} :
    Same left right a b ↔ Same left' right' a b := by
  rw [Same, Same, hleft a, hright b]

/-- The arena with other stages. -/
def restage (arena : Arena κ) (stage : κ → Progress) : Arena κ where
  nodes := arena.nodes.map fun node => { node with progress := stage node.key }
  distinct := by
    rw [List.map_map]
    exact arena.distinct

theorem get?_restage (arena : Arena κ) (stage : κ → Progress) (node : Handle) :
    (arena.restage stage).get? node =
      (arena.get? node).map fun found => { found with progress := stage found.key } :=
  List.getElem?_map ..

theorem coincide_restage (arena : Arena κ) (stage : κ → Progress) :
    (arena.restage stage).Coincide arena := by
  intro node
  rw [key?, get?_restage, Option.map_map]
  rfl

theorem progress_restage {arena : Arena κ} (h : arena.key? node = some key)
    (stage : κ → Progress) : (arena.restage stage).progress node = stage key := by
  obtain ⟨found, hfound, rfl⟩ := Option.map_eq_some_iff.mp h
  rw [progress, get?_restage, hfound]
  rfl

/-- The arena in which nothing is marked. -/
def bare (arena : Arena κ) : Arena κ := arena.restage fun _ => .unmarked

theorem not_mem_markedKeys_bare (arena : Arena κ) (key : κ) : key ∉ arena.bare.markedKeys := by
  rw [mem_markedKeys]
  rintro ⟨node, hkey, hmarked⟩
  rw [bare, coincide_restage] at hkey
  rw [bare, progress_restage hkey] at hmarked
  cases hmarked

variable [DecidableEq κ]

theorem fst_intern (arena : Arena κ) (key : κ) :
    (arena.intern key).1 = (arena.find? key).getD ⟨arena.size⟩ := by
  unfold intern
  split
  · rename_i hfind
    rw [hfind]
    rfl
  · rename_i hfind
    show (⟨arena.size⟩ : Handle) = _
    rw [hfind]
    rfl

theorem key?_intern_eq (arena : Arena κ) (key : κ) (node : Handle) :
    (arena.intern key).2.key? node =
      if arena.find? key = none ∧ node.index = arena.size then some key else arena.key? node := by
  rw [key?, get?_intern]
  split
  · rfl
  · rfl

theorem Coincide.fst_intern (h : left.Coincide right) (key : κ) :
    (left.intern key).1 = (right.intern key).1 := by
  rw [Arena.fst_intern, Arena.fst_intern, find?_congr h, h.size]

theorem Coincide.intern (h : left.Coincide right) (key : κ) :
    (left.intern key).2.Coincide (right.intern key).2 := by
  intro node
  rw [key?_intern_eq, key?_intern_eq, find?_congr h, h.size, h node]

theorem stage_eq_unmarked {arena : Arena κ} (h : key ∉ arena.markedKeys) :
    arena.stage key = .unmarked := by
  rw [mem_markedKeys_iff_stage] at h
  cases hstage : arena.stage key with
  | unmarked => rfl
  | _ => exact absurd (by rw [hstage]; rfl) h

theorem stage_restage {arena : Arena κ} (h : arena.key? node = some key) (stage : κ → Progress) :
    (arena.restage stage).stage key = stage key := by
  have hrestaged : (arena.restage stage).key? node = some key :=
    (coincide_restage arena stage node).trans h
  rw [stage_of_key? hrestaged, progress_restage h]

/-- Restaged after another arena, an arena is alike to it, if it has a node for all that is marked
there. -/
theorem alike_restage (h : ∀ key ∈ left.markedKeys, ∃ node, right.key? node = some key) :
    left.Alike (right.restage left.stage) := by
  intro key
  by_cases hknown : ∃ node, right.key? node = some key
  · obtain ⟨node, hkey⟩ := hknown
    exact (stage_restage hkey _).symm
  · have hrestaged : key ∉ (right.restage left.stage).markedKeys := by
      rw [mem_markedKeys]
      rintro ⟨node, hkey, _⟩
      exact hknown ⟨node, (coincide_restage right left.stage node).symm.trans hkey⟩
    rw [stage_eq_unmarked fun hmarked => hknown (h key hmarked), stage_eq_unmarked hrestaged]

theorem alike_bare (left right : Arena κ) : left.bare.Alike right.bare := by
  intro key
  rw [stage_eq_unmarked (not_mem_markedKeys_bare left key),
    stage_eq_unmarked (not_mem_markedKeys_bare right key)]

end PortableImage.Graph.Arena
