import PortableImage.Proofs.Graph.Growth
import Mathlib.Data.List.Perm.Subperm
/-!
# Arenas that are alike

Handles are numbered in the order of creation, so two arenas may give different handles to one key.
Two handles are the *same* for a pair of arenas if they have one key.  The *stage* of a key is how far
the work on it has come, whether it has a node or not; arenas are alike if they agree on the stage of
every key.
-/

namespace PortableImage.Graph

variable {κ : Type}

namespace Arena

variable {left right left' right' : Arena κ} {a b a' b' : Handle}

/-- The handles have one key. -/
def Same (left right : Arena κ) (a b : Handle) : Prop :=
  ∃ key, left.key? a = some key ∧ right.key? b = some key

theorem same_self {arena : Arena κ} {node : Handle} (h : (arena.key? node).isSome) :
    Same arena arena node node := by
  obtain ⟨key, hkey⟩ := Option.isSome_iff_exists.mp h
  exact ⟨key, hkey, hkey⟩

theorem Same.mono (h : Same left right a b) (hleft : left.Keeps left') (hright : right.Keeps right') :
    Same left' right' a b := by
  obtain ⟨key, ha, hb⟩ := h
  exact ⟨key, hleft a key ha, hright b key hb⟩

theorem Same.eq_iff (h : Same left right a b) (h' : Same left right a' b') : a = a' ↔ b = b' := by
  obtain ⟨key, ha, hb⟩ := h
  obtain ⟨key', ha', hb'⟩ := h'
  constructor
  · rintro rfl
    obtain rfl := Option.some.inj (ha.symm.trans ha')
    exact eq_of_key? hb hb'
  · rintro rfl
    obtain rfl := Option.some.inj (hb.symm.trans hb')
    exact eq_of_key? ha ha'

theorem Same.isSome_left (h : Same left right a b) : (left.key? a).isSome := by
  obtain ⟨key, ha, _⟩ := h
  rw [ha]
  rfl

theorem Same.isSome_right (h : Same left right a b) : (right.key? b).isSome := by
  obtain ⟨key, _, hb⟩ := h
  rw [hb]
  rfl

variable [DecidableEq κ]

theorem find?_congr {old new : Arena κ} (h : ∀ node, new.key? node = old.key? node) (key : κ) :
    new.find? key = old.find? key := by
  apply Option.ext
  intro node
  rw [find?_eq_some_iff, find?_eq_some_iff, h]

/-- How far the work on a key has come; a key without a node is unmarked. -/
def stage (arena : Arena κ) (key : κ) : Progress :=
  ((arena.find? key).map arena.progress).getD .unmarked

theorem stage_of_key? {arena : Arena κ} {node : Handle} {key : κ}
    (h : arena.key? node = some key) : arena.stage key = arena.progress node := by
  rw [stage, find?_eq_some_iff.mpr h]
  rfl

theorem progress_eq_stage (arena : Arena κ) (node : Handle) :
    arena.progress node = ((arena.key? node).map arena.stage).getD .unmarked := by
  cases hkey : arena.key? node with
  | some key => exact (stage_of_key? hkey).symm
  | none =>
    have hget : arena.get? node = none := by simpa [key?] using hkey
    rw [progress, hget]
    rfl

theorem mem_markedKeys_iff_stage {arena : Arena κ} {key : κ} :
    key ∈ arena.markedKeys ↔ (arena.stage key).isMarked := by
  cases hfind : arena.find? key with
  | some node =>
    have hkey := find?_eq_some_iff.mp hfind
    rw [mem_markedKeys_iff hkey, stage_of_key? hkey]
  | none =>
    rw [mem_markedKeys, stage, hfind]
    constructor
    · rintro ⟨node, hkey, _⟩
      rw [find?_eq_some_iff.mpr hkey] at hfind
      cases hfind
    · intro hmarked
      cases hmarked

/-- What is looked up and found to be marked. -/
theorem find?_filter_eq_some {arena : Arena κ} {key : κ} {node : Handle} :
    (arena.find? key).filter (fun node => (arena.progress node).isMarked) = some node ↔
      arena.key? node = some key ∧ key ∈ arena.markedKeys := by
  rw [Option.filter_eq_some_iff, find?_eq_some_iff]
  exact and_congr_right fun hkey => (mem_markedKeys_iff hkey).symm

theorem stage_raise {arena : Arena κ} {node : Handle} {key : κ} (h : arena.key? node = some key)
    (progress : Progress) (other : κ) :
    (arena.raise node progress).stage other =
      if other = key then (arena.stage key).max progress else arena.stage other := by
  have hfind : (arena.raise node progress).find? other = arena.find? other :=
    find?_congr (fun node => key?_raise ..) other
  have hknown : (arena.key? node).isSome := by rw [h]; rfl
  cases hother : arena.find? other with
  | none =>
    have hne : other ≠ key := by
      rintro rfl
      rw [find?_eq_some_iff.mpr h] at hother
      cases hother
    rw [if_neg hne, stage, stage, hfind, hother]
    rfl
  | some found =>
    have hfound := find?_eq_some_iff.mp hother
    rw [stage, hfind, hother, Option.map_some, Option.getD_some, progress_raise_of_known hknown,
      stage_of_key? h, stage_of_key? hfound]
    by_cases hsame : other = key
    · subst hsame
      rw [if_pos (eq_of_key? hfound h), if_pos rfl]
    · rw [if_neg hsame, if_neg]
      rintro rfl
      exact hsame (Option.some.inj (hfound.symm.trans h))

theorem stage_recordDependencies (arena : Arena κ) (node : Handle) (edges : List Edge) (key : κ) :
    (arena.recordDependencies node edges).2.stage key = arena.stage key := by
  rw [stage, find?_congr (fun other => key?_recordDependencies arena node other edges) key, stage]
  cases arena.find? key with
  | none => rfl
  | some found => exact progress_recordDependencies ..

theorem Grows.stage {old new : Arena κ} (h : old.Grows new) (key : κ) :
    new.stage key = old.stage key := by
  cases hnew : new.find? key with
  | none =>
    cases hold : old.find? key with
    | none => rw [Arena.stage, Arena.stage, hnew, hold]; rfl
    | some node =>
      rw [find?_eq_some_iff.mpr (h.keeps _ _ (find?_eq_some_iff.mp hold))] at hnew
      cases hnew
  | some node =>
    have hkey := find?_eq_some_iff.mp hnew
    rw [stage_of_key? hkey, h.progress]
    cases hold : old.key? node with
    | some key' =>
      obtain rfl := Option.some.inj (hkey.symm.trans (h.keeps _ _ hold))
      rw [stage_of_key? hold]
    | none =>
      -- The key is new, for its node is.
      have hfind : old.find? key = none := by
        cases hfind : old.find? key with
        | none => rfl
        | some other =>
          have hother := find?_eq_some_iff.mp hfind
          rw [eq_of_key? hkey (h.keeps _ _ hother), hother] at hold
          cases hold
      rw [Arena.stage, hfind, progress_eq_stage, hold]
      rfl

/-- The work on every key has come equally far. -/
def Alike (left right : Arena κ) : Prop := ∀ key, left.stage key = right.stage key

namespace Alike

theorem progress (h : left.Alike right) (hsame : Same left right a b) :
    left.progress a = right.progress b := by
  obtain ⟨key, ha, hb⟩ := hsame
  rw [← stage_of_key? ha, h, stage_of_key? hb]

theorem marked_iff (h : left.Alike right) {key : κ} :
    key ∈ left.markedKeys ↔ key ∈ right.markedKeys := by
  rw [mem_markedKeys_iff_stage, mem_markedKeys_iff_stage, h key]

theorem isFresh (h : left.Alike right) (hsame : Same left right a b) :
    left.isFresh a = right.isFresh b := by
  rw [Bool.eq_iff_iff, isFresh_iff, isFresh_iff, h.progress hsame]
  exact and_congr_left fun _ => iff_of_true hsame.isSome_left hsame.isSome_right

/-- The marked nodes have the same keys. -/
theorem perm_marked (h : left.Alike right) :
    (left.marked.map left.key?).Perm (right.marked.map right.key?) := by
  have hnodup (arena : Arena κ) : (arena.marked.map arena.key?).Nodup := by
    refine arena.nodup_marked.map_on fun a ha b _ hkey => ?_
    obtain ⟨key, ha⟩ := Option.isSome_iff_exists.mp (isSome_key?_of_isMarked (mem_marked.mp ha))
    exact eq_of_key? ha (hkey ▸ ha)
  have hmem (arena : Arena κ) (key? : Option κ) : key? ∈ arena.marked.map arena.key? ↔
      ∃ key, key? = some key ∧ (arena.stage key).isMarked := by
    rw [List.mem_map]
    constructor
    · rintro ⟨node, hnode, rfl⟩
      have hmarked := mem_marked.mp hnode
      obtain ⟨key, hkey⟩ := Option.isSome_iff_exists.mp (isSome_key?_of_isMarked hmarked)
      exact ⟨key, hkey, by rwa [stage_of_key? hkey]⟩
    · rintro ⟨key, rfl, hmarked⟩
      obtain ⟨node, hkey, hnode⟩ := mem_markedKeys.mp (mem_markedKeys_iff_stage.mpr hmarked)
      exact ⟨node, mem_marked.mpr hnode, hkey⟩
  rw [List.perm_ext_iff_of_nodup (hnodup left) (hnodup right)]
  intro key?
  rw [hmem, hmem]
  exact exists_congr fun key => by rw [h key]

theorem raise (h : left.Alike right) (hsame : Same left right a b) (progress : Progress) :
    (left.raise a progress).Alike (right.raise b progress) := by
  obtain ⟨key, ha, hb⟩ := hsame
  intro other
  rw [stage_raise ha, stage_raise hb, h key, h other]

theorem recordDependencies (h : left.Alike right) (edges edges' : List Edge) :
    (left.recordDependencies a edges).2.Alike (right.recordDependencies b edges').2 := by
  intro key
  rw [stage_recordDependencies, stage_recordDependencies, h]

theorem grows (h : left.Alike right) (hleft : left.Grows left') (hright : right.Grows right') :
    left'.Alike right' := by
  intro key
  rw [hleft.stage, hright.stage, h]

end Alike

end Arena

end PortableImage.Graph
