import PortableImage.Proofs.Graph.Spread
import Mathlib.Data.List.Induction
/-!
# What an arena remembers

An arena is asked for handles, told to mark and to raise nodes, and given their dependencies, in any
order and with handles it never gave out.  Everything it answers afterwards is read off the list of
these operations: which keys were introduced and in which order, and what each node has been through
since then.
-/

namespace PortableImage.Graph

theorem Progress.le_max_left (a b : Progress) : a ≤ a.max b := by
  rw [Progress.le_iff, Progress.level_max]
  exact Nat.le_max_left ..

theorem Progress.le_foldl_max (first : Progress) (demands : List Progress) :
    first ≤ demands.foldl Progress.max first := by
  induction demands generalizing first with
  | nil => exact Nat.le_refl _
  | cons demand demands ih => exact Progress.le_trans (Progress.le_max_left ..) (ih _)

namespace Arena

variable {κ : Type}

inductive Operation (κ : Type)
  | intern (key : κ)
  | mark (node : Handle)
  | raise (node : Handle) (progress : Progress)
  | record (node : Handle) (edges : List Edge)

inductive Answer
  | handle (node : Handle)
  | verdict (accepted : Bool)
  | silence
  deriving DecidableEq

namespace Operation

/-- The key an operation asks a handle for. -/
def key? : Operation κ → Option κ
  | intern key => some key
  | _ => none

/-- The handle an operation is given. -/
def node? : Operation κ → Option Handle
  | intern _ => none
  | mark node | raise node _ | record node _ => some node

/-- How far an operation wants a node to come. -/
def demand? (node : Handle) : Operation κ → Option Progress
  | mark other => if other = node then some .marked else none
  | raise other progress => if other = node then some progress else none
  | _ => none

/-- The dependencies an operation brings for a node. -/
def edges? (node : Handle) : Operation κ → Option (List Edge)
  | record other edges => if other = node then some edges else none
  | _ => none

/-- The answer to an operation that has no node to work on. -/
def refusal : Operation κ → Answer
  | mark _ | record _ _ => .verdict false
  | _ => .silence

end Operation

/-- The keys that operations ask for, in the order in which each is first asked for. -/
def introduced [DecidableEq κ] (operations : List (Operation κ)) : List κ :=
  (operations.filterMap Operation.key?).eraseDups

/-- A node was created for a key; what has been asked for since then. -/
def Created [DecidableEq κ] (operations : List (Operation κ)) (node : Handle) (key : κ)
    (later : List (Operation κ)) : Prop :=
  ∃ earlier, operations = earlier ++ .intern key :: later ∧ key ∉ introduced earlier ∧
    node = ⟨(introduced earlier).length⟩

variable [DecidableEq κ]

def perform (arena : Arena κ) : Operation κ → Answer × Arena κ
  | .intern key => (.handle (arena.intern key).1, (arena.intern key).2)
  | .mark node => (.verdict (arena.markFresh node).1, (arena.markFresh node).2)
  | .raise node progress => (.silence, arena.raise node progress)
  | .record node edges =>
    (.verdict (arena.recordDependencies node edges).1, (arena.recordDependencies node edges).2)

def performEach (arena : Arena κ) (operations : List (Operation κ)) : Arena κ :=
  operations.foldl (fun arena operation => (arena.perform operation).2) arena

/-- The arena that was empty before some operations. -/
def after (operations : List (Operation κ)) : Arena κ := performEach ∅ operations

theorem performEach_cons (arena : Arena κ) (operation : Operation κ)
    (operations : List (Operation κ)) :
    arena.performEach (operation :: operations) =
      (arena.perform operation).2.performEach operations :=
  rfl

theorem performEach_append (arena : Arena κ) (first second : List (Operation κ)) :
    arena.performEach (first ++ second) = (arena.performEach first).performEach second :=
  List.foldl_append

theorem after_append (first second : List (Operation κ)) :
    after (first ++ second) = (after first).performEach second :=
  performEach_append ..

theorem after_concat (operations : List (Operation κ)) (operation : Operation κ) :
    after (operations ++ [operation]) = ((after operations).perform operation).2 :=
  after_append ..

/-! ## The order of the keys -/

section Keys

def keys (arena : Arena κ) : List κ := arena.nodes.map Node.key

omit [DecidableEq κ] in
theorem key?_eq_getElem?_keys (arena : Arena κ) (node : Handle) :
    arena.key? node = arena.keys[node.index]? := by
  simp [key?, get?, keys]

omit [DecidableEq κ] in
theorem size_eq_length_keys (arena : Arena κ) : arena.size = arena.keys.length := by
  simp [size, keys]

omit [DecidableEq κ] in
theorem keys_modify (arena : Arena κ) (node : Handle) (f : Node κ → Node κ)
    (keeps : ∀ node, (f node).key = node.key) : (arena.modify node f keeps).keys = arena.keys :=
  map_key_modify _ _ _ keeps

theorem mem_keys_of_find? {arena : Arena κ} {key : κ} {node : Handle}
    (h : arena.find? key = some node) : key ∈ arena.keys := by
  rw [find?_eq_some_iff, key?_eq_getElem?_keys] at h
  exact List.mem_of_getElem? h

theorem find?_eq_none_of_not_mem {arena : Arena κ} {key : κ} (h : key ∉ arena.keys) :
    arena.find? key = none := by
  cases hfind : arena.find? key with
  | none => rfl
  | some node => exact absurd (mem_keys_of_find? hfind) h

/-- The keys after one more operation: a new key comes last. -/
def enlist (keys : List κ) (operation : Operation κ) : List κ :=
  match operation.key? with
  | some key => if key ∈ keys then keys else keys ++ [key]
  | none => keys

theorem eraseDups_concat (keys : List κ) (key : κ) :
    (keys ++ [key]).eraseDups =
      if key ∈ keys.eraseDups then keys.eraseDups else keys.eraseDups ++ [key] := by
  rw [List.eraseDups_append]
  by_cases h : key ∈ keys
  · simp [List.removeAll, h]
  · simp [List.removeAll, List.eraseDups_cons, h]

theorem introduced_concat (operations : List (Operation κ)) (operation : Operation κ) :
    introduced (operations ++ [operation]) = enlist (introduced operations) operation := by
  unfold introduced enlist
  rw [List.filterMap_append]
  cases hkey : operation.key? with
  | none => simp [hkey]
  | some key => simp only [List.filterMap_cons, List.filterMap_nil, hkey, eraseDups_concat]

theorem keys_perform (arena : Arena κ) (operation : Operation κ) :
    (arena.perform operation).2.keys = enlist arena.keys operation := by
  cases operation with
  | intern key =>
    simp only [perform, intern, enlist, Operation.key?]
    split
    · rename_i node hfind
      rw [if_pos (mem_keys_of_find? hfind)]
    · rename_i hfind
      have hfresh : key ∉ arena.keys := not_mem_of_find?_eq_none hfind
      rw [if_neg hfresh]
      simp [push, keys]
  | mark node | raise node progress | record node edges =>
    simp [perform, markFresh, raise, recordDependencies, keys_modify, enlist, Operation.key?]

theorem keys_after (operations : List (Operation κ)) :
    (after operations).keys = introduced operations := by
  induction operations using List.reverseRecOn with
  | nil => rfl
  | append_singleton operations operation ih =>
    rw [after_concat, keys_perform, introduced_concat, ih]

theorem key?_after (operations : List (Operation κ)) (node : Handle) :
    (after operations).key? node = (introduced operations)[node.index]? := by
  rw [key?_eq_getElem?_keys, keys_after]

/-- Each key that was introduced came to be at one place of the history. -/
theorem exists_created {operations : List (Operation κ)} {node : Handle} {key : κ}
    (h : (introduced operations)[node.index]? = some key) :
    ∃ later, Created operations node key later := by
  induction operations using List.reverseRecOn with
  | nil => simp [introduced] at h
  | append_singleton operations operation ih =>
    have hearlier (h : (introduced operations)[node.index]? = some key) :
        ∃ later, Created (operations ++ [operation]) node key later := by
      obtain ⟨later, earlier, rfl, hfresh⟩ := ih h
      exact ⟨later ++ [operation], earlier, by simp, hfresh⟩
    rw [introduced_concat] at h
    cases operation with
    | intern asked =>
      simp only [enlist, Operation.key?] at h
      split at h
      · exact hearlier h
      · rename_i hfresh
        rw [List.getElem?_append] at h
        split at h
        · exact hearlier h
        · rw [List.getElem?_singleton] at h
          split at h
          · obtain rfl := Option.some.inj h
            have hlast : node.index = (introduced operations).length := by omega
            exact ⟨[], operations, rfl, hfresh, by rw [← hlast]⟩
          · cases h
    | mark _ => exact hearlier h
    | raise _ _ => exact hearlier h
    | record _ _ => exact hearlier h

end Keys

/-! ## The life of one node -/

section Node

variable {arena : Arena κ} {node : Handle}

theorem key?_perform {key : κ} (h : arena.key? node = some key) (operation : Operation κ) :
    (arena.perform operation).2.key? node = some key := by
  cases operation with
  | intern asked => exact key?_intern_of_key? h asked
  | mark other => exact (key?_raise ..).trans h
  | raise other progress => exact (key?_raise ..).trans h
  | record other edges => exact (key?_recordDependencies ..).trans h

theorem key?_performEach {key : κ} (h : arena.key? node = some key)
    (operations : List (Operation κ)) : (arena.performEach operations).key? node = some key := by
  induction operations generalizing arena with
  | nil => exact h
  | cons operation operations ih => exact ih (key?_perform h operation)

/-- A node comes as far as an operation wants it to, and never back. -/
theorem progress_perform (hknown : (arena.key? node).isSome) (operation : Operation κ) :
    (arena.perform operation).2.progress node =
      (operation.demand? node).elim (arena.progress node) (arena.progress node).max := by
  have hraise (other : Handle) (progress : Progress) :
      (arena.raise other progress).progress node =
        if other = node then (arena.progress node).max progress else arena.progress node := by
    rw [progress_raise]
    simp [isSome_key?.mp hknown]
  cases operation with
  | intern key => exact progress_intern ..
  | mark other =>
    refine (hraise other .marked).trans ?_
    by_cases h : other = node <;> simp [Operation.demand?, h]
  | raise other progress =>
    refine (hraise other progress).trans ?_
    by_cases h : other = node <;> simp [Operation.demand?, h]
  | record other edges => exact progress_recordDependencies ..

theorem progress_performEach (hknown : (arena.key? node).isSome)
    (operations : List (Operation κ)) :
    (arena.performEach operations).progress node =
      (operations.filterMap (Operation.demand? node)).foldl Progress.max (arena.progress node) := by
  induction operations generalizing arena with
  | nil => rfl
  | cons operation operations ih =>
    obtain ⟨key, hkey⟩ := Option.isSome_iff_exists.mp hknown
    have hlater := ih (Option.isSome_of_eq_some (key?_perform hkey operation))
    rw [progress_perform hknown] at hlater
    rw [performEach_cons, hlater, List.filterMap_cons]
    cases operation.demand? node <;> rfl

/-- The dependencies that are recorded first stay. -/
theorem recorded?_perform (hknown : (arena.key? node).isSome) (operation : Operation κ) :
    (arena.perform operation).2.recorded? node =
      (arena.recorded? node).or (operation.edges? node) := by
  cases operation with
  | intern key =>
    refine ((Grows.intern arena key).recorded? node).trans ?_
    simp [Operation.edges?]
  | mark other =>
    refine (recorded?_raise arena other node .marked).trans ?_
    simp [Operation.edges?]
  | raise other progress =>
    refine (recorded?_raise arena other node progress).trans ?_
    simp [Operation.edges?]
  | record other edges =>
    by_cases h : other = node
    · subst h
      refine (recorded?_recordDependencies hknown other edges).trans ?_
      cases arena.recorded? other <;> simp [Operation.edges?]
    · simp [perform, recorded?, recordDependencies, get?_modify, Operation.edges?, h]

theorem recorded?_performEach (hknown : (arena.key? node).isSome)
    (operations : List (Operation κ)) :
    (arena.performEach operations).recorded? node =
      (arena.recorded? node).or (operations.findSome? (Operation.edges? node)) := by
  induction operations generalizing arena with
  | nil => simp [performEach]
  | cons operation operations ih =>
    obtain ⟨key, hkey⟩ := Option.isSome_iff_exists.mp hknown
    have hlater := ih (Option.isSome_of_eq_some (key?_perform hkey operation))
    rw [recorded?_perform hknown] at hlater
    rw [performEach_cons, hlater, List.findSome?_cons]
    cases operation.edges? node <;> cases arena.recorded? node <;> rfl

end Node

/-! ## A whole history -/

section Created

variable {operations : List (Operation κ)} {node : Handle} {key : κ} {later : List (Operation κ)}

/-- A created node starts with nothing decided about it. -/
theorem Created.start (h : Created operations node key later) :
    ∃ arena : Arena κ, after operations = arena.performEach later ∧
      arena.key? node = some key ∧ arena.progress node = .unmarked ∧
      arena.recorded? node = none := by
  obtain ⟨earlier, rfl, hfresh, rfl⟩ := h
  rw [← keys_after] at hfresh ⊢
  have hnew : ((after earlier).intern key).2.get? ⟨(after earlier).keys.length⟩ = some { key } := by
    rw [get?_intern, if_pos ⟨find?_eq_none_of_not_mem hfresh, (size_eq_length_keys _).symm⟩]
  refine ⟨((after earlier).intern key).2, after_append .., ?_, ?_, ?_⟩
  · rw [key?, hnew]
    rfl
  · rw [Arena.progress, hnew]
  · rw [recorded?, hnew]
    rfl

theorem Created.progress (h : Created operations node key later) :
    (after operations).progress node =
      (later.filterMap (Operation.demand? node)).foldl Progress.max .unmarked := by
  obtain ⟨arena, hafter, hkey, hprogress, -⟩ := h.start
  rw [hafter, progress_performEach (Option.isSome_of_eq_some hkey), hprogress]

theorem Created.recorded? (h : Created operations node key later) :
    (after operations).recorded? node = later.findSome? (Operation.edges? node) := by
  obtain ⟨arena, hafter, hkey, -, hrecorded⟩ := h.start
  rw [hafter, recorded?_performEach (Option.isSome_of_eq_some hkey), hrecorded, Option.none_or]

end Created

section Unknown

variable {arena : Arena κ} {node : Handle}

omit [DecidableEq κ] in
theorem modify_of_unknown (hunknown : arena.key? node = none) (f : Node κ → Node κ)
    (keeps : ∀ node, (f node).key = node.key) : arena.modify node f keeps = arena := by
  rw [key?_eq_getElem?_keys, List.getElem?_eq_none_iff, keys, List.length_map] at hunknown
  cases arena
  simp only [modify, mk.injEq]
  exact List.modify_eq_self hunknown

theorem perform_of_unknown (hunknown : arena.key? node = none) {operation : Operation κ}
    (hnode : operation.node? = some node) :
    arena.perform operation = (operation.refusal, arena) := by
  have hget : arena.get? node = none := Option.map_eq_none_iff.mp hunknown
  cases operation with
  | intern key => cases hnode
  | mark other =>
    obtain rfl := Option.some.inj hnode
    simp [perform, markFresh, raise, isFresh, modify_of_unknown hunknown, hget, Operation.refusal]
  | raise other progress =>
    obtain rfl := Option.some.inj hnode
    simp [perform, raise, modify_of_unknown hunknown, Operation.refusal]
  | record other edges =>
    obtain rfl := Option.some.inj hnode
    simp [perform, recordDependencies, modify_of_unknown hunknown, hget, Operation.refusal]

end Unknown

theorem progress_le_performEach (arena : Arena κ) (node : Handle)
    (operations : List (Operation κ)) :
    arena.progress node ≤ (arena.performEach operations).progress node := by
  by_cases hknown : (arena.key? node).isSome
  · rw [progress_performEach hknown]
    exact Progress.le_foldl_max ..
  · have hunmarked : arena.progress node = .unmarked := by
      by_contra hprogress
      exact hknown (isSome_key?_of_progress hprogress)
    rw [hunmarked]
    exact Progress.unmarked_le _

omit [DecidableEq κ] in
theorem pairwise_marked (arena : Arena κ) :
    arena.marked.Pairwise fun a b => a.index < b.index := by
  apply List.Pairwise.filter
  rw [handles, List.pairwise_map]
  exact List.pairwise_lt_range

/-- All an arena knows after a history is what the operations say, and it keeps knowing it. -/
structure Remembers (operations : List (Operation κ)) : Prop where
  /-- The handles count the distinct keys in the order in which they were introduced. -/
  handles : (after operations).handles = (List.range (introduced operations).length).map Handle.mk
  key? : ∀ node, (after operations).key? node = (introduced operations)[node.index]?
  find? : ∀ key node,
    (after operations).find? key = some node ↔ (after operations).key? node = some key
  interns : ∀ key, ∃ node, ((after operations).perform (.intern key)).1 = .handle node ∧
    ∀ later, (after (operations ++ .intern key :: later)).key? node = some key
  /-- Neither the key of a handle nor the handle of a key ever changes. -/
  keeps : ∀ later node key, (after operations).key? node = some key →
    (after (operations ++ later)).key? node = some key ∧
      (after (operations ++ later)).find? key = some node
  created : ∀ node key, (after operations).key? node = some key →
    ∃ later, Created operations node key later
  /-- A node has come as far as the most that was asked for since it exists. -/
  progress : ∀ node key later, Created operations node key later →
    (after operations).progress node =
      (later.filterMap (Operation.demand? node)).foldl Progress.max .unmarked
  forward : ∀ later node,
    (after operations).progress node ≤ (after (operations ++ later)).progress node
  /-- Marking succeeds where it finds a node that is unmarked. -/
  marks : ∀ node, ((after operations).perform (.mark node)).1 =
    .verdict (((after operations).key? node).isSome ∧ (after operations).progress node = .unmarked)
  /-- The dependencies are those that were given first. -/
  dependencies : ∀ node key later, Created operations node key later →
    (after operations).dependencies node = (later.findSome? (Operation.edges? node)).getD []
  unknown : ∀ node, (after operations).key? node = none →
    (after operations).progress node = .unmarked ∧ (after operations).dependencies node = [] ∧
      ∀ operation : Operation κ, operation.node? = some node →
        (after operations).perform operation = (operation.refusal, after operations)
  ascending : (after operations).marked.Pairwise fun a b => a.index < b.index
  marked : ∀ node, node ∈ (after operations).marked ↔ .marked ≤ (after operations).progress node

theorem remembers_after (operations : List (Operation κ)) : Remembers operations where
  handles := by rw [Arena.handles, size_eq_length_keys, keys_after]
  key? := key?_after operations
  find? _ _ := find?_eq_some_iff
  interns key := by
    refine ⟨((after operations).intern key).1, rfl, fun later => ?_⟩
    rw [after_append, performEach_cons]
    exact key?_performEach (key?_intern ..) later
  keeps later node key h := by
    have hkey : (after (operations ++ later)).key? node = some key := by
      rw [after_append]
      exact key?_performEach h later
    exact ⟨hkey, find?_eq_some_iff.mpr hkey⟩
  created node key h := exists_created (by rw [← key?_after, h])
  progress _ _ _ h := h.progress
  forward later node := by
    rw [after_append]
    exact progress_le_performEach ..
  marks node := by
    apply congrArg Answer.verdict
    rw [Bool.eq_iff_iff, decide_eq_true_iff]
    exact isFresh_iff
  dependencies node key later h := congrArg (Option.getD · []) h.recorded?
  unknown node h := by
    have hget : (after operations).get? node = none := Option.map_eq_none_iff.mp h
    refine ⟨?_, ?_, fun operation hnode => perform_of_unknown h hnode⟩
    · rw [Arena.progress, hget]
    · rw [Arena.dependencies, hget]
      rfl
  ascending := pairwise_marked _
  marked node := mem_marked.trans Progress.isMarked_iff

/-- A node that is raised before it exists is not marked by that. -/
example :
    let arena := after [.intern 3, .raise ⟨1⟩ .emitted, .intern 5, .intern 3, .mark ⟨0⟩]
    (arena.handles, arena.marked, arena.find? 5) = ([⟨0⟩, ⟨1⟩], [⟨0⟩], some ⟨1⟩) := by decide

end Arena

end PortableImage.Graph
