import PortableImage.Graph.Progress
/-!
# The arena of nodes

An arena interns keys: a key gets the next handle when it is first asked for and keeps it.  Handles
that were never given out are harmless: they count as unmarked and nothing can be changed through
them.
-/

namespace PortableImage.Graph

/-- One node needs another, for a stated reason. -/
structure Edge where
  source : Handle
  target : Handle
  reason : String
  deriving DecidableEq

/-- What an arena keeps for a key. -/
structure Node (κ : Type) where
  key : κ
  progress : Progress := .unmarked
  /-- The edges to what the node always needs, once they are known. -/
  dependencies : Option (List Edge) := none

/-- The nodes in the order of their creation, no key twice. -/
structure Arena (κ : Type) where
  nodes : List (Node κ)
  distinct : (nodes.map Node.key).Nodup

namespace Arena

variable {κ : Type}

def empty : Arena κ := ⟨[], List.nodup_nil⟩

instance : EmptyCollection (Arena κ) := ⟨empty⟩

instance : Inhabited (Arena κ) := ⟨empty⟩

def size (arena : Arena κ) : Nat := arena.nodes.length

/-- Every handle, in the order of creation. -/
def handles (arena : Arena κ) : List Handle := (List.range arena.size).map Handle.mk

def get? (arena : Arena κ) (node : Handle) : Option (Node κ) := arena.nodes[node.index]?

def key? (arena : Arena κ) (node : Handle) : Option κ := (arena.get? node).map Node.key

def progress (arena : Arena κ) (node : Handle) : Progress :=
  match arena.get? node with
  | some found => found.progress
  | none => .unmarked

def dependencies (arena : Arena κ) (node : Handle) : List Edge :=
  ((arena.get? node).bind Node.dependencies).getD []

/-- Whether a handle stands for a node nothing has been decided about. -/
def isFresh (arena : Arena κ) (node : Handle) : Bool :=
  (arena.get? node).any fun found => found.progress = .unmarked

/-- The handles of the needed nodes, in the order of creation. -/
def marked (arena : Arena κ) : List Handle :=
  arena.handles.filter fun node => (arena.progress node).isMarked

theorem map_key_modify (nodes : List (Node κ)) (index : Nat) (f : Node κ → Node κ)
    (keeps : ∀ node, (f node).key = node.key) :
    (nodes.modify index f).map Node.key = nodes.map Node.key := by
  induction nodes generalizing index with
  | nil => simp
  | cons node nodes ih => cases index <;> simp [keeps, ih]

/-- The arena in which the node behind a handle is changed, but not its key. -/
def modify (arena : Arena κ) (node : Handle) (f : Node κ → Node κ)
    (keeps : ∀ node, (f node).key = node.key) : Arena κ where
  nodes := arena.nodes.modify node.index f
  distinct := by
    rw [map_key_modify _ _ _ keeps]
    exact arena.distinct

/-- The arena in which the node behind a handle has come at least so far. -/
def raise (arena : Arena κ) (node : Handle) (progress : Progress) : Arena κ :=
  arena.modify node (fun found => { found with progress := found.progress.max progress })
    fun _ => rfl

/-- Marks a node; the answer says whether this is what marked it. -/
def markFresh (arena : Arena κ) (node : Handle) : Bool × Arena κ :=
  (arena.isFresh node, arena.raise node .marked)

/-- Records the dependencies of a node once; the answer says whether they were recorded. -/
def recordDependencies (arena : Arena κ) (node : Handle) (edges : List Edge) : Bool × Arena κ :=
  ((arena.get? node).any fun found => found.dependencies.isNone,
    arena.modify node (fun found =>
      { found with dependencies := some (found.dependencies.getD edges) }) fun _ => rfl)

theorem get?_modify (arena : Arena κ) (node other : Handle) (f : Node κ → Node κ)
    (keeps : ∀ node, (f node).key = node.key) :
    (arena.modify node f keeps).get? other =
      if node = other then (arena.get? other).map f else arena.get? other := by
  have hindex : node = other ↔ node.index = other.index := by
    cases node
    cases other
    simp
  simp only [get?, modify, List.getElem?_modify, hindex]
  split <;> simp

@[simp] theorem size_modify (arena : Arena κ) (node : Handle) (f : Node κ → Node κ)
    (keeps : ∀ node, (f node).key = node.key) : (arena.modify node f keeps).size = arena.size := by
  simp [size, modify]

variable [DecidableEq κ]

def find? (arena : Arena κ) (key : κ) : Option Handle :=
  (arena.nodes.findIdx? fun node => node.key = key).map Handle.mk

theorem not_mem_of_find?_eq_none {arena : Arena κ} {key : κ} (h : arena.find? key = none) :
    key ∉ arena.nodes.map Node.key := by
  simp only [find?, Option.map_eq_none_iff, List.findIdx?_eq_none_iff, decide_eq_false_iff_not] at h
  simpa using h

/-- The arena with a node for a new key. -/
def push (arena : Arena κ) (key : κ) (fresh : arena.find? key = none) : Arena κ where
  nodes := arena.nodes ++ [{ key }]
  distinct := by
    rw [List.map_append, List.map_singleton]
    refine List.nodup_append.mpr ⟨arena.distinct, by simp, ?_⟩
    intro a ha b hb hab
    rw [hab, List.mem_singleton.mp hb] at ha
    exact not_mem_of_find?_eq_none fresh ha

/-- The handle of a key, and the arena in which it has one. -/
def intern (arena : Arena κ) (key : κ) : Handle × Arena κ :=
  match h : arena.find? key with
  | some node => (node, arena)
  | none => (⟨arena.size⟩, arena.push key h)

/-- The handles of keys, and the arena in which they have them. -/
def internEach (arena : Arena κ) : List κ → List Handle × Arena κ
  | [] => ([], arena)
  | key :: keys =>
    let first := arena.intern key
    let later := internEach first.2 keys
    (first.1 :: later.1, later.2)

end Arena

end PortableImage.Graph
