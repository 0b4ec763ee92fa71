/-!
# Handles and progress

A graph names its nodes by handles, numbered from zero in the order of creation.  The work on a node
only ever moves forward: first the node is found to be needed, then what it needs is found out, then
its bytes are written.
-/

namespace PortableImage.Graph

structure Handle where
  index : Nat
  deriving DecidableEq

namespace Handle

def render (node : Handle) : String := "n" ++ toString node.index

instance : ToString Handle := ⟨render⟩

def detail (node : Handle) : String := "NodeId(" ++ toString node.index ++ ")"

end Handle

inductive Progress
  | unmarked
  | marked
  | expanded
  | emitted
  deriving DecidableEq

namespace Progress

def level : Progress → Nat
  | unmarked => 0
  | marked => 1
  | expanded => 2
  | emitted => 3

instance : LE Progress := ⟨fun a b => a.level ≤ b.level⟩

instance : LT Progress := ⟨fun a b => a.level < b.level⟩

instance (a b : Progress) : Decidable (a ≤ b) := inferInstanceAs (Decidable (a.level ≤ b.level))

instance (a b : Progress) : Decidable (a < b) := inferInstanceAs (Decidable (a.level < b.level))

theorem le_iff {a b : Progress} : a ≤ b ↔ a.level ≤ b.level := Iff.rfl

theorem lt_iff {a b : Progress} : a < b ↔ a.level < b.level := Iff.rfl

theorem level_injective {a b : Progress} (h : a.level = b.level) : a = b := by
  cases a <;> cases b <;> first | rfl | cases h

def max (a b : Progress) : Progress := if a ≤ b then b else a

theorem level_max (a b : Progress) : (max a b).level = Nat.max a.level b.level := by
  cases a <;> cases b <;> rfl

/-- The progress after a number of steps; there are no more than three. -/
def ofLevel : Nat → Progress
  | 0 => unmarked
  | 1 => marked
  | 2 => expanded
  | _ => emitted

def isMarked : Progress → Bool
  | unmarked => false
  | _ => true

theorem isMarked_iff {progress : Progress} : progress.isMarked ↔ marked ≤ progress := by
  cases progress <;> decide

def name : Progress → String
  | unmarked => "Unmarked"
  | marked => "Marked"
  | expanded => "Expanded"
  | emitted => "Emitted"

def all : List Progress := [unmarked, marked, expanded, emitted]

end Progress

end PortableImage.Graph
