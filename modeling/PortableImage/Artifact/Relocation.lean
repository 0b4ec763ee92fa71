import PortableImage.Artifact.Key
import PortableImage.Fault
import PortableImage.Graph.Expansion
/-!
# Relocations

A relocation is a place in the data of an artifact that the loader fills in.  While the image is
being built it points to a node of the graph or to a portable token; in the finished image the node
is replaced by its key.
-/

namespace PortableImage

open PortableImage.Graph (Handle Dependency)

/-- How a place is filled in. -/
inductive Relocation.Kind
  | absolute64
  | relative32
  deriving DecidableEq

namespace Relocation.Kind

/-- The number of bytes the loader writes. -/
def size : Relocation.Kind → Nat
  | absolute64 => 8
  | relative32 => 4

def name : Relocation.Kind → String
  | absolute64 => "Absolute64"
  | relative32 => "Relative32"

end Relocation.Kind

/-- What a place is filled in with, while the image is being built. -/
inductive Relocation.Target
  | node (node : Handle)
  | token (token : PortableToken)
  deriving DecidableEq

/-- A place to be filled in. -/
structure Relocation where
  offset : UInt32
  kind : Relocation.Kind
  target : Relocation.Target
  deriving DecidableEq

namespace Relocation

def stop (relocation : Relocation) : Nat := relocation.offset.toNat + relocation.kind.size

end Relocation

/-- Data with places to be filled in. -/
structure Layout where
  data : Bytes := []
  relocations : List Relocation := []
  deriving DecidableEq

namespace Layout

def word (layout : Layout) (value : UInt32) : Layout :=
  { layout with data := layout.data ++ Bytes.ofWord value }

/-- Appends a count, which has to fit in a word. -/
def count (layout : Layout) (value : Nat) : Except Fault Layout :=
  if value < 0x100000000 then .ok (layout.word (UInt32.ofNat value))
  else .error (.malformed (.tooMany value))

/-- Appends zeros, and a relocation over them if there is something to fill in. -/
def place (layout : Layout) (kind : Relocation.Kind) (target : Option Relocation.Target) :
    Layout where
  data := layout.data ++ Bytes.zeros kind.size
  relocations := match target with
    | some target => layout.relocations ++ [⟨UInt32.ofNat layout.data.length, kind, target⟩]
    | none => layout.relocations

/-- Appends the eight bytes of a pointer.  The place of a relocation has to have a word for an
offset. -/
def slot (layout : Layout) (target : Option Relocation.Target) : Except Fault Layout :=
  if target.isSome && 0x100000000 ≤ layout.data.length then .error (.malformed .dataTooLong)
  else .ok (layout.place .absolute64 target)

end Layout

/-- The code of a method with what it needs. -/
structure CompiledMethod extends Layout where
  dependencies : List Dependency
  deriving DecidableEq

/-- What a place is filled in with, in a finished image. -/
inductive Symbol
  | artifact (key : ArtifactKey)
  | token (token : PortableToken)
  deriving DecidableEq

/-- A place to be filled in, in a finished image. -/
structure PlacedRelocation where
  offset : UInt32
  kind : Relocation.Kind
  symbol : Symbol
  deriving DecidableEq

/-- An artifact as it stands in a finished image. -/
structure EmittedArtifact where
  key : ArtifactKey
  data : Bytes
  relocations : List PlacedRelocation
  deriving DecidableEq

end PortableImage
