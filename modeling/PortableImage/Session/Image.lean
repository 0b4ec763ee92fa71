import PortableImage.Artifact.Relocation
import PortableImage.Graph.Marking
import PortableImage.Portable.Table
/-!
# Images

A finished image: its artifacts in the order of their keys, the table of its portable tokens, and
what the analysis counted.
-/

namespace PortableImage

structure Image where
  artifacts : List EmittedArtifact
  tokens : TokenTable
  counts : Graph.Counts
  deriving DecidableEq

namespace Image

/-- The artifact with a key, looked up in the order of keys. -/
def find? (image : Image) (key : ArtifactKey) : Option EmittedArtifact :=
  bisect? key EmittedArtifact.key image.artifacts

def contains (image : Image) (key : ArtifactKey) : Bool := (image.find? key).isSome

end Image

/-- What comes of asking a session for its image. -/
inductive Emission
  | completed (image : Image)
  | cancelled
  /-- The analysis was cut off by its bound, which a session never lets happen. -/
  | exhausted

end PortableImage
