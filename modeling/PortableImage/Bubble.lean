import PortableImage.Entity
/-!
# Bubbles

The bubble is the set of modules compiled and serviced together.  Code may rely on the inside of its
own bubble only.  In a closed bubble no module outside can add types that derive from its types.
-/

namespace PortableImage

/-- The modules compiled together. -/
structure Bubble where
  members : List ModuleIndex
  closed : Bool

namespace Bubble

def hasModule (bubble : Bubble) (module : ModuleIndex) : Bool :=
  bubble.members.contains module

/-- Whether an entity is defined in the bubble. -/
def contains (bubble : Bubble) (entity : Entity) : Bool := bubble.hasModule entity.module

/-- The members, each once, in ascending order. -/
def modules (bubble : Bubble) : List ModuleIndex := ascending bubble.members.eraseDups

end Bubble

end PortableImage
