import PortableImage.Entity
/-!
# Roots

A root is something the host wants in the image.  All else that gets in is needed by a root.
-/

namespace PortableImage

/-- What the host asks for. -/
inductive Root
  | method (entity : Entity)
  /-- One type with its table of virtual methods. -/
  | type (entity : Entity)
  /-- The code of every method of a module that can be compiled on its own. -/
  | allMethods (module : ModuleIndex)
  deriving DecidableEq

namespace Root

def moduleDetail (module : ModuleIndex) : String :=
  "ModuleIndex(" ++ toString module.value.toNat ++ ")"

def entityDetail (entity : Entity) : String :=
  "EntityId \x7b module: " ++ moduleDetail entity.module ++ ", token: " ++ entity.token.detail ++
    " \x7d"

/-- The long form of a root, as the report of a bad root shows it. -/
def detail : Root → String
  | method entity => "Method(" ++ entityDetail entity ++ ")"
  | type entity => "Type(" ++ entityDetail entity ++ ")"
  | allMethods module => "AllMethods(" ++ moduleDetail module ++ ")"

end Root

end PortableImage
