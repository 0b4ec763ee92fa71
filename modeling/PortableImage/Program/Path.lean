/-!
# Module paths

Two spellings of a path name the same module if they have the same components: repeated and
trailing slashes and inner dots do not count, while a dot in front, two dots and the case of
letters do.
-/

namespace PortableImage

/-- A path as the list of its components. -/
structure ModulePath where
  rooted : Bool
  components : List String
  deriving DecidableEq

namespace ModulePath

/-- Whether a piece between two slashes counts as a component.  Only the very first piece of a path
that is not rooted may be a dot. -/
def counts (piece : String) : Bool := piece ≠ "" && piece ≠ "."

def ofString (text : String) : ModulePath :=
  match text.splitOn "/" with
  | [] => ⟨false, []⟩
  | "" :: pieces => ⟨pieces ≠ [], pieces.filter counts⟩
  | first :: pieces => ⟨false, first :: pieces.filter counts⟩

end ModulePath

end PortableImage
