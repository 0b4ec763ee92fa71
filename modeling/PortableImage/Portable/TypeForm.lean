import PortableImage.Portable.Signature
/-!
# Reading types

A signature does not name entities.  What can be read from the signature of a type is its *form*:
the portable tokens at the leaves, which of them are value types, and how they are put together.  A
leaf that names no module belongs to the module whose code the signature is part of.
-/

namespace PortableImage

/-- What the signature of a type says of it. -/
inductive TypeForm
  | plain (token : PortableToken) (isValueType : Bool)
  | instantiated (definition : TypeForm) (arguments : List TypeForm)

namespace Signature

/-- The token of a module behind the row of a type, with its table in the low two bits. -/
def ofTypeIndex? (module : ModuleIndex) (index : UInt32) : Option PortableToken :=
  let row := UInt32.ofNat (index.toNat / 4)
  match index.toNat % 4 with
  | 0 => some ⟨module, .typeLayout, row⟩
  | 1 => some ⟨module, .typeImport, row⟩
  | 2 => some ⟨module, .typeSpec, row⟩
  | _ => none

/-- A number of items at the front of the data, with the data behind them. -/
def readMany? {α : Type} (read? : Bytes → Option (α × Bytes)) :
    Nat → Bytes → Option (List α × Bytes)
  | 0, data => some ([], data)
  | count + 1, data => do
    let (item, data) ← read? data
    let (items, data) ← readMany? read? count data
    return (item :: items, data)

/-- A type of a module that is not instantiated, at the front of the data. -/
def readPlain? (module : ModuleIndex) : Bytes → Option (TypeForm × Bytes)
  | [] => none
  | mark :: data =>
    if mark = Mark.valueType ∨ mark = Mark.reference then do
      let (index, data) ← Compressed.read? data
      let token ← ofTypeIndex? module index
      return (.plain token (mark = Mark.valueType), data)
    else none

/-- A type at the front of the data, if it is put together in no more than a number of levels. -/
def readForm? (module : ModuleIndex) : Nat → Bytes → Option (TypeForm × Bytes)
  | 0, _ => none
  | _ + 1, [] => none
  | levels + 1, mark :: data =>
    if mark = Mark.instantiation then do
      let (definition, data) ← readForm? module levels data
      let (count, data) ← Compressed.read? data
      let (arguments, data) ← readMany? (readForm? module levels) count.toNat data
      return (.instantiated definition arguments, data)
    else if mark = Mark.module then do
      let (index, data) ← Compressed.read? data
      readPlain? ⟨index⟩ data
    else readPlain? module (mark :: data)

/-- The type at the front of the data, as code of a module refers to it, with the data behind it.
Every level takes a byte, so there are no more levels than bytes. -/
def readType? (module : ModuleIndex) (data : Bytes) : Option (TypeForm × Bytes) :=
  readForm? module data.length data

end Signature

end PortableImage
