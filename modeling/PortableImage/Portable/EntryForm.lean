import PortableImage.Portable.TypeForm
/-!
# Reading methods and fields

What can be read from the entry of a method is the portable token of its definition and, if it is
instantiated, the forms of its arguments; from the entry of a field, its portable token and, unless
it is a reference, the form of its owner.  Types in an entry are written for the module whose code
the entry is part of, also when the entry names another one.
-/

namespace PortableImage

/-- What the entry of a method says of it. -/
structure MethodForm where
  token : PortableToken
  arguments : Option (List TypeForm)

/-- What the entry of a field says of it. -/
structure FieldForm where
  token : PortableToken
  owner : Option TypeForm

namespace Signature

/-- The token of a module behind the row of a method, with its table in the low bit. -/
def ofMethodIndex (module : ModuleIndex) (index : UInt32) : PortableToken where
  module := module
  kind := if index.toNat % 2 = 0 then .method else .memberImport
  row := UInt32.ofNat (index.toNat / 2)

/-- Whether a byte of flags has some flag. -/
def hasFlag (flags flag : UInt8) : Bool := flags &&& flag ≠ 0

/-- The head of an entry at the front of the data: whether it has the special flag, and the module
of its row, which is that of the code if the entry names none. -/
def readEntryHead? (module : ModuleIndex) (specialFlag : UInt8) :
    Bytes → Option ((Bool × ModuleIndex) × Bytes)
  | [] => none
  | flags :: data =>
    if hasFlag flags EntryFlag.otherModule then do
      let (index, data) ← Compressed.read? data
      return ((hasFlag flags specialFlag, ⟨index⟩), data)
    else some ((hasFlag flags specialFlag, module), data)

/-- A number of types at the front of the data, after which the data goes on. -/
def readArguments? (module : ModuleIndex) (data : Bytes) : Option (List TypeForm × Bytes) := do
  let (count, data) ← Compressed.read? data
  readMany? (readForm? module data.length) count.toNat data

/-- The entry of a method at the front of the data, with the data behind it. -/
def readMethod? (module : ModuleIndex) (data : Bytes) : Option (MethodForm × Bytes) := do
  let ((instantiating, home), data) ← readEntryHead? module EntryFlag.instantiating data
  let (index, data) ← Compressed.read? data
  if instantiating then
    let (arguments, data) ← readArguments? module data
    return (⟨ofMethodIndex home index, some arguments⟩, data)
  else return (⟨ofMethodIndex home index, none⟩, data)

/-- The entry of a field at the front of the data, with the data behind it. -/
def readField? (module : ModuleIndex) (data : Bytes) : Option (FieldForm × Bytes) := do
  let ((reference, home), data) ← readEntryHead? module EntryFlag.memberReference data
  if reference then
    let (row, data) ← Compressed.read? data
    return (⟨⟨home, .memberImport, row⟩, none⟩, data)
  else
    let (owner, data) ← readType? module data
    let (row, data) ← Compressed.read? data
    return (⟨⟨home, .field, row⟩, some owner⟩, data)

end Signature

end PortableImage
