import PortableImage.Bytes
import PortableImage.Entity
/-!
# Descriptions

What a program says about its modules, types, methods and fields.  Flags are words of which some
bits have a meaning here; the others are kept and shown.
-/

namespace PortableImage

def hasBits (word mask : UInt32) : Bool := word &&& mask == mask

structure ModuleDescription where
  name : String
  path : String
  deriving DecidableEq

/-- A generic definition applied to arguments. -/
structure Instantiation where
  definition : Entity
  arguments : List Entity
  deriving DecidableEq

namespace TypeFlags

/-- No type derives from the type. -/
def final : UInt32 := 1

/-- Values of the type are stored in place. -/
def valueType : UInt32 := 8

end TypeFlags

structure TypeDescription where
  id : Entity
  name : String
  flags : UInt32 := 0
  base : Option Entity := none
  genericParameters : UInt16 := 0
  instantiation : Option Instantiation := none
  deriving DecidableEq

namespace TypeDescription

/-- Whether no type derives from the type. -/
def isSealed (type : TypeDescription) : Bool := hasBits type.flags TypeFlags.final

/-- Whether values of the type are stored in place. -/
def isValueType (type : TypeDescription) : Bool := hasBits type.flags TypeFlags.valueType

/-- Whether the type still has parameters to be filled in. -/
def isOpen (type : TypeDescription) : Bool :=
  type.genericParameters.toNat > 0 && type.instantiation.isNone

end TypeDescription

namespace MethodFlags

/-- Calls go through a slot. -/
def dispatched : UInt32 := 2

/-- The method has no code of its own. -/
def abstract : UInt32 := 4

/-- The method is not overridden. -/
def final : UInt32 := 8

end MethodFlags

/-- The body of a method as its module stores it. -/
structure MethodBody where
  code : Bytes
  maxStack : UInt16 := 8
  locals : Option Token := none
  deriving DecidableEq

structure MethodDescription where
  id : Entity
  owner : Entity
  name : String
  flags : UInt32 := 0
  overrides : Option Entity := none
  body : Option MethodBody := none
  genericParameters : UInt16 := 0
  instantiation : Option Instantiation := none
  deriving DecidableEq

namespace MethodDescription

/-- Whether calls go through a slot. -/
def isVirtual (method : MethodDescription) : Bool := hasBits method.flags MethodFlags.dispatched

/-- Whether the method has no code of its own. -/
def isAbstract (method : MethodDescription) : Bool := hasBits method.flags MethodFlags.abstract

/-- Whether the method is not overridden. -/
def isFinal (method : MethodDescription) : Bool := hasBits method.flags MethodFlags.final

/-- The method as an override of another one; an override is always virtual. -/
def overriding (method : MethodDescription) (slot : Entity) : MethodDescription :=
  { method with flags := method.flags ||| MethodFlags.dispatched, overrides := some slot }

end MethodDescription

structure FieldDescription where
  id : Entity
  owner : Entity
  name : String
  deriving DecidableEq

end PortableImage
