import PortableImage.Portable.Compressed
import PortableImage.Portable.Ledger
import PortableImage.Program.Shape
/-!
# Portable signatures

The written form of types, methods and fields, as code of one module refers to them.

* A type is `0x15`, its definition, the number of its arguments and the arguments; or, when it is
  not instantiated, the module if it is another one (behind `0x3F`), `0x11` for a value type and
  `0x12` for any other, and the row.
* A method is a byte of flags, the module if it is another one, the row of its definition, and the
  arguments if it is instantiated.
* A field is a byte of flags, the module if it is another one, and either the row of a reference or
  the owner and the row of the definition.

Numbers are compressed.  What was written before a fault stays written.
-/

namespace PortableImage.Signature

/-- What a signature is written for. -/
structure Context where
  program : Program
  bubble : Bubble
  /-- The module whose code refers to what is written. -/
  module : ModuleIndex

/-- The data written so far, and the ledger of the tokens used. -/
structure Sheet where
  ledger : Ledger
  data : Bytes := []

/-- Writing may fail, which leaves the sheet as far as it got. -/
abbrev Writing := ExceptT Fault (StateM Sheet)

namespace Mark

/-- Opens a value type. -/
def valueType : UInt8 := 0x11

/-- Opens a type that is no value type. -/
def reference : UInt8 := 0x12

/-- Opens an instantiated type. -/
def instantiation : UInt8 := 0x15

/-- Opens the index of another module. -/
def module : UInt8 := 0x3F

end Mark

namespace EntryFlag

/-- The entry of a method ends with the arguments of an instantiation. -/
def instantiating : UInt8 := 0x01

/-- The entry of a field is the row of a reference. -/
def memberReference : UInt8 := 0x01

/-- The entry names another module. -/
def otherModule : UInt8 := 0x80

end EntryFlag

def write (data : Bytes) : Writing Unit :=
  modify fun sheet => { sheet with data := sheet.data ++ data }

def writeNumber (value : UInt32) : Writing Unit := do
  write (← liftM (Compressed.encode value))

/-- Writes how many arguments an instantiated type or method has. -/
def writeCount (entity : Entity) (count : Nat) : Writing Unit :=
  if count < 0x100000000 then writeNumber (UInt32.ofNat count)
  else throw (.malformed (.tooManyArguments entity))

/-- The portable token of an entity, as the module of the context refers to it. -/
def issue (context : Context) (entity : Entity) : Writing PortableToken :=
  fun sheet =>
    let (answer, ledger) :=
      sheet.ledger.issue context.program context.bubble entity context.module
    (answer, { sheet with ledger })

/-- The row of a type, with its table in the low two bits. -/
def typeIndex (token : PortableToken) : Except Fault UInt32 :=
  match token.kind with
  | .typeLayout => .ok (token.row * 4)
  | .typeImport => .ok (token.row * 4 + 1)
  | .typeSpec => .ok (token.row * 4 + 2)
  | _ => .error (.malformed (.noTypeIndex token))

/-- The row of a method, with its table in the low bit. -/
def methodIndex (token : PortableToken) : Except Fault UInt32 :=
  match token.kind with
  | .method => .ok (token.row * 2)
  | .memberImport => .ok (token.row * 2 + 1)
  | _ => .error (.malformed (.noMethodIndex token))

/-- Whether a token belongs to another module than that of the context. -/
def isElsewhere (context : Context) (token : PortableToken) : Bool :=
  token.module ≠ context.module

/-- Whether an entity is registered as a value type. -/
def isValueType (context : Context) (entity : Entity) : Bool :=
  (context.program.type? entity).any TypeDescription.isValueType

mutual

def writeShape (context : Context) : TypeShape → Writing Unit
  | .plain entity => do
    let token ← issue context entity
    if isElsewhere context token then
      write [Mark.module]
      writeNumber token.module.value
    write [if isValueType context entity then Mark.valueType else Mark.reference]
    writeNumber (← liftM (typeIndex token))
  | .instantiated entity definition arguments => do
    write [Mark.instantiation]
    writeShape context definition
    writeCount entity arguments.length
    writeShapes context arguments

/-- Writes types of given shapes one after another. -/
def writeShapes (context : Context) : List TypeShape → Writing Unit
  | [] => pure ()
  | shape :: shapes => do
    writeShape context shape
    writeShapes context shapes

end

def writeType (context : Context) (entity : Entity) : Writing Unit :=
  writeShape context (context.program.shape entity)

/-- The byte that opens the entry of a method or field. -/
def headByte (special : Bool) (specialFlag : UInt8) (elsewhere : Bool) : UInt8 :=
  (if special then specialFlag else 0) + (if elsewhere then EntryFlag.otherModule else 0)

/-- Opens an entry: the flags, and the module if it is another one. -/
def writeEntryHead (context : Context) (token : PortableToken) (special : Bool)
    (specialFlag : UInt8) : Writing Unit := do
  write [headByte special specialFlag (isElsewhere context token)]
  if isElsewhere context token then writeNumber token.module.value

def writeMethod (context : Context) (method : Entity) : Writing Unit := do
  let instantiation := (context.program.method? method).bind MethodDescription.instantiation
  let token ← issue context ((instantiation.map Instantiation.definition).getD method)
  writeEntryHead context token instantiation.isSome EntryFlag.instantiating
  writeNumber (← liftM (methodIndex token))
  match instantiation with
  | none => pure ()
  | some instantiation =>
    writeCount method instantiation.arguments.length
    writeShapes context (instantiation.arguments.map context.program.shape)

def writeField (context : Context) (field : Entity) : Writing Unit := do
  let token ← issue context field
  writeEntryHead context token (token.kind = .memberImport) EntryFlag.memberReference
  match token.kind with
  | .field =>
    match context.program.field? field with
    | none => throw (.entityNotFound field)
    | some description =>
      writeType context description.owner
      writeNumber token.row
  | .memberImport => writeNumber token.row
  | _ => throw (.malformed (.noField token))

end PortableImage.Signature
