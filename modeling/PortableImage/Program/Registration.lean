import PortableImage.Fault
import PortableImage.Program.Basic
/-!
# Registration

A definition is accepted if its module exists and its token says it is what it is registered as.
Registering it again replaces the description, while links of the former description stay.  A
reference may stand in a reference table or among the instantiations of a module.
-/

namespace PortableImage.Program

/-- The program with one more module, and the index of that module. -/
def registerModule (program : Program) (name path : String) : ModuleIndex × Program :=
  (⟨UInt32.ofNat program.modules.length⟩,
    { program with modules := program.modules ++ [⟨name, path⟩] })

def requireModule (program : Program) (module : ModuleIndex) : Except Fault Unit :=
  if (program.module? module).isSome then .ok () else .error (.moduleNotFound module.render)

/-- Fails if an entity cannot be registered as something of the given kind. -/
def requireDefinition (program : Program) (entity : Entity) (kind : DefinitionKind) :
    Except Fault Unit := do
  program.requireModule entity.module
  if entity.kind? = some kind then .ok () else .error (.invalidToken entity.token)

def registerType (program : Program) (type : TypeDescription) : Except Fault Program := do
  program.requireDefinition type.id .type
  return { program with types := program.types.put type.id type }

/-- The program with a method, linked to its owner and to the method it overrides. -/
def registerMethod (program : Program) (method : MethodDescription) : Except Fault Program := do
  program.requireDefinition method.id .method
  return { program with
    methods := program.methods.put method.id method
    ownedMethods := program.ownedMethods.add method.owner method.id
    overriders := match method.overrides with
      | some slot => program.overriders.add slot method.id
      | none => program.overriders }

/-- The program with a field, linked to its owner. -/
def registerField (program : Program) (field : FieldDescription) : Except Fault Program := do
  program.requireDefinition field.id .field
  return { program with
    fields := program.fields.put field.id field
    ownedFields := program.ownedFields.add field.owner field.id }

def registerSignature (program : Program) (entity : Entity) (data : Bytes) :
    Except Fault Program := do
  program.requireDefinition entity .signature
  return { program with signatures := program.signatures.put entity data }

/-- Whether a row of a table may be registered as a reference. -/
def admitsReference : Table → Bool
  | .typeRef | .memberRef | .typeSpec | .methodSpec => true
  | _ => false

/-- The lesser of the token an entity already has in a module, if any, and a new one. -/
def leastRow (old : Option Token) (reference : Token) : Token :=
  match old with
  | some row => if reference.value < row.value then reference else row
  | none => reference

/-- The program in which a token of a module stands for an entity. -/
def registerReference (program : Program) (module : ModuleIndex) (reference : Token)
    (target : Entity) : Except Fault Program := do
  program.requireModule module
  unless reference.table?.any admitsReference do throw (.invalidToken reference)
  return { program with
    references := program.references.put (module, reference) target
    leastReferences := program.leastReferences.put (module, target)
      (leastRow (program.rowFor? module target) reference) }

/-- What a token means inside a module: what it was registered to stand for, or else the module's
own definition. -/
def meaning (program : Program) (module : ModuleIndex) (token : Token) :
    Except Fault Entity :=
  match token.table? with
  | none => .error (.invalidToken token)
  | some table =>
    match program.references.find? (module, token) with
    | some target => .ok target
    | none =>
      if table.isReference then .error (.invalidToken token)
      else if program.contains ⟨module, token⟩ then .ok ⟨module, token⟩
      else .error (.entityNotFound ⟨module, token⟩)

end PortableImage.Program
