import PortableImage.Program.Basic
/-!
# Method bodies

Where the body of a method comes from is up to the host.  By default a method has the body it was
registered with, and an instantiated method without one has the body of its definition.
-/

namespace PortableImage

namespace Program

/-- The body a method was registered with, or else that of its generic definition. -/
def declaredBody? (program : Program) (method : Entity) : Option MethodBody := do
  let description ← program.method? method
  match description.body with
  | some body => return body
  | none =>
    let instantiation ← description.instantiation
    let definition ← program.method? instantiation.definition
    definition.body

end Program

/-- Where method bodies come from. -/
structure BodySource where
  body? : Program → Entity → Option MethodBody

namespace BodySource

/-- The bodies the program itself declares. -/
def declared : BodySource := ⟨Program.declaredBody?⟩

/-- Listed methods have exactly the listed body or none; all others have what is declared. -/
def listed (bodies : Bindings Entity (Option MethodBody)) : BodySource where
  body? program method :=
    match bodies.find? method with
    | some body => body
    | none => program.declaredBody? method

end BodySource

end PortableImage
