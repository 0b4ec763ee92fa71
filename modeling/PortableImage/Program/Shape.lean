import PortableImage.Program.Basic
/-!
# Type shapes

An instantiated type is its generic definition applied to arguments, each of which may be
instantiated in turn.  The shape of a type spells this out down to types that are not
instantiated.  On the way down no type is opened twice, so every shape is finite.
-/

namespace PortableImage

/-- How a type is put together. -/
inductive TypeShape
  | plain (entity : Entity)
  | instantiated (entity : Entity) (definition : TypeShape) (arguments : List TypeShape)

namespace Program

/-- The shape of a type, where only unopened types are taken apart. -/
def shapeAmong (unopened : Bindings Entity TypeDescription) (entity : Entity) : TypeShape :=
  match _h : unopened.find? entity with
  | none => .plain entity
  | some description =>
    match description.instantiation with
    | none => .plain entity
    | some instantiation =>
      .instantiated entity (shapeAmong (unopened.erase entity) instantiation.definition)
        (instantiation.arguments.map fun argument =>
          shapeAmong (unopened.erase entity) argument)
termination_by unopened.size
decreasing_by all_goals exact Bindings.size_erase_lt _h

def shape (program : Program) (entity : Entity) : TypeShape :=
  shapeAmong program.types entity

end Program

end PortableImage
