import PortableImage.Bubble
import PortableImage.Program.Overrides
/-!
# Dispatch

Where a virtual call can only ever reach one method, it may be made direct.  That is ruled only in a
closed bubble, where no type outside can override a method.  A ruling, once made, stands.
-/

namespace PortableImage

inductive Ruling
  | unknown
  | monomorphic (target : Entity)
  deriving DecidableEq

namespace Program

/-- The methods of a family that a call may reach: those of the bubble that are not abstract. -/
def candidates (program : Program) (bubble : Bubble) (method : Entity) : List Entity :=
  (program.family method).filter fun candidate =>
    bubble.contains candidate &&
      (program.method? candidate).any fun description => !description.isAbstract

/-- Whether a type is registered and nothing derives from it. -/
def isSealed (program : Program) (type : Entity) : Bool :=
  (program.type? type).any TypeDescription.isSealed

/-- The target of a virtual call of a method, if there can be only one. -/
def rule (program : Program) (bubble : Bubble) (method : Entity) : Ruling :=
  if bubble.closed && bubble.contains method then
    match program.method? method with
    | none => .unknown
    | some description =>
      if !description.isVirtual || description.isFinal || program.isSealed description.owner then
        .monomorphic method
      else
        match program.candidates bubble method with
        | [single] => .monomorphic single
        | _ => .unknown
  else .unknown

end Program

abbrev Rulings := Bindings Entity Ruling

namespace Rulings

/-- The ruling on a method, and the rulings with it. -/
def consult (rulings : Rulings) (program : Program) (bubble : Bubble) (method : Entity) :
    Ruling × Rulings :=
  match rulings.find? method with
  | some ruling => (ruling, rulings)
  | none =>
    let ruling := program.rule bubble method
    (ruling, rulings.put method ruling)

end Rulings

end PortableImage
