import PortableImage.Program.Basic
/-!
# Overriding

The *slot* of a method is where the chain of overridden methods ends, and its *family* is every
method from which that chain leads to it.  A chain that runs into itself ends at the first method it
meets again.
-/

namespace PortableImage.Program

/-- Where the chain of overridden methods ends, among methods not yet met. -/
def introducerAmong (unmet : Bindings Entity MethodDescription) (method : Entity) : Entity :=
  match _h : unmet.find? method with
  | none => method
  | some description =>
    match description.overrides with
    | none => method
    | some next => introducerAmong (unmet.erase method) next
termination_by unmet.size
decreasing_by exact Bindings.size_erase_lt _h

/-- The method that introduced the slot a method goes through. -/
def introducer (program : Program) (method : Entity) : Entity :=
  introducerAmong program.methods method

/-- Everything that unused links reach from the waiting methods, with what was met before. -/
def familyFrom (unused : List (Entity × Entity)) (waiting met : List Entity) :
    List Entity :=
  match waiting with
  | [] => met
  | method :: rest =>
    familyFrom (Links.elsewhere method unused) (Links.leaving method unused ++ rest)
      (met.insert method)
termination_by unused.length + waiting.length
decreasing_by
  have h := Links.length_leaving_add_elsewhere method unused
  simp only [List.length_append, List.length_cons]
  omega

/-- A method with all that override it, directly or not, in ascending order. -/
def family (program : Program) (method : Entity) : List Entity :=
  ascending (familyFrom program.overriders.pairs [method] [])

end PortableImage.Program
