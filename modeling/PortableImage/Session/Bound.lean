import PortableImage.Artifact.Key
import PortableImage.Program.Basic
/-!
# How long a session can take

The artifacts of an image are about what the program names, so their number is bounded before
anything is compiled.
-/

namespace PortableImage

namespace Program

/-- The entities an instantiation names. -/
def instantiationEntities : Option Instantiation → List Entity
  | none => []
  | some instantiation => instantiation.definition :: instantiation.arguments

/-- Every entity the program names, with repetitions. -/
def mentioned (program : Program) : List Entity :=
  program.types.entries.flatMap (fun entry =>
    entry.1 :: entry.2.base.toList ++ instantiationEntities entry.2.instantiation) ++
  program.methods.entries.flatMap (fun entry =>
    entry.1 :: entry.2.owner :: entry.2.overrides.toList ++
      instantiationEntities entry.2.instantiation) ++
  program.fields.entries.flatMap (fun entry => [entry.1, entry.2.owner]) ++
  program.signatures.keys ++
  program.references.entries.map Prod.snd

/-- A number of rounds that is enough for any session: each round but the last either expands a
batch with a newly marked artifact, or lets a slot of a table of virtual methods fire.  There are at
most six kinds of artifact for each entity the program names, and the cells. -/
def rounds (program : Program) : Nat :=
  6 * program.mentioned.length + RuntimeHelper.all.length + program.leastReferences.size +
    program.ownedMethods.pairs.length + 3

end Program

end PortableImage
