import PortableImage.Bubble
import PortableImage.Portable.Table
import PortableImage.Program.Registration
/-!
# The ledger of portable tokens

An entity of the bubble has the portable form of its own token.  Any other entity is named by the
row of the module that refers to it, so that one entity may have a token in each such module.

The ledger keeps what was answered before, in one partition for each module in which entities have
their rows: for each entity the token, and for each token the first entity it was given to.  A token
is looked up in the partition of the module it names.  A question that fails leaves the ledger as it
was.
-/

namespace PortableImage

/-- The module in which an entity has its row: its own in the bubble, the referring one outside. -/
def Bubble.home (bubble : Bubble) (entity : Entity) (origin : ModuleIndex) : ModuleIndex :=
  if bubble.contains entity then entity.module else origin

namespace Program

/-- The portable form of a token of a module. -/
def portable (module : ModuleIndex) (token : Token) : Except Fault PortableToken :=
  match PortableToken.ofToken? module token with
  | some portable => .ok portable
  | none => .error (.invalidToken token)

def portableToken (program : Program) (bubble : Bubble) (entity : Entity)
    (origin : ModuleIndex) : Except Fault PortableToken :=
  if bubble.contains entity then
    if program.contains entity then portable entity.module entity.token
    else .error (.entityNotFound entity)
  else
    match program.rowFor? origin entity with
    | some row => portable origin row
    | none => .error (.unresolvableReference entity origin none)

end Program

/-- The portable tokens given out for the rows of one module. -/
structure Partition where
  tokens : Bindings Entity PortableToken := ∅
  entities : Bindings PortableToken Entity := ∅

/-- The partition after a token was given to an entity. -/
def Partition.record (partition : Partition) (entity : Entity) (token : PortableToken) :
    Partition where
  tokens := partition.tokens.putNew entity token
  entities := partition.entities.putNew token entity

/-- The portable tokens given out so far, module by module. -/
structure Ledger where
  partitions : Bindings ModuleIndex Partition := ∅

namespace Ledger

/-- The partition of a module, which is empty as long as nothing is recorded there. -/
def partition (ledger : Ledger) (module : ModuleIndex) : Partition :=
  (ledger.partitions.find? module).getD {}

/-- The token an entity was given for its row in a module. -/
def token? (ledger : Ledger) (home : ModuleIndex) (entity : Entity) : Option PortableToken :=
  (ledger.partition home).tokens.find? entity

/-- The ledger after a token was given to an entity. -/
def record (ledger : Ledger) (home : ModuleIndex) (entity : Entity) (token : PortableToken) :
    Ledger where
  partitions := ledger.partitions.put home ((ledger.partition home).record entity token)

/-- The portable token of an entity, as a module refers to it, and the ledger that remembers it. -/
def issue (program : Program) (bubble : Bubble) (entity : Entity) (origin : ModuleIndex)
    (ledger : Ledger) : Except Fault PortableToken × Ledger :=
  let home := bubble.home entity origin
  match ledger.token? home entity with
  | some token => (.ok token, ledger)
  | none =>
    match program.portableToken bubble entity origin with
    | .ok token => (.ok token, ledger.record home entity token)
    | .error fault => (.error fault, ledger)

/-- The first entity a token was given to. -/
def holder? (ledger : Ledger) (token : PortableToken) : Option Entity :=
  (ledger.partition token.module).entities.find? token

def size (ledger : Ledger) : Nat :=
  ledger.partitions.entries.foldl (fun count entry => count + entry.2.entities.size) 0

/-- The entries of all partitions, ordered by their tokens. -/
def table (ledger : Ledger) : TokenTable where
  entries := (ledger.partitions.entries.flatMap fun entry =>
    entry.2.entities.entries.map fun pair => TableEntry.mk pair.1 pair.2).mergeSort
      fun a b => a.token ≤ b.token

end Ledger

end PortableImage
