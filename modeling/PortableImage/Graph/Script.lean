import PortableImage.Fault
import PortableImage.Graph.FixedPoint
/-!
# Scripted expanders

A script says in advance what expanding a node does.  Nodes are known by text keys; a line may also
name a node by its handle, which need not exist.  Expanding first moves work forward, then cancels,
then fails, and only then names what the node needs, creating nodes as it goes.
-/

namespace PortableImage.Graph

/-- A node as a script names it. -/
inductive NodeName
  | ofKey (key : String)
  | ofHandle (node : Handle)
  deriving DecidableEq

namespace NodeName

/-- The handle of a named node, and the arena in which a key has one. -/
def locate : NodeName → Arena String → Handle × Arena String
  | ofKey key, arena => arena.intern key
  | ofHandle node, arena => (node, arena)

end NodeName

/-- What expanding a node does, in the order of the lines. -/
structure Script where
  raises : List (String × NodeName × Progress) := []
  cancels : List String := []
  failures : List (String × String) := []
  always : List (String × NodeName × String) := []
  guarded : List (String × NodeName × NodeName × Progress × String) := []

namespace Script

/-- A script at work on an arena of text keys. -/
abbrev Working := ExceptT Fault (StateM (Site String Script))

def linesOf {α : Type} (key : String) (lines : List (String × α)) : List α :=
  (lines.filter fun line => line.1 = key).map Prod.snd

/-- The script in which a node fails with a message, or no longer fails. -/
def setFailure (script : Script) (key : String) (message : Option String) : Script :=
  let others := script.failures.filter fun line => line.1 ≠ key
  match message with
  | some message => { script with failures := (key, message) :: others }
  | none => { script with failures := others }

def locate (name : NodeName) : Working Handle :=
  modifyGet fun site =>
    let located := name.locate site.arena
    (located.1, { site with arena := located.2 })

def raise (line : NodeName × Progress) : Working Unit := do
  let node ← locate line.1
  modify fun site => { site with arena := site.arena.raise node line.2 }

/-- A target that is always needed. -/
def dependency (line : NodeName × String) : Working Dependency := do
  return ⟨← locate line.1, line.2⟩

/-- A guarded target; it is created before its guard. -/
def guardedDependency (line : NodeName × NodeName × Progress × String) :
    Working GuardedDependency := do
  let target ← locate line.1
  let guard ← locate line.2.1
  return ⟨target, guard, line.2.2.1, line.2.2.2⟩

/-- Expands a node as the script in the store of the site says. -/
def expand : Expander String Script Fault := fun node => do
  let site ← get
  match site.arena.key? node with
  | none => return {}
  | some key =>
    let script := site.store
    (linesOf key script.raises).forM raise
    if script.cancels.contains key then modify fun site => { site with cancelled := true }
    match (linesOf key script.failures).head? with
    | some message => throw (.graph (.reported message))
    | none =>
      let always ← (linesOf key script.always).mapM dependency
      let guarded ← (linesOf key script.guarded).mapM guardedDependency
      return { always, guarded }

/-- A number of rounds that is enough for any analysis by the script: each round but the last
either expands a batch with a newly marked node or lets a guarded dependency fire, and all of
them come from the arena, from the script and from what is pending. -/
def bound (analysis : Analysis String Script) : Nat :=
  let script := analysis.store
  analysis.arena.size + script.raises.length + script.always.length +
    3 * script.guarded.length + analysis.pending.length + 3

/-- Runs an analysis by the script to its end. -/
def saturate (analysis : Analysis String Script) : Verdict Fault × Analysis String Script :=
  analysis.saturate expand (bound analysis)

end Script

end PortableImage.Graph
