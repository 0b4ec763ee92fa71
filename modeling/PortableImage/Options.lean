import PortableImage.Fault
import PortableImage.Program.Description
/-!
# Backend options

What a session tells its backend: flags that follow from the optimization mode, and options of the
form `name=value` that the host passes through.  An entry without a name or without an equals sign
is dropped without a word.  Of two options of one name the later one holds.
-/

namespace PortableImage

/-- What the generated code is optimized for. -/
inductive Optimization
  | none
  | preferSize
  | preferSpeed
  | blended
  deriving DecidableEq

namespace BackendFlag

/-- The backend records where code comes from. -/
def debugInfo : UInt32 := 1

/-- The backend leaves the code easy to follow. -/
def debugCode : UInt32 := 2

/-- The backend prefers small code. -/
def sizeFirst : UInt32 := 4

/-- The backend prefers fast code. -/
def speedFirst : UInt32 := 8

end BackendFlag

namespace Optimization

/-- The names of a mode, the one it is shown by first. -/
def names : Optimization → List String
  | none => ["none"]
  | preferSize => ["prefer-size", "size"]
  | preferSpeed => ["prefer-speed", "speed"]
  | blended => ["blended", "default"]

def all : List Optimization := [none, preferSize, preferSpeed, blended]

/-- The name a mode is shown by. -/
def render : Optimization → String
  | none => "none"
  | preferSize => "prefer-size"
  | preferSpeed => "prefer-speed"
  | blended => "blended"

/-- The text with small instead of capital ASCII letters. -/
def fold (text : String) : List Char := text.toList.map Char.toLower

/-- The mode with a name, in small or capital letters. -/
def parse (text : String) : Except Fault Optimization :=
  match all.find? fun mode => mode.names.any fun name => fold name = fold text with
  | some mode => .ok mode
  | Option.none => .error (.configuration (.unknownMode text))

def flags : Optimization → UInt32
  | none => BackendFlag.debugCode
  | preferSize => BackendFlag.sizeFirst
  | preferSpeed => BackendFlag.speedFirst
  | blended => 0

end Optimization

/-- A setting passed through to the backend. -/
structure HostOption where
  name : String
  value : String
  deriving DecidableEq

namespace HostOption

/-- Splits an entry at its first equals sign, unless nothing stands before it. -/
def parse? (entry : String) : Option HostOption :=
  let name := entry.toList.takeWhile (· ≠ '=')
  match entry.toList.dropWhile (· ≠ '=') with
  | [] => none
  | _ :: value => if name.isEmpty then none else some ⟨String.ofList name, String.ofList value⟩

end HostOption

/-- What a backend is told. -/
structure BackendSettings where
  flags : UInt32
  options : List HostOption
  deriving DecidableEq

namespace BackendSettings

def ofParts (mode : Optimization) (options : List HostOption) : BackendSettings :=
  ⟨BackendFlag.debugInfo ||| mode.flags, options⟩

/-- The settings for a mode and the entries that are options. -/
def build (mode : Optimization) (entries : List String) : BackendSettings :=
  ofParts mode (entries.filterMap HostOption.parse?)

def contains (settings : BackendSettings) (mask : UInt32) : Bool := hasBits settings.flags mask

def option? (settings : BackendSettings) (name : String) : Option String :=
  (settings.options.reverse.find? fun option => option.name = name).map HostOption.value

end BackendSettings

end PortableImage
