import PortableImage.Graph.Arena
/-!
# Graph pictures

The marked part of an arena as a DOT graph: a line for each marked node in the order of keys, and a
line for each edge in the given order.  Labels are quoted; every character is escaped on its own.
-/

namespace PortableImage.Graph.Dot

/-- What stands for a character inside a quoted label.  Carriage returns are left out. -/
def escapeChar : Char → List Char
  | '\\' => ['\\', '\\']
  | '"' => ['\\', '"']
  | '\n' => ['\\', 'n']
  | '\r' => []
  | '<' => ['\\', '<']
  | '>' => ['\\', '>']
  | c => [c]

def escape (text : String) : String := String.ofList (text.toList.flatMap escapeChar)

def quoted (text : String) : String := "\"" ++ escape text ++ "\""

def nodeLine (node : Handle) (label : String) : String :=
  "    " ++ node.render ++ " [label=" ++ quoted label ++ "];"

def edgeLine (edge : Edge) : String :=
  "    " ++ edge.source.render ++ " -> " ++ edge.target.render ++ " [label=" ++
    quoted edge.reason ++ "];"

variable {κ : Type} [LE κ] [DecidableLE κ]

/-- The marked nodes with their keys, in the order of keys. -/
def shownNodes (arena : Arena κ) : List (Handle × κ) :=
  (arena.marked.filterMap fun node => (arena.key? node).map fun key => (node, key)).mergeSort
    fun a b => a.2 ≤ b.2

def lines (name : String) (label : κ → String) (arena : Arena κ) (edges : List Edge) :
    List String :=
  ["digraph " ++ quoted name ++ " \x7b", "    node [shape=box];"] ++
    (shownNodes arena).map (fun entry => nodeLine entry.1 (label entry.2)) ++
    edges.map edgeLine ++ ["\x7d"]

/-- The text of a graph, every line ended by a line feed. -/
def render (name : String) (label : κ → String) (arena : Arena κ) (edges : List Edge) : String :=
  String.join ((lines name label arena edges).map fun line => line ++ "\n")

end PortableImage.Graph.Dot
