import Propositional.Arena.Display

/-!
# Drawings of trees

The subtrees of some nodes as a directed graph in the DOT language. Roots are drawn on top and
leaves at the bottom, an edge goes from each node to each of its children, and on request one back
to its parent. A node that is reached twice is drawn once.

`Arena.drawing` gives the statements of the graph, and `Arena.dot` their text, one to a line.
-/

namespace Propositional.Arena

structure DotStyle where
  nodeShape : String := "ellipse"
  leafShape : String := "box"
  rootShape : String := "rect"
  childEdge : String := "solid"
  parentEdge : String := "dashed"
  parentLinks : Bool := false
  showHandles : Bool := false
  deriving DecidableEq, Repr

inductive Rank where
  | source
  | sink
  deriving DecidableEq, Repr

inductive Side where
  | left
  | right
  deriving DecidableEq, Repr

inductive Statement where
  | openGraph
  | defaultShape (shape : String)
  | openRank (rank : Rank)
  | declare (node : Handle) (shape : Option String) (label : String)
  | childEdge (parent child : Handle) (line : String) (side : Option Side)
  | parentEdge (child parent : Handle) (line : String)
  | close
  deriving DecidableEq, Repr

def Statement.text : Statement → String
  | openGraph => "digraph \x7b"
  | defaultShape shape => s!"node [shape={shape}];"
  | openRank .source => "\x7b rank=source"
  | openRank .sink => "\x7b rank=sink"
  | declare node none label => s!"{node.index} [label=\"{label}\"];"
  | declare node (some shape) label => s!"{node.index} [shape={shape}, label=\"{label}\"];"
  | childEdge parent child line none => s!"{parent.index} -> {child.index} [style={line}];"
  | childEdge parent child line (some .left) =>
    s!"{parent.index} -> {child.index} [style={line}, label=\"L\"];"
  | childEdge parent child line (some .right) =>
    s!"{parent.index} -> {child.index} [style={line}, label=\"R\"];"
  | parentEdge child parent line =>
    s!"{child.index} -> {parent.index} [style={line}, constraint=false];"
  | close => "\x7d"

/-- A name as it stands in a quoted label: quotes are escaped. -/
def quoteLabel (name : List Char) : List Char :=
  name.flatMap fun c => if c = '\x22' then ['\\', c] else [c]

def Node.caption (node : Node) : String :=
  match node.shape with
  | .root _ => "root"
  | .binary op _ _ => op.keyword
  | .not _ => "NOT"
  | .parens _ => "( )"
  | .id name => String.ofList (quoteLabel name.toList)
  | .literal value => literalText value

def DotStyle.label (style : DotStyle) (h : Handle) (node : Node) : String :=
  if style.showHandles then s!"{Node.caption node} {h.text}" else Node.caption node

def DotStyle.declaration (style : DotStyle) (shape : Option String) (entry : Handle × Node) :
    Statement :=
  .declare entry.1 shape (style.label entry.1 entry.2)

/-- The declarations of the nodes that share a rank, as a group unless there are none. -/
def DotStyle.group (style : DotStyle) (rank : Rank) (shape : String)
    (entries : List (Handle × Node)) : List Statement :=
  if entries.isEmpty then []
  else .openRank rank :: entries.map (style.declaration (some shape)) ++ [.close]

def DotStyle.childEdges (style : DotStyle) (entry : Handle × Node) : List Statement :=
  match entry.2.shape with
  | .binary _ left right =>
    [.childEdge entry.1 left style.childEdge (some .left),
      .childEdge entry.1 right style.childEdge (some .right)]
  | shape => shape.children.map fun child => .childEdge entry.1 child style.childEdge none

def DotStyle.parentEdges (style : DotStyle) (entry : Handle × Node) : List Statement :=
  entry.2.parent.toList.map fun parent => .parentEdge entry.1 parent style.parentEdge

def DotStyle.draw (style : DotStyle) (entries : List (Handle × Node)) : List Statement :=
  let (leaves, others) := entries.partition fun entry => entry.2.shape.isLeaf
  let (tops, inner) := others.partition fun entry => entry.2.shape.variant = .root
  [.openGraph, .defaultShape style.nodeShape] ++
    style.group .source style.rootShape tops ++
    inner.map (style.declaration none) ++
    style.group .sink style.leafShape leaves ++
    entries.flatMap style.childEdges ++
    (if style.parentLinks then entries.flatMap style.parentEdges else []) ++
    [.close]

/-- The nodes below some nodes, each once, in the order in which they are first reached. -/
def reachable (A : Arena) (starts : List Handle) : Checked (List Handle) :=
  return (← starts.mapM A.descendants).flatten.eraseDups

/-- The statements that draw the subtrees of some nodes. -/
def drawing (A : Arena) (style : DotStyle) (starts : List Handle) : Checked (List Statement) := do
  let entries ← (← A.reachable starts).mapM fun h => return (h, ← A.node h)
  return style.draw entries

def dot (A : Arena) (style : DotStyle) (starts : List Handle) : Checked String :=
  return (← A.drawing style starts).foldl (fun text line => text ++ line.text ++ "\n") ""

end Propositional.Arena
