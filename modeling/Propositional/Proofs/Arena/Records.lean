import Propositional.Arena.Dot

/-!
# Written records

Each statement of a drawing is written as one record. How a record begins tells what it is: with a handle, with
two handles and an arrow between them, or with a word or a brace. The rest of it are attributes and is kept as it
is written. So records can be read back whatever shapes, lines and labels stand in them.
-/

namespace Propositional.Arena

inductive Record where
  | graph
  | defaults (attributes : String)
  | group (rank : Rank)
  | node (h : Handle) (attributes : String)
  | edge (tail head : Handle) (attributes : String)
  | close
  deriving DecidableEq, Repr

namespace Record

/-- The handle with which a text begins, if it begins with one, and what is behind it. -/
def takeHandle (chars : List Char) : Option (Handle × List Char) :=
  match chars.takeWhile Char.isDigit with
  | [] => none
  | digits => some (⟨Nat.ofDigitChars 10 digits 0⟩, chars.dropWhile Char.isDigit)

def readBehind (h : Handle) : List Char → Option Record
  | ' ' :: '-' :: '>' :: ' ' :: later =>
    match takeHandle later with
    | some (head, ' ' :: attributes) => some (.edge h head (String.ofList attributes))
    | _ => none
  | ' ' :: attributes => some (.node h (String.ofList attributes))
  | _ => none

def readWord (line : String) : Option Record :=
  match line.toList with
  | 'n' :: 'o' :: 'd' :: 'e' :: ' ' :: attributes => some (.defaults (String.ofList attributes))
  | _ =>
    if line = "digraph \x7b" then some .graph
    else if line = "\x7b rank=source" then some (.group .source)
    else if line = "\x7b rank=sink" then some (.group .sink)
    else if line = "\x7d" then some .close
    else none

def read (line : String) : Option Record :=
  match takeHandle line.toList with
  | some (h, later) => readBehind h later
  | none => readWord line

variable {h tail head : Handle} {attributes : String}

theorem takeHandle_text (h : Handle) {c : Char} (stops : c.isDigit = false) (rest : List Char) :
    takeHandle (h.index.repr.toList ++ c :: rest) = some (h, c :: rest) := by
  have digits : ∀ d ∈ Nat.toDigits 10 h.index, d.isDigit = true :=
    fun d member => Nat.isDigit_of_mem_toDigits (by decide) (by decide) member
  rw [takeHandle, Nat.toList_repr, List.takeWhile_append_of_pos digits, List.dropWhile_append_of_pos digits,
    List.takeWhile_cons_of_neg (by simp [stops]), List.dropWhile_cons_of_neg (by simp [stops]), List.append_nil]
  cases written : Nat.toDigits 10 h.index with
  | nil => exact absurd written Nat.toDigits_ne_nil
  | cons d later =>
    dsimp only
    rw [← written, Nat.ofDigitChars_toDigits (by decide) (by decide)]

theorem read_node (h : Handle) {rest : List Char} (written : attributes.toList = '[' :: rest) :
    read (h.index.repr ++ " " ++ attributes) = some (.node h attributes) := by
  have text : (h.index.repr ++ " " ++ attributes).toList = h.index.repr.toList ++ ' ' :: '[' :: rest := by
    rw [String.toList_append, String.toList_append, written, List.append_assoc]
    rfl
  rw [read, text, takeHandle_text h (by decide)]
  dsimp only
  rw [readBehind, ← written, String.ofList_toList]
  simp

theorem read_edge (tail head : Handle) (attributes : String) :
    read (tail.index.repr ++ " -> " ++ head.index.repr ++ " " ++ attributes) = some (.edge tail head attributes) := by
  have text : (tail.index.repr ++ " -> " ++ head.index.repr ++ " " ++ attributes).toList =
      tail.index.repr.toList ++ ' ' :: '-' :: '>' :: ' ' :: (head.index.repr.toList ++ ' ' :: attributes.toList) := by
    simp only [String.toList_append, List.append_assoc]
    rfl
  rw [read, text, takeHandle_text tail (by decide)]
  dsimp only
  rw [readBehind, takeHandle_text head (by decide)]
  exact congrArg (fun written => some (edge tail head written)) String.ofList_toList

theorem read_defaults (attributes : String) : read ("node " ++ attributes) = some (.defaults attributes) := by
  have text : ("node " ++ attributes).toList = 'n' :: 'o' :: 'd' :: 'e' :: ' ' :: attributes.toList := by
    rw [String.toList_append]
    rfl
  have wordy : takeHandle ('n' :: 'o' :: 'd' :: 'e' :: ' ' :: attributes.toList) = none := by
    rw [takeHandle, List.takeWhile_cons_of_neg (by decide)]
  rw [read, text, wordy]
  dsimp only
  rw [readWord, text]
  exact congrArg (fun written => some (defaults written)) String.ofList_toList

end Record

/-! ### Statements as records -/

def nodeAttributes : Option String → String → String
  | none, label => s!"[label=\"{label}\"];"
  | some shape, label => s!"[shape={shape}, label=\"{label}\"];"

def childAttributes (line : String) : Option Side → String
  | none => s!"[style={line}];"
  | some .left => s!"[style={line}, label=\"L\"];"
  | some .right => s!"[style={line}, label=\"R\"];"

def parentAttributes (line : String) : String := s!"[style={line}, constraint=false];"

theorem childAttributes_injective (line : String) : Function.Injective (childAttributes line) := by
  intro side side' same
  have letters := congrArg String.toList same
  rcases side with _ | _ | _ <;> rcases side' with _ | _ | _ <;> simp [childAttributes, toString] at letters ⊢

namespace Statement

/-- What a statement says once it is written. -/
def record : Statement → Record
  | openGraph => .graph
  | defaultShape shape => .defaults s!"[shape={shape}];"
  | openRank rank => .group rank
  | declare node shape label => .node node (nodeAttributes shape label)
  | childEdge parent child line side => .edge parent child (childAttributes line side)
  | parentEdge child parent line => .edge child parent (parentAttributes line)
  | close => .close

theorem text_defaultShape (shape : String) : (defaultShape shape).text = "node " ++ s!"[shape={shape}];" := by
  apply String.toList_injective
  simp [text, toString]

theorem text_declare (node : Handle) (shape : Option String) (label : String) :
    (declare node shape label).text = node.index.repr ++ " " ++ nodeAttributes shape label := by
  apply String.toList_injective
  cases shape <;> simp [text, nodeAttributes, toString]

theorem text_childEdge (parent child : Handle) (line : String) (side : Option Side) :
    (childEdge parent child line side).text =
      parent.index.repr ++ " -> " ++ child.index.repr ++ " " ++ childAttributes line side := by
  apply String.toList_injective
  rcases side with _ | _ | _ <;> simp [text, childAttributes, toString]

theorem text_parentEdge (child parent : Handle) (line : String) : (parentEdge child parent line).text =
    child.index.repr ++ " -> " ++ parent.index.repr ++ " " ++ parentAttributes line := by
  apply String.toList_injective
  simp [text, parentAttributes, toString]

/-- Whatever is in it, a written statement is read as what it says. -/
theorem read_text (s : Statement) : Record.read s.text = some s.record := by
  cases s with
  | openGraph | close => simp [text, Record.read, Record.takeHandle, Record.readWord, record]
  | openRank rank => cases rank <;> simp [text, Record.read, Record.takeHandle, Record.readWord, record]
  | defaultShape shape =>
    rw [text_defaultShape]
    exact Record.read_defaults _
  | declare node shape label =>
    obtain ⟨rest, bracket⟩ : ∃ rest, (nodeAttributes shape label).toList = '[' :: rest := by
      cases shape <;> simp [nodeAttributes, toString]
    rw [text_declare]
    exact Record.read_node node bracket
  | childEdge parent child line side =>
    rw [text_childEdge]
    exact Record.read_edge parent child _
  | parentEdge child parent line =>
    rw [text_parentEdge]
    exact Record.read_edge child parent _

theorem mapM_read_text (statements : List Statement) :
    (statements.map text).mapM Record.read = some (statements.map record) := by
  induction statements with
  | nil => rfl
  | cons s later ih => simp [read_text, ih]

end Statement

/-! ### Graphs -/

/-- What the records of a graph say, in their order. A node has the rank of the group that it stands in. -/
structure Picture where
  defaults : List String := []
  nodes : List (Handle × Option Rank × String) := []
  edges : List (Handle × Handle × String) := []

/-- Reads the records of a graph up to its closing one, behind which there is nothing. A group has nodes only. -/
def readBody : Option Rank → List Record → Option Picture
  | none, [.close] => some {}
  | some _, .close :: later => readBody none later
  | none, .group rank :: later => readBody (some rank) later
  | none, .defaults attributes :: later => do
    let picture ← readBody none later
    return { picture with defaults := attributes :: picture.defaults }
  | rank, .node h attributes :: later => do
    let picture ← readBody rank later
    return { picture with nodes := (h, rank, attributes) :: picture.nodes }
  | none, .edge tail head attributes :: later => do
    let picture ← readBody none later
    return { picture with edges := (tail, head, attributes) :: picture.edges }
  | _, _ => none

def readGraph (lines : List String) : Option Picture := do
  match ← lines.mapM Record.read with
  | .graph :: later => readBody none later
  | _ => none

end Propositional.Arena
