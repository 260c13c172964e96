/-!
# Trees as text

A tree of lines, drawn with one line for each node. A child hangs under its
parent on a branch, and the last child of a parent on a corner; the children
of the root are not set in further than their branches.
-/

namespace ConvergentStore.Text

/-- A line with the lines that explain it. -/
inductive Tree where
  | node (title : String) (children : List Tree)

namespace Tree

/-- A line that nothing explains. -/
def leaf (title : String) : Tree := .node title []

/-- A line that one other line explains. -/
def chain (title : String) (child : Tree) : Tree := .node title [child]

mutual

/-- The lines below a tree's title, each after the given margin. -/
def lines (margin : String) : Tree → List String
  | .node _ children => forest margin children

/-- The lines of trees that hang side by side. -/
def forest (margin : String) : List Tree → List String
  | [] => []
  | [.node title children] =>
      (margin ++ "└─ " ++ title) :: lines (margin ++ "   ") (.node title children)
  | .node title children :: second :: rest =>
      (margin ++ "├─ " ++ title) ::
        (lines (margin ++ "│  ") (.node title children) ++
          forest margin (second :: rest))

end

/-- The drawing of a tree. -/
def draw : Tree → String
  | .node title children => "\n".intercalate (title :: forest "" children)

end Tree

end ConvergentStore.Text
