import PatternSyntax.Tree.Kind
import PatternSyntax.Token.Basic

/-!
The lossless tree: every token of the text is a leaf, blanks and comments too.
-/

namespace PatternSyntax

/-- A tree over the tokens of a text. -/
inductive Tree where
  | leaf (kind : TokenKind) (text : String)
  | node (kind : SyntaxKind) (children : List Tree)
deriving Repr, Inhabited

namespace Tree

/-- The kind of the topmost element. -/
def kind : Tree → SyntaxKind
  | leaf kind _ => .token kind
  | node kind _ => kind

mutual

/-- The length of the text below an element. -/
def width : Tree → Nat
  | leaf _ text => text.utf8ByteSize
  | node _ children => forestWidth children

/-- The length of the text below a row of elements. -/
def forestWidth : List Tree → Nat
  | [] => 0
  | tree :: rest => tree.width + forestWidth rest

end

mutual

/-- The tokens below an element, from left to right. -/
def leaves : Tree → List (TokenKind × String)
  | leaf kind text => [(kind, text)]
  | node _ children => forestLeaves children

/-- The tokens below a row of elements, from left to right. -/
def forestLeaves : List Tree → List (TokenKind × String)
  | [] => []
  | tree :: rest => tree.leaves ++ forestLeaves rest

end

/-- The text below an element. -/
def text (tree : Tree) : String :=
  String.join (tree.leaves.map (·.2))

end Tree

/-- An element of a tree, as a listing shows it. Only tokens have a text. -/
structure Row where
  depth : Nat
  kind : SyntaxKind
  start : Nat
  stop : Nat
  text? : Option String
deriving DecidableEq, Repr

namespace Tree

mutual

/-- An element that begins at `start` and all elements below it, each before what it holds. -/
def rowsFrom (depth start : Nat) : Tree → List Row
  | leaf kind text => [⟨depth, .token kind, start, start + text.utf8ByteSize, some text⟩]
  | node kind children =>
    ⟨depth, kind, start, start + forestWidth children, none⟩ ::
      forestRowsFrom (depth + 1) start children

/-- A row of elements, the first of which begins at `start`, and all elements below them. -/
def forestRowsFrom (depth start : Nat) : List Tree → List Row
  | [] => []
  | tree :: rest => rowsFrom depth start tree ++ forestRowsFrom depth (start + tree.width) rest

end

/-- All elements of a tree over a whole text, each before what it holds. -/
def rows (tree : Tree) : List Row :=
  rowsFrom 0 0 tree

end Tree

end PatternSyntax
