import PatternSyntax.Text.CharClass
import PatternSyntax.Text.Quoted
import PatternSyntax.Tree.Basic

/-!
The listing of a tree: one line for each element, indented by its depth.
-/

namespace PatternSyntax

/-- How far a level of depth is indented. -/
def Row.indent (depth : Nat) : String :=
  String.ofList (List.replicate (2 * depth) ' ')

/-- One line of a listing: kind, range, and the text of a token between quotes, in which the
`hidden` characters are numbered. -/
def Row.line (hidden : Char → Bool) (row : Row) : String :=
  Row.indent row.depth ++ row.kind.name ++ "@" ++ toString row.start ++ ".." ++
    toString row.stop ++
    (match row.text? with
      | some text => " " ++ Text.Quoted.encode hidden text
      | none => "") ++
    "\n"

/-- The listing of a tree in which the `hidden` characters are numbered. -/
def Tree.listingBy (hidden : Char → Bool) (tree : Tree) : String :=
  String.join (tree.rows.map (Row.line hidden))

/-- The listing of a tree. -/
def Tree.listing (tree : Tree) : String :=
  tree.listingBy Text.isHidden

end PatternSyntax
