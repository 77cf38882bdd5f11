/-!
Joining texts.
-/

namespace PatternSyntax.Text

/-- The items in order, with `separator` between each two. -/
def join (separator : String) : List String → String
  | [] => ""
  | [item] => item
  | item :: rest => item ++ separator ++ join separator rest

theorem join_cons_cons (separator item other : String) (rest : List String) :
    join separator (item :: other :: rest) =
      item ++ separator ++ join separator (other :: rest) :=
  rfl

end PatternSyntax.Text
