import PatternSyntax.Proofs.Weave

/-!
The leaves of the tree of a text are the tokens of the text, in their places.
-/

namespace PatternSyntax.Proofs.Lossless

open PatternSyntax.Proofs.Weave

/-- Tokens that stand one behind the other, the first one at the given offset. -/
def Adjoins (start : Nat) : List Token → Prop
  | [] => True
  | token :: rest => token.start = start ∧ Adjoins token.stop rest

theorem adjoins_place (start : Nat) (pieces : List (TokenKind × List Char)) :
    Adjoins start (Token.place start pieces) := by
  induction pieces generalizing start with
  | nil => trivial
  | cons piece rest ih => exact ⟨rfl, ih _⟩

theorem adjoins_tokenize (text : String) : Adjoins 0 (Token.tokenize text) :=
  adjoins_place 0 _

/-- A leaf with its kind, its ends and its text. -/
def leafRow? (row : Row) : Option (SyntaxKind × Nat × Nat × String) :=
  row.text?.map fun text => (row.kind, row.start, row.stop, text)

/-- Leaves that stand one behind the other, the first one at the given offset. -/
def placed (start : Nat) : List (TokenKind × String) → List (SyntaxKind × Nat × Nat × String)
  | [] => []
  | (kind, text) :: rest =>
    (.token kind, start, start + text.utf8ByteSize, text) ::
      placed (start + text.utf8ByteSize) rest

/-- The length of the texts of leaves. -/
def leavesWidth : List (TokenKind × String) → Nat
  | [] => 0
  | (_, text) :: rest => text.utf8ByteSize + leavesWidth rest

theorem placed_append (start : Nat) (front back : List (TokenKind × String)) :
    placed start (front ++ back) =
      placed start front ++ placed (start + leavesWidth front) back := by
  induction front generalizing start with
  | nil => rfl
  | cons leaf front ih =>
      obtain ⟨kind, text⟩ := leaf
      rw [List.cons_append, placed, placed, ih, leavesWidth, List.cons_append, Nat.add_assoc]

theorem leavesWidth_append (front back : List (TokenKind × String)) :
    leavesWidth (front ++ back) = leavesWidth front + leavesWidth back := by
  induction front with
  | nil => simp [leavesWidth]
  | cons leaf front ih => rw [List.cons_append, leavesWidth, leavesWidth, ih, Nat.add_assoc]

mutual

theorem width_eq (tree : Tree) : tree.width = leavesWidth tree.leaves := by
  cases tree with
  | leaf kind text => rfl
  | node kind children => exact forestWidth_eq children

theorem forestWidth_eq (trees : List Tree) :
    Tree.forestWidth trees = leavesWidth (Tree.forestLeaves trees) := by
  cases trees with
  | nil => rfl
  | cons tree rest =>
      rw [Tree.forestWidth, Tree.forestLeaves, leavesWidth_append, width_eq tree,
        forestWidth_eq rest]

end

mutual

theorem leafRows_rowsFrom (depth start : Nat) (tree : Tree) :
    (tree.rowsFrom depth start).filterMap leafRow? = placed start tree.leaves := by
  cases tree with
  | leaf kind text => rfl
  | node kind children => exact leafRows_forestRowsFrom (depth + 1) start children

theorem leafRows_forestRowsFrom (depth start : Nat) (trees : List Tree) :
    (Tree.forestRowsFrom depth start trees).filterMap leafRow? =
      placed start (Tree.forestLeaves trees) := by
  cases trees with
  | nil => rfl
  | cons tree rest =>
      rw [Tree.forestRowsFrom, Tree.forestLeaves, List.filterMap_append, placed_append,
        leafRows_rowsFrom depth start tree, leafRows_forestRowsFrom depth _ rest, width_eq]

end

theorem placed_of_adjoins {start : Nat} {tokens : List Token} (h : Adjoins start tokens) :
    placed start (tokens.map fun token => (token.kind, token.text)) =
      tokens.map fun token => (.token token.kind, token.start, token.stop, token.text) := by
  induction tokens generalizing start with
  | nil => rfl
  | cons token tokens ih =>
      obtain ⟨rfl, hrest⟩ := h
      rw [List.map_cons, List.map_cons, placed, ← ih hrest]
      rfl

theorem forestLeaves_append (front back : List Tree) :
    Tree.forestLeaves (front ++ back) = Tree.forestLeaves front ++ Tree.forestLeaves back := by
  induction front with
  | nil => rfl
  | cons tree front ih =>
      rw [List.cons_append, Tree.forestLeaves, Tree.forestLeaves, ih, List.append_assoc]

theorem forestLeaves_map_leafOf (tokens : List Token) :
    Tree.forestLeaves (tokens.map leafOf) = tokens.map fun token => (token.kind, token.text) := by
  induction tokens with
  | nil => rfl
  | cons token tokens ih => rw [List.map_cons, Tree.forestLeaves, ih, List.map_cons]; rfl

/-- No token is lost, made twice or moved between the elements of a row and what is behind them. -/
theorem leaves_of_weaves {i j : Nat} {tokens rest : List Token} {parts : List Outline}
    {trees : List Tree} (h : Weaves i tokens parts trees j rest) :
    Tree.forestLeaves trees ++ rest.map (fun token => (token.kind, token.text)) =
      tokens.map fun token => (token.kind, token.text) := by
  induction h with
  | nil => rfl
  | trivia _ _ _ ih => simpa [Tree.forestLeaves, Tree.leaves, leafOf] using ih
  | token _ _ ih => simpa [Tree.forestLeaves, Tree.leaves, leafOf] using ih
  | error _ _ ih => simpa [Tree.forestLeaves, Tree.leaves] using ih
  | node _ _ _ _ ihInner ih =>
      rw [Tree.forestLeaves, Tree.leaves, List.append_assoc, ih, ihInner]
  | around _ _ _ _ _ _ ihFirst ihInner ih =>
      rw [Tree.forestLeaves, Tree.leaves, Tree.forestLeaves, List.append_assoc, List.append_assoc,
        ih, ihInner, ← ihFirst]
      simp [Tree.forestLeaves]
  | loose _ _ ihInner ih => rw [forestLeaves_append, List.append_assoc, ih, ihInner]

theorem leaves_parse {s : Subject} {text : String} (a : Account s text) :
    a.parse.tree.leaves =
      (Token.tokenize text).map fun token => (token.kind, token.text) := by
  rw [← leaves_of_weaves a.weaves, ← forestLeaves_map_leafOf a.rest, ← forestLeaves_append]
  rfl

theorem text_parse {s : Subject} {text : String} (a : Account s text) :
    a.parse.tree.text = text := by
  apply String.toList_injective
  rw [Tree.text, leaves_parse, String.toList_join, ← Token.join_tokenize text]
  simp [List.flatMap, Function.comp_def]

/-- The tree of a text holds all its tokens: its leaves are the tokens in their order, each one once
and with its kind, its ends and its text, so that the texts of the leaves make up the text. -/
theorem leaves_eq_tokens (s : Subject) (text : String) :
    ∃ parse, Parse.ofText s text = .ok parse ∧
      parse.tree.leaves = (Token.tokenize text).map (fun token => (token.kind, token.text)) ∧
      parse.tree.rows.filterMap leafRow? =
        (Token.tokenize text).map (fun token =>
          (.token token.kind, token.start, token.stop, token.text)) ∧
      parse.tree.text = text := by
  obtain ⟨a, hparse⟩ := exists_account s text
  refine ⟨a.parse, hparse, leaves_parse a, ?_, text_parse a⟩
  rw [Tree.rows, leafRows_rowsFrom, leaves_parse, placed_of_adjoins (adjoins_tokenize text)]

end PatternSyntax.Proofs.Lossless
