import PatternSyntax.Proofs.Lossless

/-!
What is left of a tree without blanks and comments, and without the texts of tokens. The outline of
a text alone decides about it.
-/

namespace PatternSyntax.Proofs.Shapes

open PatternSyntax.Proofs.Lossless
open PatternSyntax.Proofs.Weave

/-- A tree over the kinds of significant tokens. -/
inductive Shape where
  | token (kind : TokenKind)
  | node (kind : SyntaxKind) (children : List Shape)
deriving Repr, Inhabited

mutual

/-- The shape of an element. Blanks and comments have none. -/
def shape : Tree → List Shape
  | .leaf kind _ => if kind.isTrivia then [] else [.token kind]
  | .node kind children => [.node kind (shapeAll children)]

/-- The shapes of a row of elements. -/
def shapeAll : List Tree → List Shape
  | [] => []
  | tree :: rest => shape tree ++ shapeAll rest

end

mutual

/-- An element without the blanks and comments below it. Blanks and comments leave nothing. -/
def bare : Tree → List Tree
  | .leaf kind text => if kind.isTrivia then [] else [.leaf kind text]
  | .node kind children => [.node kind (bareAll children)]

/-- A row of elements without blanks and comments. -/
def bareAll : List Tree → List Tree
  | [] => []
  | tree :: rest => bare tree ++ bareAll rest

end

mutual

/-- The shape that an outline gives to the elements that are made of it. -/
def outlined : Outline → List Shape
  | .token kind => [.token kind]
  | .error _ _ => [.node (.node .error) []]
  | .node kind parts => [.node (.node kind) (outlinedAll parts)]
  | .around kind first later => [.node (.node kind) (outlined first ++ outlinedAll later)]
  | .loose parts => outlinedAll parts

/-- The shapes that a row of outlines gives to the elements that are made of it. -/
def outlinedAll : List Outline → List Shape
  | [] => []
  | part :: rest => outlined part ++ outlinedAll rest

end

theorem shapeAll_append (front back : List Tree) :
    shapeAll (front ++ back) = shapeAll front ++ shapeAll back := by
  induction front with
  | nil => rfl
  | cons tree front ih => rw [List.cons_append, shapeAll, shapeAll, ih, List.append_assoc]

theorem bareAll_append (front back : List Tree) :
    bareAll (front ++ back) = bareAll front ++ bareAll back := by
  induction front with
  | nil => rfl
  | cons tree front ih => rw [List.cons_append, bareAll, bareAll, ih, List.append_assoc]

theorem outlinedAll_append (front back : List Outline) :
    outlinedAll (front ++ back) = outlinedAll front ++ outlinedAll back := by
  induction front with
  | nil => rfl
  | cons part front ih => rw [List.cons_append, outlinedAll, outlinedAll, ih, List.append_assoc]

theorem forall_mem_outlinedAll {Q : Shape → Prop} {parts : List Outline} :
    (∀ shape ∈ outlinedAll parts, Q shape) ↔ ∀ part ∈ parts, ∀ shape ∈ outlined part, Q shape := by
  induction parts with
  | nil => exact iff_of_true nofun nofun
  | cons part rest ih => rw [outlinedAll, List.forall_mem_append, ih, List.forall_mem_cons]

theorem shapeAll_leaves {tokens : List Token}
    (htrivia : ∀ token ∈ tokens, token.kind.isTrivia = true) :
    shapeAll (tokens.map leafOf) = [] := by
  induction tokens with
  | nil => rfl
  | cons token tokens ih =>
      rw [List.forall_mem_cons] at htrivia
      rw [List.map_cons, shapeAll, leafOf, shape, if_pos htrivia.1, ih htrivia.2, List.nil_append]

theorem shapeAll_of_weaves {i j : Nat} {tokens rest : List Token} {parts : List Outline}
    {trees : List Tree} (h : Weaves i tokens parts trees j rest) :
    shapeAll trees = outlinedAll parts := by
  induction h with
  | nil => rfl
  | trivia htrivia _ _ ih =>
      rw [shapeAll, leafOf, shape, if_pos htrivia, ih, List.nil_append]
  | token hkind _ ih =>
      rw [shapeAll, leafOf, shape, hkind, ih, outlinedAll, outlined, if_neg Bool.false_ne_true]
  | error _ _ ih => rw [shapeAll, shape, ih, outlinedAll, outlined, shapeAll]
  | node _ _ _ _ ihInner ih => rw [shapeAll, shape, ihInner, ih, outlinedAll, outlined]
  | around _ _ _ _ _ _ ihFirst ihInner ih =>
      rw [shapeAll, shapeAll, outlinedAll, outlinedAll, List.append_nil, List.append_nil] at ihFirst
      rw [shapeAll, shape, shapeAll, ihFirst, ihInner, ih, outlinedAll, outlined]
  | loose _ _ ihInner ih => rw [shapeAll_append, ihInner, ih, outlinedAll, outlined]

theorem shape_parse {s : Subject} {text : String} (a : Account s text) :
    shape a.parse.tree = [.node (.node .root) (outlinedAll a.parts)] := by
  rw [Account.parse, shape, shapeAll_append, shapeAll_of_weaves a.weaves,
    shapeAll_leaves a.trivia, List.append_nil]

end PatternSyntax.Proofs.Shapes
