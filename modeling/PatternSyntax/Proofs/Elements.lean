import PatternSyntax.Proofs.Lossless

/-!
The elements of a tree in preorder, with and without their offsets, and what holds for all of them.
-/

namespace PatternSyntax.Proofs.Elements

open PatternSyntax.Proofs.Coverage
open PatternSyntax.Proofs.Weave

mutual

/-- An element and all elements below it, each before what it holds. -/
def subtrees : Tree → List Tree
  | .leaf kind text => [.leaf kind text]
  | .node kind children => .node kind children :: subtreesAll children

/-- A row of elements and all elements below them. -/
def subtreesAll : List Tree → List Tree
  | [] => []
  | tree :: rest => subtrees tree ++ subtreesAll rest

end

mutual

/-- An element that begins at `start` and all elements below it, with their offsets. -/
def elements (start : Nat) : Tree → List (Nat × Tree)
  | .leaf kind text => [(start, .leaf kind text)]
  | .node kind children => (start, .node kind children) :: elementsAll start children

/-- A row of elements, the first of which begins at `start`, and all elements below them. -/
def elementsAll (start : Nat) : List Tree → List (Nat × Tree)
  | [] => []
  | tree :: rest => elements start tree ++ elementsAll (start + tree.width) rest

end

theorem subtreesAll_append (front back : List Tree) :
    subtreesAll (front ++ back) = subtreesAll front ++ subtreesAll back := by
  induction front with
  | nil => rfl
  | cons tree front ih =>
      rw [List.cons_append, subtreesAll, subtreesAll, ih, List.append_assoc]

theorem forestWidth_append (front back : List Tree) :
    Tree.forestWidth (front ++ back) = Tree.forestWidth front + Tree.forestWidth back := by
  induction front with
  | nil => simp [Tree.forestWidth]
  | cons tree front ih =>
      rw [List.cons_append, Tree.forestWidth, Tree.forestWidth, ih, Nat.add_assoc]

theorem elementsAll_append (start : Nat) (front back : List Tree) :
    elementsAll start (front ++ back) =
      elementsAll start front ++ elementsAll (start + Tree.forestWidth front) back := by
  induction front generalizing start with
  | nil => rfl
  | cons tree front ih =>
      rw [List.cons_append, elementsAll, elementsAll, ih, Tree.forestWidth, List.append_assoc,
        Nat.add_assoc]

mutual

theorem rowsFrom_eq_elements (depth start : Nat) (tree : Tree) :
    (tree.rowsFrom depth start).map (fun row => (row.kind, row.start, row.stop)) =
      (elements start tree).map fun element =>
        (element.2.kind, element.1, element.1 + element.2.width) := by
  cases tree with
  | leaf kind text => rfl
  | node kind children =>
      rw [Tree.rowsFrom, elements, List.map_cons, List.map_cons,
        forestRowsFrom_eq_elementsAll (depth + 1) start children]
      rfl

theorem forestRowsFrom_eq_elementsAll (depth start : Nat) (trees : List Tree) :
    (Tree.forestRowsFrom depth start trees).map (fun row => (row.kind, row.start, row.stop)) =
      (elementsAll start trees).map fun element =>
        (element.2.kind, element.1, element.1 + element.2.width) := by
  cases trees with
  | nil => rfl
  | cons tree rest =>
      rw [Tree.forestRowsFrom, elementsAll, List.map_append, List.map_append,
        rowsFrom_eq_elements depth start tree, forestRowsFrom_eq_elementsAll depth _ rest]

end

mutual

theorem elements_sorted (start : Nat) (tree : Tree) :
    (elements start tree).Pairwise (fun before behind => before.1 ≤ behind.1) ∧
      ∀ element ∈ elements start tree, start ≤ element.1 ∧ element.1 ≤ start + tree.width := by
  cases tree with
  | leaf kind text => simp [elements]
  | node kind children =>
      obtain ⟨hsorted, hbounds⟩ := elementsAll_sorted start children
      refine ⟨List.pairwise_cons.2 ⟨fun element helement => (hbounds element helement).1, hsorted⟩,
        fun element helement => ?_⟩
      rcases List.mem_cons.1 helement with rfl | hbelow
      · exact ⟨Nat.le_refl _, Nat.le_add_right _ _⟩
      · exact hbounds element hbelow

theorem elementsAll_sorted (start : Nat) (trees : List Tree) :
    (elementsAll start trees).Pairwise (fun before behind => before.1 ≤ behind.1) ∧
      ∀ element ∈ elementsAll start trees,
        start ≤ element.1 ∧ element.1 ≤ start + Tree.forestWidth trees := by
  cases trees with
  | nil => simp [elementsAll]
  | cons tree rest =>
      obtain ⟨hsorted, hbounds⟩ := elements_sorted start tree
      obtain ⟨hsorted', hbounds'⟩ := elementsAll_sorted (start + tree.width) rest
      refine ⟨List.pairwise_append.2 ⟨hsorted, hsorted', fun front hfront back hback =>
        (hbounds front hfront).2.trans (hbounds' back hback).1⟩, fun element helement => ?_⟩
      rw [Tree.forestWidth]
      rcases List.mem_append.1 helement with hfront | hback
      · have := hbounds element hfront
        omega
      · have := hbounds' element hback
        omega

end

mutual

/-- The nodes of an outline, each with what it holds. An error is a node that holds nothing. -/
def rows : Outline → List (NodeKind × List Outline)
  | .token _ => []
  | .error _ _ => [(.error, [])]
  | .node kind parts => (kind, parts) :: rowsAll parts
  | .around kind first later => (kind, first :: later) :: (rows first ++ rowsAll later)
  | .loose parts => rowsAll parts

/-- The nodes of a row of outlines, each with what it holds. -/
def rowsAll : List Outline → List (NodeKind × List Outline)
  | [] => []
  | part :: rest => rows part ++ rowsAll rest

end

/-- The elements are made of the row that a node holds. -/
def Woven (kind : NodeKind) (row : List Outline) (children : List Tree) : Prop :=
  (kind = .codeBlock → ∃ later, row = .token .openBrace :: later) ∧
    ∃ i tokens j rest, AtSignificant tokens ∧ Weaves i tokens row children j rest

/-- A node of a tree is made of one of the nodes. -/
def MadeOf (nodes : List (NodeKind × List Outline)) (kind : SyntaxKind) (children : List Tree) :
    Prop :=
  ∃ node row, kind = .node node ∧ (node, row) ∈ nodes ∧ Woven node row children

theorem MadeOf.mono {nodes nodes' : List (NodeKind × List Outline)} {kind : SyntaxKind}
    {children : List Tree} (h : MadeOf nodes kind children) (hsubset : nodes ⊆ nodes') :
    MadeOf nodes' kind children := by
  obtain ⟨node, row, hkind, hrow, hwoven⟩ := h
  exact ⟨node, row, hkind, hsubset hrow, hwoven⟩

theorem madeOf_of_weaves {i j : Nat} {tokens rest : List Token} {parts : List Outline}
    {trees : List Tree} (h : Weaves i tokens parts trees j rest) {kind : SyntaxKind}
    {children : List Tree} (hmem : .node kind children ∈ subtreesAll trees) :
    MadeOf (rowsAll parts) kind children := by
  induction h with
  | nil => simp [subtreesAll] at hmem
  | trivia _ _ _ ih =>
      simp only [subtreesAll, leafOf, subtrees, List.cons_append, List.nil_append, List.mem_cons,
        reduceCtorEq, false_or] at hmem
      exact ih hmem
  | token _ _ ih =>
      simp only [subtreesAll, leafOf, subtrees, List.cons_append, List.nil_append, List.mem_cons,
        reduceCtorEq, false_or] at hmem
      exact ih hmem
  | error hat _ ih =>
      rcases List.mem_cons.1 hmem with heq | hmem
      · cases heq
        exact ⟨.error, [], rfl, List.mem_cons_self, (by cases ·), 0, _, 0, _, hat, .nil _ _⟩
      · exact (ih hmem).mono (List.subset_cons_self _ _)
  | node hat hfits hinner _ ihInner ih =>
      rcases List.mem_append.1 hmem with hmem | hmem
      · rcases List.mem_cons.1 hmem with heq | hmem
        · cases heq
          exact ⟨_, _, rfl, List.mem_cons_self, hfits.2, _, _, _, _, hat, hinner⟩
        · exact (ihInner hmem).mono fun _ hrow =>
            List.mem_append_left _ (List.mem_cons_of_mem _ hrow)
      · exact (ih hmem).mono (List.subset_append_right _ _)
  -- The children are those of the first outline and of the later ones, as one row.
  | around hat hkind hfirst hhead hinner _ ihFirst ihInner ih =>
      rcases List.mem_append.1 hmem with hmem | hmem
      · rcases List.mem_cons.1 hmem with heq | hmem
        · cases heq
          exact ⟨_, _, rfl, List.mem_cons_self, fun heq => absurd heq hkind, _, _, _, _, hat,
            hhead.append hinner⟩
        · rcases List.mem_append.1 hmem with hmem | hmem
          · refine (ihFirst (by simpa [subtreesAll] using hmem)).mono fun _ hrow => ?_
            rw [rowsAll, rowsAll, List.append_nil] at hrow
            exact List.mem_append_left _ (List.mem_cons_of_mem _ (List.mem_append_left _ hrow))
          · exact (ihInner hmem).mono fun _ hrow =>
              List.mem_append_left _ (List.mem_cons_of_mem _ (List.mem_append_right _ hrow))
      · exact (ih hmem).mono (List.subset_append_right _ _)
  | loose _ _ ihInner ih =>
      rw [subtreesAll_append] at hmem
      rcases List.mem_append.1 hmem with hmem | hmem
      · exact (ihInner hmem).mono (List.subset_append_left _ _)
      · exact (ih hmem).mono (List.subset_append_right _ _)

theorem node_notMem_leaves (kind : SyntaxKind) (children : List Tree) (tokens : List Token) :
    .node kind children ∉ subtreesAll (tokens.map leafOf) := by
  induction tokens with
  | nil => simp [subtreesAll]
  | cons token tokens ih => simpa [subtreesAll, subtrees, leafOf] using ih

theorem node_mem_trees {s : Subject} {text : String} (a : Account s text) {kind : SyntaxKind}
    {children : List Tree} (hmem : .node kind children ∈ subtrees a.parse.tree) :
    (kind = .node .root ∧ children = a.trees ++ a.rest.map leafOf) ∨
      .node kind children ∈ subtreesAll a.trees := by
  rcases List.mem_cons.1 hmem with heq | hmem
  · cases heq
    exact .inl ⟨rfl, rfl⟩
  · rw [subtreesAll_append] at hmem
    exact .inr ((List.mem_append.1 hmem).resolve_right (node_notMem_leaves _ _ _))

end PatternSyntax.Proofs.Elements
