import PatternSyntax.Proofs.Forward
import PatternSyntax.Proofs.Shapes
import PatternSyntax.Proofs.Spelling

/-!
Trees that are to be written down. A sketch has the tokens of a text, the outline that the grammar
should make of them, and the tree of the text without blanks.
-/

namespace PatternSyntax.Proofs.Sketches

open PatternSyntax.Proofs.Coverage
open PatternSyntax.Proofs.Forward
open PatternSyntax.Proofs.Lossless
open PatternSyntax.Proofs.Shapes
open PatternSyntax.Proofs.Spelling
open PatternSyntax.Proofs.Weave

/-- A tree over tokens to be written down. -/
inductive Sketch where
  | token (lexeme : Lexeme)
  /-- A node that is begun before its parts. -/
  | node (kind : NodeKind) (parts : List Sketch)
  /-- A node that is begun after its first part. -/
  | around (kind : NodeKind) (first : Sketch) (later : List Sketch)
deriving Repr, Inhabited

namespace Sketch

mutual

/-- The tokens of a sketch, from left to right. -/
def lexemes : Sketch → List Lexeme
  | token lexeme => [lexeme]
  | node _ parts => lexemesAll parts
  | around _ first later => first.lexemes ++ lexemesAll later

/-- The tokens of a row of sketches, from left to right. -/
def lexemesAll : List Sketch → List Lexeme
  | [] => []
  | part :: rest => part.lexemes ++ lexemesAll rest

end

mutual

def tree : Sketch → Tree
  | token lexeme => .leaf lexeme.kind lexeme.text
  | node kind parts => .node (.node kind) (treeAll parts)
  | around kind first later => .node (.node kind) (first.tree :: treeAll later)

/-- The trees of a row of sketches. -/
def treeAll : List Sketch → List Tree
  | [] => []
  | part :: rest => part.tree :: treeAll rest

end

mutual

/-- The outline that the grammar should make of a sketch. -/
def outline : Sketch → Outline
  | token lexeme => .token lexeme.kind
  | node kind parts => .node kind (outlineAll parts)
  | around kind first later => .around kind first.outline (outlineAll later)

/-- The outlines that the grammar should make of a row of sketches. -/
def outlineAll : List Sketch → List Outline
  | [] => []
  | part :: rest => part.outline :: outlineAll rest

end

mutual

theorem leaves_tree (sketch : Sketch) :
    sketch.tree.leaves = sketch.lexemes.map fun lexeme => (lexeme.kind, lexeme.text) := by
  cases sketch with
  | token lexeme => rfl
  | node kind parts => exact forestLeaves_treeAll parts
  | around kind first later =>
      rw [tree, Tree.leaves, Tree.forestLeaves, lexemes, List.map_append, leaves_tree first,
        forestLeaves_treeAll later]

theorem forestLeaves_treeAll (parts : List Sketch) :
    Tree.forestLeaves (treeAll parts) =
      (lexemesAll parts).map fun lexeme => (lexeme.kind, lexeme.text) := by
  cases parts with
  | nil => rfl
  | cons part rest =>
      rw [treeAll, Tree.forestLeaves, lexemesAll, List.map_append, leaves_tree part,
        forestLeaves_treeAll rest]

end

/-- No token is a blank or a comment. -/
def Visible (row : List Lexeme) : Prop :=
  ∀ lexeme ∈ row, lexeme.kind.isTrivia = false

mutual

theorem shape_tree (sketch : Sketch) (h : Visible sketch.lexemes) :
    shape sketch.tree = outlined sketch.outline := by
  cases sketch with
  | token lexeme =>
      rw [tree, shape, h lexeme List.mem_cons_self, if_neg Bool.false_ne_true]
      rfl
  | node kind parts => rw [tree, shape, outline, outlined, shapeAll_treeAll parts h]
  | around kind first later =>
      obtain ⟨hfirst, hlater⟩ := List.forall_mem_append.1 h
      rw [tree, shape, shapeAll, outline, outlined, shape_tree first hfirst,
        shapeAll_treeAll later hlater]

theorem shapeAll_treeAll (parts : List Sketch) (h : Visible (lexemesAll parts)) :
    shapeAll (treeAll parts) = outlinedAll (outlineAll parts) := by
  cases parts with
  | nil => rfl
  | cons part rest =>
      obtain ⟨hpart, hrest⟩ := List.forall_mem_append.1 h
      rw [treeAll, shapeAll, outlineAll, outlinedAll, shape_tree part hpart,
        shapeAll_treeAll rest hrest]

end

mutual

theorem hasError_outline (sketch : Sketch) : sketch.outline.hasError = false := by
  cases sketch with
  | token lexeme => rfl
  | node kind parts => exact hasErrorAll_outlineAll parts
  | around kind first later =>
      rw [outline, Outline.hasError, hasError_outline first, hasErrorAll_outlineAll later]
      rfl

theorem hasErrorAll_outlineAll (parts : List Sketch) :
    Outline.hasErrorAll (outlineAll parts) = false := by
  cases parts with
  | nil => rfl
  | cons part rest =>
      rw [outlineAll, Outline.hasErrorAll, hasError_outline part, hasErrorAll_outlineAll rest]
      rfl

end

mutual

theorem tokens_outline (sketch : Sketch) :
    sketch.outline.tokens = sketch.lexemes.map (·.kind) := by
  cases sketch with
  | token lexeme => rfl
  | node kind parts => exact tokensAll_outlineAll parts
  | around kind first later =>
      rw [outline, Outline.tokens, lexemes, List.map_append, tokens_outline first,
        tokensAll_outlineAll later]

theorem tokensAll_outlineAll (parts : List Sketch) :
    Outline.tokensAll (outlineAll parts) = (lexemesAll parts).map (·.kind) := by
  cases parts with
  | nil => rfl
  | cons part rest =>
      rw [outlineAll, Outline.tokensAll, lexemesAll, List.map_append, tokens_outline part,
        tokensAll_outlineAll rest]

end

end Sketch

theorem isTrivia_of_mem {row : List Lexeme} (h : Spelled row) : Sketch.Visible row := by
  induction h with
  | nil => exact nofun
  | cons hword _ ih => exact List.forall_mem_cons.2 ⟨isTrivia_of_solid hword.1, ih⟩
  | glue _ _ ih => exact List.forall_mem_cons.2 ⟨rfl, ih⟩

mutual

theorem leaves_bare (tree : Tree) :
    Tree.forestLeaves (bare tree) = tree.leaves.filter fun leaf => !leaf.1.isTrivia := by
  cases tree with
  | leaf kind text =>
      rw [bare, Tree.leaves, List.filter_cons]
      cases kind.isTrivia with
      | false => rfl
      | true => rfl
  | node kind children =>
      rw [bare, Tree.forestLeaves, Tree.leaves, Tree.leaves, Tree.forestLeaves, List.append_nil,
        forestLeaves_bareAll children]

theorem forestLeaves_bareAll (trees : List Tree) :
    Tree.forestLeaves (bareAll trees) =
      (Tree.forestLeaves trees).filter fun leaf => !leaf.1.isTrivia := by
  cases trees with
  | nil => rfl
  | cons tree rest =>
      rw [bareAll, forestLeaves_append, leaves_bare tree, forestLeaves_bareAll rest,
        Tree.forestLeaves, List.filter_append]

end

mutual

theorem shapeAll_bare (tree : Tree) : shapeAll (bare tree) = shape tree := by
  cases tree with
  | leaf kind text =>
      rw [bare, shape]
      split
      · rfl
      · rw [shapeAll, shape, if_neg ‹_›]
        rfl
  | node kind children =>
      rw [bare, shapeAll, shape, shape, shapeAll_bareAll children]
      rfl

theorem shapeAll_bareAll (trees : List Tree) : shapeAll (bareAll trees) = shapeAll trees := by
  cases trees with
  | nil => rfl
  | cons tree rest =>
      rw [bareAll, shapeAll_append, shapeAll_bare tree, shapeAll_bareAll rest, shapeAll]

end

/-- No leaf is a blank or a comment. -/
def Blankless (trees : List Tree) : Prop :=
  ∀ leaf ∈ Tree.forestLeaves trees, leaf.1.isTrivia = false

theorem shapeAll_leaf {kind : TokenKind} {text : String} {rest : List Tree}
    (h : Blankless (.leaf kind text :: rest)) :
    shapeAll (.leaf kind text :: rest) = .token kind :: shapeAll rest := by
  rw [shapeAll, shape, h (kind, text) List.mem_cons_self, if_neg Bool.false_ne_true]
  rfl

/-- Trees without blanks are known by their shapes and their leaves. What stands behind the leaves
only carries the induction. -/
theorem eq_of_shapeAll {trees others : List Tree} {back back' : List (TokenKind × String)}
    (htrees : Blankless trees) (hothers : Blankless others)
    (hshape : shapeAll trees = shapeAll others)
    (hleaves : Tree.forestLeaves trees ++ back = Tree.forestLeaves others ++ back') :
    trees = others ∧ back = back' := by
  match trees, others with
  | [], [] => exact ⟨rfl, hleaves⟩
  | [], .leaf _ _ :: _ =>
      rw [shapeAll_leaf hothers] at hshape
      cases hshape
  | [], .node _ _ :: _ => cases hshape
  | .leaf _ _ :: _, [] =>
      rw [shapeAll_leaf htrees] at hshape
      cases hshape
  | .node _ _ :: _, [] => cases hshape
  | .leaf _ _ :: _, .node _ _ :: _ =>
      rw [shapeAll_leaf htrees] at hshape
      cases hshape
  | .node _ _ :: _, .leaf _ _ :: _ =>
      rw [shapeAll_leaf hothers] at hshape
      cases hshape
  | .leaf kind text :: rest, .leaf kind' text' :: rest' =>
      rw [shapeAll_leaf htrees, shapeAll_leaf hothers] at hshape
      obtain ⟨hhead, hback⟩ := List.cons.inj hleaves
      obtain ⟨rfl, rfl⟩ := eq_of_shapeAll (List.forall_mem_cons.1 htrees).2
        (List.forall_mem_cons.1 hothers).2 (List.cons.inj hshape).2 hback
      cases hhead
      exact ⟨rfl, rfl⟩
  -- The shape tells which leaves are those of the first node.
  | .node kind children :: rest, .node kind' children' :: rest' =>
      obtain ⟨hchildren, hrest⟩ := List.forall_mem_append.1 htrees
      obtain ⟨hchildren', hrest'⟩ := List.forall_mem_append.1 hothers
      obtain ⟨hhead, htail⟩ := List.cons.inj hshape
      obtain ⟨rfl, hinner⟩ := Shape.node.inj hhead
      rw [Tree.forestLeaves, Tree.forestLeaves, List.append_assoc, List.append_assoc] at hleaves
      obtain ⟨rfl, hback⟩ := eq_of_shapeAll hchildren hchildren' hinner hleaves
      obtain ⟨rfl, rfl⟩ := eq_of_shapeAll hrest hrest' htail hback
      exact ⟨rfl, rfl⟩

/-- If the outline of a text is that of a sketch whose tokens the text spells, its tree without
blanks is the one of the sketch. -/
theorem bare_parse {s : Subject} {sketch : Sketch} (hspelled : Spelled sketch.lexemes)
    (a : Account s (String.ofList (spell sketch.lexemes))) (hparts : a.parts = [sketch.outline]) :
    bare a.parse.tree = [.node (.node .root) [sketch.tree]] := by
  have hsketch : Tree.forestLeaves [.node (.node .root) [sketch.tree]] =
      sketch.lexemes.map fun lexeme => (lexeme.kind, lexeme.text) := by
    rw [← sketch.leaves_tree]
    simp [Tree.forestLeaves, Tree.leaves]
  have hleaves : Tree.forestLeaves (bare a.parse.tree) =
      sketch.lexemes.map fun lexeme => (lexeme.kind, lexeme.text) := by
    rw [leaves_bare, leaves_parse, List.filter_map, ← map_tokensFrom _ 0,
      ← significant_tokenize hspelled]
    rfl
  have hvisible := isTrivia_of_mem hspelled
  have hblankless {trees : List Tree} (heq : Tree.forestLeaves trees =
      sketch.lexemes.map fun lexeme => (lexeme.kind, lexeme.text)) : Blankless trees := by
    unfold Blankless
    rw [heq]
    exact List.forall_mem_map.2 hvisible
  have hback : Tree.forestLeaves (bare a.parse.tree) ++ [] =
      Tree.forestLeaves [.node (.node .root) [sketch.tree]] ++ [] := by
    rw [hleaves, hsketch]
  refine (eq_of_shapeAll (hblankless hleaves) (hblankless hsketch) ?_ hback).1
  rw [shapeAll_bare, shape_parse, hparts, outlinedAll, ← sketch.shape_tree hvisible]
  rfl

variable {c mid stop : Cursor}

/-- From one place to another there are the tokens of a row. Whether they touch only counts if it is
to be exact. -/
inductive Lies (exact : Bool) : List Lexeme → Cursor → Cursor → Prop
  | nil (c : Cursor) : Lies exact [] c c
  | cons {lexeme : Lexeme} {row : List Lexeme} {index : Nat} {glued : Bool} {rest : List Terminal}
      {stop : Cursor} (hglued : exact = true → glued = lexeme.glued)
      (h : Lies exact row ⟨index + 1, rest⟩ stop) :
      Lies exact (lexeme :: row) ⟨index, ⟨lexeme.kind, glued⟩ :: rest⟩ stop

variable {exact : Bool}

theorem Lies.index_eq {row : List Lexeme} (h : Lies exact row c stop) :
    stop.index = c.index + row.length := by
  induction h with
  | nil => rfl
  | cons _ _ ih => exact ih.trans (Nat.add_right_comm _ _ _)

theorem Lies.rest_eq {row : List Lexeme} (h : Lies true row c stop) :
    c.rest = row.map Lexeme.terminal ++ stop.rest := by
  induction h with
  | nil => rfl
  | cons hglued _ ih =>
      cases hglued rfl
      exact congrArg _ ih

theorem lies_of_rest_eq (row : List Lexeme) {rest : List Terminal}
    (h : c.rest = row.map Lexeme.terminal ++ rest) :
    Lies true row c ⟨c.index + row.length, rest⟩ := by
  obtain ⟨index, tokens⟩ := c
  subst h
  induction row generalizing index with
  | nil => exact .nil _
  | cons lexeme row ih =>
      have hrow := ih (index + 1)
      rw [Nat.add_right_comm] at hrow
      exact .cons (fun _ => rfl) hrow

/-- From one place to another there are the tokens of a row of sketches. -/
def SpansBy (exact : Bool) (parts : List Sketch) (c stop : Cursor) : Prop :=
  Lies exact (Sketch.lexemesAll parts) c stop

/-- From one place to another there are the tokens of a row of sketches, and they touch as the
sketches say. -/
abbrev Spans : List Sketch → Cursor → Cursor → Prop :=
  SpansBy true

theorem Sketch.lexemesAll_append (front back : List Sketch) :
    lexemesAll (front ++ back) = lexemesAll front ++ lexemesAll back := by
  induction front with
  | nil => rfl
  | cons part front ih => rw [List.cons_append, lexemesAll, lexemesAll, ih, List.append_assoc]

theorem Sketch.lexemesAll_token (row : List Lexeme) : lexemesAll (row.map .token) = row := by
  induction row with
  | nil => rfl
  | cons lexeme row ih => rw [List.map_cons, lexemesAll, ih, lexemes, List.singleton_append]

theorem Sketch.outlineAll_append (front back : List Sketch) :
    outlineAll (front ++ back) = outlineAll front ++ outlineAll back := by
  induction front with
  | nil => rfl
  | cons part front ih => rw [List.cons_append, outlineAll, outlineAll, ih, List.cons_append]

theorem SpansBy.eq_of_nil (h : SpansBy exact [] c stop) : stop = c := by
  cases h
  rfl

theorem Lies.append {front back : List Lexeme} (h : Lies exact (front ++ back) c stop) :
    ∃ mid, Lies exact front c mid ∧ Lies exact back mid stop := by
  induction front generalizing c with
  | nil => exact ⟨c, .nil c, h⟩
  | cons lexeme front ih =>
      cases h with
      | cons hglued h =>
          obtain ⟨mid, hfront, hback⟩ := ih h
          exact ⟨mid, .cons hglued hfront, hback⟩

theorem SpansBy.append {front back : List Sketch} (h : SpansBy exact (front ++ back) c stop) :
    ∃ mid, SpansBy exact front c mid ∧ SpansBy exact back mid stop := by
  rw [SpansBy, Sketch.lexemesAll_append] at h
  exact h.append

theorem SpansBy.cons {part : Sketch} {rest : List Sketch}
    (h : SpansBy exact (part :: rest) c stop) :
    ∃ mid, SpansBy exact [part] c mid ∧ SpansBy exact rest mid stop :=
  SpansBy.append (show SpansBy exact ([part] ++ rest) c stop from h)

theorem SpansBy.passes {lexeme : Lexeme} (h : SpansBy exact [.token lexeme] c stop) :
    Passes lexeme.kind c stop := by
  cases h with
  | cons _ h =>
      cases h
      exact .intro _ _ _

theorem SpansBy.token_cons {lexeme : Lexeme} {rest : List Sketch}
    (h : SpansBy exact (.token lexeme :: rest) c stop) :
    ∃ mid, Passes lexeme.kind c mid ∧ SpansBy exact rest mid stop := by
  obtain ⟨mid, hpasses, hrest⟩ := h.cons
  exact ⟨mid, hpasses.passes, hrest⟩

theorem spans_singleton {sketch : Sketch} {parts : List Sketch}
    (hlexemes : sketch.lexemes = Sketch.lexemesAll parts) :
    SpansBy exact [sketch] c stop ↔ SpansBy exact parts c stop := by
  unfold SpansBy
  rw [Sketch.lexemesAll, Sketch.lexemesAll, List.append_nil, hlexemes]

theorem SpansBy.of_node {kind : NodeKind} {parts : List Sketch}
    (h : SpansBy exact [.node kind parts] c stop) : SpansBy exact parts c stop :=
  (spans_singleton rfl).1 h

theorem SpansBy.of_around {kind : NodeKind} {first : Sketch} {later : List Sketch}
    (h : SpansBy exact [.around kind first later] c stop) :
    ∃ mid, SpansBy exact [first] c mid ∧ SpansBy exact later mid stop :=
  SpansBy.cons ((spans_singleton rfl).1 h)

theorem Lies.rest_suffix {row : List Lexeme} (h : Lies exact row c stop) :
    stop.rest <:+ c.rest := by
  induction h with
  | nil => exact List.suffix_refl _
  | cons _ _ ih => exact ih.trans (List.suffix_cons _ _)

theorem SpansBy.length_le {parts : List Sketch} (h : SpansBy exact parts c stop) :
    stop.rest.length ≤ c.rest.length :=
  h.rest_suffix.length_le

theorem SpansBy.length_lt {lexeme : Lexeme} {rest : List Sketch}
    (h : SpansBy exact (.token lexeme :: rest) c stop) : stop.rest.length < c.rest.length := by
  obtain ⟨mid, hpasses, hrest⟩ := h.token_cons
  exact hrest.length_le.trans_lt hpasses.length_lt

/-- The first token of a sketch is of such a kind. -/
def Begins (p : TokenKind → Prop) (sketch : Sketch) : Prop :=
  ∃ first rest, sketch.lexemes = first :: rest ∧ p first.kind

theorem Begins.mono {p q : TokenKind → Prop} {sketch : Sketch} (h : Begins p sketch)
    (hpq : ∀ kind, p kind → q kind) : Begins q sketch := by
  obtain ⟨first, rest, hlexemes, hp⟩ := h
  exact ⟨first, rest, hlexemes, hpq _ hp⟩

theorem Begins.node {p : TokenKind → Prop} {kind : NodeKind} {first : Sketch} {rest : List Sketch}
    (h : Begins p first) : Begins p (.node kind (first :: rest)) := by
  obtain ⟨lexeme, later, hlexemes, hp⟩ := h
  exact ⟨lexeme, _, congrArg (· ++ _) hlexemes, hp⟩

theorem Begins.around {p : TokenKind → Prop} {kind : NodeKind} {first : Sketch}
    {later : List Sketch} (h : Begins p first) : Begins p (.around kind first later) := by
  obtain ⟨lexeme, rest, hlexemes, hp⟩ := h
  exact ⟨lexeme, _, congrArg (· ++ _) hlexemes, hp⟩

theorem SpansBy.begins {p : TokenKind → Prop} {first : Sketch} {rest : List Sketch}
    (h : SpansBy exact (first :: rest) c stop) (hfirst : Begins p first) :
    ∃ kind, nextKind c = some kind ∧ p kind := by
  obtain ⟨lexeme, later, hlexemes, hp⟩ := hfirst
  rw [SpansBy, Sketch.lexemesAll, hlexemes] at h
  cases h
  exact ⟨lexeme.kind, rfl, hp⟩

def Calm (c : Cursor) : Prop :=
  ∀ terminal ∈ c.rest, terminal.kind ≠ .atSign

theorem SpansBy.calm {parts : List Sketch} (h : SpansBy exact parts c stop) (hc : Calm c) :
    Calm stop :=
  fun terminal hmem => hc terminal (h.rest_suffix.subset hmem)

theorem Calm.passes {kind : TokenKind} (hc : Calm c) (h : Passes kind c stop) : Calm stop := by
  cases h
  exact (List.forall_mem_cons.1 hc).2

end PatternSyntax.Proofs.Sketches
