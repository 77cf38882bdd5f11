import Mathlib.Data.List.DropRight
import PatternSyntax.Proofs.Grafts
import PatternSyntax.Proofs.Growing
import PatternSyntax.Proofs.Shapes

/-!
From the brackets of a recording to its tree. What the brackets spell is a row of trees over the
significant tokens; the blanks and comments of the text are put in front of its elements.
-/

namespace PatternSyntax.Proofs.Dressing

open PatternSyntax.Proofs.Grafts
open PatternSyntax.Proofs.Growing
open PatternSyntax.Proofs.Lossless
open PatternSyntax.Proofs.Shapes
open PatternSyntax.Proofs.Weave

def word (token : Token) : TokenKind × String :=
  (token.kind, token.text)

mutual

/-- An element over significant tokens with the blanks and comments before it and inside of it, and
the tokens behind it. -/
def dress (tokens : List Token) : Tree → List Tree × List Token
  | .leaf kind text =>
    ((tokens.takeWhile (·.kind.isTrivia)).map leafOf ++ [.leaf kind text],
      (tokens.dropWhile (·.kind.isTrivia)).tail)
  | .node kind children =>
    let inner := dressAll (tokens.dropWhile (·.kind.isTrivia)) children
    ((tokens.takeWhile (·.kind.isTrivia)).map leafOf ++ [.node kind inner.1], inner.2)

/-- A row of elements with the blanks and comments before and inside of its elements, and the tokens
behind the row. -/
def dressAll (tokens : List Token) : List Tree → List Tree × List Token
  | [] => ([], tokens)
  | tree :: rest =>
    let first := dress tokens tree
    let later := dressAll first.2 rest
    (first.1 ++ later.1, later.2)

end

/-- The tree of a text. Blanks and comments behind its last element belong to it. -/
def dressRoot (tokens : List Token) (kind : SyntaxKind) (children : List Tree) : Tree :=
  let inner := dressAll tokens children
  .node kind (inner.1 ++ (inner.2.takeWhile (·.kind.isTrivia)).map leafOf)

theorem bareAll_blanks (tokens : List Token) :
    bareAll ((tokens.takeWhile (·.kind.isTrivia)).map leafOf) = [] := by
  induction tokens with
  | nil => rfl
  | cons token tokens ih =>
      rw [List.takeWhile_cons]
      split
      · rw [List.map_cons, bareAll, leafOf, bare, if_pos ‹_›, ih, List.nil_append]
      · rfl

theorem exists_dropWhile_eq {tokens : List Token} {leaf : TokenKind × String}
    {later : List (TokenKind × String)}
    (h : leaf :: later = (Token.significant tokens).map word) :
    ∃ token rest, tokens.dropWhile (·.kind.isTrivia) = token :: rest ∧
      token.kind.isTrivia = false ∧ leaf = word token ∧
      later = (Token.significant rest).map word := by
  rw [← significant_dropWhile] at h
  cases hdrop : tokens.dropWhile (·.kind.isTrivia) with
  | nil => rw [hdrop] at h; cases h
  | cons token rest =>
      have hkind : token.kind.isTrivia = false :=
        atSignificant_dropWhile tokens token (by rw [hdrop]; rfl)
      rw [hdrop, Token.significant, List.filter_cons_of_pos (by simp [hkind]), List.map_cons,
        List.cons.injEq] at h
      exact ⟨token, rest, rfl, hkind, h.1, h.2⟩

mutual

theorem bareAll_dress {tokens : List Token} {later : List (TokenKind × String)} (tree : Tree)
    (h : tree.leaves ++ later = (Token.significant tokens).map word) :
    bareAll (dress tokens tree).1 = [tree] ∧
      later = (Token.significant (dress tokens tree).2).map word := by
  cases tree with
  | leaf kind text =>
      obtain ⟨token, rest, hdrop, hkind, hleaf, hlater⟩ := exists_dropWhile_eq h
      cases hleaf
      refine ⟨?_, by rw [dress, hdrop]; exact hlater⟩
      rw [dress, bareAll_append, bareAll_blanks, bareAll, bare, if_neg (by simp [hkind])]
      rfl
  | node kind children =>
      rw [Tree.leaves, ← significant_dropWhile] at h
      obtain ⟨hinner, hlater⟩ := bareAll_dressAll children h
      refine ⟨?_, by rw [dress]; exact hlater⟩
      rw [dress, bareAll_append, bareAll_blanks, bareAll, bare, hinner]
      rfl

theorem bareAll_dressAll {tokens : List Token} {later : List (TokenKind × String)}
    (trees : List Tree)
    (h : Tree.forestLeaves trees ++ later = (Token.significant tokens).map word) :
    bareAll (dressAll tokens trees).1 = trees ∧
      later = (Token.significant (dressAll tokens trees).2).map word := by
  cases trees with
  | nil => exact ⟨rfl, h⟩
  | cons tree rest =>
      rw [Tree.forestLeaves, List.append_assoc] at h
      obtain ⟨hfirst, hmid⟩ := bareAll_dress tree h
      obtain ⟨hrest, hlater⟩ := bareAll_dressAll rest hmid
      refine ⟨?_, by rw [dressAll]; exact hlater⟩
      rw [dressAll, bareAll_append, hfirst, hrest]
      rfl

end

theorem bare_dressRoot {tokens : List Token} {later : List (TokenKind × String)}
    {trees : List Tree} (kind : SyntaxKind)
    (h : Tree.forestLeaves trees ++ later = (Token.significant tokens).map word) :
    bare (dressRoot tokens kind trees) = [.node kind trees] := by
  rw [dressRoot, bare, bareAll_append, bareAll_blanks, (bareAll_dressAll trees h).1,
    List.append_nil]

/-- The brackets between which the children of a node stand. A child that has a number can be
wrapped: the node with the number is this child, and it has no link. -/
inductive Spells (events : List Event) (nodes : List CompletedNode) :
    List Mark → List Child → Prop
  | nil : Spells events nodes [] []
  | token {kind : TokenKind} {text : String} {row : List Mark} {children : List Child} :
      Spells events nodes row children →
      Spells events nodes (.token kind :: row) (⟨.leaf kind text, none⟩ :: children)
  | error {found : SyntaxError} {row : List Mark} {children : List Child} :
      Spells events nodes row children →
      Spells events nodes (.error found :: row) (⟨.node (.node .error) [], none⟩ :: children)
  | ghost {place : Nat} {row : List Mark} {children : List Child} :
      events[place]? = some .placeholder → Spells events nodes row children →
      Spells events nodes (.opening place :: row) children
  | node {place : Nat} {kind : SyntaxKind} {link number? : Option Nat} {inner row : List Mark}
      {grandchildren children : List Child} :
      events[place]? = some (.start kind link) →
      (∀ number ∈ number?, link = none ∧ nodes[number]? = some ⟨place, kind⟩) →
      Spells events nodes inner grandchildren → Spells events nodes row children →
      Spells events nodes (.opening place :: (inner ++ .closing :: row))
        (⟨.node kind (grandchildren.map (·.tree)), number?⟩ :: children)

namespace Spells

variable {events events' : List Event} {nodes nodes' : List CompletedNode}

theorem append {front back : List Mark} {before later : List Child}
    (hfront : Spells events nodes front before) (hback : Spells events nodes back later) :
    Spells events nodes (front ++ back) (before ++ later) := by
  induction hfront with
  | nil => exact hback
  | token _ ih => exact .token ih
  | error _ ih => exact .error ih
  | ghost hplace _ ih => exact .ghost hplace ih
  | node hplace hnumber hinner _ _ ih =>
      rw [List.cons_append, List.append_assoc]
      exact .node hplace hnumber hinner ih

theorem keep {row : List Mark} {children : List Child} (h : Spells events nodes row children)
    (hevents : ∀ place ∈ places row, ∀ event, events[place]? = some event →
      events'[place]? = some event)
    (hnodes : ∀ (number : Nat) (node : CompletedNode), nodes[number]? = some node →
      nodes'[number]? = some node) :
    Spells events' nodes' row children := by
  induction h with
  | nil => exact .nil
  | token _ ih => exact .token (ih hevents)
  | error _ ih => exact .error (ih hevents)
  | ghost hplace _ ih =>
      rw [places, List.forall_mem_cons] at hevents
      exact .ghost (hevents.1 _ hplace) (ih hevents.2)
  | node hplace hnumber _ _ ihInner ih =>
      rw [places, places_append, List.forall_mem_cons, List.forall_mem_append] at hevents
      refine .node (hevents.1 _ hplace) (fun number hmem => ?_) (ihInner hevents.2.1)
        (ih hevents.2.2)
      exact ⟨(hnumber number hmem).1, hnodes _ _ (hnumber number hmem).2⟩

theorem children_eq_nil {children : List Child} (h : Spells events nodes [] children) :
    children = [] := by
  cases h
  rfl

theorem split {row : List Mark} {before later : List Child} {tree : Tree} {number : Nat}
    (h : Spells events nodes row (before ++ ⟨tree, some number⟩ :: later)) :
    ∃ front inner back place kind grandchildren,
      row = front ++ .opening place :: (inner ++ .closing :: back) ∧
      tree = .node kind (grandchildren.map (·.tree)) ∧
      events[place]? = some (.start kind none) ∧ nodes[number]? = some ⟨place, kind⟩ ∧
      Spells events nodes front before ∧ Spells events nodes inner grandchildren ∧
      Spells events nodes back later := by
  generalize hchildren : before ++ ⟨tree, some number⟩ :: later = children at h
  induction h generalizing before with
  | nil => simp at hchildren
  | token hrest ih =>
      rcases List.append_eq_cons_iff.1 hchildren with ⟨rfl, heq⟩ | ⟨before, rfl, rfl⟩
      · cases heq
      · obtain ⟨front, inner, back, place, kind, grandchildren, rfl, htree, hplace, hnode, hfront,
          hinner, hback⟩ := ih rfl
        exact ⟨_ :: front, inner, back, place, kind, grandchildren, rfl, htree, hplace, hnode,
          .token hfront, hinner, hback⟩
  | error hrest ih =>
      rcases List.append_eq_cons_iff.1 hchildren with ⟨rfl, heq⟩ | ⟨before, rfl, rfl⟩
      · cases heq
      · obtain ⟨front, inner, back, place, kind, grandchildren, rfl, htree, hplace, hnode, hfront,
          hinner, hback⟩ := ih rfl
        exact ⟨_ :: front, inner, back, place, kind, grandchildren, rfl, htree, hplace, hnode,
          .error hfront, hinner, hback⟩
  -- A node that was given up has no child of its own, so that its bracket goes with the front.
  | ghost hghost hrest ih =>
      obtain ⟨front, inner, back, place, kind, grandchildren, rfl, htree, hplace, hnode, hfront,
        hinner, hback⟩ := ih hchildren
      exact ⟨_ :: front, inner, back, place, kind, grandchildren, rfl, htree, hplace, hnode,
        .ghost hghost hfront, hinner, hback⟩
  | @node place kind link number? inner row grandchildren children hplace hnumber hinner hrest _
      ih =>
      rcases List.append_eq_cons_iff.1 hchildren with ⟨rfl, heq⟩ | ⟨before, rfl, rfl⟩
      · cases heq
        obtain ⟨rfl, hnode⟩ := hnumber number rfl
        exact ⟨[], inner, row, place, kind, grandchildren, rfl, rfl, hplace, hnode, .nil, hinner,
          hrest⟩
      · obtain ⟨front, inner', back, place', kind', grandchildren', rfl, htree, hplace', hnode,
          hfront, hinner', hback⟩ := ih rfl
        refine ⟨_ :: (inner ++ .closing :: front), inner', back, place', kind', grandchildren', ?_,
          htree, hplace', hnode, .node hplace hnumber hinner hfront, hinner', hback⟩
        rw [List.cons_append, List.append_assoc, List.cons_append]

end Spells

def errorsOf : List Mark → List SyntaxError
  | [] => []
  | .error found :: rest => found :: errorsOf rest
  | _ :: rest => errorsOf rest

@[simp] theorem errorsOf_opening (place : Nat) (row : List Mark) :
    errorsOf (.opening place :: row) = errorsOf row :=
  rfl

@[simp] theorem errorsOf_append (front back : List Mark) :
    errorsOf (front ++ back) = errorsOf front ++ errorsOf back := by
  induction front with
  | nil => rfl
  | cons mark front ih => cases mark <;> simp [errorsOf, ih]

section Run

variable {events : List Event} {nodes : List CompletedNode}

theorem step_token_of_dropWhile {b : Builder} {token : Token} {rest : List Token}
    (h : b.pending.dropWhile (·.kind.isTrivia) = token :: rest) :
    b.step (.token token.kind) = .ok (after b.takeTrivia [leafOf token] rest []) := by
  simp [Builder.step, takeTrivia_eq, after, h, Builder.add, leafOf]

theorem foldlM_spells {row : List Mark} {children : List Child} {b : Builder}
    {later : List (TokenKind × String)} (h : Spells events nodes row children)
    (houter : b.outer ≠ [])
    (hleaves : Tree.forestLeaves (children.map (·.tree)) ++ later =
      (Token.significant b.pending).map word) :
    (row.flatMap (markSteps (kindAt events))).foldlM Builder.step b =
      .ok (after b (dressAll b.pending (children.map (·.tree))).1
        (dressAll b.pending (children.map (·.tree))).2 (errorsOf row)) := by
  -- The leaves that are still to come say which token is taken next.
  induction h generalizing b later with
  | nil => rfl
  | @token kind text row children _ ih =>
      obtain ⟨token, rest, hdrop, hkind, hleaf, hlater⟩ := exists_dropWhile_eq hleaves
      cases hleaf
      rw [List.flatMap_cons, markSteps, List.cons_append,
        foldlM_cons_ok (step_token_of_dropWhile hdrop), List.nil_append,
        ih (b := after b.takeTrivia [leafOf token] rest []) houter hlater, takeTrivia_eq,
        after_after, after_after]
      simp [dressAll, dress, hdrop, errorsOf, after, leafOf]
  | @error found row children _ ih =>
      have hlater : Tree.forestLeaves (children.map (·.tree)) ++ later =
          (Token.significant (b.pending.dropWhile (·.kind.isTrivia))).map word := by
        rw [significant_dropWhile]
        exact hleaves
      rw [List.flatMap_cons, markSteps, List.cons_append, foldlM_cons_ok (by rfl), List.nil_append]
      refine (ih (b := after b.takeTrivia [.node (.node .error) []] b.takeTrivia.pending [found])
        houter hlater).trans ?_
      rw [takeTrivia_eq, after_after, after_after]
      simp [dressAll, dress, errorsOf, after]
  | ghost hplace _ ih =>
      rw [List.flatMap_cons, markSteps, kindAt, hplace]
      exact ih houter hleaves
  | @node place kind link number? inner row grandchildren children hplace _ _ _ ihInner ih =>
      rw [List.map_cons, Tree.forestLeaves, Tree.leaves, List.append_assoc,
        ← significant_dropWhile] at hleaves
      obtain ⟨-, hlater⟩ := bareAll_dressAll _ hleaves
      have hinner := ihInner (b := b.takeTrivia.openAll [kind]) (List.cons_ne_nil _ _) hleaves
      rw [openAll_pending] at hinner
      rw [List.flatMap_cons, markSteps, kindAt, hplace, List.flatMap_append, List.flatMap_cons]
      simp only [Option.toList_some, List.map_cons, List.map_nil, List.cons_append, List.nil_append]
      rw [foldlM_cons_ok (step_openAll houter _), foldlM_append_ok hinner, markSteps,
        List.cons_append, List.nil_append,
        foldlM_cons_ok (step_close (b := b.takeTrivia) houter _ _ _ _)]
      refine (ih (b := after b.takeTrivia _ _ _) houter hlater).trans ?_
      rw [takeTrivia_eq, after_after, after_after]
      simp [dressAll, dress, errorsOf, errorsOf_append, after]

/-- Every node is opened inside another one, if as many are open before as given. -/
def Nested : Nat → List BuildStep → Prop
  | _, [] => True
  | depth, .openAll kinds :: rest => 0 < depth ∧ Nested (depth + kinds.length) rest
  | depth, .close :: rest => Nested (depth - 1) rest
  | depth, .token _ :: rest => Nested depth rest
  | depth, .error _ :: rest => Nested depth rest

theorem nested_spells {row : List Mark} {children : List Child} {depth : Nat}
    {rest : List BuildStep} (h : Spells events nodes row children) (hdepth : 0 < depth)
    (hrest : Nested depth rest) :
    Nested depth (row.flatMap (markSteps (kindAt events)) ++ rest) := by
  induction h generalizing depth rest with
  | nil => exact hrest
  | token _ ih | error _ ih => exact ih hdepth hrest
  | ghost hplace _ ih =>
      rw [List.flatMap_cons, markSteps, kindAt, hplace]
      exact ih hdepth hrest
  | node hplace _ _ _ ihInner ih =>
      rw [List.flatMap_cons, markSteps, kindAt, hplace, List.flatMap_append, List.flatMap_cons,
        List.append_assoc, List.append_assoc, List.append_assoc]
      exact ⟨hdepth, ihInner (Nat.succ_pos _) (ih hdepth hrest)⟩

theorem nested_map_openAll {kinds : List SyntaxKind} {depth : Nat} {rest : List BuildStep}
    (h : Nested depth ((kinds.map fun kind => .openAll [kind]) ++ rest)) :
    (kinds ≠ [] → 0 < depth) ∧ Nested (depth + kinds.length) rest := by
  induction kinds generalizing depth with
  | nil => exact ⟨fun hne => (hne rfl).elim, h⟩
  | cons kind kinds ih =>
      obtain ⟨-, hrest⟩ := ih h.2
      exact ⟨fun _ => h.1, by rwa [List.length_cons, Nat.add_comm kinds.length, ← Nat.add_assoc]⟩

theorem takeTrivia_takeTrivia_openAll (b : Builder) (kind : SyntaxKind) :
    (b.takeTrivia.openAll [kind]).takeTrivia = b.takeTrivia.openAll [kind] := by
  have hsame : (b.pending.dropWhile (·.kind.isTrivia)).dropWhile (·.kind.isTrivia) =
      b.pending.dropWhile (·.kind.isTrivia) := List.dropWhile_idempotent _ _
  have hnone : (b.pending.dropWhile (·.kind.isTrivia)).takeWhile (·.kind.isTrivia) = [] := by
    have happend := List.takeWhile_append_dropWhile (p := (·.kind.isTrivia))
      (l := b.pending.dropWhile (·.kind.isTrivia))
    rw [hsame] at happend
    simpa using happend
  simp [Builder.takeTrivia, Builder.openAll, hnone, hsame]

theorem foldlM_map_openAll {b : Builder} (houter : b.outer ≠ []) (kind : SyntaxKind)
    (kinds : List SyntaxKind) :
    ((kind :: kinds).map fun kind => BuildStep.openAll [kind]).foldlM Builder.step b =
      .ok (b.takeTrivia.openAll (kind :: kinds)) := by
  rw [List.map_cons, foldlM_cons_ok (step_openAll houter _)]
  induction kinds generalizing b kind with
  | nil => rfl
  | cons next kinds ih =>
      have hopen : (b.takeTrivia.openAll [kind]).outer ≠ [] := List.cons_ne_nil _ _
      rw [List.map_cons, foldlM_cons_ok (step_openAll hopen _), ih hopen,
        takeTrivia_takeTrivia_openAll]
      rfl

theorem length_outer_openAll (b : Builder) (kinds : List SyntaxKind) :
    (b.openAll kinds).outer.length = b.outer.length + kinds.length := by
  induction kinds generalizing b with
  | nil => rfl
  | cons kind kinds ih =>
      refine (ih _).trans ?_
      rw [List.length_cons, List.length_cons, Nat.add_assoc, Nat.add_comm 1]

theorem length_outer_of_close {b mid : Builder} (h : b.step .close = .ok mid) :
    mid.outer.length = b.outer.length - 1 := by
  have houter : (if b.outer.length = 1 then b.takeTrivia else b).outer = b.outer := by
    split <;> rfl
  simp only [Builder.step, houter] at h
  split at h
  · cases h
  · cases h
    rw [‹b.outer = _›, List.length_cons, Nat.add_sub_cancel]

theorem outer_of_token {b mid : Builder} {kind : TokenKind} (h : b.step (.token kind) = .ok mid) :
    mid.outer = b.outer := by
  simp only [Builder.step] at h
  split at h
  · split at h
    · cases h
      rfl
    · cases h
  · cases h

theorem foldlM_cons_congr {step : BuildStep} {b : Builder} {steps others : List BuildStep}
    (h : ∀ mid, b.step step = .ok mid →
      steps.foldlM Builder.step mid = others.foldlM Builder.step mid) :
    (step :: steps).foldlM Builder.step b = (step :: others).foldlM Builder.step b := by
  rw [List.foldlM_cons, List.foldlM_cons]
  cases hmid : b.step step with
  | error fault => rfl
  | ok mid => exact h mid hmid

theorem foldlM_oneByOne {steps : List BuildStep} {b : Builder}
    (hsome : ∀ kinds, .openAll kinds ∈ steps → kinds ≠ [])
    (h : Nested b.outer.length (steps.flatMap oneByOne)) :
    (steps.flatMap oneByOne).foldlM Builder.step b = steps.foldlM Builder.step b := by
  induction steps generalizing b with
  | nil => rfl
  | cons first rest ih =>
      have hsome' : ∀ kinds, .openAll kinds ∈ rest → kinds ≠ [] :=
        fun kinds hmem => hsome kinds (List.mem_cons_of_mem _ hmem)
      rw [List.flatMap_cons] at h ⊢
      cases first with
      | openAll kinds =>
          -- Together or one by one, the nodes are open before anything is put into them.
          obtain ⟨kind, kinds, rfl⟩ := List.exists_cons_of_ne_nil (hsome kinds List.mem_cons_self)
          obtain ⟨hdepth, hrest⟩ := nested_map_openAll h
          have houter := List.length_pos_iff.1 (hdepth (List.cons_ne_nil _ _))
          rw [foldlM_cons_ok (step_openAll houter _), oneByOne,
            foldlM_append_ok (foldlM_map_openAll houter kind kinds)]
          refine ih hsome' ?_
          rwa [length_outer_openAll]
      | close =>
          refine foldlM_cons_congr fun mid hmid => ih hsome' ?_
          rw [length_outer_of_close hmid]
          exact h
      | token kind =>
          refine foldlM_cons_congr fun mid hmid => ih hsome' ?_
          rw [outer_of_token hmid]
          exact h
      | error found =>
          refine foldlM_cons_congr fun mid hmid => ih hsome' ?_
          cases hmid
          exact h

theorem ne_nil_of_mem_resolve (events : List Event) :
    ∀ kinds, .openAll kinds ∈ Event.resolve events → kinds ≠ [] := by
  fun_induction Event.resolve events with
  | case1 => exact nofun
  | case2 rest ih => exact ih
  | case3 kind link rest followed ih =>
      intro kinds hmem
      rcases List.mem_cons.1 hmem with heq | hmem
      · cases heq
        simp
      · exact ih kinds hmem
  | case4 rest ih | case5 kind rest ih | case6 found rest ih =>
      intro kinds hmem
      rcases List.mem_cons.1 hmem with heq | hmem
      · cases heq
      · exact ih kinds hmem

theorem ofEvents_of_spells {tokens : List Token} {kind : SyntaxKind} {row : List Mark}
    {children : List Child} {later : List (TokenKind × String)}
    (hstart : events[0]? = some (.start kind none))
    (hbrackets : brackets events = .opening 0 :: (row ++ [.closing]))
    (hspells : Spells events nodes row children)
    (hleaves : Tree.forestLeaves (children.map (·.tree)) ++ later =
      (Token.significant tokens).map word) :
    Parse.ofEvents tokens events =
      .ok ⟨dressRoot tokens kind (children.map (·.tree)), errorsOf row⟩ := by
  obtain ⟨rest, rfl⟩ : ∃ rest, events = .start kind none :: rest := by
    cases events with
    | nil => cases hstart
    | cons first rest => cases hstart; exact ⟨rest, rfl⟩
  have hresolve : Event.resolve (.start kind none :: rest) =
      .openAll [kind] :: Event.resolve rest := by
    rw [Event.resolve, show Event.followLink rest none = ([], rest) by cases rest <;> rfl]
    rfl
  have hsteps : (Event.resolve rest).flatMap oneByOne =
      row.flatMap (markSteps (kindAt (.start kind none :: rest))) ++ [.close] := by
    have hall := flatMap_resolve_eq (.start kind none :: rest)
    rw [hresolve, hbrackets, List.flatMap_cons, List.flatMap_cons, List.flatMap_append] at hall
    exact (List.cons.inj hall).2
  have hopen : (Builder.ofTokens tokens).step (.openAll [kind]) =
      .ok ((Builder.ofTokens tokens).openAll [kind]) := rfl
  have hrow := foldlM_spells (b := (Builder.ofTokens tokens).openAll [kind]) hspells
    (List.cons_ne_nil _ _) hleaves
  -- The builder opens together what the brackets open one by one.
  have hclose : Nested 1 [.close] := trivial
  have hnested := nested_spells hspells Nat.one_pos hclose
  rw [← hsteps] at hnested
  have hgroups := foldlM_oneByOne (b := (Builder.ofTokens tokens).openAll [kind])
    (ne_nil_of_mem_resolve rest) hnested
  rw [hsteps, foldlM_append_ok hrow] at hgroups
  rw [Parse.ofEvents, hresolve, foldlM_cons_ok hopen, ← hgroups]
  simp [Builder.step, takeTrivia_eq, after, Builder.openAll, Builder.ofTokens, Builder.root,
    dressRoot, bind, Except.bind, pure, Except.pure]

end Run

end PatternSyntax.Proofs.Dressing
