import Mathlib.Data.List.TakeWhile
import PatternSyntax.Proofs.Document
import PatternSyntax.Proofs.Links
import PatternSyntax.Proofs.RealizedTexts

/-!
How the outline of a text and the tokens of the text make the tree. The outline decides about the
nodes, and blanks and comments go to the left of what follows them.
-/

namespace PatternSyntax.Proofs.Weave

open PatternSyntax.Proofs.Coverage
open PatternSyntax.Proofs.Document
open PatternSyntax.Proofs.Links

mutual

/-- The errors of an outline, from left to right. -/
def errors (locate : Nat → Nat) : Outline → List SyntaxError
  | .token _ => []
  | .error kind index => [⟨kind, .empty (locate index)⟩]
  | .node _ parts => errorsAll locate parts
  | .around _ first later => errors locate first ++ errorsAll locate later
  | .loose parts => errorsAll locate parts

/-- The errors of a row of outlines, from left to right. -/
def errorsAll (locate : Nat → Nat) : List Outline → List SyntaxError
  | [] => []
  | part :: rest => errors locate part ++ errorsAll locate rest

end

def leafOf (token : Token) : Tree :=
  .leaf token.kind token.text

/-- The first token, if there is one, is neither blank nor comment. -/
def AtSignificant (tokens : List Token) : Prop :=
  ∀ token ∈ tokens.head?, token.kind.isTrivia = false

/-- A row of outlines and the tokens of a text make a row of elements. The indices count the
significant tokens before and behind the row. Blanks and comments are elements only where another
one follows, and a node never begins with them. -/
inductive Weaves : Nat → List Token → List Outline → List Tree → Nat → List Token → Prop
  | nil (i : Nat) (tokens : List Token) : Weaves i tokens [] [] i tokens
  | trivia {i j : Nat} {token : Token} {tokens rest : List Token} {parts : List Outline}
      {trees : List Tree} :
      token.kind.isTrivia = true → trees ≠ [] → Weaves i tokens parts trees j rest →
      Weaves i (token :: tokens) parts (leafOf token :: trees) j rest
  | token {i j : Nat} {token : Token} {tokens rest : List Token} {parts : List Outline}
      {trees : List Tree} :
      token.kind.isTrivia = false → Weaves (i + 1) tokens parts trees j rest →
      Weaves i (token :: tokens) (.token token.kind :: parts) (leafOf token :: trees) j rest
  | error {i j : Nat} {tokens rest : List Token} {kind : ErrorKind} {parts : List Outline}
      {trees : List Tree} :
      AtSignificant tokens → Weaves i tokens parts trees j rest →
      Weaves i tokens (.error kind i :: parts) (.node (.node .error) [] :: trees) j rest
  | node {i mid j : Nat} {tokens later rest : List Token} {kind : NodeKind}
      {inner parts : List Outline} {children trees : List Tree} :
      AtSignificant tokens → Fits kind inner →
      Weaves i tokens inner children mid later → Weaves mid later parts trees j rest →
      Weaves i tokens (.node kind inner :: parts) (.node (.node kind) children :: trees) j rest
  | around {i mid last j : Nat} {tokens later final rest : List Token} {kind : NodeKind}
      {first : Outline} {inner parts : List Outline} {head : Tree} {children trees : List Tree} :
      AtSignificant tokens → kind ≠ .codeBlock → IsNode first →
      Weaves i tokens [first] [head] mid later →
      Weaves mid later inner children last final → Weaves last final parts trees j rest →
      Weaves i tokens (.around kind first inner :: parts)
        (.node (.node kind) (head :: children) :: trees) j rest
  | loose {i mid j : Nat} {tokens later rest : List Token} {inner parts : List Outline}
      {front back : List Tree} :
      Weaves i tokens inner front mid later → Weaves mid later parts back j rest →
      Weaves i tokens (.loose inner :: parts) (front ++ back) j rest

theorem Weaves.lead {i j : Nat} {trivia tokens rest : List Token} {parts : List Outline}
    {trees : List Tree} (htrivia : ∀ token ∈ trivia, token.kind.isTrivia = true)
    (htrees : trees ≠ []) (h : Weaves i tokens parts trees j rest) :
    Weaves i (trivia ++ tokens) parts (trivia.map leafOf ++ trees) j rest := by
  induction trivia with
  | nil => exact h
  | cons token trivia ih =>
      have hlater := ih fun other hother => htrivia other (List.mem_cons_of_mem _ hother)
      exact .trivia (htrivia token List.mem_cons_self)
        (List.append_ne_nil_of_right_ne_nil _ htrees) hlater

theorem Weaves.append {i mid j : Nat} {tokens later rest : List Token}
    {parts others : List Outline} {front back : List Tree}
    (hfront : Weaves i tokens parts front mid later) (hback : Weaves mid later others back j rest) :
    Weaves i tokens (parts ++ others) (front ++ back) j rest := by
  induction hfront with
  | nil => exact hback
  | trivia htrivia htrees _ ih =>
      exact .trivia htrivia (List.append_ne_nil_of_left_ne_nil htrees _) (ih hback)
  | token hsignificant _ ih => exact .token hsignificant (ih hback)
  | error hat _ ih => exact .error hat (ih hback)
  | node hat hfits hinner _ _ ih => exact .node hat hfits hinner (ih hback)
  | around hat hkind hnode hfirst hinner _ _ _ ih =>
      exact .around hat hkind hnode hfirst hinner (ih hback)
  | loose hinner _ _ ih =>
      rw [List.cons_append, List.append_assoc]
      exact .loose hinner (ih hback)

theorem Weaves.of_trees_eq_nil {i j : Nat} {tokens rest : List Token} {parts : List Outline}
    {trees : List Tree} (h : Weaves i tokens parts trees j rest) (htrees : trees = []) :
    i = j ∧ tokens = rest ∧ ∀ later, Weaves i later parts [] i later := by
  induction h with
  | nil => exact ⟨rfl, rfl, fun _ => .nil _ _⟩
  | trivia => cases htrees
  | token => cases htrees
  | error => cases htrees
  | node => cases htrees
  | around => cases htrees
  | loose _ _ ihInner ih =>
      obtain ⟨rfl, rfl⟩ := List.append_eq_nil_iff.1 htrees
      obtain ⟨rfl, rfl, hinner⟩ := ihInner rfl
      obtain ⟨rfl, rfl, hlater⟩ := ih rfl
      exact ⟨rfl, rfl, fun later => .loose (hinner later) (hlater later)⟩

theorem Weaves.split {i j : Nat} {tokens rest : List Token} {parts others : List Outline}
    {trees : List Tree} (h : Weaves i tokens (parts ++ others) trees j rest) :
    ∃ front back mid later, trees = front ++ back ∧ Weaves i tokens parts front mid later ∧
      Weaves mid later others back j rest := by
  generalize hrow : parts ++ others = row at h
  induction h generalizing parts with
  | nil i tokens =>
      obtain ⟨rfl, rfl⟩ := List.append_eq_nil_iff.1 hrow
      exact ⟨[], [], i, tokens, rfl, .nil _ _, .nil _ _⟩
  | trivia htrivia htrees hlater ih =>
      obtain ⟨front, back, mid, later, rfl, hfront, hback⟩ := ih hrow
      -- A blank goes with what is made next, which belongs to the back if the front makes nothing.
      by_cases hnil : front = []
      · subst hnil
        obtain ⟨rfl, rfl, hany⟩ := hfront.of_trees_eq_nil rfl
        exact ⟨[], _, _, _, rfl, hany _, .trivia htrivia htrees hback⟩
      · exact ⟨_ :: front, back, mid, later, rfl, .trivia htrivia hnil hfront, hback⟩
  | token hkind hlater ih =>
      rcases List.append_eq_cons_iff.1 hrow with ⟨rfl, rfl⟩ | ⟨parts, rfl, rfl⟩
      · exact ⟨[], _, _, _, rfl, .nil _ _, .token hkind hlater⟩
      · obtain ⟨front, back, mid, later, rfl, hfront, hback⟩ := ih rfl
        exact ⟨_ :: front, back, mid, later, rfl, .token hkind hfront, hback⟩
  | error hat hlater ih =>
      rcases List.append_eq_cons_iff.1 hrow with ⟨rfl, rfl⟩ | ⟨parts, rfl, rfl⟩
      · exact ⟨[], _, _, _, rfl, .nil _ _, .error hat hlater⟩
      · obtain ⟨front, back, mid, later, rfl, hfront, hback⟩ := ih rfl
        exact ⟨_ :: front, back, mid, later, rfl, .error hat hfront, hback⟩
  | node hat hfits hinner hlater _ ih =>
      rcases List.append_eq_cons_iff.1 hrow with ⟨rfl, rfl⟩ | ⟨parts, rfl, rfl⟩
      · exact ⟨[], _, _, _, rfl, .nil _ _, .node hat hfits hinner hlater⟩
      · obtain ⟨front, back, mid, later, rfl, hfront, hback⟩ := ih rfl
        exact ⟨_ :: front, back, mid, later, rfl, .node hat hfits hinner hfront, hback⟩
  | around hat hkind hnode hfirst hinner hlater _ _ ih =>
      rcases List.append_eq_cons_iff.1 hrow with ⟨rfl, rfl⟩ | ⟨parts, rfl, rfl⟩
      · exact ⟨[], _, _, _, rfl, .nil _ _, .around hat hkind hnode hfirst hinner hlater⟩
      · obtain ⟨front, back, mid, later, rfl, hfront, hback⟩ := ih rfl
        exact ⟨_ :: front, back, mid, later, rfl, .around hat hkind hnode hfirst hinner hfront,
          hback⟩
  | @loose _ _ _ _ _ _ _ _ before _ hinner hlater _ ih =>
      rcases List.append_eq_cons_iff.1 hrow with ⟨rfl, rfl⟩ | ⟨parts, rfl, rfl⟩
      · exact ⟨[], _, _, _, rfl, .nil _ _, .loose hinner hlater⟩
      · obtain ⟨front, back, mid, later, rfl, hfront, hback⟩ := ih rfl
        exact ⟨before ++ front, back, mid, later, (List.append_assoc ..).symm,
          .loose hinner hfront, hback⟩

theorem Weaves.head_token {i j : Nat} {tokens rest : List Token} {kind : TokenKind}
    {parts : List Outline} {trees : List Tree} (hat : AtSignificant tokens)
    (h : Weaves i tokens (.token kind :: parts) trees j rest) :
    ∃ text later, trees = .leaf kind text :: later := by
  generalize hparts : Outline.token kind :: parts = row at h
  cases h with
  | trivia htrivia => simp [hat _ rfl] at htrivia
  | token =>
      cases hparts
      exact ⟨_, _, rfl⟩
  | nil => cases hparts
  | error => cases hparts
  | node => cases hparts
  | around => cases hparts
  | loose => cases hparts

theorem Weaves.sizeAll_eq_zero {i j : Nat} {tokens rest : List Token} {parts : List Outline}
    {trees : List Tree} (h : Weaves i tokens parts trees j rest) (htrees : trees = []) :
    Outline.sizeAll parts = 0 := by
  induction h with
  | nil => rfl
  | trivia => cases htrees
  | token => cases htrees
  | error => cases htrees
  | node => cases htrees
  | around => cases htrees
  | loose _ _ ihInner ih =>
      obtain ⟨hfront, hback⟩ := List.append_eq_nil_iff.1 htrees
      simp [Outline.sizeAll, Outline.size, ihInner hfront, ih hback]

/-- A builder that has gone on by a row of elements. -/
def after (b : Builder) (trees : List Tree) (rest : List Token) (found : List SyntaxError) :
    Builder :=
  { b with
    current := trees.reverse ++ b.current
    pending := rest
    errors := found.reverse ++ b.errors }

theorem after_after (b : Builder) (front back : List Tree) (mid rest : List Token)
    (first second : List SyntaxError) :
    after (after b front mid first) back rest second =
      after b (front ++ back) rest (first ++ second) := by
  simp [after]

theorem takeTrivia_eq (b : Builder) :
    b.takeTrivia =
      after b ((b.pending.takeWhile (·.kind.isTrivia)).map leafOf)
        (b.pending.dropWhile (·.kind.isTrivia)) [] :=
  rfl

/-- The blanks and comments that come next. -/
def blanks (b : Builder) : List Tree :=
  (b.pending.takeWhile (·.kind.isTrivia)).map leafOf

theorem after_takeTrivia_after (b : Builder) (tree : Tree) (trees : List Tree)
    (mid rest : List Token) (first second : List SyntaxError) :
    after (after b.takeTrivia [tree] mid first) trees rest second =
      after b (blanks b ++ tree :: trees) rest (first ++ second) := by
  rw [takeTrivia_eq, after_after, after_after]
  rfl

theorem Weaves.lead_takeTrivia {i j : Nat} {b : Builder} {rest : List Token}
    {parts : List Outline} {trees : List Tree} (htrees : trees ≠ [])
    (h : Weaves i b.takeTrivia.pending parts trees j rest) :
    Weaves i b.pending parts (blanks b ++ trees) j rest := by
  have htrivia : ∀ token ∈ b.pending.takeWhile (·.kind.isTrivia), token.kind.isTrivia = true :=
    fun token => List.all_eq_true.1 List.all_takeWhile token
  have hlead := h.lead htrivia htrees
  rwa [takeTrivia_eq, after, List.takeWhile_append_dropWhile] at hlead

theorem atSignificant_dropWhile (tokens : List Token) :
    AtSignificant (tokens.dropWhile (·.kind.isTrivia)) := by
  intro token htoken
  have := List.head?_dropWhile_not (fun token : Token => token.kind.isTrivia) tokens
  rw [Option.mem_def.1 htoken] at this
  simpa using this

theorem significant_dropWhile (tokens : List Token) :
    Token.significant (tokens.dropWhile (·.kind.isTrivia)) = Token.significant tokens := by
  induction tokens with
  | nil => rfl
  | cons token tokens ih =>
      cases htrivia : token.kind.isTrivia with
      | true => simpa [htrivia, Token.significant] using ih
      | false => simp [htrivia]

theorem openAll_append (b : Builder) (front back : List SyntaxKind) :
    b.openAll (front ++ back) = (b.openAll front).openAll back :=
  List.foldl_append

theorem openAll_pending (b : Builder) (kinds : List SyntaxKind) :
    (b.openAll kinds).pending = b.pending := by
  induction kinds generalizing b with
  | nil => rfl
  | cons kind kinds ih => exact ih _

theorem openAll_outer_ne_nil {b : Builder} (houter : b.outer ≠ []) (kinds : List SyntaxKind) :
    (b.openAll kinds).outer ≠ [] := by
  induction kinds generalizing b with
  | nil => exact houter
  | cons kind kinds ih => exact ih (List.cons_ne_nil _ _)

theorem step_openAll {b : Builder} (houter : b.outer ≠ []) (kinds : List SyntaxKind) :
    b.step (.openAll kinds) = .ok (b.takeTrivia.openAll kinds) := by
  have hopen : b.outer.isEmpty = false := List.isEmpty_eq_false_iff.2 houter
  simp [Builder.step, hopen]

theorem step_close {b : Builder} (houter : b.outer ≠ []) (kind : SyntaxKind)
    (children : List Tree) (rest : List Token) (found : List SyntaxError) :
    (after (b.openAll [kind]) children rest found).step .close =
      .ok (after b [.node kind children] rest found) := by
  simp [Builder.step, after, Builder.openAll, houter]

theorem foldlM_append_ok {steps : List BuildStep} {b mid : Builder}
    (h : steps.foldlM Builder.step b = .ok mid) (later : List BuildStep) :
    (steps ++ later).foldlM Builder.step b = later.foldlM Builder.step mid := by
  rw [List.foldlM_append, h]
  rfl

theorem foldlM_cons_ok {step : BuildStep} {b mid : Builder} (h : b.step step = .ok mid)
    (later : List BuildStep) :
    (step :: later).foldlM Builder.step b = later.foldlM Builder.step mid := by
  rw [List.foldlM_cons, h]
  rfl

/-- The tokens are of the kinds that lie ahead. -/
def Agrees (c : Cursor) (tokens : List Token) : Prop :=
  (Token.significant tokens).map (·.kind) = c.rest.map (·.kind)

theorem Agrees.takeTrivia {c : Cursor} {b : Builder} (h : Agrees c b.pending) :
    Agrees c b.takeTrivia.pending := by
  rw [Agrees, takeTrivia_eq, after, significant_dropWhile]
  exact h

theorem Agrees.head {c : Cursor} {tokens : List Token} {kind : TokenKind}
    (h : Agrees c tokens) (hat : AtSignificant tokens) (hkind : nextKind c = some kind) :
    ∃ token rest, tokens = token :: rest ∧ token.kind = kind := by
  obtain ⟨glued, terminals, hrest⟩ := exists_of_nextKind hkind
  cases tokens with
  | nil => simp [Agrees, Token.significant, hrest] at h
  | cons token rest =>
      have hsignificant := hat token rfl
      simp only [Agrees, Token.significant, List.filter_cons, hsignificant, hrest, Bool.not_false,
        if_true, List.map_cons, List.cons.injEq] at h
      exact ⟨token, rest, rfl, h.1⟩

theorem step_token {i : Nat} {terminal : Terminal} {terminals : List Terminal} {b : Builder}
    (hagrees : Agrees ⟨i, terminal :: terminals⟩ b.pending) :
    ∃ token rest, b.takeTrivia.pending = token :: rest ∧ token.kind.isTrivia = false ∧
      token.kind = terminal.kind ∧ Agrees ⟨i + 1, terminals⟩ rest ∧
      b.step (.token terminal.kind) = .ok (after b.takeTrivia [leafOf token] rest []) := by
  have hat : AtSignificant b.takeTrivia.pending := atSignificant_dropWhile _
  obtain ⟨token, rest, hpending, hkind⟩ := hagrees.takeTrivia.head hat rfl
  have hsignificant : token.kind.isTrivia = false := hat token (by rw [hpending]; rfl)
  refine ⟨token, rest, hpending, hsignificant, hkind, ?_, ?_⟩
  · have hlater := hagrees.takeTrivia
    rw [hpending] at hlater
    simp only [Agrees, Token.significant, List.filter_cons, hsignificant, Bool.not_false,
      if_true, List.map_cons, List.cons.injEq] at hlater
    exact hlater.2
  · simp [Builder.step, hpending, hkind, Builder.add, after, leafOf]

section Run

variable (locate : Nat → Nat)

mutual

theorem run_steps {c stop : Cursor} (outline : Outline) (hnode : IsNode outline)
    (hcovers : Covers c [outline] stop) (outer : List SyntaxKind) (b : Builder)
    (houter : b.outer ≠ []) (hagrees : Agrees c b.pending) :
    ∃ tree rest,
      (steps locate outer outline).foldlM Builder.step b =
        .ok (after (b.takeTrivia.openAll outer) [tree] rest (errors locate outline)) ∧
      Weaves c.index b.takeTrivia.pending [outline] [tree] stop.index rest ∧
      Agrees stop rest := by
  have houter' (kinds : List SyntaxKind) : (b.takeTrivia.openAll kinds).outer ≠ [] :=
    openAll_outer_ne_nil (b := b.takeTrivia) houter kinds
  have hat : AtSignificant b.takeTrivia.pending := atSignificant_dropWhile _
  cases outline with
  | token kind => cases hnode
  | error kind index => cases hnode
  | loose parts => cases hnode
  | node kind parts =>
      cases hcovers with
      | node hinner hfits hrest =>
          cases hrest
          obtain ⟨children, rest, hrun, hweaves, hstop⟩ := run_stepsAll parts hinner
            (b.takeTrivia.openAll (outer ++ [.node kind])) (houter' _)
            (by rw [openAll_pending]; exact hagrees.takeTrivia)
          rw [openAll_pending] at hweaves
          refine ⟨.node (.node kind) children, rest, ?_, .node hat hfits hweaves (.nil _ _), hstop⟩
          rw [steps, foldlM_cons_ok (step_openAll houter _), foldlM_append_ok hrun,
            openAll_append, foldlM_cons_ok (step_close (houter' outer) _ _ _ _)]
          rfl
  | around kind first later =>
      cases hcovers with
      | around hkind hfirst hhead hlater hrest =>
          cases hrest
          -- The node is opened together with the first one in it, behind the same blanks.
          obtain ⟨head, mid, hrun, hweaves, hmid⟩ := run_steps first hfirst hhead
            (outer ++ [.node kind]) b houter hagrees
          obtain ⟨children, rest, hrun', hweaves', hstop⟩ := run_stepsAll later hlater
            (after (b.takeTrivia.openAll (outer ++ [.node kind])) [head] mid (errors locate first))
            (houter' _) hmid
          refine ⟨.node (.node kind) (head :: children), rest, ?_,
            .around hat hkind hfirst hweaves hweaves' (.nil _ _), hstop⟩
          rw [steps, foldlM_append_ok hrun, foldlM_append_ok hrun', after_after, openAll_append,
            foldlM_cons_ok (step_close (houter' outer) _ _ _ _)]
          rfl

theorem run_stepsAll {c stop : Cursor} (parts : List Outline) (hcovers : Covers c parts stop)
    (b : Builder) (houter : b.outer ≠ []) (hagrees : Agrees c b.pending) :
    ∃ trees rest,
      (stepsAll locate parts).foldlM Builder.step b =
        .ok (after b trees rest (errorsAll locate parts)) ∧
      Weaves c.index b.pending parts trees stop.index rest ∧ Agrees stop rest := by
  have hat : AtSignificant b.takeTrivia.pending := atSignificant_dropWhile _
  cases parts with
  | nil =>
      cases hcovers
      exact ⟨[], b.pending, rfl, .nil _ _, hagrees⟩
  | cons part parts =>
      -- Blanks are taken in before a node is opened, so that they stand in front of it.
      have hcons {mid : Cursor} (hnode : IsNode part) (hpart : Covers c [part] mid)
          (hrest : Covers mid parts stop) :
          ∃ trees rest,
            (stepsAll locate (part :: parts)).foldlM Builder.step b =
              .ok (after b trees rest (errorsAll locate (part :: parts))) ∧
            Weaves c.index b.pending (part :: parts) trees stop.index rest ∧
            Agrees stop rest := by
        obtain ⟨tree, mid, hrun, hweaves, hmid⟩ := run_steps part hnode hpart [] b houter hagrees
        obtain ⟨trees, rest, hrun', hweaves', hstop⟩ := run_stepsAll parts hrest
          (after b.takeTrivia [tree] mid (errors locate part)) houter hmid
        refine ⟨blanks b ++ tree :: trees, rest, ?_,
          Weaves.lead_takeTrivia (List.cons_ne_nil _ _) (hweaves.append hweaves'), hstop⟩
        rw [stepsAll, foldlM_append_ok hrun]
        exact hrun'.trans (congrArg Except.ok (after_takeTrivia_after ..))
      cases hcovers with
      | token hrest =>
          obtain ⟨token, mid, hpending, hsignificant, hkind, hmid, hstep⟩ := step_token hagrees
          obtain ⟨trees, rest, hrun, hweaves, hstop⟩ := run_stepsAll parts hrest
            (after b.takeTrivia [leafOf token] mid []) houter hmid
          refine ⟨blanks b ++ leafOf token :: trees, rest, ?_,
            Weaves.lead_takeTrivia (List.cons_ne_nil _ _) ?_, hstop⟩
          · rw [stepsAll, steps, List.cons_append, foldlM_cons_ok hstep]
            exact hrun.trans (congrArg Except.ok (after_takeTrivia_after ..))
          · rw [hpending, ← hkind]
            exact .token hsignificant hweaves
      | @error _ kind _ _ hrest =>
          obtain ⟨trees, rest, hrun, hweaves, hstop⟩ := run_stepsAll parts hrest
            (after b.takeTrivia [.node (.node .error) []] b.takeTrivia.pending
              [⟨kind, .empty (locate c.index)⟩]) houter hagrees.takeTrivia
          refine ⟨blanks b ++ .node (.node .error) [] :: trees, rest, ?_,
            Weaves.lead_takeTrivia (List.cons_ne_nil _ _) (.error hat hweaves), hstop⟩
          rw [stepsAll, steps, List.cons_append, foldlM_cons_ok (by rfl)]
          exact hrun.trans (congrArg Except.ok (after_takeTrivia_after ..))
      | node hinner hfits hrest => exact hcons trivial (.node hinner hfits (.nil _)) hrest
      | around hkind hfirst hhead hlater hrest =>
          exact hcons trivial (.around hkind hfirst hhead hlater (.nil _)) hrest
      | loose hinner hrest =>
          obtain ⟨front, mid, hrun, hweaves, hmid⟩ := run_stepsAll _ hinner b houter hagrees
          obtain ⟨back, rest, hrun', hweaves', hstop⟩ := run_stepsAll parts hrest
            (after b front mid (errorsAll locate _)) houter hmid
          refine ⟨front ++ back, rest, ?_, .loose hweaves hweaves', hstop⟩
          rw [stepsAll, steps, foldlM_append_ok hrun, hrun', after_after]
          rfl

end

theorem trivia_of_agrees_nil {i : Nat} {tokens : List Token} (h : Agrees ⟨i, []⟩ tokens) :
    ∀ token ∈ tokens, token.kind.isTrivia = true := by
  simpa [Agrees, Token.significant, List.filter_eq_nil_iff] using h

theorem run_root {parts : List Outline} {tokens : List Token} {stop : Nat} {c : Cursor}
    (hcovers : Covers c parts ⟨stop, []⟩) (hagrees : Agrees c tokens) :
    ∃ trees rest, Weaves c.index tokens parts trees stop rest ∧
      (∀ token ∈ rest, token.kind.isTrivia = true) ∧
      Parse.ofEvents tokens ((Outline.node .root parts).events locate none) =
        .ok ⟨.node (.node .root) (trees ++ rest.map leafOf), errorsAll locate parts⟩ := by
  have hresolve := resolve_events locate (.node .root parts) trivial
    (.node hcovers ⟨nofun, nofun⟩ (.nil _)) false []
  rw [wrappers_false, List.append_nil, show linkOver false _ = none from rfl] at hresolve
  obtain ⟨trees, rest, hrun, hweaves, hstop⟩ := run_stepsAll locate parts hcovers
    ((Builder.ofTokens tokens).openAll [.node .root]) (List.cons_ne_nil _ _) hagrees
  have htrivia := trivia_of_agrees_nil hstop
  refine ⟨trees, rest, hweaves, htrivia, ?_⟩
  have hopen : (Builder.ofTokens tokens).step (.openAll ([] ++ [.node .root])) =
      .ok ((Builder.ofTokens tokens).openAll [.node .root]) := rfl
  have hclose : (after ((Builder.ofTokens tokens).openAll [.node .root]) trees rest
        (errorsAll locate parts)).step .close =
      .ok ⟨[.node (.node .root) (trees ++ rest.map leafOf)], [], [],
        (errorsAll locate parts).reverse⟩ := by
    have htake : rest.takeWhile (·.kind.isTrivia) = rest := List.takeWhile_eq_self_iff.2 htrivia
    have hdrop : rest.dropWhile (·.kind.isTrivia) = [] := List.dropWhile_eq_nil_iff.2 htrivia
    simp [Builder.step, takeTrivia_eq, after, Builder.openAll, Builder.ofTokens, htake, hdrop]
  unfold Parse.ofEvents
  rw [hresolve, steps, List.reverse_nil, List.cons_append, foldlM_cons_ok hopen,
    List.append_assoc, foldlM_append_ok hrun, List.cons_append, foldlM_cons_ok hclose]
  simp [Event.resolve, Builder.root, bind, Except.bind, pure, Except.pure]

end Run

/-- Where the significant token of a text with a given index begins. -/
def locate (text : String) : Nat → Nat :=
  offsetOf (Token.significant (Token.tokenize text)).toArray text.utf8ByteSize

/-- How a text is parsed: its outline, and the tree that the outline and the tokens make. -/
structure Account (s : Subject) (text : String) where
  parts : List Outline
  stop : Nat
  trees : List Tree
  /-- The blanks and comments at the end of the text. -/
  rest : List Token
  outline_eq : Parse.outline s (Token.tokenize text) = .ok (.node .root parts)
  covers : Covers ⟨0, Terminal.ofTokens (Token.significant (Token.tokenize text))⟩ parts ⟨stop, []⟩
  weaves : Weaves 0 (Token.tokenize text) parts trees stop rest
  trivia : ∀ token ∈ rest, token.kind.isTrivia = true

namespace Account

variable {s : Subject} {text : String}

def parse (a : Account s text) : Parse :=
  ⟨.node (.node .root) (a.trees ++ a.rest.map leafOf), errorsAll (locate text) a.parts⟩

end Account

/-- Every text is parsed. -/
theorem exists_account (s : Subject) (text : String) :
    ∃ a : Account s text, Parse.ofText s text = .ok a.parse := by
  obtain ⟨parts, stop, houtline, hcovers⟩ := exists_outline s (Token.tokenize text)
  have hagrees : Agrees ⟨0, Terminal.ofTokens (Token.significant (Token.tokenize text))⟩
      (Token.tokenize text) := (Terminal.map_kind_ofTokens _).symm
  obtain ⟨trees, rest, hweaves, htrivia, hrun⟩ := run_root (locate text) hcovers hagrees
  refine ⟨⟨parts, stop, trees, rest, houtline, hcovers, hweaves, htrivia⟩, ?_⟩
  rw [Realization.ofText_eq, houtline]
  exact hrun

end PatternSyntax.Proofs.Weave
