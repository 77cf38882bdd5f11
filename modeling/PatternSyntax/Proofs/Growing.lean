import PatternSyntax.Proofs.Lossless
import PatternSyntax.Recording.Session

/-!
Building a tree directly, with a stack of open nodes. Each move of a run changes only the innermost
nodes of the stack; the same run can be recorded in a session.
-/

namespace PatternSyntax.Proofs.Growing

open PatternSyntax.Proofs.Lossless

/-- A move of a run. Nodes are closed from the inside out, so that there is no doubt which one is
meant. Finished nodes are numbered in the order in which they are finished. -/
inductive Move where
  /-- Begins a node. -/
  | start
  /-- Finishes the innermost open node. -/
  | complete (kind : SyntaxKind)
  /-- Gives the innermost open node up. -/
  | abandon
  /-- Begins a node around a finished one. -/
  | precede (node : Nat)
  | bump
  | report (kind : ErrorKind)
deriving DecidableEq, Repr

/-- The steps of moves. The handle of the next marker is given, and those of the open ones,
innermost first. -/
def stepsOf (next : Nat) (opened : List Nat) : List Move → List Step
  | [] => []
  | .start :: later => .start :: stepsOf (next + 1) (next :: opened) later
  | .complete kind :: later =>
    .complete (opened.headD next) kind :: stepsOf next opened.tail later
  | .abandon :: later => .abandon (opened.headD next) :: stepsOf next opened.tail later
  | .precede node :: later => .precede node :: stepsOf (next + 1) (next :: opened) later
  | .bump :: later => .bumpMany 1 :: stepsOf next opened later
  | .report kind :: later => .report kind :: stepsOf next opened later

/-- The session of a run over a text. -/
def sessionOf (text : String) (moves : List Move) : Option Session :=
  ((Session.ofText text).run (stepsOf 0 [] moves)).2

/-- A child of an open node. A finished node has a number, until another one is put around it. -/
structure Child where
  tree : Tree
  number? : Option Nat

structure Sprout where
  /-- It is put around a finished node. -/
  wraps : Bool
  /-- Something has happened since it was begun that leaves a trace. -/
  used : Bool
  children : List Child

namespace Sprout

/-- A node that has just been begun at the next token. -/
def new : Sprout :=
  ⟨false, false, []⟩

def put (s : Sprout) (child : Child) : Sprout :=
  { s with used := true, children := s.children ++ [child] }

/-- Takes over the children of a node that is given up. -/
def takeIn (s inner : Sprout) : Sprout :=
  { s with used := s.used || inner.used, children := s.children ++ inner.children }

/-- The children as elements of a tree. -/
def trees (s : Sprout) : List Tree :=
  s.children.map (·.tree)

/-- Splits the children at the one with a number. -/
def split? (s : Sprout) (number : Nat) : Option (List Child × Tree × List Child) :=
  match s.children.dropWhile (·.number? != some number) with
  | [] => none
  | child :: later =>
    some (s.children.takeWhile (·.number? != some number), child.tree, later)

end Sprout

structure Growth where
  /-- The innermost open node. -/
  top : Sprout
  /-- The open nodes around it, innermost first. -/
  outer : List Sprout
  /-- The significant tokens ahead. -/
  pending : List Token
  /-- The length of the text. -/
  textEnd : Nat
  /-- How many nodes have been finished. -/
  finished : Nat
  errors : List SyntaxError

namespace Growth

/-- The outermost node of a text has just been begun. -/
def ofText (text : String) : Growth :=
  ⟨.new, [], Token.significant (Token.tokenize text), text.utf8ByteSize, 0, []⟩

/-- The offset of the next token, or of the end of the text. -/
def offset (g : Growth) : Nat :=
  match g.pending with
  | token :: _ => token.start
  | [] => g.textEnd

/-- Makes a move. The outermost node is not closed, and only nodes of some sorts are given up. -/
def move (mayGiveUp : Sprout → Bool) (g : Growth) : Move → Option Growth
  | .start => some { g with top := .new, outer := g.top :: g.outer }
  | .complete kind =>
    match g.outer with
    | [] => none
    | parent :: outer => some { g with
        top := parent.put ⟨.node kind g.top.trees, some g.finished⟩
        outer := outer
        finished := g.finished + 1 }
  | .abandon =>
    match g.outer with
    | [] => none
    | parent :: outer =>
      if mayGiveUp g.top then some { g with top := parent.takeIn g.top, outer := outer } else none
  | .precede node =>
    match g.top.split? node with
    | none => none
    | some (before, tree, later) => some { g with
        top := ⟨true, false, ⟨tree, none⟩ :: later⟩
        outer := { g.top with children := before } :: g.outer }
  | .bump =>
    match g.pending with
    | [] => some g
    | token :: pending => some { g with
        top := g.top.put ⟨.leaf token.kind token.text, none⟩
        pending := pending }
  | .report kind => some { g with
      top := g.top.put ⟨.node (.node .error) [], none⟩
      errors := g.errors ++ [⟨kind, .empty g.offset⟩] }

def run (mayGiveUp : Sprout → Bool) (g : Growth) (moves : List Move) : Option Growth :=
  moves.foldlM (move mayGiveUp) g

variable {mayGiveUp : Sprout → Bool} {g g' : Growth}

theorem run_cons_eq_some_iff {first : Move} {later : List Move} :
    g.run mayGiveUp (first :: later) = some g' ↔
      ∃ mid, g.move mayGiveUp first = some mid ∧ mid.run mayGiveUp later = some g' := by
  rw [run, List.foldlM_cons, Option.bind_eq_bind, Option.bind_eq_some_iff]
  rfl

theorem complete_eq_some_iff {kind : SyntaxKind} :
    g.move mayGiveUp (.complete kind) = some g' ↔ ∃ parent outer, g.outer = parent :: outer ∧
      g' = { g with
        top := parent.put ⟨.node kind g.top.trees, some g.finished⟩
        outer := outer
        finished := g.finished + 1 } := by
  rw [move]
  constructor
  · intro h
    split at h
    · cases h
    · exact ⟨_, _, ‹_›, (Option.some.inj h).symm⟩
  · rintro ⟨parent, outer, houter, rfl⟩
    rw [houter]

theorem abandon_eq_some_iff :
    g.move mayGiveUp .abandon = some g' ↔ mayGiveUp g.top = true ∧
      ∃ parent outer, g.outer = parent :: outer ∧
        g' = { g with top := parent.takeIn g.top, outer := outer } := by
  rw [move]
  constructor
  · intro h
    split at h
    · cases h
    · split at h
      · exact ⟨‹_›, _, _, ‹_›, (Option.some.inj h).symm⟩
      · cases h
  · rintro ⟨hallowed, parent, outer, houter, rfl⟩
    simp only [houter, if_pos hallowed]

theorem split?_eq_some_iff {s : Sprout} {number : Nat} {before later : List Child} {tree : Tree} :
    s.split? number = some (before, tree, later) ↔
      s.children = before ++ ⟨tree, some number⟩ :: later ∧
        ∀ child ∈ before, child.number? ≠ some number := by
  unfold Sprout.split?
  constructor
  · intro h
    split at h
    · cases h
    · rename_i child rest hdrop
      have hhead := List.head?_dropWhile_not (·.number? != some number) s.children
      rw [hdrop] at hhead
      have hnumber : child.number? = some number := by simpa using hhead
      obtain ⟨tree, number?⟩ := child
      subst hnumber
      cases h
      refine ⟨?_, fun other hother => ?_⟩
      · have happend := List.takeWhile_append_dropWhile (p := (·.number? != some number))
          (l := s.children)
        rw [hdrop] at happend
        exact happend.symm
      · have hall := List.all_takeWhile (p := (·.number? != some number)) (l := s.children)
        simpa using List.all_eq_true.1 hall other hother
  · rintro ⟨hchildren, hbefore⟩
    have hall : ∀ child ∈ before, (child.number? != some number) = true := by simpa using hbefore
    rw [hchildren, List.dropWhile_append_of_pos hall, List.takeWhile_append_of_pos hall,
      List.dropWhile_cons_of_neg (by simp), List.takeWhile_cons_of_neg (by simp)]
    simp

theorem precede_eq_some_iff {node : Nat} :
    g.move mayGiveUp (.precede node) = some g' ↔ ∃ before tree later,
      (g.top.children = before ++ ⟨tree, some node⟩ :: later ∧
        ∀ child ∈ before, child.number? ≠ some node) ∧
      g' = { g with
        top := ⟨true, false, ⟨tree, none⟩ :: later⟩
        outer := { g.top with children := before } :: g.outer } := by
  rw [move]
  constructor
  · intro h
    split at h
    · cases h
    · cases h
      exact ⟨_, _, _, split?_eq_some_iff.1 ‹_›, rfl⟩
  · rintro ⟨before, tree, later, hsplit, rfl⟩
    rw [split?_eq_some_iff.2 hsplit]

/-- The leaves of open nodes, innermost first, from left to right. -/
def stackLeaves : List Sprout → List (TokenKind × String)
  | [] => []
  | s :: outer => stackLeaves outer ++ Tree.forestLeaves s.trees

/-- The leaves of a tree that grows, and those that it is still to get. -/
def leaves (g : Growth) : List (TokenKind × String) :=
  stackLeaves (g.top :: g.outer) ++ g.pending.map fun token => (token.kind, token.text)

theorem leaves_of_move {m : Move} (h : g.move mayGiveUp m = some g') : g'.leaves = g.leaves := by
  cases m with
  | start =>
      cases h
      simp [leaves, stackLeaves, Sprout.new, Sprout.trees, Tree.forestLeaves]
  | complete kind =>
      obtain ⟨parent, outer, houter, rfl⟩ := complete_eq_some_iff.1 h
      simp [leaves, stackLeaves, houter, Sprout.put, Sprout.trees, forestLeaves_append,
        Tree.forestLeaves, Tree.leaves]
  | abandon =>
      obtain ⟨-, parent, outer, houter, rfl⟩ := abandon_eq_some_iff.1 h
      simp [leaves, stackLeaves, houter, Sprout.takeIn, Sprout.trees, forestLeaves_append]
  | precede node =>
      obtain ⟨before, tree, later, ⟨hchildren, -⟩, rfl⟩ := precede_eq_some_iff.1 h
      simp [leaves, stackLeaves, hchildren, Sprout.trees, forestLeaves_append, Tree.forestLeaves]
  | bump =>
      rw [move] at h
      split at h
      · cases h
        rfl
      · rename_i token pending hpending
        cases h
        simp [leaves, stackLeaves, hpending, Sprout.put, Sprout.trees, forestLeaves_append,
          Tree.forestLeaves, Tree.leaves]
  | report kind =>
      cases h
      simp [leaves, stackLeaves, Sprout.put, Sprout.trees, forestLeaves_append, Tree.forestLeaves,
        Tree.leaves]

theorem leaves_of_run {moves : List Move} (h : g.run mayGiveUp moves = some g') :
    g'.leaves = g.leaves := by
  induction moves generalizing g with
  | nil =>
      cases h
      rfl
  | cons first later ih =>
      obtain ⟨mid, hfirst, hlater⟩ := run_cons_eq_some_iff.1 h
      rw [ih hlater, leaves_of_move hfirst]

end Growth

end PatternSyntax.Proofs.Growing
