import Mathlib.Data.List.Forall2
import PatternSyntax.Proofs.Simulation

/-!
Nodes that are given up. A run with such nodes builds the same tree as the run in which they were
never begun, as long as something is recorded for each of them that was begun around another one.
-/

namespace PatternSyntax.Proofs.Dissolving

open PatternSyntax.Proofs.Dressing
open PatternSyntax.Proofs.Growing
open PatternSyntax.Proofs.Simulation

/-- Puts a move in front of a run from which nodes have been taken out, unless it begins one of
these nodes or gives one up. For each node that is closed in the run, but not begun, is said whether
it is taken out, first for the one that is closed first. -/
def keep (m : Move) (run : List Move × List Bool) : List Move × List Bool :=
  match m with
  | .start => (if run.2.headD false then run.1 else .start :: run.1, run.2.tail)
  | .precede node => (if run.2.headD false then run.1 else .precede node :: run.1, run.2.tail)
  | .complete kind => (.complete kind :: run.1, false :: run.2)
  | .abandon => (run.1, true :: run.2)
  | .bump => (.bump :: run.1, run.2)
  | .report kind => (.report kind :: run.1, run.2)

/-- The run in which the nodes that are given up were never begun. -/
def withoutAbandoned (moves : List Move) : List Move :=
  (moves.foldr keep ([], [])).1

theorem foldr_keep_append (moves tail : List Move) (gone : List Bool) :
    moves.foldr keep (tail, gone) =
      ((moves.foldr keep ([], gone)).1 ++ tail, (moves.foldr keep ([], gone)).2) := by
  induction moves with
  | nil => rfl
  | cons m moves ih =>
      rw [List.foldr_cons, ih, List.foldr_cons]
      cases m with
      | start | precede =>
          simp only [keep]
          split <;> rfl
      | complete | abandon | bump | report => rfl

variable {mayGiveUp : Sprout → Bool} {g g' mid last : Growth} {moves : List Move}

/-- In a run that ends with the outermost node, every other open node is closed, and the outermost
one is not taken out. -/
theorem exists_gone_eq (hrun : g.run mayGiveUp moves = some last) (hlast : last.outer = []) :
    ∃ gone, (moves.foldr keep ([], [false])).2 = gone ++ [false] ∧
      gone.length = g.outer.length := by
  -- The list of marks is made from the end of the run, and follows the stack from there.
  induction moves generalizing g with
  | nil =>
      cases hrun
      exact ⟨[], rfl, by rw [hlast]; rfl⟩
  | cons m moves ih =>
      obtain ⟨mid, hmove, hrun⟩ := Growth.run_cons_eq_some_iff.1 hrun
      obtain ⟨gone, hgone, hlength⟩ := ih hrun
      rw [List.foldr_cons]
      cases m with
      | start =>
          cases hmove
          obtain ⟨first, gone, rfl⟩ := List.exists_cons_of_length_eq_add_one hlength
          exact ⟨gone, by simp [keep, hgone], Nat.succ.inj hlength⟩
      | precede node =>
          obtain ⟨before, tree, later, -, rfl⟩ := Growth.precede_eq_some_iff.1 hmove
          obtain ⟨first, gone, rfl⟩ := List.exists_cons_of_length_eq_add_one hlength
          exact ⟨gone, by simp [keep, hgone], Nat.succ.inj hlength⟩
      | complete kind =>
          obtain ⟨parent, outer, houter, rfl⟩ := Growth.complete_eq_some_iff.1 hmove
          exact ⟨false :: gone, by simp [keep, hgone], by simp [houter, hlength]⟩
      | abandon =>
          obtain ⟨-, parent, outer, houter, rfl⟩ := Growth.abandon_eq_some_iff.1 hmove
          exact ⟨true :: gone, by simp [keep, hgone], by simp [houter, hlength]⟩
      | bump =>
          refine ⟨gone, hgone, hlength.trans ?_⟩
          rw [Growth.move] at hmove
          split at hmove <;> cases hmove <;> rfl
      | report kind =>
          cases hmove
          exact ⟨gone, hgone, hlength⟩

/-- The same tree. What can still be wrapped in the first run can be wrapped in the second one. -/
def Alike (child other : Child) : Prop :=
  child.tree = other.tree ∧ ∀ number ∈ child.number?, other.number? = some number

theorem Alike.plain (tree : Tree) : Alike ⟨tree, none⟩ ⟨tree, none⟩ :=
  ⟨rfl, nofun⟩

abbrev RowsAlike : List Child → List Child → Prop :=
  List.Forall₂ Alike

theorem RowsAlike.append {front back front' back' : List Child} (hfront : RowsAlike front front')
    (hback : RowsAlike back back') : RowsAlike (front ++ back) (front' ++ back') :=
  List.rel_append hfront hback

theorem RowsAlike.trees_eq {row row' : List Child} (h : RowsAlike row row') :
    row.map (·.tree) = row'.map (·.tree) := by
  induction h with
  | nil => rfl
  | cons hchild _ ih => rw [List.map_cons, List.map_cons, hchild.1, ih]

theorem RowsAlike.split {before later row : List Child} {child : Child}
    (h : RowsAlike (before ++ child :: later) row) :
    ∃ before' child' later', row = before' ++ child' :: later' ∧ RowsAlike before before' ∧
      Alike child child' ∧ RowsAlike later later' := by
  induction before generalizing row with
  | nil =>
      cases h with
      | cons hchild hlater => exact ⟨[], _, _, rfl, .nil, hchild, hlater⟩
  | cons first before ih =>
      cases h with
      | cons hfirst hrest =>
          obtain ⟨before', child', later', rfl, hbefore, hchild, hlater⟩ := ih hrest
          exact ⟨_ :: before', child', later', rfl, .cons hfirst hbefore, hchild, hlater⟩

/-- The open nodes of a run and those of the run in which the ones that are marked were never begun:
what they hold is held by the next node around them that is left. -/
inductive Absorbs : List Bool → List Sprout → List Sprout → Prop
  | root {s s' : Sprout} : RowsAlike s.children s'.children → Absorbs [false] [s] [s']
  | kept {gone : List Bool} {s s' : Sprout} {outer outer' : List Sprout} :
      RowsAlike s.children s'.children → Absorbs gone outer outer' →
      Absorbs (false :: gone) (s :: outer) (s' :: outer')
  | gone {gone : List Bool} {s p q : Sprout} {outer outer' : List Sprout} {row : List Child} :
      Absorbs gone outer (p :: outer') → RowsAlike s.children row →
      q.children = p.children ++ row → Absorbs (true :: gone) (s :: outer) (q :: outer')

namespace Absorbs

variable {gone : List Bool} {s t p q : Sprout} {outer outer' : List Sprout}

theorem exists_cons {stack stack' : List Sprout} (h : Absorbs gone stack stack') :
    ∃ s outer p outer', stack = s :: outer ∧ stack' = p :: outer' := by
  cases h with
  | root | kept | gone => exact ⟨_, _, _, _, rfl, rfl⟩

theorem extend {more row : List Child} (h : Absorbs gone (s :: outer) (p :: outer'))
    (hmore : RowsAlike more row) (ht : t.children = s.children ++ more)
    (hq : q.children = p.children ++ row) : Absorbs gone (t :: outer) (q :: outer') := by
  cases h with
  | root hrow =>
      refine .root ?_
      rw [ht, hq]
      exact hrow.append hmore
  | kept hrow houter =>
      refine .kept ?_ houter
      rw [ht, hq]
      exact hrow.append hmore
  | gone houter hrow hp =>
      refine .gone houter ?_ (hq.trans (by rw [hp, List.append_assoc]))
      rw [ht]
      exact hrow.append hmore

theorem takeIn (h : Absorbs (true :: gone) (s :: t :: outer) (q :: outer')) :
    Absorbs gone (t.takeIn s :: outer) (q :: outer') := by
  cases h with
  | gone houter hrow hq => exact houter.extend hrow rfl hq

theorem split {before later : List Child} {child : Child}
    (h : Absorbs gone (s :: outer) (p :: outer')) (hs : s.children = before ++ child :: later) :
    ∃ front child' later', p.children = front ++ child' :: later' ∧ Alike child child' ∧
      RowsAlike later later' ∧ ∀ t q : Sprout, t.children = before → q.children = front →
        Absorbs gone (t :: outer) (q :: outer') := by
  cases h with
  | root hrow =>
      rw [hs] at hrow
      obtain ⟨before', child', later', hp, hbefore, hchild, hlater⟩ := hrow.split
      refine ⟨before', child', later', hp, hchild, hlater, fun t q ht hq => .root ?_⟩
      rwa [ht, hq]
  | kept hrow houter =>
      rw [hs] at hrow
      obtain ⟨before', child', later', hp, hbefore, hchild, hlater⟩ := hrow.split
      refine ⟨before', child', later', hp, hchild, hlater, fun t q ht hq => .kept ?_ houter⟩
      rwa [ht, hq]
  | @gone _ _ around _ _ _ row houter hrow hp =>
      rw [hs] at hrow
      obtain ⟨before', child', later', rfl, hbefore, hchild, hlater⟩ := hrow.split
      refine ⟨around.children ++ before', child', later', by rw [hp, List.append_assoc], hchild,
        hlater, fun t q ht hq => .gone houter (ht ▸ hbefore) hq⟩

end Absorbs

/-- The numbers of a row of children. -/
def numbers (row : List Child) : List Nat :=
  row.filterMap (·.number?)

theorem numbers_append_cons (before later : List Child) (tree : Tree) (node : Nat) :
    numbers (before ++ ⟨tree, some node⟩ :: later) = numbers before ++ node :: numbers later :=
  List.filterMap_append

/-- The numbers of a row are different, and not yet to be given. -/
def Apart (finished : Nat) (row : List Child) : Prop :=
  (numbers row).Nodup ∧ ∀ number ∈ numbers row, number < finished

theorem Apart.sublist {finished : Nat} {row row' : List Child} (h : Apart finished row)
    (hrow : (numbers row').Sublist (numbers row)) : Apart finished row' :=
  ⟨h.1.sublist hrow, fun number hmem => h.2 number (hrow.subset hmem)⟩

theorem Apart.mono {finished : Nat} {row : List Child} (h : Apart finished row) :
    Apart (finished + 1) row :=
  ⟨h.1, fun number hmem => Nat.lt_succ_of_lt (h.2 number hmem)⟩

theorem Apart.put {finished : Nat} {row : List Child} (h : Apart finished row) (tree : Tree) :
    Apart (finished + 1) (row ++ [⟨tree, some finished⟩]) := by
  rw [Apart, numbers_append_cons]
  refine ⟨List.nodup_append.2 ⟨h.1, List.nodup_singleton _, fun number hmem other hother => ?_⟩,
    fun number hmem => ?_⟩
  · rw [List.mem_singleton.1 hother]
    exact (h.2 number hmem).ne
  · rcases List.mem_append.1 hmem with hmem | hmem
    · exact Nat.lt_succ_of_lt (h.2 number hmem)
    · exact List.mem_singleton.1 hmem ▸ Nat.lt_succ_self _

/-- In no row a number occurs twice. -/
def Numbered (g : Growth) : Prop :=
  ∀ s ∈ g.top :: g.outer, Apart g.finished s.children

theorem numbered_move {m : Move} (hmove : g.move (fun _ => false) m = some g') (h : Numbered g) :
    Numbered g' := by
  obtain ⟨htop, houter⟩ := List.forall_mem_cons.1 h
  -- What is put down has no number.
  have hput (tree : Tree) : Apart g.finished (g.top.children ++ [⟨tree, none⟩]) := by
    refine htop.sublist ?_
    rw [numbers, List.filterMap_append]
    simp [numbers]
  cases m with
  | start =>
      cases hmove
      exact List.forall_mem_cons.2 ⟨⟨List.nodup_nil, nofun⟩, h⟩
  | complete kind =>
      obtain ⟨parent, outer, hstack, rfl⟩ := Growth.complete_eq_some_iff.1 hmove
      rw [hstack, List.forall_mem_cons] at houter
      exact List.forall_mem_cons.2 ⟨houter.1.put _, fun s hs => (houter.2 s hs).mono⟩
  | abandon =>
      obtain ⟨hnever, -⟩ := Growth.abandon_eq_some_iff.1 hmove
      cases hnever
  | precede node =>
      obtain ⟨before, tree, later, ⟨hchildren, -⟩, rfl⟩ := Growth.precede_eq_some_iff.1 hmove
      rw [hchildren] at htop
      refine List.forall_mem_cons.2 ⟨htop.sublist ?_, List.forall_mem_cons.2
        ⟨htop.sublist ?_, houter⟩⟩
      · rw [numbers_append_cons]
        exact (List.sublist_cons_self _ _).trans (List.sublist_append_right _ _)
      · rw [numbers_append_cons]
        exact List.sublist_append_left _ _
  | bump =>
      rw [Growth.move] at hmove
      split at hmove
      · cases hmove
        exact h
      · cases hmove
        exact List.forall_mem_cons.2 ⟨hput _, houter⟩
  | report kind =>
      cases hmove
      exact List.forall_mem_cons.2 ⟨hput _, houter⟩

/-- A tree that grows, and the tree that grows when the nodes that are marked are never begun. -/
structure Thins (gone : List Bool) (g g' : Growth) : Prop where
  absorbs : Absorbs gone (g.top :: g.outer) (g'.top :: g'.outer)
  pending : g'.pending = g.pending
  textEnd : g'.textEnd = g.textEnd
  finished : g'.finished = g.finished
  errors : g'.errors = g.errors

theorem run_cons_of_some {m : Move} (hmove : g.move mayGiveUp m = some mid) (later : List Move) :
    g.run mayGiveUp (m :: later) = mid.run mayGiveUp later := by
  rw [Growth.run, List.foldlM_cons, hmove]
  rfl

theorem move_precede_of_apart {node : Nat} {front later : List Child} {tree : Tree}
    (hnumbered : Numbered g) (hchildren : g.top.children = front ++ ⟨tree, some node⟩ :: later) :
    g.move mayGiveUp (.precede node) = some { g with
      top := ⟨true, false, ⟨tree, none⟩ :: later⟩
      outer := { g.top with children := front } :: g.outer } := by
  refine Growth.precede_eq_some_iff.2
    ⟨front, tree, later, ⟨hchildren, fun child hchild hnode => ?_⟩, rfl⟩
  have hnodup := (hnumbered g.top List.mem_cons_self).1
  rw [hchildren, numbers_append_cons] at hnodup
  have hmem : node ∈ numbers front := List.mem_filterMap.2 ⟨child, hchild, hnode⟩
  exact List.disjoint_of_nodup_append hnodup hmem List.mem_cons_self

/-- The second run can make these moves, and then the later ones, so that the trees go on as the
first one does from a place. -/
def KeepsUp (gone : List Bool) (mid g' : Growth) (moves later : List Move) : Prop :=
  ∃ mid', g'.run (fun _ => false) moves = mid'.run (fun _ => false) later ∧
    Thins gone mid mid' ∧ Numbered mid'

namespace Thins

variable {gone : List Bool} {later : List Move}

theorem keepsUp (h : Thins gone mid g') (hnumbered : Numbered g') :
    KeepsUp gone mid g' later later :=
  ⟨g', rfl, h, hnumbered⟩

theorem keepsUp_cons {m' : Move} {mid' : Growth}
    (hmove' : g'.move (fun _ => false) m' = some mid') (h : Thins gone mid mid')
    (hnumbered : Numbered g') :
    KeepsUp gone mid g' (m' :: later) later :=
  ⟨mid', run_cons_of_some hmove' later, h, numbered_move hmove' hnumbered⟩

theorem start (h : Thins (keep .start (later, gone)).2 g g')
    (hmove : g.move mayGiveUp .start = some mid) (hgone : gone.length = mid.outer.length + 1)
    (hnumbered : Numbered g') : KeepsUp gone mid g' (keep .start (later, gone)).1 later := by
  cases hmove
  obtain ⟨first, gone, rfl⟩ := List.exists_cons_of_length_eq_add_one hgone
  cases first with
  | true =>
      have hthins : Thins (true :: gone) { g with top := .new, outer := g.top :: g.outer } g' :=
        { h with absorbs := .gone h.absorbs .nil (List.append_nil _).symm }
      exact hthins.keepsUp hnumbered
  | false =>
      have hthins : Thins (false :: gone) { g with top := .new, outer := g.top :: g.outer }
          { g' with top := .new, outer := g'.top :: g'.outer } :=
        { h with absorbs := .kept .nil h.absorbs }
      exact hthins.keepsUp_cons rfl hnumbered

theorem complete {kind : SyntaxKind} (h : Thins (false :: gone) g g')
    (hmove : g.move mayGiveUp (.complete kind) = some mid) (hnumbered : Numbered g') :
    KeepsUp gone mid g' (.complete kind :: later) later := by
  obtain ⟨parent, outer, hstack, rfl⟩ := Growth.complete_eq_some_iff.1 hmove
  have habsorbs := h.absorbs
  rw [hstack] at habsorbs
  obtain ⟨hrow, hparent⟩ : RowsAlike g.top.children g'.top.children ∧
      Absorbs gone (parent :: outer) g'.outer := by
    cases habsorbs with
    | kept hrow hparent => exact ⟨hrow, hparent⟩
  obtain ⟨-, -, around, outer', -, hstack'⟩ := hparent.exists_cons
  have hchild : Alike ⟨.node kind g.top.trees, some g.finished⟩
      ⟨.node kind g'.top.trees, some g'.finished⟩ :=
    ⟨congrArg (Tree.node kind) hrow.trees_eq, fun number hnumber => h.finished ▸ hnumber⟩
  rw [hstack'] at hparent
  exact keepsUp_cons (Growth.complete_eq_some_iff.2 ⟨around, outer', hstack', rfl⟩) { h with
    absorbs := hparent.extend (.cons hchild .nil) rfl rfl
    finished := congrArg (· + 1) h.finished } hnumbered

theorem abandon (h : Thins (true :: gone) g g') (hmove : g.move mayGiveUp .abandon = some mid)
    (hnumbered : Numbered g') : KeepsUp gone mid g' later later := by
  obtain ⟨-, parent, outer, hstack, rfl⟩ := Growth.abandon_eq_some_iff.1 hmove
  have habsorbs := h.absorbs
  rw [hstack] at habsorbs
  exact keepsUp { h with absorbs := habsorbs.takeIn } hnumbered

theorem precede {node : Nat} (h : Thins (keep (.precede node) (later, gone)).2 g g')
    (hmove : g.move mayGiveUp (.precede node) = some mid)
    (hgone : gone.length = mid.outer.length + 1) (hnumbered : Numbered g') :
    KeepsUp gone mid g' (keep (.precede node) (later, gone)).1 later := by
  obtain ⟨before, tree, rest, ⟨hchildren, -⟩, rfl⟩ := Growth.precede_eq_some_iff.1 hmove
  obtain ⟨first, gone, rfl⟩ := List.exists_cons_of_length_eq_add_one hgone
  obtain ⟨front, child, rest', hchildren', halike, hrest, hsplit⟩ := h.absorbs.split hchildren
  have hrow : RowsAlike (⟨tree, none⟩ :: rest) (⟨child.tree, none⟩ :: rest') :=
    .cons ⟨halike.1, nofun⟩ hrest
  cases first with
  | true =>
      -- The children of the new node stay where they are if this node is taken out.
      have habsorbs := hsplit { g.top with children := before }
        { g'.top with children := front } rfl rfl
      exact keepsUp { h with
        absorbs := .gone habsorbs (.cons ⟨halike.1, nofun⟩ hrest) hchildren' } hnumbered
  | false =>
      obtain ⟨tree', number?⟩ := child
      obtain rfl := halike.2 node rfl
      exact keepsUp_cons (move_precede_of_apart hnumbered hchildren') { h with
        absorbs := .kept hrow (hsplit _ _ rfl rfl) } hnumbered

theorem bump (h : Thins gone g g') (hmove : g.move mayGiveUp .bump = some mid)
    (hnumbered : Numbered g') : KeepsUp gone mid g' (.bump :: later) later := by
  rw [Growth.move] at hmove
  split at hmove
  · rename_i hpending
    cases hmove
    exact h.keepsUp_cons (by rw [Growth.move, h.pending, hpending]) hnumbered
  · rename_i token pending hpending
    cases hmove
    have hmove' : g'.move (fun _ => false) .bump = some { g' with
        top := g'.top.put ⟨.leaf token.kind token.text, none⟩, pending := pending } := by
      rw [Growth.move, h.pending, hpending]
    exact keepsUp_cons hmove' { h with
      absorbs := h.absorbs.extend (.cons (.plain _) .nil) rfl rfl
      pending := rfl } hnumbered

theorem report {kind : ErrorKind} (h : Thins gone g g')
    (hmove : g.move mayGiveUp (.report kind) = some mid) (hnumbered : Numbered g') :
    KeepsUp gone mid g' (.report kind :: later) later := by
  cases hmove
  have hoffset : g'.offset = g.offset := by
    rw [Growth.offset, Growth.offset, h.pending, h.textEnd]
  have hmove' : g'.move (fun _ => false) (.report kind) = some { g' with
      top := g'.top.put ⟨.node (.node .error) [], none⟩
      errors := g'.errors ++ [⟨kind, .empty g.offset⟩] } := by
    rw [Growth.move, hoffset]
  exact keepsUp_cons hmove' { h with
    absorbs := h.absorbs.extend (.cons (.plain _) .nil) rfl rfl
    errors := congrArg (· ++ [⟨kind, .empty g.offset⟩]) h.errors } hnumbered

end Thins

theorem keepsUp_of_move {m : Move} {later : List Move} {gone : List Bool}
    (hmove : g.move mayGiveUp m = some mid) (hgone : gone.length = mid.outer.length + 1)
    (h : Thins (keep m (later, gone)).2 g g') (hnumbered : Numbered g') :
    KeepsUp gone mid g' (keep m (later, gone)).1 later := by
  cases m with
  | start => exact h.start hmove hgone hnumbered
  | complete kind => exact h.complete hmove hnumbered
  | abandon => exact h.abandon hmove hnumbered
  | precede node => exact h.precede hmove hgone hnumbered
  | bump => exact h.bump hmove hnumbered
  | report kind => exact h.report hmove hnumbered

theorem thins_run (hrun : g.run mayGiveUp moves = some last) (hlast : last.outer = [])
    (h : Thins (moves.foldr keep ([], [false])).2 g g') (hnumbered : Numbered g') :
    ∃ last', g'.run (fun _ => false) (moves.foldr keep ([], [false])).1 = some last' ∧
      Thins [false] last last' := by
  induction moves generalizing g g' with
  | nil =>
      cases hrun
      exact ⟨g', rfl, h⟩
  | cons m moves ih =>
      obtain ⟨mid, hmove, hrun⟩ := Growth.run_cons_eq_some_iff.1 hrun
      obtain ⟨gone, hgone, hlength⟩ := exists_gone_eq hrun hlast
      obtain ⟨mid', hmid, hthins, hnumbered'⟩ := keepsUp_of_move hmove
        (by rw [hgone, List.length_append, hlength]; rfl) h hnumbered
      obtain ⟨last', hlater, hlast'⟩ := ih hrun hthins hnumbered'
      exact ⟨last', hmid.trans hlater, hlast'⟩

theorem exists_run_withoutAbandoned {text : String}
    (hrun : (Growth.ofText text).run mayGiveUp moves = some last) (hlast : last.outer = [])
    (kind : SyntaxKind) :
    ∃ others last', withoutAbandoned (.start :: (moves ++ [.complete kind])) =
        .start :: (others ++ [.complete kind]) ∧
      (Growth.ofText text).run (fun _ => false) others = some last' ∧ last'.outer = [] ∧
      last'.top.trees = last.top.trees ∧ last'.errors = last.errors := by
  obtain ⟨gone, hgone, hlength⟩ := exists_gone_eq hrun hlast
  rw [List.eq_nil_of_length_eq_zero hlength, List.nil_append] at hgone
  -- At first only the outermost node is open, and it is not marked.
  have hthins : Thins [false] (Growth.ofText text) (Growth.ofText text) :=
    ⟨.root .nil, rfl, rfl, rfl, rfl⟩
  have hnumbered : Numbered (Growth.ofText text) :=
    List.forall_mem_cons.2 ⟨⟨List.nodup_nil, nofun⟩, nofun⟩
  rw [← hgone] at hthins
  obtain ⟨last', hrun', hlast'⟩ := thins_run hrun hlast hthins hnumbered
  have habsorbs := hlast'.absorbs
  rw [hlast] at habsorbs
  obtain ⟨hrow, houter⟩ : RowsAlike last.top.children last'.top.children ∧ last'.outer = [] := by
    generalize last'.outer = outer' at habsorbs ⊢
    cases habsorbs with
    | root hrow => exact ⟨hrow, rfl⟩
    | kept _ houter => cases houter
  refine ⟨_, last', ?_, hrun', houter, hrow.trees_eq.symm, hlast'.errors⟩
  have hfold : (moves ++ [Move.complete kind]).foldr keep ([], []) =
      ((moves.foldr keep ([], [false])).1 ++ [.complete kind], [false]) := by
    rw [List.foldr_append]
    exact (foldr_keep_append moves [.complete kind] [false]).trans (by rw [hgone])
  rw [withoutAbandoned, List.foldr_cons, hfold]
  rfl

/-- A node that is given up leaves no trace in the tree: the run in which it was never begun builds
the same tree and reports the same errors. Something has to be recorded for a node that is begun
around another one before it is given up. -/
theorem parse_eq_of_withoutAbandoned {text : String}
    (hrun : (Growth.ofText text).run (fun s => !s.wraps || s.used) moves = some last)
    (hlast : last.outer = []) (kind : SyntaxKind) :
    ∃ s t parse, sessionOf text (.start :: (moves ++ [.complete kind])) = some s ∧
      sessionOf text (withoutAbandoned (.start :: (moves ++ [.complete kind]))) = some t ∧
      s.finish text = .ok parse ∧ t.finish text = .ok parse := by
  have hgiven (s : Sprout) (hallowed : (!s.wraps || s.used) = true) (hwraps : s.wraps = true) :
      s.used = true := by simpa [hwraps] using hallowed
  obtain ⟨others, last', hothers, hrun', houter, htrees, herrors⟩ :=
    exists_run_withoutAbandoned hrun hlast kind
  obtain ⟨s, hs, hfinish⟩ := exists_session hgiven hrun hlast kind
  have hnever (s : Sprout) (hallowed : false = true) (_ : s.wraps = true) : s.used = true :=
    absurd hallowed Bool.false_ne_true
  obtain ⟨t, ht, hfinish'⟩ := exists_session hnever hrun' houter kind
  rw [htrees, herrors] at hfinish'
  exact ⟨s, t, _, hs, hothers ▸ ht, hfinish, hfinish'⟩

/-- A node around another one and a node at the end of the text, both given up. -/
theorem parse_eq_of_withoutAbandoned_wrapped :
    ∃ s t parse, sessionOf "a b" [.start, .start, .bump, .complete (.node .type), .precede 0,
        .bump, .abandon, .start, .abandon, .complete (.node .root)] = some s ∧
      sessionOf "a b" [.start, .start, .bump, .complete (.node .type), .bump,
        .complete (.node .root)] = some t ∧
      s.finish "a b" = .ok parse ∧ t.finish "a b" = .ok parse := by
  have htokens : Token.significant (Token.tokenize "a b") =
      [⟨.ident, 0, "a"⟩, ⟨.ident, 2, "b"⟩] := by decide +kernel
  have hrun : (Growth.ofText "a b").run (fun s => !s.wraps || s.used) [.start, .bump,
      .complete (.node .type), .precede 0, .bump, .abandon, .start, .abandon] =
      some ⟨⟨false, true, [⟨.node (.node .type) [.leaf .ident "a"], none⟩,
        ⟨.leaf .ident "b", none⟩]⟩, [], [], 3, 1, []⟩ := by
    rw [Growth.ofText, htokens]
    rfl
  exact parse_eq_of_withoutAbandoned hrun rfl (.node .root)

theorem exists_parse_of_text {s : Session} {text result : String}
    (h : (s.finish text).toOption.map (·.tree.text) = some result) :
    ∃ parse, s.finish text = .ok parse ∧ parse.tree.text = result := by
  cases hfinish : s.finish text with
  | error fault =>
      rw [hfinish] at h
      cases h
  | ok parse =>
      rw [hfinish] at h
      exact ⟨parse, rfl, Option.some.inj h⟩

/-- The exception is needed: if nothing is recorded for a node around another one before it is given
up, the tree loses the token that comes next. -/
theorem token_lost_by_empty_wrapper :
    ∃ s t parse parse', sessionOf "a b" [.start, .start, .bump, .complete (.node .type),
        .precede 0, .abandon, .bump, .complete (.node .root)] = some s ∧
      sessionOf "a b" (withoutAbandoned [.start, .start, .bump, .complete (.node .type),
        .precede 0, .abandon, .bump, .complete (.node .root)]) = some t ∧
      s.finish "a b" = .ok parse ∧ t.finish "a b" = .ok parse' ∧
      parse.tree.text = "a " ∧ parse'.tree.text = "a b" := by
  let tokens : Array Token := #[⟨.ident, 0, "a"⟩, ⟨.ident, 2, "b"⟩]
  let s : Session :=
    ⟨⟨tokens, 3, 2, [.start (.node .root) none, .start (.node .type) (some 3), .token .ident,
        .finish, .token .ident, .finish], [.completed, .completed, .abandoned], []⟩,
      #[none, none, none], #[⟨1, .node .type⟩, ⟨0, .node .root⟩], #[]⟩
  let t : Session :=
    ⟨⟨tokens, 3, 2, [.start (.node .root) none, .start (.node .type) none, .token .ident,
        .finish, .token .ident, .finish], [.completed, .completed], []⟩,
      #[none, none], #[⟨1, .node .type⟩, ⟨0, .node .root⟩], #[]⟩
  obtain ⟨parse, hparse, htext⟩ := exists_parse_of_text
    (show (s.finish "a b").toOption.map (·.tree.text) = some "a " by decide +kernel)
  obtain ⟨parse', hparse', htext'⟩ := exists_parse_of_text
    (show (t.finish "a b").toOption.map (·.tree.text) = some "a b" by decide +kernel)
  exact ⟨s, t, parse, parse', by decide +kernel, by decide +kernel, hparse, hparse', htext, htext'⟩

end PatternSyntax.Proofs.Dissolving
