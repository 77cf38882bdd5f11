import PatternSyntax.Proofs.RealizedRules

/-!
The procedures for expressions and labels realize the rules for them, and so do whole texts.
-/

namespace PatternSyntax.Proofs.Realization

open PatternSyntax.Proofs.Coverage
open PatternSyntax.Proofs.Markers

variable {γ δ : Type} {p s : Recorder} {m : Marker} {parts held : List Outline} {i : Nat}

section Blocks

variable {A : Aim γ δ} {F : Procedure δ} {G : Grammar γ}

/-- The procedure counts one brace more than the rule, which does not count the first one. -/
theorem tracks_blockTurns (hrest : Tracks p A F G) (limit depth : Nat) :
    Tracks p A (do
      let depth ← Procedure.iterateWithin Procedure.blockTurn limit (some (depth + 1))
      if depth.isSome then
        Procedure.report .expectedRBrace
      F) (do
      let _ ← Grammar.iterateWithin Grammar.blockTurn limit depth
      G) := by
  induction limit generalizing depth with
  | zero => exact fun _ _ => A.fault _
  | succ limit ih =>
      intro parts i
      simp only [Procedure.iterateWithin, Grammar.iterateWithin, Procedure.blockTurn,
        Grammar.blockTurn, bind_assoc]
      refine follows_next ?_
      cases nextKind (p.cursorAt i) with
      | none =>
          simp only [bind_assoc, pure_bind]
          exact Tracks.follows <| tracks_plain (realizes_report _) fun _ => hrest
      | some kind =>
          cases kind with
          | openBrace =>
              simp only [bind_assoc, pure_bind]
              exact Tracks.follows <| tracks_plain realizes_bump fun _ => ih (depth + 1)
          | closeBrace =>
              simp only [bind_assoc]
              refine Tracks.follows <| tracks_plain realizes_bump fun _ => ?_
              cases depth with
              | zero =>
                  simp only [pure_bind]
                  exact hrest
              | succ depth =>
                  simp only [pure_bind]
                  exact ih depth
          | _ =>
              simp only [bind_assoc, pure_bind]
              exact Tracks.follows <| tracks_plain realizes_bump fun _ => ih depth

theorem tracks_blockRest (hrest : Tracks p A F G) :
    Tracks p A (do
      let depth ← Procedure.iterate Procedure.blockTurn (some 1)
      if depth.isSome then
        Procedure.report .expectedRBrace
      F) (do
      let _ ← Grammar.iterate Grammar.blockTurn 0
      G) := by
  intro parts i
  have hrun := tracks_blockTurns hrest (p.tokens.size - i + 1) 0 parts i
  show A.Meets (behind parts ((Grammar.iterateWithin Grammar.blockTurn
    ((p.cursorAt i).rest.length + 1) 0 >>= fun _ => G) (p.cursorAt i))) _
  rw [length_rest_cursorAt]
  exact hrun

end Blocks

theorem iterate_blockTurn (hopen : p.current = some .openBrace) :
    Procedure.iterate Procedure.blockTurn (some 0) p =
      (do
        Procedure.bump
        Procedure.iterate Procedure.blockTurn (some 1)) p := by
  have hindex : p.index < p.tokens.size := by
    refine Nat.lt_of_not_le fun hend => ?_
    simp [Recorder.current, Recorder.nth, hend] at hopen
  have hlimit : p.bump.tokens.size - p.bump.index + 1 = p.tokens.size - p.index := by
    simp only [Recorder.bump, hopen, Recorder.record]
    omega
  have hturn : Procedure.blockTurn (some 0) p = .ok (.yield (some 1), p.bump) := by
    simp only [Procedure.blockTurn, bind, Procedure.next, Procedure.look, hopen]
    rfl
  show Procedure.iterateWithin Procedure.blockTurn (p.tokens.size - p.index + 1) (some 0) p =
    Procedure.iterateWithin Procedure.blockTurn (p.bump.tokens.size - p.bump.index + 1) (some 1)
      p.bump
  rw [hlimit, Procedure.iterateWithin]
  simp only [bind, hturn]

theorem outcome_codeBlock (hopen : nextKind p.cursor = some .openBrace) :
    Outcome .node p (Grammar.codeBlock p.cursor) (Procedure.codeBlock p) := by
  refine outcome_node <| follows_congr (iterate_blockTurn (nextKind_cursorAt.symm.trans hopen)) ?_
  rw [bind_assoc]
  refine Tracks.follows <| tracks_plain realizes_bump fun _ => ?_
  exact tracks_blockRest (tracks_complete (opens_start p) _)

theorem tracks_ifBlock {A : Aim Unit δ} {F : CompletedNode → Procedure δ} {f : Procedure δ}
    {g : Grammar Unit} (hyes : ∀ handle, Tracks p A (F handle) (pure ())) (hno : Tracks p A f g) :
    Tracks p A (do
      if ← Procedure.isAt .openBrace then
        let block ← Procedure.codeBlock
        F block
      else
        f) (do
      if ← Grammar.isAt .openBrace then
        Grammar.put (← Grammar.codeBlock)
      else
        g) := by
  refine fun parts i => follows_isAt <| follows_ite (fun hopen => ?_) fun _ => hno _ _
  rw [bind_put]
  exact follows_bind_here (v := .node) (outcome_codeBlock (beq_iff_eq.1 hopen))
    fun _ handle _ _ _ => follows_put (hyes handle).follows

theorem realizes_leaf (kind : NodeKind) :
    Realizes .node (Procedure.leaf kind) (Grammar.node kind Grammar.bump) :=
  realizes_node fun _ _ _ hm => tracks_last realizes_bump (tracks_complete hm kind)

section Rules

variable {q : Procedures} {r : Rules} (h : Agree q r)
include h

theorem realizes_expression : Realizes View.node.option q.expression r.expression :=
  h.conditional .lambda

theorem realizes_lambdaParameter :
    Realizes .node (Procedure.lambdaParameter q) (Grammar.lambdaParameter r) :=
  realizes_node fun _ _ _ hm => tracks_plain (realizes_isAt _) fun _ =>
    tracks_plain (realizes_isAhead _ _) fun _ => tracks_plain (realizes_isAhead _ _) fun _ =>
      tracks_ite (fun _ => tracks_last realizes_bump (tracks_complete hm _)) fun _ =>
        tracks_put (realizes_modifierList h _) fun _ =>
          tracks_plain (realizes_orReport (h.type .parameter)) fun _ =>
            tracks_last (realizes_expect _ _) (tracks_complete hm _)

theorem realizes_lambdaParameterTurn :
    Realizes .plain (Procedure.lambdaParameterTurn q) (Grammar.lambdaParameterTurn r) :=
  realizes_of_tracks fun _ => tracks_put (realizes_lambdaParameter h) fun _ =>
    (realizes_eat .comma).tracks_last

theorem realizes_lambdaParameters :
    Realizes .node (Procedure.lambdaParameters q) (Grammar.lambdaParameters r) :=
  realizes_node fun _ _ _ hm => tracks_ifAt
    (tracks_put_last (realizes_leaf .parameter) fun _ => tracks_complete hm _)
    (tracks_plain realizes_bump fun _ => tracks_ifAt
      (tracks_last (realizes_expect _ _) (tracks_complete hm _))
      (tracks_plain (realizes_repeatWhile (realizes_lambdaParameterTurn h)) fun _ =>
        tracks_last (realizes_expect _ _) (tracks_complete hm _)))

theorem realizes_lambda : Realizes .node (Procedure.lambda q) (Grammar.lambda r) :=
  realizes_node fun _ _ _ hm => tracks_put (realizes_lambdaParameters h) fun _ =>
    tracks_plain (realizes_eat .arrow) fun _ => tracks_ifBlock (fun _ => tracks_complete hm _)
      (tracks_last (realizes_orReport (realizes_expression h)) (tracks_complete hm _))

theorem realizes_parameterTurn :
    Realizes .plain (Procedure.parameterTurn q) (Grammar.parameterTurn r) :=
  realizes_of_tracks fun _ => tracks_mayFind (realizes_expression h)
    (tracks_plain (realizes_report _) fun _ => tracks_pure)
    fun _ _ _ _ _ => follows_put <| Tracks.follows (realizes_eat .comma).tracks_last

theorem realizes_arguments : Realizes .node (Procedure.arguments q) (Grammar.arguments r) :=
  realizes_node fun _ _ _ hm => tracks_plain realizes_bump fun _ => tracks_ifAt
    (tracks_last (realizes_expect _ _) (tracks_complete hm _))
    (tracks_plain (realizes_repeatWhile (realizes_parameterTurn h)) fun _ =>
      tracks_last (realizes_expect _ _) (tracks_complete hm _))

theorem realizes_valueTurn : Realizes .plain (Procedure.valueTurn q) (Grammar.valueTurn r) :=
  realizes_of_tracks fun _ => tracks_plain (realizes_isAt _) fun _ =>
    tracks_plain realizes_isAtEnd fun _ => tracks_ite (fun _ => tracks_pure) fun _ => tracks_ifAt
      (tracks_put h.arrayInitializer fun _ => (realizes_eat .comma).tracks_last)
      (tracks_mayFind (realizes_expression h)
        (tracks_plain (realizes_report _) fun _ => tracks_pure)
        fun _ _ _ _ _ => follows_put <| Tracks.follows (realizes_eat .comma).tracks_last)

theorem realizes_arrayInitializer :
    Realizes .node (Procedure.arrayInitializer q) (Grammar.arrayInitializer r) :=
  realizes_node fun _ _ _ hm => tracks_plain realizes_bump fun _ =>
    tracks_plain (realizes_repeatWhile (realizes_valueTurn h)) fun _ =>
      tracks_last (realizes_expect _ _) (tracks_complete hm _)

theorem realizes_dimensionTurn :
    Realizes .plain (Procedure.dimensionTurn q) (Grammar.dimensionTurn r) :=
  realizes_of_tracks fun _ => tracks_plain (realizes_eat _) fun _ => tracks_ite
    (fun _ => tracks_ifAt (tracks_plain (realizes_expect _ _) fun _ => tracks_pure)
      (tracks_plain (realizes_orReport (realizes_expression h)) fun _ =>
        tracks_plain (realizes_expect _ _) fun _ => tracks_pure))
    fun _ => tracks_pure

theorem realizes_newTail (isPrimitive : Bool) :
    Realizes .plain (Procedure.newTail q isPrimitive) (Grammar.newTail r isPrimitive) :=
  realizes_of_tracks fun _ => tracks_ifAt
    (tracks_plain (realizes_repeatWhile (realizes_dimensionTurn h)) fun _ => tracks_ifAt
      (tracks_put_last h.arrayInitializer fun _ => tracks_pure) tracks_pure)
    (tracks_plain (realizes_isAt _) fun _ => tracks_ite
      (fun _ => tracks_put (realizes_arguments h) fun _ =>
        tracks_ifBlock (fun _ => tracks_pure) tracks_pure)
      fun _ => (realizes_report _).tracks_last)

theorem realizes_newExpression :
    Realizes .node (Procedure.newExpression q) (Grammar.newExpression r) := by
  refine realizes_node fun p s m hm => tracks_plain realizes_bump fun _ parts i => follows_next ?_
  cases hnext : nextKind (s.cursorAt i) with
  | none =>
      refine follows_sees ?_
      rw [hnext]
      exact Tracks.follows <| tracks_last (realizes_report _) (tracks_complete hm _)
  | some kind =>
      simp only [Option.any_some]
      refine follows_ite (fun hprimitive => ?_) fun hprimitive => follows_sees ?_
      · rw [hprimitive]
        exact Tracks.follows <| tracks_put (realizes_leaf .type) fun _ =>
          tracks_last (realizes_newTail h true) (tracks_complete hm _)
      · rw [hnext, Bool.eq_false_iff.2 hprimitive]
        exact Tracks.follows <| tracks_ite
          (fun _ => tracks_put (realizes_codeReference h _ _) fun _ =>
            tracks_last (realizes_newTail h false) (tracks_complete hm _))
          fun _ => tracks_last (realizes_report _) (tracks_complete hm _)

/-- The rule looks behind a dot before it begins a node; the procedure has begun one and passed the
dot. -/
theorem resumes_selectorTurn : Resumes .node (View.step .node) (Procedure.selectorTurn q)
    (Grammar.selectorTurn r) := by
  refine resumes_of_follows fun p i found handle hshows => follows_isAt <|
    follows_ite (fun hdot => ?_) fun _ => follows_isAt ?_
  · refine follows_preceding hshows fun m s hm => ?_
    have hdot : nextKind (s.cursorAt i) = some .dot := by
      rw [hm.cursorAt_eq]
      exact beq_iff_eq.1 hdot
    have hbehind : (s.cursorAt i).rest[1]?.map (·.kind) = nextKind (s.cursorAt (i + 1)) :=
      (map_kind_rest 1).trans nextKind_cursorAt.symm
    refine follows_looks rfl ?_
    rw [hbehind]
    by_cases hclass : nextKind (s.cursorAt (i + 1)) = some .classKw
    · rw [hclass]
      exact follows_around <| follows_bump hdot <| follows_eat hclass <| Tracks.follows <|
        tracks_last realizes_bump (tracks_complete_yield hm _ fun _ => rfl)
    · rw [beq_eq_false_iff_ne.2 hclass, if_neg Bool.false_ne_true]
      refine follows_looks rfl ?_
      rw [hbehind]
      by_cases hident : nextKind (s.cursorAt (i + 1)) = some .ident
      · rw [hident]
        exact follows_around <| follows_bump hdot <| follows_eat_ne hclass <| follows_eat hident <|
          Tracks.follows <| tracks_last realizes_bump (tracks_complete_yield hm _ fun _ => rfl)
      · rw [beq_eq_false_iff_ne.2 hident, if_neg Bool.false_ne_true]
        exact follows_around <| follows_bump hdot <| follows_eat_ne hclass <|
          follows_eat_ne hident <| Tracks.follows <|
            tracks_last (realizes_report _) (tracks_complete_done hm _ fun _ => rfl)
  · obtain ⟨-, kind, htop, hhandle⟩ := id hshows
    have hkind : handle.kind = .node kind := by rw [hhandle]
    have hnamed : (SyntaxKind.node kind == .node .referenceExpression) =
        (some kind == some .referenceExpression) := by
      rw [Bool.eq_iff_iff]
      simp
    rw [htop, hkind, hnamed, Bool.and_comm]
    refine follows_ite (fun _ => ?_) fun _ => follows_isAt ?_
    · exact follows_yield (resumes_around fun _ _ _ _ hm =>
        tracks_put_last (realizes_arguments h) fun _ => tracks_complete hm _) hshows
    · refine follows_ite (fun _ => ?_) fun _ => follows_pure_done hshows
      exact follows_yield (resumes_around fun _ _ _ _ hm => tracks_plain realizes_bump fun _ =>
        tracks_plain (realizes_orReport (realizes_expression h)) fun _ =>
          tracks_last (realizes_expect _ _) (tracks_complete hm _)) hshows

omit h in
theorem resumes_postfixTurn :
    Resumes .node (View.step .node) Procedure.postfixTurn Grammar.postfixTurn :=
  resumes_of_follows fun _ _ _ _ hshows => follows_isAt <| follows_isAt <| follows_ite
    (fun _ => follows_yield (resumes_around fun _ _ _ _ hm =>
      tracks_last realizes_bump (tracks_complete hm _)) hshows)
    fun _ => follows_pure_done hshows

theorem follows_selected {f : Procedure CompletedNode} {g : Grammar Outline}
    (hfirst : Realizes .node f g) :
    Follows p (.answer View.node.option p) [] [] i (Procedure.selected q f)
      ((do return some (← g)) >>= Grammar.grown (Grammar.selectorTurn r)) := by
  rw [bind_assoc]
  refine follows_bind_held trivial hfirst fun found handle j hshows => ?_
  rw [pure_bind]
  exact follows_found (resumes_iterate (resumes_selectorTurn h)) hshows

end Rules

section Lambdas

variable {glued : Bool} {rest : List Terminal}

theorem arrowFollows_eq (depth : Nat) (rest : List Terminal) :
    Procedure.arrowFollows (depth + 1) (rest.map (·.kind)) =
      .ok (Grammar.arrowFollows depth rest) := by
  induction rest generalizing depth with
  | nil => rfl
  | cons terminal rest ih =>
      obtain ⟨kind, glued⟩ := terminal
      cases kind with
      | openParen => exact ih (depth + 1)
      | closeParen =>
          cases depth with
          | zero =>
              cases rest with
              | nil => rfl
              | cons next rest => rfl
          | succ depth => exact ih depth
      | _ => exact ih depth

theorem isLambda_ident :
    Grammar.isLambda (⟨.ident, glued⟩ :: rest) = (rest[0]?.map (·.kind) == some .arrow) := by
  cases rest with
  | nil => rfl
  | cons next rest => rfl

theorem isParenthesizedLambda_eq (hrest : (p.cursorAt i).rest = ⟨.openParen, glued⟩ :: rest) :
    Procedure.isParenthesizedLambda (p.recordAll parts i) =
      .ok (Grammar.arrowFollows 0 rest, p.recordAll parts i) := by
  have hkinds : (p.tokens.toList.drop i).map (·.kind) = .openParen :: rest.map (·.kind) := by
    rw [← Terminal.map_kind_ofTokens]
    exact congrArg (List.map (·.kind)) hrest
  have harrow : Procedure.arrowFollows 0 (.openParen :: rest.map (·.kind)) =
      .ok (Grammar.arrowFollows 0 rest) := arrowFollows_eq 0 rest
  show (Procedure.arrowFollows 0 ((p.tokens.toList.drop i).map (·.kind))).map _ = _
  rw [hkinds, harrow]
  rfl

end Lambdas

section Operands

variable {q : Procedures} {r : Rules} (h : Agree q r)
include h

theorem realizes_parenthesized :
    Realizes .node (Procedure.parenthesized q) (Grammar.parenthesized r) :=
  realizes_node fun _ _ _ hm => tracks_plain realizes_bump fun _ =>
    tracks_plain (realizes_orReport (realizes_expression h)) fun _ =>
      tracks_last (realizes_expect _ _) (tracks_complete hm _)

theorem realizes_classObject :
    Realizes .node (Procedure.classObject q) (Grammar.classObject r) := by
  have hselector {p s : Recorder} {m : Marker} (hm : Opens p s m .node) :
      Tracks s (finishing (.node .classObjectAccessExpression) p) (do
        Procedure.expect .dot .expectedExpression
        Procedure.expect .classKw .expectedIdentifier
        Procedure.complete m .classObjectAccessExpression) Grammar.classSelector :=
    tracks_plain (realizes_expect _ _) fun _ =>
      tracks_last (realizes_expect _ _) (tracks_complete hm _)
  exact realizes_node fun _ _ _ hm => tracks_mayFind (h.type .plain) (hselector hm)
    fun _ _ _ _ _ => follows_put (hselector hm).follows

theorem follows_operand {arrow : ArrowRole} {kind : TokenKind} {glued : Bool} {rest : List Terminal}
    (hrest : (p.cursorAt i).rest = ⟨kind, glued⟩ :: rest)
    (hlambda : (arrow == .lambda && Grammar.isLambda (⟨kind, glued⟩ :: rest)) = false) :
    Follows p (.answer View.node.option p) [] [] i (Procedure.primary q arrow)
      (Grammar.grow (Grammar.operand r) (Grammar.selectorTurn r)) := by
  have hnext : nextKind (p.cursorAt i) = some kind := by rw [nextKind, hrest]; rfl
  refine follows_sees_next ?_
  unfold Grammar.grow Grammar.operand
  rw [bind_assoc]
  refine follows_looks rfl ?_
  rw [show Option.map (fun x => x.kind) (p.cursorAt i).rest[0]? = some kind from hnext, hnext]
  refine follows_ite_bind (fun _ => follows_selected h (realizes_leaf _)) fun _ =>
    follows_ite_bind (fun hident => ?_) fun _ =>
    follows_ite_bind (fun _ => follows_selected h (realizes_leaf _)) fun _ =>
    follows_ite_bind (fun _ => follows_selected h (realizes_leaf _)) fun _ =>
    follows_ite_bind (fun hparen => ?_) fun _ =>
    follows_ite_bind (fun _ => follows_selected h (realizes_newExpression h)) fun _ =>
    follows_ite_bind (fun _ => follows_selected h (realizes_classObject h)) fun _ =>
      follows_pure_none
  · cases beq_iff_eq.1 hident
    refine follows_sees_ahead ?_
    rw [isLambda_ident] at hlambda
    rw [hrest, List.getElem?_cons_succ, hlambda]
    exact follows_selected h (realizes_leaf _)
  · cases beq_iff_eq.1 hparen
    cases harrow : arrow == .lambda with
    | false => exact follows_selected h (realizes_parenthesized h)
    | true =>
        rw [harrow, Bool.true_and] at hlambda
        have hview : Procedure.isParenthesizedLambda (p.recordAll ([] ++ []) i) =
            .ok (false, p.recordAll ([] ++ []) i) := by
          rw [isParenthesizedLambda_eq hrest, ← hlambda]
          rfl
        exact follows_views hview (follows_selected h (realizes_parenthesized h))

theorem follows_lambda {kind : TokenKind} {glued : Bool} {rest : List Terminal}
    (hrest : (p.cursorAt i).rest = ⟨kind, glued⟩ :: rest)
    (hlambda : Grammar.isLambda (⟨kind, glued⟩ :: rest) = true) :
    Follows p (.answer View.node.option p) [] [] i (Procedure.primary q .lambda) (do
      return some (← Grammar.lambda r)) := by
  have hnext : nextKind (p.cursorAt i) = some kind := by rw [nextKind, hrest]; rfl
  have hfound := (realizes_lambda h).found trivial
  refine follows_sees_next ?_
  rw [hnext]
  cases kind with
  | ident =>
      refine follows_sees_ahead ?_
      rw [isLambda_ident] at hlambda
      rw [hrest, List.getElem?_cons_succ, hlambda]
      exact hfound.follows_last
  | openParen =>
      have hview : Procedure.isParenthesizedLambda (p.recordAll ([] ++ []) i) =
          .ok (true, p.recordAll ([] ++ []) i) := by
        rw [isParenthesizedLambda_eq hrest, ← hlambda]
        rfl
      refine follows_views hview ?_
      exact hfound.follows_last
  | _ => cases hlambda

theorem realizes_primary (arrow : ArrowRole) :
    Realizes View.node.option (Procedure.primary q arrow) (Grammar.primary r arrow) := by
  refine realizes_of_follows fun p i => follows_looks rfl ?_
  cases hrest : (p.cursorAt i).rest with
  | nil =>
      have hnext : nextKind (p.cursorAt i) = none := by rw [nextKind, hrest]; rfl
      refine follows_sees_next ?_
      rw [hnext, show Grammar.isLambda [] = false from rfl, Bool.and_false]
      show Follows _ _ _ _ _ _ (Grammar.operand r >>= _)
      unfold Grammar.operand
      rw [bind_assoc]
      refine follows_looks rfl ?_
      rw [hrest]
      exact follows_pure_none
  | cons terminal rest =>
      obtain ⟨kind, glued⟩ := terminal
      cases hlambda : arrow == .lambda && Grammar.isLambda (⟨kind, glued⟩ :: rest) with
      | false => exact follows_operand h hrest hlambda
      | true =>
          rw [Bool.and_eq_true] at hlambda
          cases beq_iff_eq.1 hlambda.1
          exact follows_lambda h hrest hlambda.2

end Operands

end PatternSyntax.Proofs.Realization
