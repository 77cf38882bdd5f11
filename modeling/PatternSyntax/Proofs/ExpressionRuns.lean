import PatternSyntax.Proofs.Casts

/-!
Runs of the rules for expressions on what they should read. Each of these rules finds an operand and
goes on with turns of a loop over what comes behind it.
-/

namespace PatternSyntax.Proofs.ExpressionRuns

open Grammar
open PatternSyntax.Proofs.Casts
open PatternSyntax.Proofs.Coverage
open PatternSyntax.Proofs.Forward
open PatternSyntax.Proofs.Operands
open PatternSyntax.Proofs.Sketches
open PatternSyntax.Proofs.Sources
open PatternSyntax.Proofs.Spelling
open PatternSyntax.Proofs.TypeRuns

variable {r : Rules} {c mid stop : Cursor} {arrow : ArrowRole}

/-- An operand is found from which turns of the loop lead to this outline. -/
def Grows (g : Grammar (Option Outline)) (turn : Outline → Grammar (ForInStep Outline))
    (c : Cursor) (outline : Outline) (stop : Cursor) : Prop :=
  ∃ first mid, g c = .ok ⟨some first, [], mid⟩ ∧ Turns turn first mid outline stop

namespace Grows

variable {g : Grammar (Option Outline)} {turn : Outline → Grammar (ForInStep Outline)}
  {outline larger : Outline}

theorem of_run (h : g c = .ok ⟨some outline, [], stop⟩) : Grows g turn c outline stop :=
  ⟨outline, stop, h, .refl _ _⟩

theorem snoc (h : Grows g turn c outline mid)
    (hturn : turn outline mid = .ok ⟨.yield larger, [], stop⟩)
    (hlt : stop.rest.length < mid.rest.length) : Grows g turn c larger stop := by
  obtain ⟨first, start, hfirst, hturns⟩ := h
  exact ⟨first, start, hfirst, hturns.snoc hturn hlt⟩

theorem run (h : Grows g turn c outline stop)
    (hturn : turn outline stop = .ok ⟨.done outline, [], stop⟩) :
    grow g turn c = .ok ⟨some outline, [], stop⟩ := by
  obtain ⟨first, start, hfirst, hturns⟩ := h
  exact run_look hfirst (run_some (hturns.iterate hturn))

end Grows

theorem run_operand_literal {kind : TokenKind} (h : Passes kind c stop)
    (hkind : kind.isLiteral = true) :
    operand r c = .ok ⟨some (.node .literalExpression [.token kind]), [], stop⟩ := by
  refine run_look (a := nextKind c) rfl ?_
  rw [h.nextKind_eq]
  dsimp only
  rw [if_pos hkind]
  exact run_some (run_node h.bump)

theorem run_operand_word {kind : TokenKind} {made : NodeKind} (h : Passes kind c stop)
    (hkind : (kind, made) ∈ [(TokenKind.ident, NodeKind.referenceExpression),
      (.thisKw, .thisExpression), (.superKw, .superExpression)]) :
    operand r c = .ok ⟨some (.node made [.token kind]), [], stop⟩ := by
  refine run_look (a := nextKind c) rfl ?_
  rw [h.nextKind_eq]
  simp only [List.mem_cons, Prod.mk.injEq, List.not_mem_nil, or_false] at hkind
  rcases hkind with ⟨rfl, rfl⟩ | ⟨rfl, rfl⟩ | ⟨rfl, rfl⟩
  · exact run_some (run_node h.bump)
  · exact run_some (run_node h.bump)
  · exact run_some (run_node h.bump)

theorem run_operand_grouped {inner : Outline} {behind : Cursor} (hopen : Passes .openParen c mid)
    (h : r.expression mid = .ok ⟨some inner, [], behind⟩)
    (hclose : Passes .closeParen behind stop) :
    operand r c = .ok ⟨some (.node .parenthesizedExpression
      [.token .openParen, inner, .token .closeParen]), [], stop⟩ := by
  refine run_look (a := nextKind c) rfl ?_
  rw [hopen.nextKind_eq]
  exact run_some (run_node (hopen.bump_bind (run_bind (run_orReport h) hclose.expect)))

theorem run_selectorTurn_member {subject : Outline} (hdot : Passes .dot c mid)
    (hname : Passes .ident mid stop) :
    selectorTurn r subject c = .ok ⟨.yield (.around .referenceExpression subject
      [.token .dot, .token .ident]), [], stop⟩ := by
  refine run_ifAt_pos hdot.nextKind_eq (run_look (isAhead_of_passes hdot hname.nextKind_eq _)
    (run_look (isAhead_of_passes hdot hname.nextKind_eq _) ?_))
  exact run_look (run_around (hdot.bump_bind hname.bump)) rfl

theorem run_selectorTurn_call {subject given : Outline} (hopen : nextKind c = some .openParen)
    (htop : subject.top? = some .referenceExpression)
    (h : arguments r c = .ok ⟨given, [], stop⟩) :
    selectorTurn r subject c =
      .ok ⟨.yield (.around .methodCallExpression subject [given]), [], stop⟩ := by
  refine run_ifAt_neg (by rw [hopen]; decide) (run_look (a := nextKind c == some .openParen) rfl ?_)
  rw [htop, hopen]
  exact run_look (run_around (run_found h)) rfl

theorem run_selectorTurn_element {subject position : Outline} {behind : Cursor}
    (hopen : Passes .openBracket c mid)
    (h : r.expression mid = .ok ⟨some position, [], behind⟩)
    (hclose : Passes .closeBracket behind stop) :
    selectorTurn r subject c = .ok ⟨.yield (.around .arrayAccessExpression subject
      [.token .openBracket, position, .token .closeBracket]), [], stop⟩ := by
  have hnext := hopen.nextKind_eq
  refine run_ifAt_neg (by rw [hnext]; decide) (run_look (a := nextKind c == some .openParen) rfl ?_)
  rw [hnext, if_neg (by simp)]
  refine run_ifAt_pos hnext (run_look (run_around ?_) rfl)
  exact hopen.bump_bind (run_bind (run_orReport h) hclose.expect)

theorem run_selectorTurn_done {subject : Outline} (h : nextKind c ≠ some .dot ∧
    nextKind c ≠ some .openParen ∧ nextKind c ≠ some .openBracket) :
    selectorTurn r subject c = .ok ⟨.done subject, [], c⟩ := by
  refine run_ifAt_neg h.1 (run_look (a := nextKind c == some .openParen) rfl ?_)
  rw [if_neg (by simp [h.2.1])]
  exact run_ifAt_neg h.2.2 rfl

theorem run_primary {outline : Outline} (hlambda : arrow = .lambda → isLambda c.rest = false)
    (h : Grows (operand r) (selectorTurn r) c outline stop) (hstop : nextKind stop ≠ some .dot ∧
      nextKind stop ≠ some .openParen ∧ nextKind stop ≠ some .openBracket) :
    primary r arrow c = .ok ⟨some outline, [], stop⟩ := by
  rw [primary]
  refine run_look (a := c.rest) rfl ?_
  have hplain : (arrow == .lambda && isLambda c.rest) = false := by
    cases arrow with
    | lambda => exact hlambda rfl
    | terminator => rfl
  rw [hplain, if_neg Bool.false_ne_true]
  exact h.run (run_selectorTurn_done hstop)

theorem run_parameterTurn {outline : Outline}
    (h : r.expression c = .ok ⟨some outline, [], mid⟩) (hcomma : Passes .comma mid stop) :
    parameterTurn r c = .ok ⟨true, [outline, .token .comma], stop⟩ :=
  run_look h (run_put_bind hcomma.eat)

theorem run_parameterTurn_last {outline : Outline}
    (h : r.expression c = .ok ⟨some outline, [], stop⟩) (hstop : nextKind stop ≠ some .comma) :
    parameterTurn r c = .ok ⟨false, [outline], stop⟩ :=
  run_look h (run_put_bind (eat_of_nextKind_ne hstop))

theorem run_arguments_none (hopen : Passes .openParen c mid)
    (hclose : Passes .closeParen mid stop) :
    arguments r c =
      .ok ⟨.node .expressionList [.token .openParen, .token .closeParen], [], stop⟩ := by
  unfold arguments
  exact run_node (hopen.bump_bind (run_ifAt_pos hclose.nextKind_eq hclose.expect))

theorem run_arguments {row : List Outline} {behind : Cursor} (hopen : Passes .openParen c mid)
    (hmid : nextKind mid ≠ some .closeParen)
    (hrow : Loops (again (parameterTurn r)) () mid () row behind)
    (hclose : Passes .closeParen behind stop) :
    arguments r c = .ok ⟨.node .expressionList (.token .openParen :: (row ++ [.token .closeParen])),
      [], stop⟩ := by
  unfold arguments
  exact run_node (hopen.bump_bind (run_ifAt_neg hmid (run_bind hrow.iterate hclose.expect)))

theorem run_postfixTurn {kind : TokenKind} {subject : Outline} (h : Passes kind c stop)
    (hkind : kind = .plusPlus ∨ kind = .minusMinus) :
    postfixTurn subject c =
      .ok ⟨.yield (.around .postfixExpression subject [.token kind]), [], stop⟩ := by
  refine run_look (a := nextKind c == some .plusPlus) rfl
    (run_look (a := nextKind c == some .minusMinus) rfl ?_)
  rw [h.nextKind_eq, if_pos (by rcases hkind with rfl | rfl <;> rfl)]
  exact run_look (run_around h.bump) rfl

theorem run_postfixTurn_done {subject : Outline}
    (h : nextKind c ≠ some .plusPlus ∧ nextKind c ≠ some .minusMinus) :
    postfixTurn subject c = .ok ⟨.done subject, [], c⟩ := by
  refine run_look (a := nextKind c == some .plusPlus) rfl
    (run_look (a := nextKind c == some .minusMinus) rfl ?_)
  rw [if_neg (by simp [h])]
  rfl

theorem run_postfixOperand {outline : Outline}
    (h : Grows (primary r arrow) postfixTurn c outline stop)
    (hstop : nextKind stop ≠ some .plusPlus ∧ nextKind stop ≠ some .minusMinus) :
    postfixOperand r arrow c = .ok ⟨some outline, [], stop⟩ := by
  rw [postfixOperand]
  exact h.run (run_postfixTurn_done hstop)

theorem run_unary_plain {kind : TokenKind} {outline : Outline} (hnext : nextKind c = some kind)
    (hkind : kind.isPrefixOperator = false)
    (hcast : kind = .openParen → cast r arrow c = .ok ⟨none, [], c⟩)
    (h : postfixOperand r arrow c = .ok ⟨some outline, [], stop⟩) :
    Grammar.unary r arrow c = .ok ⟨some outline, [], stop⟩ := by
  refine run_look (a := nextKind c) rfl ?_
  rw [hnext]
  dsimp only
  rw [hkind, if_neg Bool.false_ne_true]
  split
  · exact run_look (hcast (beq_iff_eq.1 ‹_›)) h
  · exact h

theorem run_unary_signed {kind : TokenKind} {outline : Outline} (hsign : Passes kind c mid)
    (hkind : kind.isPrefixOperator = true)
    (h : r.binary BinaryOperator.operandLevel arrow mid = .ok ⟨some outline, [], stop⟩) :
    Grammar.unary r arrow c =
      .ok ⟨some (.node .prefixExpression [.token kind, outline]), [], stop⟩ := by
  refine run_look (a := nextKind c) rfl ?_
  rw [hsign.nextKind_eq]
  dsimp only
  rw [if_pos hkind]
  exact run_some (run_node (hsign.bump_bind (run_orReport h)))

theorem run_castType {kind : TokenKind} {type : Outline} {behind : Cursor}
    (hopen : Passes .openParen c mid) (hmid : nextKind mid = some kind)
    (h : r.type .plain mid = .ok ⟨some type, [], behind⟩) (hclean : type.hasError = false)
    (hclose : Passes .closeParen behind stop)
    (hstop : (nextKind stop).any (TokenKind.startsCastOperand kind.isPrimitiveType) = true) :
    castType r c = .ok ⟨true, [.token .openParen, type], behind⟩ := by
  refine hopen.bump_bind (run_look (a := nextKind mid) rfl (run_look h (run_put_bind ?_)))
  refine run_look (a := nextKind behind == some .closeParen) rfl
    (run_look (a := behind.rest[1]?.map (·.kind)) rfl ?_)
  rw [hmid, hclose.nextKind_eq, hclose.ahead_eq, hclean, Option.any_some, hstop]
  rfl

theorem run_unary_cast {type outline : Outline} {behind : Cursor}
    (hopen : nextKind c = some .openParen)
    (htype : castType r c = .ok ⟨true, [.token .openParen, type], mid⟩)
    (hclose : Passes .closeParen mid behind)
    (h : r.unary arrow behind = .ok ⟨some outline, [], stop⟩) :
    Grammar.unary r arrow c = .ok ⟨some (.node .typeCastExpression
      [.token .openParen, type, .token .closeParen, outline]), [], stop⟩ := by
  have hcast : cast r arrow c = .ok ⟨some (.node .typeCastExpression
      [.token .openParen, type, .token .closeParen, outline]), [], stop⟩ := by
    unfold Grammar.cast
    refine run_attempt (run_look (run_capture htype) (run_some (run_node ?_)))
    have hput : putAll [.token .openParen, type] mid =
        .ok ⟨(), [.token .openParen, type], mid⟩ := rfl
    exact run_bind hput (hclose.bump_bind (run_orReport h))
  refine run_look (a := nextKind c) rfl ?_
  rw [hopen]
  exact run_look hcast rfl

theorem run_bumpMany {row : List Lexeme} (h : Spans (row.map .token) c stop) :
    bumpMany row.length c = .ok ⟨(), Sketch.outlineAll (row.map .token), stop⟩ := by
  induction row generalizing c with
  | nil =>
      cases h.eq_of_nil
      rfl
  | cons lexeme row ih =>
      obtain ⟨mid, hpasses, hrest⟩ := h.token_cons
      exact hpasses.bump_bind (ih hrest)

/-- The tokens with which an operator begins. -/
structure BeginsOperator (kind : TokenKind) : Prop where
  startsCastOperand : kind.startsCastOperand false = false
  ne_dot : kind ≠ .dot
  ne_openBracket : kind ≠ .openBracket
  ne_plusPlus : kind ≠ .plusPlus
  ne_minusMinus : kind ≠ .minusMinus
  ne_instanceofKw : kind ≠ .instanceofKw
  ne_arrow : kind ≠ .arrow

theorem exists_beginsOperator {operator : Operator} {rest : List Sketch}
    (h : Spans (operator.lexemes.map Sketch.token ++ rest) c stop) :
    ∃ kind, nextKind c = some kind ∧ BeginsOperator kind := by
  have hbegins : ∃ first later, operator.lexemes = first :: later ∧ BeginsOperator first.kind := by
    cases operator with
    | _ => exact ⟨_, _, rfl, rfl, nofun, nofun, nofun, nofun, nofun, nofun⟩
  obtain ⟨first, later, hlexemes, hkind⟩ := hbegins
  rw [hlexemes] at h
  obtain ⟨mid, hpasses, -⟩ := h.token_cons
  exact ⟨first.kind, hpasses.nextKind_eq, hkind⟩

theorem ofTerminals?_of_spans {operator : Operator} {rest : List Sketch}
    (h : Spans (operator.lexemes.map Sketch.token ++ rest) c stop) :
    BinaryOperator.ofTerminals? c.rest = some ⟨operator.level, operator.lexemes.length⟩ := by
  rw [h.rest_eq, Sketch.lexemesAll_append, Sketch.lexemesAll_token, List.map_append,
    List.append_assoc]
  exact operator.ofTerminals?_lexemes _

theorem run_binaryTurn {operator : Operator} {level : Nat} {left right : Outline}
    (hlevel : level ≤ operator.level) (h : Spans (operator.lexemes.map Sketch.token) c mid)
    (hright : r.binary (operator.level + 1) arrow mid = .ok ⟨some right, [], stop⟩) :
    binaryTurn r level arrow left c = .ok ⟨.yield (.around .binaryExpression left
      (Sketch.outlineAll (operator.lexemes.map Sketch.token) ++ [right])), [], stop⟩ := by
  have happend : Spans (operator.lexemes.map Sketch.token ++ []) c mid := by
    rwa [List.append_nil]
  obtain ⟨kind, hnext, hkind⟩ := exists_beginsOperator happend
  refine run_look (a := c.rest) rfl ?_
  rw [ofTerminals?_of_spans happend]
  dsimp only
  unfold operatorTurn
  rw [if_neg (Nat.not_lt.2 hlevel)]
  refine run_ifAt_neg (fun heq => ?_) (run_look (run_capture (run_bind (run_bumpMany h)
    (run_look hright (run_put_bind rfl)))) rfl)
  exact hkind.ne_instanceofKw (Option.some.inj (hnext.symm.trans heq))

theorem run_binaryTurn_done {level : Nat} {left : Outline}
    (h : ∀ operator ∈ BinaryOperator.ofTerminals? c.rest, operator.level < level) :
    binaryTurn r level arrow left c = .ok ⟨.done left, [], c⟩ := by
  refine run_look (a := c.rest) rfl ?_
  cases hoperator : BinaryOperator.ofTerminals? c.rest with
  | none => rfl
  | some operator =>
      dsimp only
      unfold operatorTurn
      rw [if_pos (h operator hoperator)]
      rfl

theorem run_binary {level : Nat} {outline : Outline}
    (h : Grows (r.unary arrow) (binaryTurn r level arrow) c outline stop)
    (hstop : ∀ operator ∈ BinaryOperator.ofTerminals? stop.rest, operator.level < level) :
    Grammar.binary r level arrow c = .ok ⟨some outline, [], stop⟩ := by
  rw [Grammar.binary]
  exact h.run (run_binaryTurn_done hstop)

theorem run_conditional_plain {outline : Outline}
    (h : r.binary 0 arrow c = .ok ⟨some outline, [], stop⟩)
    (hstop : nextKind stop ≠ some .question) :
    Grammar.conditional r arrow c = .ok ⟨some outline, [], stop⟩ :=
  run_look h (run_ifAt_neg hstop rfl)

theorem run_conditional {condition yes no : Outline} {asked answered other : Cursor}
    (h : r.binary 0 arrow c = .ok ⟨some condition, [], mid⟩)
    (hquestion : Passes .question mid asked)
    (hyes : r.expression asked = .ok ⟨some yes, [], answered⟩)
    (hcolon : Passes .colon answered other)
    (hno : r.conditional arrow other = .ok ⟨some no, [], stop⟩) :
    Grammar.conditional r arrow c = .ok ⟨some (.around .conditionalExpression condition
      [.token .question, yes, .token .colon, no]), [], stop⟩ := by
  refine run_look h (run_ifAt_pos hquestion.nextKind_eq (run_some (run_around ?_)))
  exact hquestion.bump_bind (run_bind (run_orReport hyes) (hcolon.expect_bind (run_orReport hno)))

end PatternSyntax.Proofs.ExpressionRuns
