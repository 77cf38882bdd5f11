import PatternSyntax.Proofs.ExpressionRuns
import PatternSyntax.Proofs.Marks

/-!
An expression that is written down is read back as it was meant. The induction is on the expression,
and each rule is shown to end where its own part of the text ends. For this it matters what comes
behind that part: no selector or operator that the rule would take for its own.
-/

namespace PatternSyntax.Proofs.RoundTrip

open Grammar
open PatternSyntax.Proofs.Casts
open PatternSyntax.Proofs.Coverage
open PatternSyntax.Proofs.ExpressionRuns
open PatternSyntax.Proofs.Forward
open PatternSyntax.Proofs.Lossless
open PatternSyntax.Proofs.Marks
open PatternSyntax.Proofs.Operands
open PatternSyntax.Proofs.Shapes
open PatternSyntax.Proofs.Sketches
open PatternSyntax.Proofs.Sources
open PatternSyntax.Proofs.Spelling
open PatternSyntax.Proofs.Totality
open PatternSyntax.Proofs.TypeRuns
open PatternSyntax.Proofs.Weave

variable {c stop : Cursor} {arrow : ArrowRole}

/-- What comes behind is no selector, cannot be the operand of a cast to a class, and where there
may be a lambda expression it is no arrow either. -/
def SteppedEnds (arrow : ArrowRole) (c : Cursor) : Prop :=
  ∀ kind ∈ nextKind c, kind.startsCastOperand false = false ∧ kind ≠ .dot ∧ kind ≠ .openBracket ∧
    (arrow = .lambda → kind ≠ .arrow)

theorem SteppedEnds.selectors (h : SteppedEnds arrow c) :
    nextKind c ≠ some .dot ∧ nextKind c ≠ some .openParen ∧ nextKind c ≠ some .openBracket :=
  ⟨fun hnext => (h _ hnext).2.1 rfl, fun hnext => Bool.noConfusion (h _ hnext).1,
    fun hnext => (h _ hnext).2.2.1 rfl⟩

/-- What comes behind is no selector and no operator behind an operand either. -/
def UnaryEnds (arrow : ArrowRole) (c : Cursor) : Prop :=
  SteppedEnds arrow c ∧ nextKind c ≠ some .plusPlus ∧ nextKind c ≠ some .minusMinus

/-- What comes behind is no binary operator that binds more tightly than this. -/
def BinaryEnds (arrow : ArrowRole) (level : Nat) (c : Cursor) : Prop :=
  UnaryEnds arrow c ∧ ∀ operator ∈ BinaryOperator.ofTerminals? c.rest, operator.level ≤ level

/-- The tokens that end an expression. The arrow of a switch label is one of them. -/
def enders : ArrowRole → List TokenKind
  | .lambda => [.closeParen, .closeBracket, .comma, .colon]
  | .terminator => [.closeParen, .closeBracket, .comma, .colon, .arrow]

theorem enders_subset : (.question :: enders arrow) ⊆ .question :: enders .terminator := by
  cases arrow with
  | lambda => exact List.subset_append_left _ [TokenKind.arrow]
  | terminator => exact List.Subset.refl _

/-- What comes behind does not belong to any expression. -/
def ExpressionEnds (arrow : ArrowRole) (c : Cursor) : Prop :=
  ∀ kind ∈ nextKind c, kind ∈ enders arrow

theorem steppedEnds_of_nextKind {kind : TokenKind} (h : nextKind c = some kind)
    (hkind : kind.startsCastOperand false = false ∧ kind ≠ .dot ∧ kind ≠ .openBracket ∧
      kind ≠ .arrow) : SteppedEnds arrow c := by
  intro other hother
  cases h.symm.trans hother
  exact ⟨hkind.1, hkind.2.1, hkind.2.2.1, fun _ => hkind.2.2.2⟩

theorem binaryEnds_of_mem (h : ∀ kind ∈ nextKind c, kind ∈ .question :: enders arrow) :
    (∀ level, BinaryEnds arrow level c) ∧ BinaryOperator.ofTerminals? c.rest = none := by
  have hall : ∀ kind ∈ .question :: enders arrow,
      (kind.startsCastOperand false = false ∧ kind ≠ .dot ∧ kind ≠ .openBracket ∧
        (arrow = .lambda → kind ≠ .arrow)) ∧ kind ≠ .plusPlus ∧ kind ≠ .minusMinus := by
    cases arrow with
    | _ => decide
  have hnone : BinaryOperator.ofTerminals? c.rest = none := by
    obtain ⟨index, rest⟩ := c
    cases rest with
    | nil => rfl
    | cons terminal rest =>
        obtain ⟨kind, glued⟩ := terminal
        have hmem := enders_subset (h kind rfl)
        simp only [enders, List.mem_cons, List.not_mem_nil, or_false] at hmem
        rcases hmem with rfl | rfl | rfl | rfl | rfl | rfl <;> rfl
  refine ⟨fun level => ⟨⟨fun kind hkind => (hall kind (h kind hkind)).1, ?_, ?_⟩, ?_⟩, hnone⟩
  · exact fun hnext => (hall _ (h _ hnext)).2.1 rfl
  · exact fun hnext => (hall _ (h _ hnext)).2.2 rfl
  · rw [hnone]
    intro operator hoperator
    cases hoperator

theorem binaryEnds_of_operator {operator : Operator} {rest : List Sketch} {level : Nat}
    (h : Spans (operator.lexemes.map Sketch.token ++ rest) c stop)
    (hlevel : operator.level ≤ level) : BinaryEnds arrow level c := by
  obtain ⟨kind, hnext, hkind⟩ := exists_beginsOperator h
  refine ⟨⟨steppedEnds_of_nextKind hnext ⟨hkind.startsCastOperand, hkind.ne_dot,
    hkind.ne_openBracket, hkind.ne_arrow⟩, ?_, ?_⟩, ?_⟩
  · exact fun heq => hkind.ne_plusPlus (Option.some.inj (hnext.symm.trans heq))
  · exact fun heq => hkind.ne_minusMinus (Option.some.inj (hnext.symm.trans heq))
  · rw [ofTerminals?_of_spans h]
    rintro _ ⟨⟩
    exact hlevel

theorem ExpressionEnds.ne_question (h : ExpressionEnds arrow c) :
    nextKind c ≠ some .question := by
  intro hnext
  have hmem := h _ hnext
  revert hmem
  cases arrow with
  | _ => decide

theorem expressionEnds_of_passes {kind : TokenKind} {mid : Cursor} (h : Passes kind c mid)
    (hkind : kind ∈ enders arrow) : ExpressionEnds arrow c := by
  intro other hother
  cases h.nextKind_eq.symm.trans hother
  exact hkind

/-- A primary expression that begins with a parenthesis begins with an expression in parentheses. -/
theorem exists_grouped_of_primary (primary : Primary) {c stop : Cursor} (hc : Calm c)
    (h : Spans [primary.sketch] c stop) (hopen : nextKind c = some .openParen)
    (hstop : ∀ kind ∈ nextKind stop, kind.startsCastOperand false = false) :
    ∃ inner behind, Grouped inner c behind := by
  -- The subjects are followed down to the first one: it is a word, or in parentheses.
  have hword {kind : TokenKind} {mid : Cursor} (hpasses : Passes kind c mid)
      (hkind : kind ≠ .openParen) : ∃ inner behind, Grouped inner c behind :=
    absurd (Option.some.inj (hpasses.nextKind_eq.symm.trans hopen)) hkind
  have hahead {kind : TokenKind} {mid behind : Cursor} (hpasses : Passes kind mid behind)
      (hkind : kind.startsCastOperand false = false) :
      ∀ other ∈ nextKind mid, other.startsCastOperand false = false := by
    intro other hother
    cases hpasses.nextKind_eq.symm.trans hother
    exact hkind
  cases primary with
  | literal literal =>
      refine hword h.of_node.passes fun heq => ?_
      have hliteral := literal.isLiteral
      rw [show literal.kind = .openParen from heq] at hliteral
      cases hliteral
  | name name => exact hword h.of_node.passes nofun
  | self => exact hword h.of_node.passes (by decide)
  | parent => exact hword h.of_node.passes (by decide)
  | grouped inner =>
      obtain ⟨mid, hopen, hlater⟩ := h.of_node.token_cons
      obtain ⟨behind, hinner, hclose⟩ := hlater.cons
      exact ⟨inner.sketch, stop, hc, ⟨mid, behind, hopen, hinner, hclose.passes⟩, inner.fine,
        inner.begins.mono fun _ hkind => (startsExpression_marks hkind).1, hstop⟩
  | member subject name =>
      obtain ⟨mid, hsubject, hlater⟩ := h.of_around
      obtain ⟨_, hdot, -⟩ := hlater.token_cons
      exact exists_grouped_of_primary subject hc hsubject hopen (hahead hdot rfl)
  | call name arguments =>
      obtain ⟨mid, hname, -⟩ := h.of_around
      exact hword hname.of_node.passes nofun
  | memberCall subject name arguments =>
      obtain ⟨_, hmember, -⟩ := h.of_around
      obtain ⟨mid, hsubject, hlater⟩ := hmember.of_around
      obtain ⟨_, hdot, -⟩ := hlater.token_cons
      exact exists_grouped_of_primary subject hc hsubject hopen (hahead hdot rfl)
  | element subject position =>
      obtain ⟨mid, hsubject, hlater⟩ := h.of_around
      obtain ⟨_, hbracket, -⟩ := hlater.token_cons
      exact exists_grouped_of_primary subject hc hsubject hopen (hahead hbracket rfl)

theorem exists_passes_step {step : Sources.Step} {parts : List Sketch} {c stop : Cursor}
    (h : Spans (mark step.kind :: parts) c stop) :
    ∃ mid, Passes step.kind c mid ∧ (step.kind = .plusPlus ∨ step.kind = .minusMinus) ∧
      SteppedEnds arrow c := by
  obtain ⟨mid, hpasses, -⟩ := h.token_cons
  refine ⟨mid, hpasses, ?_, steppedEnds_of_nextKind hpasses.nextKind_eq ?_⟩
  · cases step with
    | increment => exact .inl rfl
    | decrement => exact .inr rfl
  · cases step with
    | _ => decide

theorem exists_grouped_of_stepped (stepped : Stepped) {c stop : Cursor} (hc : Calm c)
    (h : Spans [stepped.sketch] c stop) (hopen : nextKind c = some .openParen)
    (hstop : SteppedEnds arrow stop) : ∃ inner behind, Grouped inner c behind := by
  cases stepped with
  | primary operand =>
      exact exists_grouped_of_primary operand hc h hopen fun kind hkind => (hstop kind hkind).1
  | step operand step =>
      obtain ⟨mid, hoperand, hstep⟩ := h.of_around
      obtain ⟨_, -, -, hends⟩ := exists_passes_step hstep
      exact exists_grouped_of_stepped operand hc hoperand hopen hends

theorem isLambda_of_passes {kind : TokenKind} {mid : Cursor} (h : Passes kind c mid)
    (hkind : kind ≠ .openParen) (hmid : nextKind mid ≠ some .arrow) : isLambda c.rest = false := by
  cases h with
  | intro index glued rest =>
      cases kind with
      | openParen => cases hkind rfl
      | ident =>
          cases rest with
          | nil => rfl
          | cons next rest => exact beq_eq_false_iff_ne.2 fun heq => hmid (congrArg some heq)
      | _ => rfl

/-- A primary expression is taken for a lambda expression only if an arrow comes behind it. -/
theorem isLambda_of_primary (primary : Primary) {c stop : Cursor}
    (h : Spans [primary.sketch] c stop) (hstop : nextKind stop ≠ some .arrow) :
    isLambda c.rest = false := by
  cases primary with
  | literal literal =>
      refine isLambda_of_passes h.of_node.passes (fun heq => ?_) hstop
      have hliteral := literal.isLiteral
      rw [show literal.kind = .openParen from heq] at hliteral
      cases hliteral
  | name name => exact isLambda_of_passes h.of_node.passes nofun hstop
  | self => exact isLambda_of_passes h.of_node.passes (by decide) hstop
  | parent => exact isLambda_of_passes h.of_node.passes (by decide) hstop
  | grouped inner =>
      obtain ⟨mid, hopen, hlater⟩ := h.of_node.token_cons
      obtain ⟨behind, hinner, hclose⟩ := hlater.cons
      -- The search for the arrow passes over what is in the parentheses.
      have hrest : arrowFollows 0 mid.rest = arrowFollows 0 behind.rest := by
        rw [hinner.rest_eq, Sketch.lexemesAll, Sketch.lexemesAll, List.append_nil]
        exact inner.fine.even 0 _
      cases hopen with
      | intro index glued rest =>
          cases hclose.passes with
          | intro index' glued' rest' =>
              refine hrest.trans ?_
              cases rest' with
              | nil => rfl
              | cons next rest => exact beq_eq_false_iff_ne.2 fun heq => hstop (congrArg some heq)
  | member subject name =>
      obtain ⟨mid, hsubject, hlater⟩ := h.of_around
      obtain ⟨_, hdot, -⟩ := hlater.token_cons
      exact isLambda_of_primary subject hsubject (by rw [hdot.nextKind_eq]; decide)
  | call name arguments =>
      obtain ⟨mid, hname, harguments⟩ := h.of_around
      obtain ⟨_, hopen, -⟩ := harguments.of_node.token_cons
      exact isLambda_of_passes hname.of_node.passes nofun (by rw [hopen.nextKind_eq]; decide)
  | memberCall subject name arguments =>
      obtain ⟨_, hmember, -⟩ := h.of_around
      obtain ⟨mid, hsubject, hlater⟩ := hmember.of_around
      obtain ⟨_, hdot, -⟩ := hlater.token_cons
      exact isLambda_of_primary subject hsubject (by rw [hdot.nextKind_eq]; decide)
  | element subject position =>
      obtain ⟨mid, hsubject, hlater⟩ := h.of_around
      obtain ⟨_, hbracket, -⟩ := hlater.token_cons
      exact isLambda_of_primary subject hsubject (by rw [hbracket.nextKind_eq]; decide)

theorem run_cast_of_stepped (stepped : Stepped) (arrow : ArrowRole) (hc : Calm c)
    (h : Spans [stepped.sketch] c stop) (hstop : SteppedEnds arrow stop) :
    Eventually fun r => nextKind c = some .openParen → cast r arrow c = .ok ⟨none, [], c⟩ := by
  by_cases hopen : nextKind c = some .openParen
  · obtain ⟨inner, behind, hgrouped⟩ := exists_grouped_of_stepped stepped hc h hopen hstop
    exact (run_cast hgrouped arrow).mono fun _ hrun _ => hrun
  · exact .of_forall fun _ hnext => absurd hnext hopen

theorem binary_of_grows {level : Nat} {arrow : ArrowRole} {outline : Outline}
    (h : Eventually fun r => Grows (r.unary arrow) (binaryTurn r level arrow) c outline stop)
    (hstop : ∀ operator ∈ BinaryOperator.ofTerminals? stop.rest, operator.level < level) :
    Eventually fun r => r.binary level arrow c = .ok ⟨some outline, [], stop⟩ :=
  .next (h.mono fun _ hgrows => run_binary hgrows hstop)

theorem binary_zero_of_grows {arrow : ArrowRole} {outline : Outline}
    (hstop : ∀ kind ∈ nextKind stop, kind ∈ .question :: enders arrow)
    (h : (∀ level, BinaryEnds arrow level stop) →
      Eventually fun r => Grows (r.unary arrow) (binaryTurn r 0 arrow) c outline stop) :
    Eventually fun r => r.binary 0 arrow c = .ok ⟨some outline, [], stop⟩ := by
  obtain ⟨hends, hnone⟩ := binaryEnds_of_mem hstop
  refine binary_of_grows (h hends) ?_
  rw [hnone]
  exact nofun

theorem length_lt_of_operator {operator : Operator} {c stop : Cursor}
    (h : Spans (operator.lexemes.map Sketch.token) c stop) :
    stop.rest.length < c.rest.length := by
  have hpos : 0 < operator.lexemes.length := by
    cases operator with
    | _ => decide
  rw [h.rest_eq, Sketch.lexemesAll_token, List.length_append, List.length_map]
  omega

theorem exists_expressionRow_eq (argument : Expression) (rest : List Expression) :
    ∃ later, expressionRow (argument :: rest) = argument.sketch :: later := by
  cases rest with
  | nil => exact ⟨[], rfl⟩
  | cons next rest => exact ⟨_, rfl⟩

theorem arguments_of_loops {arguments : List Expression} {c stop : Cursor}
    (hrow : ∀ {mid behind : Cursor}, arguments ≠ [] → Calm mid →
      Spans (expressionRow arguments) mid behind → nextKind behind = some .closeParen →
        Eventually fun r => Loops (again (parameterTurn r)) () mid ()
          (Sketch.outlineAll (expressionRow arguments)) behind) (hc : Calm c)
    (h : Spans [.node .expressionList
      (mark .openParen :: (expressionRow arguments ++ [mark .closeParen]))] c stop) :
    Eventually fun r => nextKind c = some .openParen ∧ Grammar.arguments r c = .ok ⟨(Sketch.node
      .expressionList (mark .openParen :: (expressionRow arguments ++ [mark .closeParen]))).outline,
        [], stop⟩ := by
  obtain ⟨mid, hopen, hlater⟩ := h.of_node.token_cons
  obtain ⟨behind, harguments, hclose⟩ := hlater.append
  cases arguments with
  | nil =>
      cases harguments.eq_of_nil
      exact .of_forall fun _ =>
        ⟨hopen.nextKind_eq, run_arguments_none hopen hclose.passes⟩
  | cons argument rest =>
      have hmid : nextKind mid ≠ some .closeParen := by
        obtain ⟨later, hlater⟩ := exists_expressionRow_eq argument rest
        rw [hlater] at harguments
        obtain ⟨kind, hnext, hkind⟩ := harguments.begins argument.begins
        rw [hnext]
        exact fun heq => (startsExpression_marks hkind).2 (Option.some.inj heq)
      refine (hrow (List.cons_ne_nil _ _) (hc.passes hopen) harguments
        hclose.passes.nextKind_eq).mono fun _ hloops => ⟨hopen.nextKind_eq, ?_⟩
      rw [run_arguments hopen hmid hloops hclose.passes, Sketch.outline, Sketch.outlineAll,
        Sketch.outlineAll_append]
      rfl

mutual

theorem primary_grows (primary : Primary) (hwf : primary.WellFormed) {c stop : Cursor}
    (hc : Calm c) (h : Spans [primary.sketch] c stop) :
    Eventually fun r => Grows (operand r) (selectorTurn r) c primary.sketch.outline stop := by
  cases primary with
  | literal literal =>
      exact .of_forall fun _ => .of_run (run_operand_literal h.of_node.passes
        literal.isLiteral)
  | name name =>
      exact .of_forall fun _ => .of_run (run_operand_word h.of_node.passes
        List.mem_cons_self)
  | self =>
      exact .of_forall fun _ => .of_run (run_operand_word h.of_node.passes (by decide))
  | parent =>
      exact .of_forall fun _ => .of_run (run_operand_word h.of_node.passes (by decide))
  | grouped inner =>
      obtain ⟨mid, hopen, hlater⟩ := h.of_node.token_cons
      obtain ⟨behind, hinner, hclose⟩ := hlater.cons
      refine (expression_runs inner .lambda hwf (hc.passes hopen) hinner
        (expressionEnds_of_passes hclose.passes (by decide))).mono fun _ hrun => ?_
      exact .of_run (run_operand_grouped hopen hrun hclose.passes)
  | member subject name =>
      obtain ⟨mid, hsubject, hlater⟩ := h.of_around
      obtain ⟨behind, hdot, hname⟩ := hlater.token_cons
      exact (primary_grows subject hwf hc hsubject).mono fun _ hgrows =>
        hgrows.snoc (run_selectorTurn_member hdot hname.passes) hlater.length_lt
  | call name arguments =>
      obtain ⟨mid, hname, harguments⟩ := h.of_around
      refine (arguments_of_loops (row_loops arguments hwf) (hname.calm hc) harguments).mono
        fun _ hrun => ?_
      exact (Grows.of_run (run_operand_word hname.of_node.passes List.mem_cons_self)).snoc
        (run_selectorTurn_call hrun.1 rfl hrun.2) harguments.of_node.length_lt
  | memberCall subject name arguments =>
      -- Two turns of the loop: the member, and then the call of it.
      obtain ⟨behind, hmember, harguments⟩ := h.of_around
      obtain ⟨mid, hsubject, hlater⟩ := hmember.of_around
      obtain ⟨_, hdot, hname⟩ := hlater.token_cons
      refine ((primary_grows subject hwf.1 hc hsubject).and (arguments_of_loops
        (row_loops arguments hwf.2) (hmember.calm hc) harguments)).mono fun _ ⟨hgrows, hrun⟩ => ?_
      exact (hgrows.snoc (run_selectorTurn_member hdot hname.passes) hlater.length_lt).snoc
        (run_selectorTurn_call hrun.1 rfl hrun.2) harguments.of_node.length_lt
  | element subject position =>
      obtain ⟨mid, hsubject, hlater⟩ := h.of_around
      obtain ⟨_, hopen, hinner⟩ := hlater.token_cons
      obtain ⟨_, hposition, hclose⟩ := hinner.cons
      refine ((primary_grows subject hwf.1 hc hsubject).and (expression_runs position .lambda hwf.2
        ((hsubject.calm hc).passes hopen) hposition
          (expressionEnds_of_passes hclose.passes (by decide)))).mono fun _ ⟨hgrows, hrun⟩ => ?_
      exact hgrows.snoc (run_selectorTurn_element hopen hrun hclose.passes) hlater.length_lt

theorem stepped_grows (stepped : Stepped) (arrow : ArrowRole) (hwf : stepped.WellFormed)
    {c stop : Cursor} (hc : Calm c) (h : Spans [stepped.sketch] c stop)
    (hstop : SteppedEnds arrow stop) :
    Eventually fun r => Grows (primary r arrow) postfixTurn c stepped.sketch.outline stop := by
  cases stepped with
  | primary operand =>
      exact (primary_grows operand hwf hc h).mono fun _ hgrows =>
        .of_run (run_primary (fun harrow => isLambda_of_primary operand h fun hnext =>
          (hstop _ hnext).2.2.2 harrow rfl) hgrows hstop.selectors)
  | step operand step =>
      obtain ⟨mid, hoperand, hstep⟩ := h.of_around
      obtain ⟨_, hpasses, hkind, hends⟩ := exists_passes_step hstep
      exact (stepped_grows operand arrow hwf hc hoperand hends).mono fun _ hgrows =>
        hgrows.snoc (run_postfixTurn hstep.passes hkind) hstep.passes.length_lt

theorem unary_runs (unary : Unary) (arrow : ArrowRole) (hwf : unary.WellFormed) {c stop : Cursor}
    (hc : Calm c) (h : Spans [unary.sketch] c stop) (hstop : UnaryEnds arrow stop) :
    Eventually fun r => r.unary arrow c = .ok ⟨some unary.sketch.outline, [], stop⟩ := by
  cases unary with
  | stepped operand =>
      obtain ⟨kind, hnext, hkind⟩ := h.begins operand.begins
      refine .next (((stepped_grows operand arrow hwf hc h hstop.1).and
        (run_cast_of_stepped operand arrow hc h hstop.1)).mono fun _ ⟨hgrows, hcast⟩ => ?_)
      exact run_unary_plain hnext (startsOperand_marks hkind).1
        (fun heq => hcast (heq ▸ hnext)) (run_postfixOperand hgrows hstop.2)
  | signed sign operand =>
      obtain ⟨mid, hsign, hoperand⟩ := h.of_node.token_cons
      have hkind : sign.kind.isPrefixOperator = true := by
        cases sign with
        | _ => rfl
      -- The rule asks for operators as tight as an operand, and there are none.
      have hbinary := binary_of_grows ((unary_runs operand arrow hwf (hc.passes hsign) hoperand
        hstop).mono fun _ hrun => .of_run hrun) fun _ => level_lt_operandLevel
      exact .next (hbinary.mono fun _ hrun => run_unary_signed hsign hkind hrun)
  | cast type operand =>
      obtain ⟨mid, hopen, hlater⟩ := h.of_node.token_cons
      obtain ⟨behind, htype, hlater⟩ := hlater.cons
      obtain ⟨start, hclose, hoperand⟩ := hlater.token_cons
      have hnext := hclose.nextKind_eq
      obtain ⟨kind, hfirst, hprimitive, -⟩ := htype.begins type.begins
      obtain ⟨other, hother, hstarts⟩ := hoperand.begins (begins_castOperand hwf)
      have hreads := type_reads type htype (by rw [hnext]; decide) (by rw [hnext]; decide)
      have hcalm := (htype.calm (hc.passes hopen)).passes hclose
      refine .next (((hreads.run (typeEnds_of_nextKind hnext (by decide))).and
        (unary_runs operand arrow hwf.1 hcalm hoperand hstop)).mono fun _ ⟨hruns, hrun⟩ => ?_)
      refine run_unary_cast hopen.nextKind_eq (run_castType hopen hfirst (hruns .plain)
        (Sketch.hasError_outline _) hclose ?_) hclose hrun
      rw [hother, hprimitive, Option.any_some, hstarts]

theorem binary_grows (binary : Binary) (arrow : ArrowRole) (level : Nat)
    (hlevel : level ≤ binary.level) (hwf : binary.WellFormed) {c stop : Cursor} (hc : Calm c)
    (h : Spans [binary.sketch] c stop) (hstop : BinaryEnds arrow binary.level stop) :
    Eventually fun r =>
      Grows (r.unary arrow) (binaryTurn r level arrow) c binary.sketch.outline stop := by
  cases binary with
  | unary operand =>
      exact (unary_runs operand arrow hwf hc h hstop.1).mono fun _ hrun => .of_run hrun
  | join operator left right =>
      obtain ⟨hwfLeft, hwfRight, hleft, hright⟩ := hwf
      obtain ⟨mid, hspanLeft, hlater⟩ := h.of_around
      obtain ⟨behind, hoperator, hspanRight⟩ := hlater.append
      -- The operator ends the left operand. The right one ends with the whole: an operator behind
      -- it binds at most as tightly as this one, and so less tightly than the right operand.
      have hends : BinaryEnds arrow right.level stop :=
        ⟨hstop.1, fun found hfound => (hstop.2 found hfound).trans hright.le⟩
      have hbinary := binary_of_grows (binary_grows right arrow (operator.level + 1) hright hwfRight
        (hoperator.calm (hspanLeft.calm hc)) hspanRight hends) fun found hfound =>
          Nat.lt_succ_of_le (hstop.2 found hfound)
      refine ((binary_grows left arrow level (hlevel.trans hleft) hwfLeft hc hspanLeft
        (binaryEnds_of_operator hlater hleft)).and hbinary).mono fun _ ⟨hgrows, hrun⟩ => ?_
      rw [Binary.sketch, Sketch.outline, Sketch.outlineAll_append]
      exact hgrows.snoc (run_binaryTurn hlevel hoperator hrun)
        (hspanRight.length_le.trans_lt (length_lt_of_operator hoperator))

theorem expression_runs (expression : Expression) (arrow : ArrowRole)
    (hwf : expression.WellFormed) {c stop : Cursor} (hc : Calm c)
    (h : Spans [expression.sketch] c stop) (hstop : ExpressionEnds arrow stop) :
    Eventually fun r => r.conditional arrow c = .ok ⟨some expression.sketch.outline, [], stop⟩ := by
  cases expression with
  | binary operand =>
      have hbinary : Eventually fun r =>
          r.binary 0 arrow c = .ok ⟨some operand.sketch.outline, [], stop⟩ :=
        binary_zero_of_grows (fun kind hkind => List.mem_cons_of_mem _ (hstop kind hkind))
          fun hends => binary_grows operand arrow 0 (Nat.zero_le _) hwf hc h (hends _)
      exact .next (hbinary.mono fun _ hrun => run_conditional_plain hrun hstop.ne_question)
  | conditional condition yes no =>
      obtain ⟨mid, hcondition, hlater⟩ := h.of_around
      obtain ⟨asked, hquestion, hlater⟩ := hlater.token_cons
      obtain ⟨answered, hyes, hlater⟩ := hlater.cons
      obtain ⟨other, hcolon, hno⟩ := hlater.token_cons
      have hcalm := (hcondition.calm hc).passes hquestion
      have hcalm' := (hyes.calm hcalm).passes hcolon
      have hbinary : Eventually fun r =>
          r.binary 0 arrow c = .ok ⟨some condition.sketch.outline, [], mid⟩ := by
        refine binary_zero_of_grows (fun kind hkind => ?_) fun hends =>
          binary_grows condition arrow 0 (Nat.zero_le _) hwf.1 hc hcondition (hends _)
        cases hquestion.nextKind_eq.symm.trans hkind
        exact List.mem_cons_self
      have hyes := expression_runs yes .lambda hwf.2.1 hcalm hyes
        (expressionEnds_of_passes hcolon (by decide))
      have hno := expression_runs no arrow hwf.2.2 hcalm' hno hstop
      exact .next ((hbinary.and (hyes.and hno)).mono fun _ ⟨hcondition, hyes, hno⟩ =>
        run_conditional hcondition hquestion hyes hcolon hno)

theorem row_loops (arguments : List Expression) (hwf : AllWellFormed arguments) {c stop : Cursor}
    (hne : arguments ≠ []) (hc : Calm c) (h : Spans (expressionRow arguments) c stop)
    (hstop : nextKind stop = some .closeParen) :
    Eventually fun r => Loops (again (parameterTurn r)) () c ()
      (Sketch.outlineAll (expressionRow arguments)) stop := by
  match arguments, hne with
  | [last], _ =>
      refine (expression_runs last .lambda hwf.1 hc h ?_).mono fun _ hrun => ?_
      · intro kind hkind
        cases hstop.symm.trans hkind
        decide
      · exact .done (run_again_done (run_parameterTurn_last hrun (by rw [hstop]; decide)))
  | argument :: next :: rest, _ =>
      obtain ⟨mid, hargument, hlater⟩ := h.cons
      obtain ⟨behind, hcomma, hrow⟩ := hlater.token_cons
      refine ((expression_runs argument .lambda hwf.1 hc hargument
        (expressionEnds_of_passes hcomma (by decide))).and (row_loops (next :: rest) hwf.2
          (List.cons_ne_nil _ _) ((hargument.calm hc).passes hcomma) hrow hstop)).mono
            fun _ ⟨hrun, hloops⟩ => ?_
      exact .yield (run_again (run_parameterTurn hrun hcomma))
        (hcomma.length_lt.trans_le hargument.length_le) hloops

end

theorem exists_spans_origin {sketch : Sketch} (hfine : Fine sketch.lexemes) :
    ∃ stop : Cursor, stop.rest = [] ∧
      Spans [sketch] (origin (String.ofList (spell sketch.lexemes))) stop ∧
      Calm (origin (String.ofList (spell sketch.lexemes))) := by
  have hrest : (origin (String.ofList (spell sketch.lexemes))).rest =
      sketch.lexemes.map Lexeme.terminal := by
    rw [origin, significant_tokenize hfine.spelled, ofTokens_tokensFrom hfine.spelled]
  refine ⟨⟨_, []⟩, rfl, lies_of_rest_eq _ ?_, ?_⟩
  · rw [hrest, Sketch.lexemesAll, Sketch.lexemesAll, List.append_nil, List.append_nil]
  · rw [Calm, hrest]
    exact List.forall_mem_map.2 hfine.calm

theorem parts_eq_of_wellFormed {expression : Expression} (hwf : expression.WellFormed)
    (a : Account .expression (String.ofList (spell expression.sketch.lexemes))) :
    a.parts = [expression.sketch.outline] := by
  obtain ⟨stop, hstop, hspan, hcalm⟩ := exists_spans_origin expression.fine
  have hends : ExpressionEnds .lambda stop := by
    rw [ExpressionEnds, nextKind, hstop]
    intro kind hkind
    cases hkind
  exact parts_eq_of_eventually a ((expression_runs expression .lambda hwf hcalm hspan hends).mono
    fun _ hrun => run_document (run_orReport hrun) hstop)

/-- An expression that is written down with single blanks between its tokens is read without an
error, and but for the blanks the tree that is read is the one that was written. -/
theorem bare_tree_of_wellFormed (expression : Expression) (hwf : expression.WellFormed) :
    ∃ parse, Parse.ofText .expression (String.ofList (spell expression.sketch.lexemes)) =
        .ok parse ∧
      parse.errors = [] ∧ bare parse.tree = [.node (.node .root) [expression.sketch.tree]] := by
  obtain ⟨a, hparse⟩ := exists_account .expression
    (String.ofList (spell expression.sketch.lexemes))
  have hparts := parts_eq_of_wellFormed hwf a
  refine ⟨a.parse, hparse, (errors_eq_nil_iff a).2 ?_, bare_parse expression.fine.spelled a hparts⟩
  rw [hparts, Outline.hasErrorAll, Sketch.hasError_outline]
  rfl

/-- A condition with casts, and with expressions in parentheses that look like casts. -/
def shiftedCondition : Expression :=
  let name (text : String) (h : Token.isIdent text = true) : Primary := .name ⟨text, h⟩
  let operand (primary : Primary) : Binary := .unary (.stepped (.primary primary))
  let a := name "a" (by decide +kernel)
  let grouped := Primary.grouped (.binary (operand a))
  let shifted := Binary.join .unsignedShiftRight
    (.unary (.cast (.array (.primitive ⟨.intKw, rfl⟩)) (.signed .minus (.stepped (.primary a)))))
    (operand (.element grouped (.binary (operand .self))))
  .conditional (.join .greaterEqual shifted (operand (.memberCall grouped ⟨"f", by decide +kernel⟩
      [.binary (operand a)])))
    (.binary (.unary (.cast (.reference (.name ⟨"T", by decide +kernel⟩ (some [.wildcard])))
      (.signed .not (.stepped (.step (.primary a) .increment))))))
    (.binary (.join .minus (operand grouped) (operand (.literal
      ⟨.intLiteral, "1", rfl, rfl, by decide +kernel⟩))))

theorem bare_tree_shiftedCondition :
    shiftedCondition.WellFormed ∧
      ∃ parse, Parse.ofText .expression
          "( int [ ] ) - a >>> ( a ) [ this ] >= ( a ) . f ( a ) ? ( T < ? > ) ! a ++ : ( a ) - 1" =
            .ok parse ∧
        parse.errors = [] ∧
          bare parse.tree = [.node (.node .root) [shiftedCondition.sketch.tree]] := by
  have hwf : shiftedCondition.WellFormed := by decide +kernel
  have htext : String.ofList (spell shiftedCondition.sketch.lexemes) =
      "( int [ ] ) - a >>> ( a ) [ this ] >= ( a ) . f ( a ) ? ( T < ? > ) ! a ++ : ( a ) - 1" := by
    decide +kernel
  rw [← htext]
  exact ⟨hwf, bare_tree_of_wellFormed shiftedCondition hwf⟩

end PatternSyntax.Proofs.RoundTrip
