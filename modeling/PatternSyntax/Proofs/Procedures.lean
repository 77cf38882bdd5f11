import PatternSyntax.Proofs.Wrapping

/-!
The procedures of the grammar, those that are applied by name and those that only serve others.
Each of them records one block of events, at any place of any recording where it may be applied.
-/

namespace PatternSyntax.Proofs.Procedures

open Grammar
open PatternSyntax.Proofs.Blocks
open PatternSyntax.Proofs.Contract
open PatternSyntax.Proofs.Coverage
open PatternSyntax.Proofs.Document
open PatternSyntax.Proofs.Forward
open PatternSyntax.Proofs.Markers
open PatternSyntax.Proofs.Operations
open PatternSyntax.Proofs.Progress
open PatternSyntax.Proofs.Realization
open PatternSyntax.Proofs.Runs
open PatternSyntax.Proofs.Totality
open PatternSyntax.Proofs.Wrapping

variable {α : Type} {depth : Nat} {r : Rules} {c : Cursor} {p : Recorder}

/-- From a cursor the rule ends. What it puts down and what it finds accounts for the tokens that it
passes, and if it finds a node, then it has put nothing down before. -/
def Delivers (g : Grammar (Option Outline)) (c : Cursor) : Prop :=
  ∃ done, g c = .ok done ∧ Covers c (done.parts ++ done.value.toList) done.cursor ∧
    ∀ outline ∈ done.value, done.parts = [] ∧ IsFinding outline

theorem isFinding_of_isNode {outline : Outline} (h : IsNode outline) : IsFinding outline := by
  cases outline with
  | node kind parts => exact h
  | around kind first later => exact h
  | token kind => cases h
  | error kind index => cases h
  | loose parts => cases h

theorem delivers_some {g : Grammar Outline}
    (h : Finds g c fun outline stop => Covers c [outline] stop ∧ IsFinding outline) :
    Delivers (do return some (← g)) c := by
  obtain ⟨outline, stop, hrun, hcovers, hfinding⟩ := h
  exact ⟨_, run_some hrun, hcovers, fun _ hfound => ⟨rfl, Option.some.inj hfound ▸ hfinding⟩⟩

theorem delivers_makes {g : Grammar Outline} (h : Finds g c (Makes c)) :
    Delivers (do return some (← g)) c :=
  delivers_some (h.mono fun _ _ hmakes => ⟨hmakes.2, isFinding_of_isNode hmakes.1⟩)

theorem delivers_answers {g : Grammar (Option Outline)} (h : Finds g c (Answers c)) :
    Delivers g c := by
  obtain ⟨found, stop, hrun, hfound⟩ := h
  cases found with
  | none =>
      cases hfound
      exact ⟨_, hrun, .nil _, nofun⟩
  | some outline =>
      exact ⟨_, hrun, hfound.1.2, fun _ hfound' =>
        ⟨rfl, Option.some.inj hfound' ▸ isFinding_of_isNode hfound.1.1⟩⟩

theorem delivers_none {g : Grammar α} {Q : α → Cursor → Prop} (h : Lays g c c Q) :
    Delivers (do
      let _ ← g
      return none) c := by
  obtain ⟨done, hrun, hcovers, -⟩ := h
  refine ⟨_, bind_ok hrun rfl, ?_, nofun⟩
  simpa using hcovers

/-- From a recorder the procedure records one block of events, and nothing else changes. If it finds
a node, then the block becomes this node, the handle leads to its start, and it can be wrapped:
together with whatever block is recorded behind it, it is again one block, which becomes the new
node. -/
def RecordsBlock (p : Recorder) (f : Procedure (Option CompletedNode)) : Prop :=
  ∃ found q block, f p = .ok (found, q) ∧ Appends p q block ∧
    ∀ node ∈ found, ∃ before inner inside body,
      node.position = p.events.length + before.length ∧
      Forms block node.kind before inner inside body ∧
      ∃ m t, q.precede node = .ok (m, t) ∧
        ∀ outer more s, Appends t s more →
          ∃ final, s.complete m outer = .ok (⟨q.events.length, outer⟩, final) ∧
            Appends p final (wrapped before node.kind inner outer more) ∧
            Event.resolve (wrapped before node.kind inner outer more) =
              .openAll (outer :: node.kind :: inside) ::
                (body ++ .close :: (Event.resolve more ++ [.close]))

theorem recordsBlock_of_delivers {f : Procedures → Procedure (Option CompletedNode)}
    {g : Rules → Grammar (Option Outline)}
    (hrun : Outcome .found p (deepEnough g p.cursor) (Procedure.deepEnough f p))
    (h : Delivers (g (.ofDepth (5 * p.cursor.rest.length + 5))) p.cursor) :
    RecordsBlock p (Procedure.deepEnough f) := by
  obtain ⟨⟨answer, parts, stop⟩, hrule, hcovers, hfinding⟩ := h
  rw [deepEnough, hrule] at hrun
  obtain ⟨found, i, hcursor, -, hshows, hprocedure⟩ := hrun.exists_of_rule_ok
  cases hcursor
  have hrecord : Appends p (p.recordAll (parts ++ answer.toList) i) _ := appends_of_covers hcovers
  refine ⟨found, _, _, hprocedure, hrecord, fun node hnode => ?_⟩
  cases hnode
  cases answer with
  | none => cases hshows
  | some outline =>
      obtain ⟨rfl, hfound⟩ := hfinding outline rfl
      obtain ⟨kind, before, inner, inside, body, htop, hlead, hforms⟩ :=
        forms_finding (offsetOf p.tokens p.textEnd) hfound hcovers
      obtain ⟨-, top, htop', rfl⟩ := hshows
      cases htop.symm.trans htop'
      obtain ⟨m, t, hprecede, hcomplete⟩ := exists_wrapped hrecord hforms.block_eq
        hforms.before_balanced hforms.inner_balanced
      rw [← hlead]
      refine ⟨before, inner, inside, body, rfl, hforms, m, t, hprecede,
        fun outer more s hmore => ?_⟩
      obtain ⟨final, hfinal, hwrapped⟩ := hcomplete outer more s hmore
      exact ⟨final, hfinal, hwrapped, hforms.resolve_wrapped outer hmore.linked⟩

/-- The procedures of the grammar: those that are applied by name, and those that only serve them. A
wildcard has none of its own, for it finishes the marker of the type that it is. -/
inductive ProcedureName where
  | named (name : RuleName)
  | typeArguments
  | annotParameters
  | annotValue
  | recordStructure
  | typeOrRecordPattern
  | labelElement
  | labelEnd
  | binary (least : Nat) (arrow : ArrowRole)
  | instanceofOperand
  | unary (arrow : ArrowRole)
  | cast (arrow : ArrowRole)
  | postfixOperand (arrow : ArrowRole)
  | primary (arrow : ArrowRole)
  | arguments
  | newExpression
  | lambda
  | lambdaParameter
  | codeBlock
deriving DecidableEq, Repr

namespace ProcedureName

def procedure (name : ProcedureName) (q : Procedures) : Procedure (Option CompletedNode) :=
  match name with
  | named name => name.procedure q
  | typeArguments => return some (← Procedure.typeArguments q)
  | annotParameters => return some (← Procedure.annotParameters q)
  | annotValue => do
    let _ ← Procedure.annotValue q
    return none
  | recordStructure => return some (← Procedure.recordStructure q)
  | typeOrRecordPattern => return some (← Procedure.typeOrRecordPattern q)
  | labelElement => do
    let _ ← Procedure.labelElement q
    return none
  | labelEnd => do
    let _ ← Procedure.labelEnd
    return none
  | binary least arrow => Procedure.binary q least arrow
  | instanceofOperand => do
    let _ ← Procedure.instanceofOperand q
    return none
  | unary arrow => Procedure.unary q arrow
  | cast arrow => Procedure.cast q arrow
  | postfixOperand arrow => Procedure.postfixOperand q arrow
  | primary arrow => Procedure.primary q arrow
  | arguments => return some (← Procedure.arguments q)
  | newExpression => return some (← Procedure.newExpression q)
  | lambda => return some (← Procedure.lambda q)
  | lambdaParameter => return some (← Procedure.lambdaParameter q)
  | codeBlock => return some (← Procedure.codeBlock)

/-- Runs a procedure as deep as the tokens ahead can need. -/
def run (name : ProcedureName) : Procedure (Option CompletedNode) :=
  Procedure.deepEnough name.procedure

def rule (name : ProcedureName) (r : Rules) : Grammar (Option Outline) :=
  match name with
  | named name => name.rule r
  | typeArguments => return some (← Grammar.typeArguments r)
  | annotParameters => return some (← Grammar.annotParameters r)
  | annotValue => do
    let _ ← Grammar.annotValue r
    return none
  | recordStructure => return some (← Grammar.recordStructure r)
  | typeOrRecordPattern => return some (← Grammar.typeOrRecordPattern r)
  | labelElement => do
    let _ ← Grammar.labelElement r
    return none
  | labelEnd => do
    let _ ← Grammar.labelEnd
    return none
  | binary least arrow => Grammar.binary r (least / 2 + 1) arrow
  | instanceofOperand => do
    let _ ← Grammar.instanceofOperand r
    return none
  | unary arrow => Grammar.unary r arrow
  | cast arrow => Grammar.cast r arrow
  | postfixOperand arrow => Grammar.postfixOperand r arrow
  | primary arrow => Grammar.primary r arrow
  | arguments => return some (← Grammar.arguments r)
  | newExpression => return some (← Grammar.newExpression r)
  | lambda => return some (← Grammar.lambda r)
  | lambdaParameter => return some (← Grammar.lambdaParameter r)
  | codeBlock => return some (← Grammar.codeBlock)

/-- Where a procedure may be applied: a pattern has to lie ahead of those for patterns, and the
bracket ahead of those that count on it. All others may be applied anywhere. -/
def MayStart (p : Recorder) : ProcedureName → Prop
  | named .pattern | named .primaryPattern =>
    Procedure.deepEnough Procedure.isPattern p = .ok (true, p)
  | typeOrRecordPattern =>
    Procedure.deepEnough Procedure.isPattern p = .ok (true, p) ∧ p.isAt .openParen = false
  | recordStructure => p.isAt .openParen = true
  | codeBlock => p.isAt .openBrace = true
  | _ => True

end ProcedureName

theorem isAt_eq_true_iff {kind : TokenKind} :
    p.isAt kind = true ↔ nextKind p.cursor = some kind := by
  have hkind : nextKind p.cursor = p.current := nextKind_cursorAt
  rw [hkind]
  exact beq_iff_eq

theorem outcome_procedure (name : ProcedureName) (hmay : name.MayStart p) {q : Procedures}
    (h : Agree q r) : Outcome .found p (name.rule r p.cursor) (name.procedure q p) := by
  cases name with
  | named name => exact realizes_name h name p
  | typeArguments => exact (realizes_typeArguments h p).found_some
  | annotParameters => exact (realizes_annotParameters h p).found_some
  | annotValue => exact (realizes_annotValue h).found_none p
  | recordStructure => exact (outcome_recordStructure h (isAt_eq_true_iff.1 hmay)).found_some
  | typeOrRecordPattern => exact (realizes_typeOrRecordPattern h p).found_some
  | labelElement => exact (realizes_labelElement h).found_none p
  | labelEnd => exact realizes_labelEnd.found_none p
  | binary least arrow => exact (realizes_binary h (admits_half least) arrow).found_of_option p
  | instanceofOperand => exact (realizes_instanceofOperand h).found_none p
  | unary arrow => exact (realizes_unary h arrow).found_of_option p
  | cast arrow => exact (realizes_cast h arrow).found_of_option p
  | postfixOperand arrow => exact (realizes_postfixOperand h arrow).found_of_option p
  | primary arrow => exact (realizes_primary h arrow).found_of_option p
  | arguments => exact (realizes_arguments h p).found_some
  | newExpression => exact (realizes_newExpression h p).found_some
  | lambda => exact (realizes_lambda h p).found_some
  | lambdaParameter => exact (realizes_lambdaParameter h p).found_some
  | codeBlock => exact (outcome_codeBlock (isAt_eq_true_iff.1 hmay)).found_some

theorem finds_pattern_finding (hr : Ready depth r) (hahead : PatternAhead c)
    (hroom : 5 * c.rest.length + 2 ≤ depth) :
    Finds (Grammar.pattern r) c fun outline stop =>
      Covers c [outline] stop ∧ IsFinding outline := by
  refine finds_bind (finds_primaryPattern hr hahead hroom) fun primary mid hbuilds =>
    finds_ifAt (fun hguard => ?_) fun _ => finds_pure ⟨.loose hbuilds.1.2 (.nil _), hbuilds.1.1⟩
  have hlt := hbuilds.2
  exact (finds_node_true (by decide) (lays_put_bind hbuilds.1.2 (lays_bind lays_bump
    fun _ next hnext _ => lays_orReport (hr.binary _ _ next (by omega))))).mono
      fun _ _ hmakes => ⟨hmakes.2, isFinding_of_isNode hmakes.1⟩

theorem makes_lambdaParameters (hr : Ready depth r) (hroom : 5 * c.rest.length + 5 ≤ depth) :
    Finds (lambdaParameters r) c (Makes c) := by
  unfold lambdaParameters
  refine finds_node_true (by decide) (lays_ifAt (fun hident => ?_) fun _ => ?_)
  · exact (lays_found (finds_node_token (by decide)
      (length_pos_of_nextKind hident)).covers).mono fun _ _ _ _ => trivial
  · exact lays_bind lays_bump fun _ mid hmid _ => lays_ifAt (fun _ => lays_expect) fun _ =>
      lays_bind (lays_repeatWhile fun here hhere => lays_lambdaParameterTurn hr (by omega))
        fun _ _ _ _ => lays_expect

theorem makes_lambda (hr : Ready depth r) (hroom : 5 * c.rest.length + 5 ≤ depth) :
    Finds (lambda r) c (Makes c) := by
  refine finds_node_true (by decide) (lays_found_bind
    (makes_lambdaParameters hr hroom).covers_of_makes fun mid hmid _ =>
      lays_bind lays_eat fun _ next hnext _ => lays_ifAt (fun hbrace => ?_) fun _ =>
        lays_orReport (hr.expression next (by omega)))
  exact (lays_found (finds_codeBlock hbrace).covers).mono fun _ _ _ _ => trivial

/-- A rule that is applied by name delivers, a rule for patterns where one lies ahead. -/
theorem delivers_rule (name : RuleName) (hname : AsksForPattern name = true → PatternAhead c)
    (hroom : 5 * c.rest.length + 5 ≤ depth) : Delivers (name.rule (.ofDepth depth)) c := by
  have hr := ready_ofDepth depth
  cases name with
  | pattern =>
      obtain ⟨smaller, rfl⟩ : ∃ smaller, depth = smaller + 1 := ⟨depth - 1, by omega⟩
      exact delivers_some (finds_pattern_finding (ready_ofDepth smaller) (hname rfl) (by omega))
  | primaryPattern =>
      exact delivers_makes ((finds_primaryPattern hr (hname rfl) (by omega)).mono
        fun _ _ hbuilds => hbuilds.1)
  | modifierList allowed => exact delivers_makes (finds_modifierList hr allowed (by omega))
  | annot => exact delivers_makes (makes_annot hroom)
  | type flags => exact delivers_answers (hr.type flags c (by omega))
  | codeReference eatLastDot allowed =>
      exact delivers_makes (makes_codeReference eatLastDot allowed hroom)
  | expression => exact delivers_answers (hr.expression c hroom)
  | conditional arrow => exact delivers_answers (hr.conditional arrow c hroom)
  | conditionalAnd arrow => exact delivers_answers (hr.binary guardLevel arrow c (by omega))
  | arrayInitializer => exact delivers_makes (makes_arrayInitializer hroom)
  | switchLabel =>
      by_cases hkind : nextKind c = some .defaultKw ∨ nextKind c = some .caseKw
      · exact delivers_answers (finds_switchLabel hr (by omega) hkind)
      · obtain ⟨hdefault, hcase⟩ := not_or.1 hkind
        obtain ⟨done, hrun, hcovers, hnone⟩ :=
          lays_switchLabel_of_ne (r := .ofDepth depth) hdefault hcase
        refine ⟨done, hrun, ?_, by rw [hnone]; exact nofun⟩
        rw [hnone]
        simpa using hcovers

theorem delivers_procedure (name : ProcedureName) (hmay : name.MayStart p) :
    Delivers (name.rule (.ofDepth (5 * p.cursor.rest.length + 5))) p.cursor := by
  have hr := ready_ofDepth (5 * p.cursor.rest.length + 5)
  have hroom := Nat.le_refl (5 * p.cursor.rest.length + 5)
  cases name with
  | named name =>
      refine delivers_rule name (fun hname => (run_isPattern_iff p).1 ?_) hroom
      cases name with
      | pattern | primaryPattern => exact hmay
      | _ => cases hname
  | typeArguments =>
      exact delivers_makes (makes_anywhere (g := Grammar.typeArguments) hroom
        (fun hpos => finds_typeArguments hr hpos (by omega)) fun _ _ =>
          ⟨_, _, rfl, trivial, .node (.error (.nil _)) ⟨nofun, nofun⟩ (.nil _)⟩)
  | annotParameters =>
      exact delivers_makes (makes_anywhere (g := Grammar.annotParameters) hroom
        (fun hpos => finds_annotParameters hr hpos (by omega)) fun _ _ =>
          ⟨_, _, rfl, trivial, .node (.error (.error (.nil _))) ⟨nofun, nofun⟩ (.nil _)⟩)
  | annotValue => exact delivers_none (lays_annotValue hr hroom)
  | recordStructure =>
      have hpos := length_pos_of_nextKind (isAt_eq_true_iff.1 hmay)
      exact delivers_makes ((finds_recordStructure hr hpos (by omega)).mono
        fun _ _ hbuilds => hbuilds.1)
  | typeOrRecordPattern =>
      have hopen : nextKind p.cursor ≠ some .openParen := fun h => by
        cases hmay.2.symm.trans (isAt_eq_true_iff.2 h)
      have hahead := typeAhead_of_patternAhead ((run_isPattern_iff p).1 hmay.1) hopen
      exact delivers_makes ((finds_typeOrRecordPattern hr hahead (by omega)).mono
        fun _ _ hbuilds => hbuilds.1)
  | labelElement => exact delivers_none (lays_labelElement hr hroom)
  | labelEnd => exact delivers_none lays_labelEnd
  | binary least arrow => exact delivers_answers (finds_binary hr _ arrow (by omega))
  | instanceofOperand => exact delivers_none (lays_instanceofOperand hr hroom)
  | unary arrow => exact delivers_answers (finds_unary hr arrow (by omega))
  | cast arrow => exact delivers_answers (finds_cast_anywhere arrow hroom)
  | postfixOperand arrow => exact delivers_answers (finds_postfixOperand hr arrow (by omega))
  | primary arrow => exact delivers_answers (finds_primary hr arrow (by omega))
  | arguments =>
      exact delivers_makes (makes_anywhere (g := Grammar.arguments) hroom
        (fun hpos => finds_arguments hr hpos (by omega)) fun _ _ =>
          ⟨_, _, rfl, trivial, .node (.error (.error (.nil _))) ⟨nofun, nofun⟩ (.nil _)⟩)
  | newExpression =>
      exact delivers_makes (makes_anywhere (g := Grammar.newExpression) hroom
        (fun hpos => finds_newExpression hr hpos (by omega)) fun _ _ =>
          ⟨_, _, rfl, trivial, .node (.error (.nil _)) ⟨nofun, nofun⟩ (.nil _)⟩)
  | lambda => exact delivers_makes (makes_lambda hr hroom)
  | lambdaParameter => exact delivers_makes (finds_lambdaParameter hr hroom)
  | codeBlock =>
      exact delivers_makes ((finds_codeBlock (isAt_eq_true_iff.1 hmay)).mono
        fun _ _ hbuilds => hbuilds.1)

/-- Every procedure of the grammar only appends one block of events, at any place of any recording
where it may be applied, and a node that it finds is what the block becomes and can be wrapped. -/
theorem procedure_records_block (p : Recorder) (name : ProcedureName) (hmay : name.MayStart p) :
    RecordsBlock p name.run :=
  recordsBlock_of_delivers (outcome_deepEnough fun _ _ h => outcome_procedure name hmay h)
    (delivers_procedure name hmay)

/-- A recording in which a node is open, at the pattern of a label. -/
def openLabel : Recorder :=
  (Recorder.ofText "case A(var b) && c ->").start.2.bump

theorem procedure_records_block_guarded :
    (ProcedureName.named .pattern).MayStart openLabel ∧
      RecordsBlock openLabel (ProcedureName.named .pattern).run := by
  have hmay : Procedure.deepEnough Procedure.isPattern openLabel = .ok (true, openLabel) := by
    decide +kernel
  exact ⟨hmay, procedure_records_block openLabel (.named .pattern) hmay⟩

end PatternSyntax.Proofs.Procedures
