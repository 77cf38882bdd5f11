import PatternSyntax.Proofs.Contract

/-!
Expressions end at every cursor, and with them every rule of every table.
-/

namespace PatternSyntax.Proofs.Totality

open Grammar
open PatternSyntax.Proofs.Contract
open PatternSyntax.Proofs.Coverage
open PatternSyntax.Proofs.Depth
open PatternSyntax.Proofs.Runs

variable {α : Type} {depth : Nat} {r : Rules} {c origin : Cursor}

theorem lays_blockTurn (level : Nat) :
    Lays (blockTurn level) c c (Turns (fun _ _ => True) (fun _ _ => True) c) := by
  apply lays_look (a := nextKind c) rfl
  cases hnext : nextKind c with
  | none => exact lays_report_bind (lays_pure trivial)
  | some kind =>
      have hleft := length_pos_of_nextKind hnext
      split
      · exact lays_report_bind (lays_pure trivial)
      · exact lays_bind lays_bump fun _ _ _ hlt => lays_pure ⟨trivial, hlt hleft⟩
      · apply lays_bind lays_bump
        intro _ _ _ hlt
        split
        · exact lays_pure trivial
        · exact lays_pure ⟨trivial, hlt hleft⟩
      · exact lays_bind lays_bump fun _ _ _ hlt => lays_pure ⟨trivial, hlt hleft⟩

theorem finds_codeBlock (hbrace : nextKind c = some .openBrace) : Finds codeBlock c (Builds c) := by
  unfold codeBlock
  exact finds_codeBlock_bump hbrace fun mid => lays_bind (P := fun _ _ => True)
    (lays_iterate (I := fun _ _ => True) trivial fun level _ _ _ => lays_blockTurn level)
      fun _ _ _ _ => lays_pure trivial

theorem finds_lambdaParameter (hr : Ready depth r) (hroom : 5 * c.rest.length + 5 ≤ depth) :
    Finds (lambdaParameter r) c (Makes c) := by
  refine finds_node_true (by decide) (lays_look rfl (lays_look rfl (lays_look rfl ?_)))
  split
  · exact lays_bump.mono fun _ _ _ _ => trivial
  · apply lays_found_bind (finds_modifierList hr _ (by omega)).covers_of_makes
    intro mid hmid _
    exact lays_bind (lays_orReport (hr.type _ mid (by omega))) fun _ _ _ _ => lays_expect

theorem lays_lambdaParameterTurn (hr : Ready depth r) (hroom : 5 * c.rest.length + 5 ≤ depth) :
    Lays (lambdaParameterTurn r) c c fun found stop =>
      found = true → stop.rest.length < c.rest.length :=
  lays_found_bind (finds_lambdaParameter hr hroom).covers_of_makes fun _ hmid _ =>
    lays_eat.mono fun _ _ _ hlt h => Nat.lt_of_lt_of_le (hlt h) hmid

theorem finds_lambdaParameters (hr : Ready depth r) (hpos : 0 < c.rest.length)
    (hroom : 5 * c.rest.length ≤ depth) : Finds (lambdaParameters r) c (Builds c) := by
  unfold lambdaParameters
  exact finds_node (P := fun _ stop => stop.rest.length < c.rest.length) (by decide)
    (lays_ifAt (fun _ => lays_found (finds_node_token (by decide) hpos).covers) fun _ =>
      lays_bump_bind hpos fun mid hmid => lays_ifAt (fun _ => lays_expect) fun _ =>
        lays_bind (lays_repeatWhile fun here hhere => lays_lambdaParameterTurn hr (by omega))
          fun _ _ _ _ => lays_expect)

theorem finds_lambda (hr : Ready depth r) (hpos : 0 < c.rest.length)
    (hroom : 5 * c.rest.length ≤ depth) : Finds (lambda r) c (Builds c) := by
  refine finds_node (P := fun _ stop => stop.rest.length < c.rest.length) (by decide)
    (lays_found_bind (finds_lambdaParameters hr hpos hroom).covers fun mid _ hmid =>
      Lays.of_true (lays_bind lays_eat fun _ next hnext _ => ?_) fun _ _ hle =>
        Nat.lt_of_le_of_lt hle hmid)
  refine lays_ifAt (fun hbrace => ?_) fun _ => lays_orReport (hr.expression next (by omega))
  exact (lays_found (finds_codeBlock hbrace).covers).mono
    fun _ _ _ _ => trivial

theorem lays_parameterTurn (hr : Ready depth r) (hroom : 5 * c.rest.length + 5 ≤ depth) :
    Lays (parameterTurn r) c c fun found stop =>
      found = true → stop.rest.length < c.rest.length := by
  apply lays_bind_finds (hr.expression c hroom)
  intro found stop hfound
  cases found with
  | none =>
      cases hfound
      exact lays_report_bind (lays_pure nofun)
  | some value =>
      exact lays_put_bind hfound.1.2 (lays_eat.mono fun _ _ _ hlt h =>
        Nat.lt_trans (hlt h) hfound.2)

theorem finds_arguments (hr : Ready depth r) (hpos : 0 < c.rest.length)
    (hroom : 5 * c.rest.length ≤ depth) : Finds (arguments r) c (Builds c) :=
  finds_node_bump (by decide) hpos fun mid hmid => lays_ifAt (fun _ => lays_expect) fun _ =>
    lays_bind (lays_repeatWhile fun here hhere => lays_parameterTurn hr (by omega))
      fun _ _ _ _ => lays_expect

theorem lays_valueTurn (hr : Ready depth r) (hroom : 5 * c.rest.length + 5 ≤ depth) :
    Lays (valueTurn r) c c fun found stop =>
      found = true → stop.rest.length < c.rest.length := by
  refine lays_look rfl (lays_look rfl ?_)
  split
  · exact lays_pure nofun
  · refine lays_ifAt (fun hbrace => ?_) fun _ => lays_parameterTurn hr hroom
    exact lays_found_bind (hr.arrayInitializer c (length_pos_of_nextKind hbrace)
      (by omega)).covers fun _ _ hlt => lays_eat.mono fun _ _ _ hlt' h =>
        Nat.lt_trans (hlt' h) hlt

theorem finds_arrayInitializer (hr : Ready depth r) (hpos : 0 < c.rest.length)
    (hroom : 5 * c.rest.length ≤ depth) :
    Finds (Grammar.arrayInitializer r) c (Builds c) := by
  unfold Grammar.arrayInitializer
  exact finds_node_bump (by decide) hpos fun mid hmid =>
    lays_bind (lays_repeatWhile fun here hhere => lays_valueTurn hr (by omega))
      fun _ _ _ _ => lays_expect

theorem lays_dimensionTurn (hr : Ready depth r) (hroom : 5 * c.rest.length + 5 ≤ depth) :
    Lays (dimensionTurn r) c c fun found stop =>
      found = true → stop.rest.length < c.rest.length := by
  have hclose (next : Cursor) (hnext : next.rest.length < c.rest.length) :
      Lays dimensionEnd next next fun found stop =>
        found = true → stop.rest.length < c.rest.length :=
    lays_bind lays_expect fun _ _ hle _ => lays_pure fun _ => Nat.lt_of_le_of_lt hle hnext
  apply lays_bind lays_eat
  intro opened next _ hopened
  split
  · have hnext := hopened ‹_›
    apply lays_ifAt (fun _ => hclose next hnext)
    intro _
    exact lays_bind (lays_orReport (hr.expression next (by omega))) fun _ last hlast _ =>
      hclose last (by omega)
  · exact lays_pure nofun

theorem lays_newArray (hr : Ready depth r) (hroom : 5 * c.rest.length + 5 ≤ depth) :
    Lays (newArray r) c c fun _ _ => True := by
  unfold newArray
  refine lays_bind (lays_repeatWhile fun here hhere => lays_dimensionTurn hr (by omega))
    fun _ mid hmid _ => lays_ifAt (fun hbrace => ?_) fun _ => lays_pure trivial
  exact (lays_found (hr.arrayInitializer mid (length_pos_of_nextKind hbrace)
    (by omega)).covers).mono fun _ _ _ _ => trivial

theorem lays_newTail (hr : Ready depth r) (isPrimitive : Bool)
    (hroom : 5 * c.rest.length + 5 ≤ depth) :
    Lays (newTail r isPrimitive) c c fun _ _ => True := by
  refine lays_ifAt (fun _ => lays_newArray hr hroom) fun _ =>
    lays_look (a := nextKind c == some .openParen) rfl ?_
  split
  · rename_i h
    simp only [Bool.and_eq_true, beq_iff_eq] at h
    refine lays_found_bind (finds_arguments hr (length_pos_of_nextKind h.2) (by omega)).covers
      fun mid _ _ => lays_ifAt (fun hbrace => ?_) fun _ => lays_pure trivial
    exact (lays_found (finds_codeBlock hbrace).covers).mono
      fun _ _ _ _ => trivial
  · exact lays_report.mono fun _ _ _ _ => trivial

theorem finds_newExpression (hr : Ready depth r) (hpos : 0 < c.rest.length)
    (hroom : 5 * c.rest.length ≤ depth) : Finds (newExpression r) c (Builds c) := by
  refine finds_node_bump (by decide) hpos fun mid hmid => lays_look (a := nextKind mid) rfl ?_
  cases hnext : nextKind mid with
  | none => exact lays_report.mono fun _ _ _ _ => trivial
  | some kind =>
      have hleft := length_pos_of_nextKind hnext
      dsimp only
      split
      · exact lays_found_bind (finds_node_token (by decide) hleft).covers fun next _ _ =>
          lays_newTail hr true (by omega)
      split
      · exact lays_found_bind (finds_codeReference hr _ _ hleft (by omega)).covers
          fun next _ _ => lays_newTail hr false (by omega)
      · exact lays_report.mono fun _ _ _ _ => trivial

theorem Finds.answers {g : Grammar Outline} (h : Finds g c (Builds c)) :
    Finds (do return some (← g)) c (Answers c) :=
  finds_bind h fun _ _ hbuilds => finds_pure hbuilds

theorem finds_operand (hr : Ready depth r) (hroom : 5 * c.rest.length + 2 ≤ depth) :
    Finds (operand r) c (Answers c) := by
  apply finds_look (a := nextKind c) rfl
  cases hnext : nextKind c with
  | none => exact finds_pure rfl
  | some kind =>
      have hpos := length_pos_of_nextKind hnext
      dsimp only
      split
      · exact Finds.answers (finds_node_token (by decide) hpos)
      split
      · exact Finds.answers (finds_node_token (by decide) hpos)
      split
      · exact Finds.answers (finds_node_token (by decide) hpos)
      split
      · exact Finds.answers (finds_node_token (by decide) hpos)
      split
      · exact Finds.answers (finds_node_bump (by decide) hpos fun mid hmid =>
          lays_bind (lays_orReport (hr.expression mid (by omega))) fun _ _ _ _ => lays_expect)
      split
      · exact Finds.answers (finds_newExpression hr hpos (by omega))
      split
      · refine Finds.answers (finds_node (P := fun _ stop => stop.rest.length < c.rest.length)
          (by decide) ?_)
        apply lays_bind_finds (hr.primitive .plain c kind hnext ‹_› hroom)
        rintro found mid ⟨type, rfl, hbuilds⟩
        have hmembers : Lays classSelector mid mid fun _ _ => True :=
          lays_bind lays_expect fun _ _ _ _ => lays_expect
        exact lays_put_bind hbuilds.1.2 (hmembers.of_true fun _ _ hle =>
          Nat.lt_of_le_of_lt hle hbuilds.2)
      · exact finds_pure rfl

theorem finds_selectors (hr : Ready depth r) {first : Outline} (hfirst : Builds origin first c)
    (hroom : 5 * c.rest.length ≤ depth) :
    Finds (iterate (selectorTurn r) first) c (Builds origin) := by
  apply finds_iterate (I := Builds origin) hfirst
  intro subject here hhere hsubject
  have hwrap {outline : Outline} {stop : Cursor} (hmakes : Makes origin outline stop ∧
      stop.rest.length < here.rest.length) : Builds origin outline stop :=
    ⟨hmakes.1, Nat.lt_trans hmakes.2 hsubject.2⟩
  refine finds_ifAt (fun hdot => ?_) fun _ =>
    finds_look (a := nextKind here == some .openParen) rfl ?_
  · have hleft := length_pos_of_nextKind hdot
    apply finds_look rfl
    split
    · exact finds_bind (finds_around_bump hsubject.1 hleft fun _ _ =>
        lays_bump.mono fun _ _ _ _ => trivial) fun _ _ hmakes =>
          finds_pure ⟨hwrap hmakes, hmakes.2⟩
    · apply finds_look rfl
      split
      · exact finds_bind (finds_around_bump hsubject.1 hleft fun _ _ =>
          lays_bump.mono fun _ _ _ _ => trivial) fun _ _ hmakes =>
            finds_pure ⟨hwrap hmakes, hmakes.2⟩
      · exact finds_bind (finds_around_bump hsubject.1 hleft fun _ _ =>
          lays_report.mono fun _ _ _ _ => trivial) fun _ _ hmakes => finds_pure (hwrap hmakes)
  · split
    · rename_i h
      simp only [Bool.and_eq_true, beq_iff_eq] at h
      exact finds_bind (finds_around hsubject.1 (lays_found (finds_arguments hr
        (length_pos_of_nextKind h.2) (by omega)).covers)) fun _ _ hmakes =>
          finds_pure ⟨hwrap hmakes, hmakes.2⟩
    · refine finds_ifAt (fun hbracket => ?_) fun _ => finds_pure hsubject
      exact finds_bind (finds_around_bump hsubject.1 (length_pos_of_nextKind hbracket)
        fun mid _ => lays_bind (lays_orReport (hr.expression mid (by omega)))
          fun _ _ _ _ => lays_expect) fun _ _ hmakes => finds_pure ⟨hwrap hmakes, hmakes.2⟩

theorem length_pos_of_isLambda {rest : List Terminal} (h : isLambda rest = true) :
    0 < rest.length := by
  cases rest with
  | nil => cases h
  | cons terminal rest => exact Nat.succ_pos _

theorem finds_primary (hr : Ready depth r) (arrow : ArrowRole)
    (hroom : 5 * c.rest.length + 2 ≤ depth) : Finds (primary r arrow) c (Answers c) := by
  apply finds_look (a := c.rest) rfl
  split
  · rename_i h
    simp only [Bool.and_eq_true] at h
    exact Finds.answers (finds_lambda hr (length_pos_of_isLambda h.2) (by omega))
  · apply finds_bind (finds_operand hr hroom)
    intro found mid hfound
    cases found with
    | none => exact finds_pure hfound
    | some first =>
        have hlt := hfound.2
        exact finds_bind (finds_selectors hr hfound (by omega)) fun _ _ hbuilds =>
          finds_pure hbuilds

theorem finds_postfixOperand (hr : Ready depth r) (arrow : ArrowRole)
    (hroom : 5 * c.rest.length + 2 ≤ depth) : Finds (postfixOperand r arrow) c (Answers c) := by
  apply finds_bind (finds_primary hr arrow hroom)
  intro found mid hfound
  cases found with
  | none => exact finds_pure hfound
  | some first =>
      refine finds_bind (finds_iterate (I := Builds c) (Q := Builds c) hfound
        fun subject here _ hsubject => ?_) fun _ _ hbuilds => finds_pure hbuilds
      refine finds_look (a := nextKind here == some .plusPlus) rfl
        (finds_look (a := nextKind here == some .minusMinus) rfl ?_)
      split
      · rename_i h
        have hleft : 0 < here.rest.length := by
          simp only [Bool.or_eq_true, beq_iff_eq] at h
          exact h.elim length_pos_of_nextKind length_pos_of_nextKind
        exact finds_bind (finds_around hsubject.1 (lays_bump.mono fun _ _ _ hlt => hlt hleft))
          fun _ _ hmakes => finds_pure ⟨⟨hmakes.1, Nat.lt_trans hmakes.2 hsubject.2⟩, hmakes.2⟩
      · exact finds_pure hsubject

theorem lays_castType (hr : Ready depth r) (hpos : 0 < c.rest.length)
    (hroom : 5 * c.rest.length ≤ depth) :
    Lays (castType r) c c fun _ stop => stop.rest.length < c.rest.length := by
  refine lays_bind lays_bump fun _ mid _ hmid => lays_look rfl ?_
  have hlt := hmid hpos
  apply lays_bind_finds (hr.type .plain mid (by omega))
  intro found stop hfound
  cases found with
  | none =>
      cases hfound
      exact lays_pure hlt
  | some type =>
      have hstop := hfound.2
      refine lays_put_bind hfound.1.2 (lays_look rfl (lays_look rfl (lays_pure ?_)))
      omega

theorem finds_cast (hr : Ready depth r) (arrow : ArrowRole) (hpos : 0 < c.rest.length)
    (hroom : 5 * c.rest.length ≤ depth) : Finds (cast r arrow) c (Answers c) := by
  refine finds_attempt (finds_capture_bind c (lays_castType hr hpos hroom)
    fun isCast parts mid hcovers hlt => ?_)
  dsimp only
  split
  · exact finds_bind (finds_node (P := fun _ stop => stop.rest.length < c.rest.length)
      (by decide) (lays_putAll_bind hcovers (lays_bind lays_bump fun _ next hnext _ =>
        (lays_orReport (hr.unary arrow next (by omega))).of_true fun _ _ hle => by omega)))
        fun outline stop hbuilds => finds_pure fun _ h => Option.some.inj h ▸ hbuilds
  · exact finds_pure nofun

theorem finds_unary (hr : Ready depth r) (arrow : ArrowRole)
    (hroom : 5 * c.rest.length + 2 ≤ depth) : Finds (Grammar.unary r arrow) c (Answers c) := by
  apply finds_look (a := nextKind c) rfl
  cases hnext : nextKind c with
  | none => exact finds_pure rfl
  | some kind =>
      have hpos := length_pos_of_nextKind hnext
      dsimp only
      split
      · exact Finds.answers (finds_node_bump (by decide) hpos fun mid _ =>
          lays_orReport (hr.binary _ arrow mid (by omega)))
      split
      · apply finds_bind (finds_cast hr arrow hpos (by omega))
        intro found mid hfound
        cases found with
        | none =>
            cases hfound
            exact finds_postfixOperand hr arrow hroom
        | some outline => exact finds_pure hfound
      · exact finds_postfixOperand hr arrow hroom

theorem lays_instanceofOperand (hr : Ready depth r) (hroom : 5 * c.rest.length + 5 ≤ depth) :
    Lays (instanceofOperand r) c c fun _ _ => True := by
  refine lays_bind_finds (finds_isPattern hr (by omega)) fun answer _ ⟨heq, hahead⟩ => ?_
  subst heq
  split
  · exact (lays_found (finds_primaryPattern hr (hahead ‹_›) (by omega)).covers).mono
      fun _ _ _ _ => trivial
  · exact lays_orReport (hr.type .plain _ (by omega))

theorem bounds_of_ofTerminals? {rest : List Terminal} {operator : BinaryOperator}
    (h : BinaryOperator.ofTerminals? rest = some operator) :
    0 < operator.width ∧ 0 < rest.length := by
  unfold BinaryOperator.ofTerminals? at h
  split at h
  case h_1 => cases h
  case h_5 =>
    split at h
    all_goals cases h
    all_goals simp
  all_goals
    cases h
    simp

theorem lays_bumpMany_bind {n : Nat} {f : Unit → Grammar α} (hn : 0 < n)
    (hpos : 0 < c.rest.length)
    (h : ∀ mid, mid.rest.length < c.rest.length → Lays (f ()) mid mid fun _ _ => True) :
    Lays (bumpMany n >>= f) c c fun _ stop => stop.rest.length < c.rest.length := by
  have hbumped : Lays (bumpMany n) c c fun _ stop => stop.rest.length < c.rest.length := by
    cases n with
    | zero => omega
    | succ n => exact lays_bump_bind hpos fun mid _ => lays_bumpMany n
  exact lays_bind hbumped fun _ mid _ hlt => (h mid hlt).of_true fun _ _ hle =>
    Nat.lt_of_le_of_lt hle hlt

theorem lays_rightOperand (hr : Ready depth r) {operator : BinaryOperator} (arrow : ArrowRole)
    (hoperator : BinaryOperator.ofTerminals? c.rest = some operator)
    (hroom : 5 * c.rest.length + 3 ≤ depth) :
    Lays (rightOperand r arrow operator) c c fun _ stop =>
      stop.rest.length < c.rest.length := by
  obtain ⟨hwidth, hpos⟩ := bounds_of_ofTerminals? hoperator
  refine lays_bumpMany_bind hwidth hpos fun mid hmid =>
    lays_bind_finds (hr.binary _ arrow mid (by omega)) fun found stop hright => ?_
  cases found with
  | none =>
      cases hright
      exact lays_report_bind (lays_pure trivial)
  | some right => exact lays_put_bind hright.1.2 (lays_pure trivial)

theorem finds_binary (hr : Ready depth r) (level : Nat) (arrow : ArrowRole)
    (hroom : 5 * c.rest.length + 3 ≤ depth) :
    Finds (Grammar.binary r level arrow) c (Answers c) := by
  apply finds_bind (hr.unary arrow c hroom)
  intro found mid hfound
  cases found with
  | none => exact finds_pure hfound
  | some first =>
      refine finds_bind (finds_iterate (I := Builds c) (Q := Builds c) hfound
        fun left here hhere hleft => finds_look (a := here.rest) rfl ?_)
          fun _ _ hbuilds => finds_pure hbuilds
      have hlt := hfound.2
      -- A node around what has been joined begins where the first operand does.
      have hwrap {outline : Outline} {stop : Cursor} (hmakes : Makes c outline stop ∧
          stop.rest.length < here.rest.length) : Builds c outline stop :=
        ⟨hmakes.1, Nat.lt_trans hmakes.2 hleft.2⟩
      split
      · exact finds_pure hleft
      · rename_i operator hoperator
        unfold operatorTurn
        split
        · exact finds_pure hleft
        · refine finds_ifAt (fun _ => ?_) fun _ => ?_
          · exact finds_bind (finds_around_bump hleft.1 (bounds_of_ofTerminals? hoperator).2
              fun mid _ => lays_instanceofOperand hr (by omega)) fun _ _ hmakes =>
                finds_pure ⟨hwrap hmakes, hmakes.2⟩
          · refine finds_capture_bind here (lays_rightOperand hr arrow hoperator (by omega)) ?_
            intro found parts stop hcovers hstop
            have hjoined : Builds c (.around .binaryExpression left parts) stop :=
              hwrap ⟨⟨trivial, .around (by decide) hleft.1.1 hleft.1.2 hcovers (.nil _)⟩, hstop⟩
            dsimp only
            split
            · exact finds_pure ⟨hjoined, hstop⟩
            · exact finds_pure hjoined

theorem finds_conditional (hr : Ready depth r) (arrow : ArrowRole)
    (hroom : 5 * c.rest.length + 4 ≤ depth) :
    Finds (Grammar.conditional r arrow) c (Answers c) := by
  apply finds_bind (hr.binary 0 arrow c hroom)
  intro found mid hfound
  cases found with
  | none => exact finds_pure hfound
  | some condition =>
      have hlt := hfound.2
      refine finds_ifAt (fun hquestion => ?_) fun _ => finds_pure hfound
      exact finds_bind (finds_around_bump hfound.1 (length_pos_of_nextKind hquestion)
        fun here hhere => lays_bind (lays_orReport (hr.expression here (by omega)))
          fun _ next hnext _ => lays_bind (lays_expect.mono (Q := fun _ stop =>
            stop.rest.length ≤ next.rest.length) fun _ _ hle _ => hle)
            fun _ last _ hlast => lays_orReport (hr.conditional arrow last (by omega)))
        fun _ _ hmakes => finds_pure ⟨hmakes.1, Nat.lt_trans hmakes.2 hlt⟩

/-- Every rule of a table of a depth keeps what is promised for the depth. -/
theorem ready_ofDepth (depth : Nat) : Ready depth (.ofDepth depth) := by
  induction depth with
  | zero =>
      constructor
      case bounded => exact ⟨0, rfl⟩
      all_goals
        intros
        omega
  | succ depth ih =>
      rw [Rules.ofDepth_succ]
      constructor
      case bounded => exact ⟨depth + 1, rfl⟩
      case annot => exact fun c hpos hroom => finds_annot ih hpos (by omega)
      case arrayInitializer => exact fun c hpos hroom => finds_arrayInitializer ih hpos (by omega)
      case type => exact fun flags c hroom => finds_type ih flags (by omega)
      case primitive =>
        exact fun flags c kind hkind hprimitive _ => finds_type_primitive _ flags hkind hprimitive
      case pattern => exact fun c hahead hroom => finds_pattern ih hahead (by omega)
      case unary => exact fun arrow c hroom => finds_unary ih arrow (by omega)
      case binary => exact fun level arrow c hroom => finds_binary ih level arrow (by omega)
      case conditional => exact fun arrow c hroom => finds_conditional ih arrow (by omega)

end PatternSyntax.Proofs.Totality
