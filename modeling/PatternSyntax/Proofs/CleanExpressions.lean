import PatternSyntax.Proofs.CleanRules

/-!
Expressions and labels without an error are neat, and so are the rules of every depth.
-/

namespace PatternSyntax.Proofs.CleanExpressions

open Grammar
open PatternSyntax.Proofs.CleanRules
open PatternSyntax.Proofs.CleanRuns
open PatternSyntax.Proofs.Coverage
open PatternSyntax.Proofs.Neatness
open PatternSyntax.Proofs.Runs

variable {r : Rules} {c : Cursor}

theorem closes_openBrace (depth : Nat) (kinds : List TokenKind) :
    closes depth (.openBrace :: kinds) = closes (depth + 1) kinds := by
  cases depth with
  | zero => rfl
  | succ depth => rfl

theorem closes_other {kind : TokenKind} (hopen : kind ≠ .openBrace) (hclose : kind ≠ .closeBrace)
    (depth : Nat) (kinds : List TokenKind) :
    closes depth (kind :: kinds) = closes depth kinds := by
  cases depth with
  | zero => rw [closes] <;> simp [hopen, hclose]
  | succ depth => rw [closes] <;> simp [hopen, hclose]

/-- From inside of a block, the tokens up to the brace that closes it are put down. -/
def Shuts (depth : Nat) (parts : List Outline) : Prop :=
  ∃ kinds, parts = kinds.map Outline.token ∧ closes depth kinds = true

theorem clean_codeBlock (hbrace : nextKind c = some .openBrace) : Tidies codeBlock c := by
  refine clean_block (after_bump_bind hbrace fun mid _ => after_bind (after_iterate
    (Q := fun depth _ parts => Shuts depth parts) (fun depth here => ?_) 0)
      fun _ parts stop h => ?_)
  · refine after_look (a := nextKind here) rfl ?_
    split
    · exact after_report_bind
    · refine after_bump_bind ‹_› fun _ _ => after_pure fun _ back => ?_
      rintro ⟨kinds, rfl, hcloses⟩
      exact ⟨.openBrace :: kinds, rfl, (closes_openBrace _ _).trans hcloses⟩
    · refine after_bump_bind ‹_› fun _ _ => ?_
      split
      · exact after_pure ⟨[.closeBrace], rfl, rfl⟩
      · apply after_pure
        intro _ back
        rintro ⟨kinds, rfl, hcloses⟩
        exact ⟨.closeBrace :: kinds, rfl, hcloses⟩
    · rename_i kind hopen hclose hnext
      refine after_bump_bind hnext fun _ _ => after_pure fun _ back => ?_
      rintro ⟨kinds, rfl, hcloses⟩
      exact ⟨kind :: kinds, rfl, (closes_other hopen hclose _ _).trans hcloses⟩
  · obtain ⟨kinds, rfl, hcloses⟩ := h
    apply after_pure
    exact ⟨kinds, by simp, hcloses⟩

theorem clean_lambdaParameter (hr : Careful r) : Tidies (lambdaParameter r) c := by
  refine clean_node_bare (by decide) (clean_look (a := nextKind c == some .ident) rfl
    (clean_look rfl (clean_look rfl ?_)))
  split
  · rename_i h
    simp only [Bool.and_eq_true, beq_iff_eq] at h
    exact clean_bump_bare h.1 (by decide)
  · apply clean_found_bind (clean_modifierList hr).laid
    intro mid
    exact clean_bind_bare (clean_orReport (hr.type _ mid)) fun _ _ _ =>
      clean_expect_bare (by decide)

theorem nextKind_of_isLambda (h : isLambda c.rest = true) :
    nextKind c = some .ident ∨ nextKind c = some .openParen := by
  obtain ⟨i, rest⟩ := c
  change isLambda rest = true at h
  unfold isLambda at h
  split at h
  · exact .inl rfl
  · exact .inr rfl
  · cases h

theorem clean_lambdaParameters (hr : Careful r)
    (hkind : nextKind c = some .ident ∨ nextKind c = some .openParen) :
    Tidies (lambdaParameters r) c := by
  refine clean_node (by decide) (clean_ifAt (fun hident => ?_) fun hident => ?_)
  · exact (clean_found (clean_node_bare (by decide) (clean_bump_bare hident (by decide))).laid).mono
      fun _ _ _ hbare => hbare.1 ▸ rfl
  · apply clean_bump_bind (hkind.resolve_left hident) (by decide)
    intro mid _
    apply clean_ifAt (fun _ => clean_close (by decide) (by decide))
    intro _
    refine clean_bind_bare (clean_repeatWhile_bare (P := fun _ _ => True) fun here => ?_)
      fun _ _ _ => clean_close (by decide) (by decide)
    exact clean_found_bind (clean_lambdaParameter hr).laid fun _ => clean_eat_bare (by decide)

theorem clean_lambda (hr : Careful r)
    (hkind : nextKind c = some .ident ∨ nextKind c = some .openParen) :
    Tidies (lambda r) c := by
  apply clean_node_bare (by decide)
  apply clean_found_bind (clean_lambdaParameters hr hkind).laid
  intro mid
  apply clean_bind_bare (clean_eat_bare (by decide))
  intro _ next _
  exact clean_ifAt (fun hbrace => clean_found (clean_codeBlock hbrace).laid) fun _ =>
    clean_orReport (hr.expression next)

theorem clean_parameterTurn (hr : Careful r) :
    Clean (parameterTurn r) c (Bare fun _ _ => True) := by
  apply clean_bind_bare (hr.expression c)
  intro found mid hfound
  cases found with
  | none => exact clean_report_bind
  | some value =>
      exact clean_put_bind (hfound value rfl).laid (clean_eat_bare (by decide))

theorem clean_arguments (hr : Careful r) (hopen : nextKind c = some .openParen) :
    Tidies (arguments r) c := by
  refine clean_node (by decide) (clean_bump_bind hopen (by decide) fun mid _ => ?_)
  apply clean_ifAt (fun _ => clean_close (by decide) (by decide))
  intro _
  exact clean_bind_bare (clean_repeatWhile_bare fun here => clean_parameterTurn hr) fun _ _ _ =>
    clean_close (by decide) (by decide)

theorem clean_arrayInitializer (hr : Careful r) (hopen : nextKind c = some .openBrace) :
    Tidies (Grammar.arrayInitializer r) c := by
  refine clean_node (by decide) (clean_bump_bind hopen (by decide) fun mid _ => ?_)
  refine clean_bind_bare (clean_repeatWhile_bare (P := fun _ _ => True) fun here => ?_)
    fun _ _ _ => clean_close (by decide) (by decide)
  refine clean_look rfl (clean_look rfl ?_)
  split
  · exact clean_pure ⟨rfl, trivial⟩
  · refine clean_ifAt (fun hbrace => ?_) fun _ => clean_parameterTurn hr
    exact clean_found_bind (hr.arrayInitializer here hbrace).laid fun _ =>
      clean_eat_bare (by decide)

theorem clean_newArray (hr : Careful r) :
    Clean (newArray r) c fun _ kinds _ => paired kinds = true := by
  refine clean_bind (clean_repeatWhile (B := fun kinds => paired kinds = true)
    (fun _ _ => paired_append) fun here => ?_) fun _ front mid hfront => ?_
  · apply clean_bind (clean_eat (by decide))
    intro found opening next hopening
    subst hopening
    split
    · have hclose (mid : Cursor) :
          Clean dimensionEnd mid fun _ kinds _ =>
            paired (bracketOf .openBracket ++ kinds) = true := by
        apply clean_bind (clean_expect (by decide))
        intro _ closing last hclosing
        subst hclosing
        exact clean_pure rfl
      apply clean_ifAt (fun _ => hclose next)
      intro _
      exact clean_bind_bare (clean_orReport (hr.expression next)) fun _ last _ => hclose last
    · exact clean_pure rfl
  · refine (clean_ifAt (fun hbrace => ?_) fun _ => ?_).mono (P := Bare fun _ _ => True)
      fun _ back _ hback => ?_
    · exact clean_found (hr.arrayInitializer mid hbrace).laid
    · exact clean_pure ⟨rfl, trivial⟩
    · rw [hback.1, List.append_nil]
      exact hfront

theorem clean_newTail (hr : Careful r) (isPrimitive : Bool) :
    Clean (newTail r isPrimitive) c fun _ kinds _ => paired kinds = true := by
  apply clean_ifAt (fun _ => clean_newArray hr)
  intro _
  apply clean_look (a := nextKind c == some .openParen) rfl
  split
  · rename_i h
    simp only [Bool.and_eq_true, beq_iff_eq] at h
    apply clean_found_bind (clean_arguments hr h.2).laid
    intro mid
    refine clean_ifAt (fun hbrace => ?_) fun _ => clean_pure rfl
    exact (clean_found (clean_codeBlock hbrace).laid).mono fun _ _ _ hbare => hbare.1 ▸ rfl
  · exact clean_report

theorem clean_newExpression (hr : Careful r) (hnew : nextKind c = some .newKw) :
    Tidies (newExpression r) c := by
  refine clean_node (by decide) (clean_bump_bind_bare hnew (by decide) fun mid _ => ?_)
  apply clean_look (a := nextKind mid) rfl
  cases hnext : nextKind mid with
  | none => exact clean_report
  | some kind =>
      dsimp only
      split
      · refine clean_found_bind (clean_node_bare (by decide) ?_).laid fun _ => clean_newTail hr true
        exact clean_bump_bare hnext (ordinary_of_isPrimitiveType ‹_›)
      split
      · rename_i hident
        rw [beq_iff_eq.1 hident] at hnext
        exact clean_found_bind (clean_codeReference hr _ _ hnext).laid fun _ =>
          clean_newTail hr false
      · exact clean_report

theorem clean_operand (hr : Careful r) : Offers (operand r) c := by
  have htoken {kind : TokenKind} {outer : NodeKind} (hnext : nextKind c = some kind)
      (hkind : Ordinary kind)
      (houter : outer ≠ .error ∧ outer ≠ .codeBlock ∧ outer ≠ .referenceParameterList) :
      Offers (do return some (← node outer bump)) c :=
    clean_some (clean_node_bare houter (clean_bump_bare hnext hkind))
  apply clean_look (a := nextKind c) rfl
  cases hnext : nextKind c with
  | none => exact clean_pure ⟨rfl, nofun⟩
  | some kind =>
      dsimp only
      split
      · exact htoken hnext (ordinary_of_isLiteral ‹_›) (by decide)
      split
      · exact htoken (hnext.trans (congrArg some (beq_iff_eq.1 ‹_›))) (by decide) (by decide)
      split
      · exact htoken (hnext.trans (congrArg some (beq_iff_eq.1 ‹_›))) (by decide) (by decide)
      split
      · exact htoken (hnext.trans (congrArg some (beq_iff_eq.1 ‹_›))) (by decide) (by decide)
      split
      · have hopen := hnext.trans (congrArg some (beq_iff_eq.1 ‹_›))
        refine clean_some (clean_node (by decide) ?_)
        apply clean_bump_bind hopen (by decide)
        intro mid _
        exact clean_bind_bare (clean_orReport (hr.expression mid)) fun _ _ _ =>
          clean_close (by decide) (by decide)
      split
      · have hnew := hnext.trans (congrArg some (beq_iff_eq.1 ‹_›))
        exact clean_some (clean_newExpression hr hnew)
      split
      · have hmembers (mid : Cursor) :
            Clean classSelector mid (Bare fun _ _ => True) :=
          clean_bind_bare (clean_expect_bare (by decide)) fun _ _ _ => clean_expect_bare (by decide)
        refine clean_some (clean_node_bare (by decide) ?_)
        apply clean_bind_bare (hr.type _ c)
        intro found mid hfound
        cases found with
        | none => exact hmembers mid
        | some type => exact clean_put_bind (hfound type rfl).laid (hmembers mid)
      · exact clean_pure ⟨rfl, nofun⟩

theorem clean_selectors (hr : Careful r) {first : Outline} (hfirst : Tidy first) :
    Tidies (iterate (selectorTurn r) first) c := by
  apply clean_iterate_bare (I := Tidy) (J := Tidy) hfirst
  intro subject here hsubject
  have hyield {g : Grammar Outline} (hg : Tidies g here) :
      Clean (do return .yield (← g)) here (Bare fun next _ => Keeps Tidy Tidy next) :=
    clean_bind_bare hg fun _ _ htidy => clean_pure ⟨rfl, htidy⟩
  refine clean_ifAt (fun hdot => ?_) fun _ =>
    clean_look (a := nextKind here == some .openParen) rfl ?_
  · apply clean_look rfl
    split
    · rename_i hahead
      exact hyield (clean_around_bare (by decide) hsubject (clean_bump_bind_bare hdot (by decide)
        fun mid hmid => clean_bump_bare (nextKind_of_tail hmid (beq_iff_eq.1 hahead)) (by decide)))
    · apply clean_look rfl
      split
      · rename_i hahead
        exact hyield (clean_around_bare (by decide) hsubject (clean_bump_bind_bare hdot
          (by decide) fun mid hmid => clean_bump_bare (nextKind_of_tail hmid (beq_iff_eq.1 hahead))
            (by decide)))
      · exact clean_bind_bare (clean_around_bare (by decide) hsubject (clean_bump_bind_bare hdot
          (by decide) fun _ _ => clean_report)) fun _ _ htidy => clean_pure ⟨rfl, htidy⟩
  · split
    · rename_i h
      simp only [Bool.and_eq_true, beq_iff_eq] at h
      exact hyield (clean_around_bare (by decide) hsubject
        (clean_found (clean_arguments hr h.2).laid))
    · refine clean_ifAt (fun hopen => ?_) fun _ => clean_pure ⟨rfl, hsubject⟩
      refine hyield (clean_around (by decide) hsubject (clean_bump_bind hopen (by decide)
        fun mid _ => ?_))
      exact clean_bind_bare (clean_orReport (hr.expression mid)) fun _ _ _ =>
        clean_close (by decide) (by decide)

theorem clean_primary (hr : Careful r) (arrow : ArrowRole) : Offers (primary r arrow) c := by
  apply clean_look (a := c.rest) rfl
  split
  · rename_i h
    simp only [Bool.and_eq_true] at h
    exact clean_some (clean_lambda hr (nextKind_of_isLambda h.2))
  · apply clean_bind_bare (clean_operand hr)
    intro found mid hfound
    cases found with
    | none => exact clean_pure ⟨rfl, nofun⟩
    | some first => exact clean_some (clean_selectors hr (hfound first rfl))

theorem clean_postfixOperand (hr : Careful r) (arrow : ArrowRole) :
    Offers (postfixOperand r arrow) c := by
  apply clean_bind_bare (clean_primary hr arrow)
  intro found mid hfound
  cases found with
  | none => exact clean_pure ⟨rfl, nofun⟩
  | some first =>
      refine clean_some (clean_iterate_bare (I := Tidy) (J := Tidy) (hfound first rfl)
        fun subject here hsubject => ?_)
      refine clean_look (a := nextKind here == some .plusPlus) rfl
        (clean_look (a := nextKind here == some .minusMinus) rfl ?_)
      split
      · rename_i h
        simp only [Bool.or_eq_true, beq_iff_eq] at h
        have hbump : Clean bump here (Bare fun _ _ => True) := by
          rcases h with hplus | hminus
          · exact clean_bump_bare hplus (by decide)
          · exact clean_bump_bare hminus (by decide)
        exact clean_bind_bare (clean_around_bare (by decide) hsubject hbump) fun _ _ htidy =>
          clean_pure ⟨rfl, htidy⟩
      · exact clean_pure ⟨rfl, hsubject⟩

theorem clean_cast (hr : Careful r) (arrow : ArrowRole) (hopen : nextKind c = some .openParen) :
    Offers (cast r arrow) c := by
  apply clean_attempt
  -- what was put down for a cast is an open parenthesis, and the next token closes it
  refine clean_capture_bind (P := fun isCast kinds stop => kinds = [.openParen] ∧
    (isCast = true → nextKind stop = some .closeParen)) ?_ fun isCast parts mid hparts => ?_
  · refine clean_bump_bind hopen (by decide) fun mid _ => clean_look (a := nextKind mid) rfl ?_
    apply clean_bind_bare (hr.type _ mid)
    intro found stop hfound
    cases found with
    | none => exact clean_pure ⟨rfl, nofun⟩
    | some type =>
        apply clean_put_bind (hfound type rfl).laid
        refine clean_look (a := nextKind stop == some .closeParen) rfl (clean_look rfl ?_)
        refine clean_pure ⟨rfl, fun h => ?_⟩
        simp only [Bool.and_eq_true, beq_iff_eq] at h
        exact h.1.1
  · dsimp only
    split
    · refine clean_some (clean_node (by decide) (clean_putAll_bind fun hclean => ?_))
      obtain ⟨hneat, hkinds, hclose⟩ := hparts hclean
      refine ⟨hneat, clean_bump_bind (hclose ‹_›) (by decide) fun next _ => ?_⟩
      rw [hkinds]
      apply (clean_orReport (hr.unary arrow next)).mono
      rintro _ kinds _ ⟨rfl, -⟩
      rfl
    · exact clean_pure ⟨rfl, nofun⟩

theorem clean_unary (hr : Careful r) (arrow : ArrowRole) :
    Offers (Grammar.unary r arrow) c := by
  apply clean_look (a := nextKind c) rfl
  cases hnext : nextKind c with
  | none => exact clean_pure ⟨rfl, nofun⟩
  | some kind =>
      dsimp only
      split
      · refine clean_some (clean_node_bare (by decide) ?_)
        exact clean_bump_bind_bare hnext (ordinary_of_isPrefixOperator ‹_›) fun mid _ =>
          clean_orReport (hr.binary _ arrow mid)
      split
      · rename_i hopen
        rw [beq_iff_eq.1 hopen] at hnext
        apply clean_bind_bare (clean_cast hr arrow hnext)
        intro found mid hfound
        cases found with
        | none => exact clean_postfixOperand hr arrow
        | some outline => exact clean_pure ⟨rfl, hfound⟩
      · exact clean_postfixOperand hr arrow

theorem clean_instanceofOperand (hr : Careful r) :
    Clean (instanceofOperand r) c (Bare fun _ _ => True) := by
  apply clean_bind_bare clean_lookahead
  intro answer mid _
  split
  · exact clean_found (clean_primaryPattern hr).laid
  · exact clean_orReport (hr.type _ mid)

theorem ordinary_of_ofTerminals? {rest : List Terminal} {operator : BinaryOperator}
    (h : BinaryOperator.ofTerminals? rest = some operator) :
    ∀ terminal ∈ rest.take operator.width, Ordinary terminal.kind := by
  unfold BinaryOperator.ofTerminals? at h
  split at h
  case h_1 => cases h
  case h_5 =>
    split at h
    all_goals cases h
    all_goals
      simp only [List.take_succ_cons, List.take_zero, List.mem_singleton, forall_eq]
      decide
  all_goals
    cases h
    simp only [List.take_succ_cons, List.take_zero, List.forall_mem_cons]
    decide

theorem clean_bumpMany (n : Nat) (h : ∀ terminal ∈ c.rest.take n, Ordinary terminal.kind) :
    Clean (bumpMany n) c (Bare fun _ _ => True) := by
  induction n generalizing c with
  | zero => exact clean_pure ⟨rfl, trivial⟩
  | succ n ih =>
      obtain ⟨i, rest⟩ := c
      cases rest with
      | nil => exact clean_look rfl (ih (by simp))
      | cons terminal rest =>
          rw [List.take_succ_cons, List.forall_mem_cons] at h
          refine clean_bump_bind_bare rfl h.1 fun mid hmid => ih ?_
          rw [hmid]
          exact h.2

theorem clean_binary (hr : Careful r) (level : Nat) (arrow : ArrowRole) :
    Offers (Grammar.binary r level arrow) c := by
  apply clean_bind_bare (hr.unary arrow c)
  intro found mid hfound
  cases found with
  | none => exact clean_pure ⟨rfl, nofun⟩
  | some first =>
      refine clean_some (clean_iterate_bare (I := Tidy) (J := Tidy) (hfound first rfl)
        fun left here hleft => clean_look (a := here.rest) rfl ?_)
      cases hoperator : BinaryOperator.ofTerminals? here.rest with
      | none => exact clean_pure ⟨rfl, hleft⟩
      | some operator =>
          dsimp only
          unfold operatorTurn rightOperand
          split
          · exact clean_pure ⟨rfl, hleft⟩
          · refine clean_ifAt (fun hinstanceof => ?_) fun _ => ?_
            · apply clean_bind_bare (clean_around_bare (by decide) hleft (clean_bump_bind_bare
                hinstanceof (by decide) fun _ _ => clean_instanceofOperand hr))
              intro _ _ htidy
              exact clean_pure ⟨rfl, htidy⟩
            · refine clean_capture_bind (P := Bare fun _ _ => True) ?_
                fun found parts stop hparts => ?_
              · apply clean_bind_bare (clean_bumpMany operator.width
                  (ordinary_of_ofTerminals? hoperator))
                intro _ next _
                apply clean_bind_bare (hr.binary _ arrow next)
                intro found last hright
                cases found with
                | none => exact clean_report_bind
                | some right =>
                    exact clean_put_bind (hright right rfl).laid (clean_pure ⟨rfl, trivial⟩)
              · have hjoined : Tidy (.around .binaryExpression left parts) := by
                  apply tidy_around (by decide) hleft
                  intro hclean
                  obtain ⟨hneat, hbare, -⟩ := hparts hclean
                  exact ⟨hneat, by rw [hbare]; rfl⟩
                dsimp only
                split
                · exact clean_pure ⟨rfl, hjoined⟩
                · exact clean_pure ⟨rfl, hjoined⟩

theorem clean_conditional (hr : Careful r) (arrow : ArrowRole) :
    Offers (Grammar.conditional r arrow) c := by
  apply clean_bind_bare (hr.binary 0 arrow c)
  intro found mid hfound
  cases found with
  | none => exact clean_pure ⟨rfl, nofun⟩
  | some condition =>
      refine clean_ifAt (fun hquestion => ?_) fun _ => clean_pure ⟨rfl, hfound⟩
      refine clean_some (clean_around_bare (by decide) (hfound condition rfl)
        (clean_bump_bind_bare hquestion (by decide) fun here _ => ?_))
      apply clean_bind_bare (clean_orReport (hr.expression here))
      intro _ next _
      exact clean_bind_bare (clean_expect_bare (by decide)) fun _ last _ =>
        clean_orReport (hr.conditional arrow last)

/-- The rules of every depth put down no defect without an error. -/
theorem careful_ofDepth (depth : Nat) : Careful (.ofDepth depth) := by
  induction depth with
  | zero =>
      constructor
      · exact fun _ _ => clean_fail
      · exact fun _ _ => clean_fail
      · exact fun _ _ => clean_fail
      · exact fun _ => clean_fail
      · exact fun _ _ => clean_fail
      · exact fun _ _ _ => clean_fail
      · exact fun _ _ => clean_fail
  | succ depth ih =>
      rw [Rules.ofDepth_succ]
      constructor
      · exact fun _ => clean_annot ih
      · exact fun _ => clean_arrayInitializer ih
      · exact fun flags _ => clean_type ih flags
      · exact fun _ => clean_pattern ih
      · exact fun arrow _ => clean_unary ih arrow
      · exact fun level arrow _ => clean_binary ih level arrow
      · exact fun arrow _ => clean_conditional ih arrow

end PatternSyntax.Proofs.CleanExpressions
