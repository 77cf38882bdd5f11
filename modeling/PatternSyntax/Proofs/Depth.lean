import PatternSyntax.Proofs.Runs

/-!
The depth to which rules apply each other only bounds a run: a run that ends without a fault ends
in the same way at every greater depth.
-/

namespace PatternSyntax.Proofs.Depth

open Grammar
open PatternSyntax.Proofs.Runs

/-- Every rule of the first table can be replaced by that of the second one. -/
structure RulesRefine (r r' : Rules) : Prop where
  annot : Refines r.annot r'.annot
  arrayInitializer : Refines r.arrayInitializer r'.arrayInitializer
  type (flags : TypeFlags) : Refines (r.type flags) (r'.type flags)
  pattern : Refines r.pattern r'.pattern
  unary (arrow : ArrowRole) : Refines (r.unary arrow) (r'.unary arrow)
  binary (level : Nat) (arrow : ArrowRole) : Refines (r.binary level arrow) (r'.binary level arrow)
  conditional (arrow : ArrowRole) : Refines (r.conditional arrow) (r'.conditional arrow)

variable {r r' : Rules}

theorem RulesRefine.expression (h : RulesRefine r r') : Refines r.expression r'.expression :=
  h.conditional .lambda

theorem typeArguments_refines (h : RulesRefine r r') :
    Refines (typeArguments r) (typeArguments r') := by
  refine node_refines (bind_refines_right fun _ => bind_refines_right fun empty => ?_)
  refine ite_refines (.refl _) (bind_refines_left (iterate_refines fun _ => ?_))
  exact bind_refines_left (h.type _)

theorem optionalTypeArguments_refines (h : RulesRefine r r') (allowed : Bool) :
    Refines (optionalTypeArguments r allowed) (optionalTypeArguments r' allowed) :=
  bind_refines_right fun _ =>
    ite_refines (bind_refines_left (typeArguments_refines h)) (.refl _)

theorem codeReference_refines (h : RulesRefine r r') (eatLastDot arguments : Bool) :
    Refines (codeReference r eatLastDot arguments) (codeReference r' eatLastDot arguments) := by
  refine bind_refines (node_refines (bind_refines_right fun _ =>
    optionalTypeArguments_refines h _)) fun first => iterate_refines fun reference => ?_
  refine bind_refines_right fun _ => ite_refines (bind_refines_right fun _ => ?_) (.refl _)
  refine ite_refines (bind_refines_left (around_refines ?_)) (.refl _)
  exact bind_refines_right fun _ => bind_refines_right fun _ => optionalTypeArguments_refines h _

theorem wildcard_refines (h : RulesRefine r r') : Refines (wildcard r) (wildcard r') := by
  refine bind_refines_right fun _ => bind_refines_right fun _ => bind_refines_right fun _ => ?_
  exact ite_refines (bind_refines_right fun _ => orReport_refines (h.type _)) (.refl _)

theorem typeHead_refines (h : RulesRefine r r') (flags : TypeFlags) :
    Refines (typeHead r flags) (typeHead r' flags) := by
  apply bind_refines_right
  intro kind
  cases kind with
  | none => exact .refl _
  | some kind =>
      refine ite_refines (.refl _) (ite_refines ?_ (ite_refines ?_ (.refl _)))
      · exact bind_refines_left (codeReference_refines h _ _)
      · exact bind_refines_left (wildcard_refines h)

theorem type_refines (h : RulesRefine r r') (flags : TypeFlags) :
    Refines (Grammar.type r flags) (Grammar.type r' flags) := by
  refine attempt_refines (bind_refines_left (capture_refines (bind_refines
    (repeatWhile_refines ?_) fun _ => typeHead_refines h flags)))
  exact bind_refines_right fun _ => bind_refines_right fun _ =>
    ite_refines (bind_refines_left h.annot) (.refl _)

theorem annotValue_refines (h : RulesRefine r r') : Refines (annotValue r) (annotValue r') := by
  refine bind_refines_right fun _ => ite_refines (bind_refines_left h.annot) ?_
  refine bind_refines_right fun _ => ite_refines (bind_refines_left h.arrayInitializer) ?_
  exact orReport_refines h.expression

theorem annotParameter_refines (h : RulesRefine r r') :
    Refines (annotParameter r) (annotParameter r') := by
  refine bind_refines_right fun _ => bind_refines_right fun _ => ite_refines ?_
    (annotValue_refines h)
  exact bind_refines_left (node_refines (bind_refines_right fun _ => bind_refines_right fun _ =>
    annotValue_refines h))

theorem annotParameters_refines (h : RulesRefine r r') :
    Refines (annotParameters r) (annotParameters r') := by
  refine node_refines (bind_refines_right fun _ => bind_refines_right fun _ =>
    ite_refines (.refl _) (bind_refines_left (repeatWhile_refines ?_)))
  exact bind_refines_left (annotParameter_refines h)

theorem annot_refines (h : RulesRefine r r') : Refines (Grammar.annot r) (Grammar.annot r') := by
  have parameters : Refines (optionalAnnotParameters r) (optionalAnnotParameters r') :=
    bind_refines_right fun _ =>
      ite_refines (bind_refines_left (annotParameters_refines h)) (.refl _)
  refine node_refines (bind_refines_right fun _ => bind_refines_right fun _ => ite_refines ?_ ?_)
  · exact put_refines (codeReference_refines h _ _) fun _ => parameters
  · exact bind_refines_right fun _ => parameters

theorem modifierList_refines (h : RulesRefine r r') (allowed : TokenSet) :
    Refines (modifierList r allowed) (modifierList r' allowed) := by
  refine node_refines (repeatWhile_refines (bind_refines_right fun kind => ?_))
  cases kind with
  | none => exact .refl _
  | some kind =>
      refine ite_refines (.refl _) (bind_refines_right fun _ => ?_)
      exact ite_refines (bind_refines_left h.annot) (.refl _)

theorem probe_refines (h : RulesRefine r r') : Refines (probe r) (probe r') :=
  bind_refines_right fun _ => put_refines (modifierList_refines h _) fun _ =>
    bind_refines_left (h.type _)

theorem isPattern_refines (h : RulesRefine r r') : Refines (isPattern r) (isPattern r') :=
  lookahead_refines (probe_refines h)

theorem component_refines (h : RulesRefine r r') (isFirst : Bool) :
    Refines (component r isFirst) (component r' isFirst) :=
  bind_refines_right fun _ => ite_refines (.refl _) (bind_refines (isPattern_refines h)
    fun _ => ite_refines (put_refines h.pattern fun _ => .refl _) (.refl _))

theorem recordStructure_refines (h : RulesRefine r r') :
    Refines (recordStructure r) (recordStructure r') :=
  node_refines (bind_refines_right fun _ => bind_refines_left (iterate_refines fun isFirst =>
    bind_refines_right fun _ => ite_refines (.refl _) (ite_refines (component_refines h isFirst)
      (bind_refines_right fun _ => component_refines h isFirst))))

theorem typeOrRecordPattern_refines (h : RulesRefine r r') :
    Refines (typeOrRecordPattern r) (typeOrRecordPattern r') := by
  refine bind_refines (modifierList_refines h _) fun modifiers => bind_refines (h.type _)
    fun type => ?_
  cases type with
  | none => exact .refl _
  | some type =>
      refine bind_refines_right fun _ => ite_refines (bind_refines_left (capture_refines ?_))
        (.refl _)
      exact bind_refines_right fun _ => bind_refines_right fun _ =>
        put_refines (recordStructure_refines h) fun _ => .refl _

theorem primaryPattern_refines (h : RulesRefine r r') :
    Refines (primaryPattern r) (primaryPattern r') :=
  bind_refines_right fun _ => ite_refines
    (node_refines (bind_refines_right fun _ => put_refines h.pattern fun _ => .refl _))
    (typeOrRecordPattern_refines h)

theorem pattern_refines (h : RulesRefine r r') :
    Refines (Grammar.pattern r) (Grammar.pattern r') :=
  bind_refines (primaryPattern_refines h) fun _ => bind_refines_right fun _ => ite_refines
    (node_refines (bind_refines_right fun _ => bind_refines_right fun _ =>
      orReport_refines (h.binary _ _))) (.refl _)

theorem lambdaParameter_refines (h : RulesRefine r r') :
    Refines (lambdaParameter r) (lambdaParameter r') := by
  refine node_refines (bind_refines_right fun _ => bind_refines_right fun _ =>
    bind_refines_right fun _ => ite_refines (.refl _) ?_)
  exact put_refines (modifierList_refines h _) fun _ =>
    bind_refines_left (orReport_refines (h.type _))

theorem lambdaParameters_refines (h : RulesRefine r r') :
    Refines (lambdaParameters r) (lambdaParameters r') := by
  refine node_refines (bind_refines_right fun _ => ite_refines (.refl _)
    (bind_refines_right fun _ => bind_refines_right fun _ => ite_refines (.refl _)
      (bind_refines_left (repeatWhile_refines ?_))))
  exact put_refines (lambdaParameter_refines h) fun _ => .refl _

theorem lambda_refines (h : RulesRefine r r') : Refines (lambda r) (lambda r') :=
  node_refines (put_refines (lambdaParameters_refines h) fun _ => bind_refines_right fun _ =>
    bind_refines_right fun _ => ite_refines (.refl _) (orReport_refines h.expression))

theorem arguments_refines (h : RulesRefine r r') :
    Refines (arguments r) (arguments r') :=
  node_refines (bind_refines_right fun _ => bind_refines_right fun _ => ite_refines (.refl _)
    (bind_refines_left (repeatWhile_refines (bind_refines_left h.expression))))

theorem arrayInitializer_refines (h : RulesRefine r r') :
    Refines (Grammar.arrayInitializer r) (Grammar.arrayInitializer r') := by
  refine node_refines (bind_refines_right fun _ => bind_refines_left (repeatWhile_refines ?_))
  refine bind_refines_right fun _ => bind_refines_right fun _ => ite_refines (.refl _) ?_
  refine bind_refines_right fun _ => ite_refines ?_ (bind_refines_left h.expression)
  exact put_refines h.arrayInitializer fun _ => .refl _

theorem newArray_refines (h : RulesRefine r r') : Refines (newArray r) (newArray r') := by
  refine bind_refines (repeatWhile_refines (bind_refines_right fun _ => ite_refines
    (bind_refines_right fun _ => ite_refines (.refl _) ?_) (.refl _))) fun _ => ?_
  · exact bind_refines_left (orReport_refines h.expression)
  · exact bind_refines_right fun _ =>
      ite_refines (bind_refines_left h.arrayInitializer) (.refl _)

theorem newTail_refines (h : RulesRefine r r') (isPrimitive : Bool) :
    Refines (newTail r isPrimitive) (newTail r' isPrimitive) :=
  bind_refines_right fun _ => ite_refines (newArray_refines h) (bind_refines_right fun _ =>
    ite_refines (put_refines (arguments_refines h) fun _ => .refl _) (.refl _))

theorem newExpression_refines (h : RulesRefine r r') :
    Refines (newExpression r) (newExpression r') := by
  refine node_refines (bind_refines_right fun _ => bind_refines_right fun kind => ?_)
  cases kind with
  | none => exact .refl _
  | some kind =>
      refine ite_refines (bind_refines_right fun _ => bind_refines_right fun _ =>
        newTail_refines h true) (ite_refines ?_ (.refl _))
      exact put_refines (codeReference_refines h _ _) fun _ => newTail_refines h false

theorem operand_refines (h : RulesRefine r r') : Refines (operand r) (operand r') := by
  apply bind_refines_right
  intro kind
  cases kind with
  | none => exact .refl _
  | some kind =>
      refine ite_refines (.refl _) (ite_refines (.refl _) (ite_refines (.refl _)
        (ite_refines (.refl _) (ite_refines ?_ (ite_refines ?_ (ite_refines ?_ (.refl _)))))))
      · exact bind_refines_left (node_refines (bind_refines_right fun _ =>
          bind_refines_left (orReport_refines h.expression)))
      · exact bind_refines_left (newExpression_refines h)
      · exact bind_refines_left (node_refines (bind_refines_left (h.type _)))

theorem selectors_refines (h : RulesRefine r r') (first : Outline) :
    Refines (iterate (selectorTurn r) first) (iterate (selectorTurn r') first) := by
  refine iterate_refines fun subject => bind_refines_right fun _ => ite_refines (.refl _) ?_
  refine bind_refines_right fun _ => ite_refines ?_ (bind_refines_right fun _ =>
    ite_refines ?_ (.refl _))
  · exact bind_refines_left (around_refines (bind_refines_left (arguments_refines h)))
  · exact bind_refines_left (around_refines (bind_refines_right fun _ =>
      bind_refines_left (orReport_refines h.expression)))

theorem primary_refines (h : RulesRefine r r') (arrow : ArrowRole) :
    Refines (primary r arrow) (primary r' arrow) := by
  refine bind_refines_right fun _ => ite_refines (bind_refines_left (lambda_refines h)) ?_
  apply bind_refines (operand_refines h)
  intro first
  cases first with
  | none => exact .refl _
  | some first => exact bind_refines_left (selectors_refines h first)

theorem postfixOperand_refines (h : RulesRefine r r') (arrow : ArrowRole) :
    Refines (postfixOperand r arrow) (postfixOperand r' arrow) :=
  bind_refines_left (primary_refines h arrow)

theorem cast_refines (h : RulesRefine r r') (arrow : ArrowRole) :
    Refines (Grammar.cast r arrow) (Grammar.cast r' arrow) := by
  refine attempt_refines (bind_refines (capture_refines (bind_refines_right fun _ =>
    bind_refines_right fun _ => bind_refines_left (h.type _))) fun _ => ite_refines ?_ (.refl _))
  exact bind_refines_left (node_refines (bind_refines_right fun _ => bind_refines_right fun _ =>
    orReport_refines (h.unary arrow)))

theorem unary_refines (h : RulesRefine r r') (arrow : ArrowRole) :
    Refines (Grammar.unary r arrow) (Grammar.unary r' arrow) := by
  apply bind_refines_right
  intro kind
  cases kind with
  | none => exact .refl _
  | some kind =>
      refine ite_refines (bind_refines_left (node_refines (bind_refines_right fun _ =>
        orReport_refines (h.binary _ _)))) (ite_refines ?_ (postfixOperand_refines h arrow))
      apply bind_refines (cast_refines h arrow)
      intro found
      cases found with
      | none => exact postfixOperand_refines h arrow
      | some outline => exact .refl _

theorem instanceofOperand_refines (h : RulesRefine r r') :
    Refines (instanceofOperand r) (instanceofOperand r') :=
  bind_refines (isPattern_refines h) fun _ =>
    ite_refines (bind_refines_left (primaryPattern_refines h)) (orReport_refines (h.type _))

theorem binary_refines (h : RulesRefine r r') (level : Nat) (arrow : ArrowRole) :
    Refines (Grammar.binary r level arrow) (Grammar.binary r' level arrow) := by
  apply bind_refines (h.unary arrow)
  intro first
  cases first with
  | none => exact .refl _
  | some first =>
      refine bind_refines_left (iterate_refines fun left => bind_refines_right fun ahead => ?_)
      cases BinaryOperator.ofTerminals? ahead with
      | none => exact .refl _
      | some operator =>
          refine ite_refines (.refl _) (bind_refines_right fun _ => ite_refines ?_ ?_)
          · exact bind_refines_left (around_refines (bind_refines_right fun _ =>
              instanceofOperand_refines h))
          · exact bind_refines_left (capture_refines (bind_refines_right fun _ =>
              bind_refines_left (h.binary _ _)))

theorem conditional_refines (h : RulesRefine r r') (arrow : ArrowRole) :
    Refines (Grammar.conditional r arrow) (Grammar.conditional r' arrow) := by
  apply bind_refines (h.binary 0 arrow)
  intro condition
  cases condition with
  | none => exact .refl _
  | some condition =>
      refine bind_refines_right fun _ => ite_refines (bind_refines_left (around_refines ?_))
        (.refl _)
      exact bind_refines_right fun _ => bind_refines (orReport_refines h.expression) fun _ =>
        bind_refines_right fun _ => orReport_refines (h.conditional arrow)

theorem next_refines (h : RulesRefine r r') : RulesRefine r.next r'.next where
  annot := annot_refines h
  arrayInitializer := arrayInitializer_refines h
  type := type_refines h
  pattern := pattern_refines h
  unary := unary_refines h
  binary := binary_refines h
  conditional := conditional_refines h

theorem ofDepth_refines {depth depth' : Nat} (h : depth ≤ depth') :
    RulesRefine (.ofDepth depth) (.ofDepth depth') := by
  induction depth generalizing depth' with
  | zero =>
      exact ⟨fail_refines _ _, fail_refines _ _, fun _ => fail_refines _ _, fail_refines _ _,
        fun _ => fail_refines _ _, fun _ _ => fail_refines _ _, fun _ => fail_refines _ _⟩
  | succ depth ih =>
      obtain ⟨larger, rfl⟩ : ∃ larger, depth' = larger + 1 := ⟨depth' - 1, by omega⟩
      rw [Rules.ofDepth_succ, Rules.ofDepth_succ]
      exact next_refines (ih (by omega))

/-- Two runs of a rule that end without a fault end in the same way, whatever their depths. -/
theorem ofDepth_agree {α : Type} {rule : Rules → Grammar α}
    (hrule : ∀ {r r'}, RulesRefine r r' → Refines (rule r) (rule r')) {depth depth' : Nat}
    {c : Cursor} {done done' : Parsed α} (h : rule (.ofDepth depth) c = .ok done)
    (h' : rule (.ofDepth depth') c = .ok done') : done = done' := by
  rcases Nat.le_total depth depth' with hle | hle
  · have := hrule (ofDepth_refines hle) c done h
    exact Except.ok.inj (this.symm.trans h')
  · have := hrule (ofDepth_refines hle) c done' h'
    exact Except.ok.inj (h.symm.trans this)

end PatternSyntax.Proofs.Depth
