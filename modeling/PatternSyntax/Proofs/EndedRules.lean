import PatternSyntax.Proofs.Endings
import PatternSyntax.Proofs.Forward

/-!
Every rule ends what it puts down, one by one, and so does every table of rules.
-/

namespace PatternSyntax.Proofs.EndedRules

open Grammar
open PatternSyntax.Proofs.Coverage
open PatternSyntax.Proofs.Endings
open PatternSyntax.Proofs.Forward (run_bind run_look run_put_bind)
open PatternSyntax.Proofs.PatternGrammar
open PatternSyntax.Proofs.Runs

variable {r : Rules} {c : Cursor}

/-- The rules of a table end what they put down. -/
structure Ends (r : Rules) : Prop where
  annot (c : Cursor) : Makes r.annot c
  arrayInitializer (c : Cursor) : Makes r.arrayInitializer c
  type (flags : TypeFlags) (c : Cursor) : MayMake (r.type flags) c
  pattern (c : Cursor) : Makes r.pattern c
  unary (arrow : ArrowRole) (c : Cursor) : MayMake (r.unary arrow) c
  binary (level : Nat) (arrow : ArrowRole) (c : Cursor) : MayMake (r.binary level arrow) c
  conditional (arrow : ArrowRole) (c : Cursor) : MayMake (r.conditional arrow) c

theorem Ends.expression (hr : Ends r) (c : Cursor) : MayMake r.expression c :=
  hr.conditional .lambda c

/-- Type arguments up to where no comma follows. A missing type is an error, and then nothing but an
angle can come behind it. -/
theorem puts_argumentTurn (hr : Ends r) (complete : Bool) :
    Puts (argumentTurn r complete) c fun turn parts =>
      turn = .done false → endedAll parts = true := by
  refine puts_value_bind (hr.type _ c) fun found mid hfound => ?_
  cases found with
  | none =>
      refine puts_bind (closes_report rfl) fun _ _ _ hended => puts_pure fun _ => ?_
      exact ended_append_tame hended (.inl rfl)
  | some argument =>
      refine puts_bind (tames_put (hfound argument rfl)) fun _ _ _ _ => ?_
      refine puts_bind tames_eat fun _ _ _ _ => puts_ite (fun _ => ?_) fun _ => ?_
      · exact puts_pure nofun
      · exact puts_pure nofun

theorem makes_typeArguments (hr : Ends r) : Makes (typeArguments r) c := by
  refine makes_node (closes_after_bump fun mid => puts_bind puts_eat fun empty front next hfront =>
    ?_)
  subst hfront
  cases empty with
  | true => exact puts_pure rfl
  | false =>
      refine puts_bind (P := fun complete parts => complete = false → endedAll parts = true)
        (puts_iterate (I := fun _ => True) (fun _ here _ => ?_) trivial)
        fun complete front last hfront => ?_
      · refine Puts.mono (puts_argumentTurn hr _) fun turn parts hparts => ?_
        cases turn with
        | done complete => exact fun hfalse => hparts (hfalse ▸ rfl)
        | yield complete => exact ⟨trivial, fun _ _ hback h => ended_append (hback h)⟩
      · cases complete with
        | true => exact Puts.mono (closes_expect rfl) fun _ _ => ended_append
        | false =>
            refine Puts.mono (tames_bind tames_eat fun _ _ => tames_pure _) fun _ _ => ?_
            exact ended_append_tame (hfront rfl)

theorem tames_optionalTypeArguments (hr : Ends r) (allowed : Bool) :
    Tames (optionalTypeArguments r allowed) c :=
  puts_look rfl (puts_ite (fun _ => (closes_found (makes_typeArguments hr)).tames)
    fun _ => tames_pure _)

theorem makes_codeReference (hr : Ends r) (eatLastDot arguments : Bool)
    (hpos : 0 < c.rest.length) : Makes (codeReference r eatLastDot arguments) c := by
  refine puts_value_bind (makes_node (closes_bump_bind hpos fun _ =>
    tames_optionalTypeArguments hr _)) fun first mid hfirst => makes_iterate
      (fun reference here hreference => ?_) hfirst
  refine puts_ifAt (fun _ => puts_look rfl (puts_ite (fun _ => turns_yield (makes_around hreference
    (tames_bind tames_bump fun _ _ => tames_bind tames_bump fun _ _ =>
      tames_optionalTypeArguments hr _))) fun _ => puts_ite (fun _ => turns_done (makes_around
        hreference (Closes.tames (closes_after_bump fun _ => closes_report rfl)))) fun _ =>
          turns_pure hreference)) (turns_pure hreference)

theorem closes_wildcard (hr : Ends r) (hpos : 0 < c.rest.length) : Closes (wildcard r) c :=
  closes_bump_bind hpos fun _ => puts_look rfl (puts_look rfl (puts_ite (fun _ =>
    (closes_after_bump fun _ => closes_orReport (hr.type _ _) rfl).tames) fun _ => tames_pure _))

theorem puts_typeHead (hr : Ends r) (flags : TypeFlags) :
    Puts (typeHead r flags) c fun form parts => form ≠ .missing → endedAll parts = true := by
  have hform {form : TypeForm} {g : Grammar Unit} {mid : Cursor} (h : Closes g mid) :
      Puts (do g; return form) mid fun form parts => form ≠ .missing → endedAll parts = true :=
    puts_bind h fun _ _ _ hended => puts_pure fun _ => ended_append_tame hended (.inl rfl)
  apply puts_look (a := nextKind c) rfl
  cases hnext : nextKind c with
  | none => exact puts_pure (absurd rfl)
  | some kind =>
      have hpos := length_pos_of_nextKind hnext
      refine puts_ite (fun _ => hform (closes_bump hpos)) fun _ => puts_ite (fun _ => ?_) fun _ =>
        puts_ite (fun _ => hform (closes_wildcard hr hpos)) fun _ => puts_pure (absurd rfl)
      exact puts_value_bind (makes_codeReference hr _ _ hpos) fun _ _ hwhole =>
        hform (closes_put hwhole)

theorem makes_typeSuffix (flags : TypeFlags) {base : Outline} (hbase : Whole base) :
    Makes (typeSuffix flags base) c := by
  refine puts_value_bind (makes_iterate (fun element here helement => ?_) hbase)
    fun array mid harray => puts_look rfl (puts_ite (fun _ => makes_around harray tames_bump)
      fun _ => puts_pure ⟨rfl, harray⟩)
  exact puts_look rfl (puts_look rfl (puts_ite (fun _ => turns_yield (makes_around helement
    (tames_bind tames_bump fun _ _ => tames_bump))) fun _ => turns_pure helement))

theorem mayMake_type (hr : Ends r) (flags : TypeFlags) : MayMake (Grammar.type r flags) c := by
  refine mayMake_attempt (puts_bind (puts_capture (P := fun form parts =>
    form ≠ .missing → endedAll parts = true) (puts_bind (tames_repeatWhile fun here => ?_)
      fun _ _ mid _ => Puts.mono (puts_typeHead hr flags) fun _ _ hended hform =>
        ended_append (hended hform))) ?_)
  · exact puts_look rfl (puts_look rfl (puts_ite (fun _ =>
      Closes.tames (closes_found_bind (hr.annot here) fun _ => tames_pure _)) fun _ =>
        tames_pure _))
  · rintro ⟨form, parts⟩ _ mid ⟨rfl, hnamed, hended⟩
    cases form with
    | missing => exact mayMake_none
    | wildcard => exact puts_pure ⟨rfl, fun _ heq =>
        Option.some.inj heq ▸ whole_node hnamed (hended nofun)⟩
    | named => exact mayMake_some (makes_typeSuffix flags (whole_node hnamed (hended nofun)))

theorem closes_annotValue (hr : Ends r) : Closes (annotValue r) c :=
  puts_ifAt (fun _ => closes_found (hr.annot c)) (puts_ifAt
    (fun _ => closes_found (hr.arrayInitializer c)) (closes_orReport (hr.expression c) rfl))

theorem closes_annotParameter (hr : Ends r) : Closes (annotParameter r) c :=
  puts_look rfl (puts_look rfl (puts_ite (fun _ => closes_found (makes_node
    (closes_after_bump fun _ => closes_after_bump fun _ => closes_annotValue hr)))
      fun _ => closes_annotValue hr))

theorem makes_annotParameters (hr : Ends r) : Makes (annotParameters r) c :=
  makes_node (closes_after_bump fun _ => puts_ifAt (fun _ => closes_expect rfl) (closes_bind
    (tames_repeatWhile fun _ => tames_bind (closes_annotParameter hr).tames fun _ _ => tames_eat)
      fun _ _ _ _ => closes_expect rfl))

theorem makes_annot (hr : Ends r) : Makes (Grammar.annot r) c := by
  have hparameters (mid : Cursor) : Tames (optionalAnnotParameters r) mid :=
    puts_ifAt (fun _ => (closes_found (makes_annotParameters hr)).tames) (tames_pure _)
  refine makes_node (closes_after_bump fun mid => puts_ifAt (fun hident => ?_) ?_)
  · exact closes_found_bind (makes_codeReference hr _ _ (length_pos_of_nextKind hident)) hparameters
  · exact closes_bind_tames (closes_report rfl) fun _ => hparameters

theorem puts_modifierList (hr : Ends r) (allowed : TokenSet) :
    Puts (modifierList r allowed) c fun outline parts => parts = [] ∧ Named [outline] := by
  refine puts_bind (puts_capture (tames_repeatWhile fun here => ?_)) ?_
  · apply puts_look (a := nextKind here) rfl
    cases nextKind here with
    | none => exact tames_pure _
    | some kind =>
        refine puts_ite (fun _ => tames_bind tames_bump fun _ _ => tames_pure _) fun _ =>
          puts_look rfl (puts_ite (fun _ => ?_) fun _ => tames_pure _)
        exact Closes.tames (closes_found_bind (hr.annot here) fun _ => tames_pure _)
  · rintro ⟨_, parts⟩ _ mid ⟨rfl, hnamed, -⟩
    exact puts_pure ⟨rfl, named_node hnamed⟩

theorem closes_modifiers_bind {α : Type} (hr : Ends r) {allowed : TokenSet} {f : Unit → Grammar α}
    (hf : ∀ mid, Closes (f ()) mid) :
    Closes (modifierList r allowed >>= fun outline => put outline >>= f) c :=
  puts_value_bind (puts_modifierList hr allowed) fun _ _ hnamed =>
    closes_bind (puts_put hnamed) fun _ _ mid _ => hf mid

theorem tames_component (hr : Ends r) (isFirst : Bool) : Tames (component r isFirst) c := by
  refine puts_look rfl (puts_ite (fun _ => tames_pure _) fun _ =>
    puts_bind puts_lookahead fun found front mid hfront => ?_)
  subst hfront
  refine puts_ite (fun _ => Closes.tames (closes_found_bind (hr.pattern mid) fun _ =>
    tames_pure _)) fun _ => tames_bind (Closes.tames (closes_report rfl)) fun _ _ => ?_
  exact puts_ifAt (fun _ => tames_pure _) (tames_bind tames_bump fun _ _ => tames_pure _)

theorem tames_componentTurn (hr : Ends r) (isFirst : Bool) :
    Tames (componentTurn r isFirst) c := by
  refine puts_ifAt (fun _ => tames_pure _) ?_
  cases isFirst with
  | true => exact tames_component hr true
  | false => exact tames_bind (tames_expect rfl) fun _ _ => tames_component hr false

theorem makes_recordStructure (hr : Ends r) : Makes (recordStructure r) c := by
  unfold recordStructure
  exact makes_node (closes_after_bump fun _ => closes_bind (tames_iterate (fun isFirst _ =>
    tames_componentTurn hr isFirst) true) fun _ _ _ _ => closes_expect rfl)

theorem tames_recordName : Tames recordName c :=
  puts_ifAt (fun hident => Closes.tames (closes_found (makes_node
    (closes_bump (length_pos_of_nextKind hident))))) (tames_pure _)

theorem makes_typeOrRecordPattern (hr : Ends r) : Makes (typeOrRecordPattern r) c := by
  refine puts_value_bind (puts_modifierList hr _) fun modifiers mid hmodifiers =>
    puts_value_bind (hr.type _ mid) fun found next hfound => ?_
  cases found with
  | none => exact puts_fail
  | some type =>
      have htype : Whole type := hfound type rfl
      refine puts_ifAt (fun _ => ?_) (puts_ifAt (fun hident => ?_) puts_fail)
      · refine puts_bind (puts_capture (P := fun _ parts => endedAll parts = true)
          (closes_bind (puts_put hmodifiers) fun _ _ _ _ => closes_bind_tames (closes_put htype)
            fun _ _ => Closes.tames (closes_found_bind (makes_recordStructure hr)
              fun _ => tames_recordName))) ?_
        rintro ⟨_, parts⟩ _ last ⟨rfl, hnamed, hended⟩
        exact puts_pure ⟨rfl, whole_node (named_loose hnamed) hended⟩
      · refine puts_value_bind (makes_node (closes_bind (puts_put hmodifiers) fun _ _ here _ =>
          closes_bind_tames (closes_put htype) fun _ _ => tames_bump)) fun _ _ hdeclared => ?_
        exact puts_pure ⟨rfl, whole_node hdeclared.named hdeclared.ended⟩

theorem makes_primaryPattern (hr : Ends r) : Makes (primaryPattern r) c :=
  puts_ifAt (fun _ => makes_node (closes_after_bump fun mid => closes_found_bind (hr.pattern mid)
    fun _ => tames_expect rfl)) (makes_typeOrRecordPattern hr)

theorem makes_pattern (hr : Ends r) : Makes (Grammar.pattern r) c := by
  refine puts_value_bind (makes_primaryPattern hr) fun primary mid hprimary =>
    puts_ifAt (fun _ => makes_node (closes_bind_tames (closes_put hprimary) fun _ here =>
      tames_bind tames_bump fun _ after => (closes_orReport (hr.binary _ _ after) rfl).tames)) ?_
  exact puts_pure ⟨rfl, whole_loose hprimary.named hprimary.ended⟩

theorem makes_codeBlock : Makes codeBlock c := by
  refine makes_node (closes_after_bump fun mid => closes_bind_tames (closes_iterate
    (fun depth here => ?_) _) fun _ _ => tames_pure _)
  refine puts_look (a := nextKind here) rfl ?_
  cases hnext : nextKind here with
  | none => exact closes_bind_tames (closes_report rfl) fun _ _ => tames_pure _
  | some kind =>
      have hpos := length_pos_of_nextKind hnext
      split
      · contradiction
      · exact closes_bump_bind hpos fun _ => tames_pure _
      · cases depth with
        | zero => exact closes_bump_bind hpos fun _ => tames_pure _
        | succ depth => exact closes_bump_bind hpos fun _ => tames_pure _
      · exact closes_bump_bind hpos fun _ => tames_pure _

theorem makes_lambdaParameter (hr : Ends r) : Makes (lambdaParameter r) c :=
  makes_node (puts_look rfl (puts_look rfl (puts_look rfl (puts_ite (fun h => closes_bump (by
    have hident := (Bool.and_eq_true_iff.1 h).1
    exact length_pos_of_nextKind (beq_iff_eq.1 hident))) fun _ => closes_modifiers_bind hr
      fun mid => closes_bind_tames (closes_orReport (hr.type _ mid) rfl) fun _ _ =>
        tames_expect rfl))))

theorem makes_lambdaParameters (hr : Ends r) : Makes (lambdaParameters r) c := by
  refine makes_node (puts_ifAt (fun hident => closes_found (makes_node (closes_bump
    (length_pos_of_nextKind hident)))) (closes_after_bump fun _ => puts_ifAt
      (fun _ => closes_expect rfl) (closes_bind (closes_repeatWhile fun _ => ?_) fun _ _ _ _ =>
        closes_expect rfl)))
  exact closes_found_bind (makes_lambdaParameter hr) fun _ => tames_eat

theorem makes_lambda (hr : Ends r) : Makes (lambda r) c :=
  makes_node (closes_found_bind (makes_lambdaParameters hr) fun _ => tames_bind tames_eat
    fun _ mid => puts_ifAt (fun _ => (closes_found makes_codeBlock).tames)
      (closes_orReport (hr.expression mid) rfl).tames)

theorem closes_parameterTurn (hr : Ends r) : Closes (parameterTurn r) c := by
  refine closes_bind (hr.expression c) fun found _ mid hfound => ?_
  cases found with
  | none => exact closes_bind_tames (closes_report rfl) fun _ _ => tames_pure _
  | some value => exact closes_bind_tames (closes_put (hfound.2 value rfl)) fun _ _ => tames_eat

theorem makes_arguments (hr : Ends r) : Makes (arguments r) c :=
  makes_node (closes_after_bump fun _ => puts_ifAt (fun _ => closes_expect rfl) (closes_bind
    (closes_repeatWhile fun _ => closes_parameterTurn hr) fun _ _ _ _ => closes_expect rfl))

theorem makes_arrayInitializer (hr : Ends r) : Makes (Grammar.arrayInitializer r) c := by
  refine makes_node (closes_after_bump fun _ => closes_bind (tames_repeatWhile fun here => ?_)
    fun _ _ _ _ => closes_expect rfl)
  refine puts_look rfl (puts_look rfl (puts_ite (fun _ => tames_pure _) fun _ => puts_ifAt
    (fun _ => Closes.tames (closes_found_bind (hr.arrayInitializer here) fun _ => tames_eat))
      (closes_parameterTurn hr).tames))

theorem tames_newArray (hr : Ends r) : Tames (newArray r) c := by
  refine tames_bind (tames_repeatWhile fun here => tames_bind tames_eat fun _ _ => puts_ite
    (fun _ => puts_ifAt (fun _ => ?_) ?_) fun _ => tames_pure _) fun _ mid => puts_ifAt
      (fun _ => (closes_found (hr.arrayInitializer mid)).tames) (tames_pure _)
  · exact tames_bind (tames_expect rfl) fun _ _ => tames_pure _
  · exact tames_bind (closes_orReport (hr.expression _) rfl).tames fun _ _ =>
      tames_bind (tames_expect rfl) fun _ _ => tames_pure _

theorem tames_newTail (hr : Ends r) (isPrimitive : Bool) : Tames (newTail r isPrimitive) c :=
  puts_ifAt (fun _ => tames_newArray hr) (puts_look rfl (puts_ite (fun _ =>
    Closes.tames (closes_found_bind (makes_arguments hr) fun _ => puts_ifAt (fun _ =>
      (closes_found makes_codeBlock).tames) (tames_pure _))) fun _ =>
        Closes.tames (closes_report rfl)))

theorem makes_newExpression (hr : Ends r) : Makes (newExpression r) c := by
  refine makes_node (closes_after_bump fun mid => puts_look (a := nextKind mid) rfl ?_)
  cases hnext : nextKind mid with
  | none => exact closes_report rfl
  | some kind =>
      have hpos := length_pos_of_nextKind hnext
      refine puts_ite (fun _ => ?_) fun _ => puts_ite (fun _ => ?_) fun _ => closes_report rfl
      · exact closes_found_bind (makes_node (closes_bump hpos)) fun _ => tames_newTail hr _
      · exact closes_found_bind (makes_codeReference hr _ _ hpos) fun _ => tames_newTail hr _

theorem mayMake_operand (hr : Ends r) : MayMake (operand r) c := by
  refine puts_look (a := nextKind c) rfl ?_
  cases hnext : nextKind c with
  | none => exact mayMake_none
  | some kind =>
      have htoken (wrapper : NodeKind) : MayMake (do return some (← node wrapper bump)) c :=
        mayMake_some (makes_node (closes_bump (length_pos_of_nextKind hnext)))
      refine puts_ite (fun _ => htoken _) fun _ => puts_ite (fun _ => htoken _) fun _ => puts_ite
        (fun _ => htoken _) fun _ => puts_ite (fun _ => htoken _) fun _ => puts_ite (fun _ => ?_)
          fun _ => puts_ite (fun _ => mayMake_some (makes_newExpression hr)) fun _ => puts_ite
            (fun _ => ?_) fun _ => mayMake_none
      · exact mayMake_some (makes_node (closes_after_bump fun mid => closes_bind_tames
          (closes_orReport (hr.expression mid) rfl) fun _ _ => tames_expect rfl))
      · refine mayMake_some (makes_node (closes_bind (hr.type _ c) fun found _ mid hfound => ?_))
        cases found with
        | none => exact closes_bind_tames (closes_expect rfl) fun _ _ => tames_expect rfl
        | some type =>
            exact closes_bind_tames (closes_put (hfound.2 type rfl)) fun _ _ =>
              tames_bind (tames_expect rfl) fun _ _ => tames_expect rfl

theorem makes_selectors (hr : Ends r) {first : Outline} (hfirst : Whole first) :
    Makes (iterate (selectorTurn r) first) c := by
  refine makes_iterate (fun subject here hsubject => ?_) hfirst
  refine puts_ifAt (fun _ => puts_look rfl (puts_ite (fun _ => ?_) fun _ => puts_look rfl (puts_ite
    (fun _ => ?_) fun _ => ?_))) (puts_look rfl (puts_ite (fun _ => ?_) fun _ => puts_ifAt
      (fun _ => ?_) (turns_pure hsubject)))
  · exact turns_yield (makes_around hsubject (tames_bind tames_bump fun _ _ => tames_bump))
  · exact turns_yield (makes_around hsubject (tames_bind tames_bump fun _ _ => tames_bump))
  · exact turns_done (makes_around hsubject (Closes.tames (closes_after_bump fun _ =>
      closes_report rfl)))
  · exact turns_yield (makes_around hsubject (closes_found (makes_arguments hr)).tames)
  · exact turns_yield (makes_around hsubject (Closes.tames (closes_after_bump fun mid =>
      closes_bind_tames (closes_orReport (hr.expression mid) rfl) fun _ _ => tames_expect rfl)))

theorem mayMake_primary (hr : Ends r) (arrow : ArrowRole) : MayMake (primary r arrow) c := by
  refine puts_look rfl (puts_ite (fun _ => mayMake_some (makes_lambda hr)) fun _ =>
    puts_value_bind (mayMake_operand hr) fun found mid hfound => ?_)
  cases found with
  | none => exact mayMake_none
  | some first => exact mayMake_some (makes_selectors hr (hfound first rfl))

theorem mayMake_postfixOperand (hr : Ends r) (arrow : ArrowRole) :
    MayMake (postfixOperand r arrow) c := by
  refine puts_value_bind (mayMake_primary hr arrow) fun found mid hfound => ?_
  cases found with
  | none => exact mayMake_none
  | some first =>
      refine mayMake_some (makes_iterate (fun subject here hsubject => ?_) (hfound first rfl))
      exact puts_look rfl (puts_look rfl (puts_ite (fun _ => turns_yield (makes_around hsubject
        tames_bump)) fun _ => turns_pure hsubject))

theorem mayMake_cast (hr : Ends r) (arrow : ArrowRole) : MayMake (cast r arrow) c := by
  refine mayMake_attempt (puts_bind (puts_capture (P := fun isCast parts =>
    isCast = true → endedAll parts = true) (puts_bind tames_bump fun _ front mid _ => puts_look rfl
      (puts_value_bind (hr.type _ mid) fun found next hfound => ?_))) ?_)
  · cases found with
    | none => exact puts_pure nofun
    | some type =>
        refine Puts.mono (closes_bind_tames (closes_put (hfound type rfl)) fun _ _ => ?_)
          fun _ _ hended _ => ended_append hended
        exact puts_look rfl (puts_look rfl (tames_pure _))
  · rintro ⟨isCast, parts⟩ _ mid ⟨rfl, hnamed, hended⟩
    refine puts_ite (fun hcast => mayMake_some (makes_node ?_)) fun _ => mayMake_none
    have hparts : Closes (putAll parts) mid := by
      intro done hrun
      cases hrun
      exact ⟨hnamed, hended hcast⟩
    exact closes_bind_tames hparts fun _ _ => tames_bind tames_bump fun _ next =>
      (closes_orReport (hr.unary _ next) rfl).tames

theorem mayMake_unary (hr : Ends r) (arrow : ArrowRole) : MayMake (Grammar.unary r arrow) c := by
  refine puts_look (a := nextKind c) rfl ?_
  cases nextKind c with
  | none => exact mayMake_none
  | some kind =>
      refine puts_ite (fun _ => mayMake_some (makes_node (closes_after_bump fun mid =>
        closes_orReport (hr.binary _ _ mid) rfl))) fun _ => puts_ite (fun _ => puts_value_bind
          (mayMake_cast hr arrow) fun found mid hfound => ?_) fun _ => mayMake_postfixOperand hr _
      cases found with
      | none => exact mayMake_postfixOperand hr arrow
      | some outline => exact puts_pure ⟨rfl, fun _ heq => Option.some.inj heq ▸
          hfound outline rfl⟩

theorem closes_instanceofOperand (hr : Ends r) : Closes (instanceofOperand r) c := by
  refine closes_bind puts_lookahead fun _ _ mid _ => puts_ite (fun _ => ?_) fun _ => ?_
  · exact closes_found (makes_primaryPattern hr)
  · exact closes_orReport (hr.type _ mid) rfl

theorem mayMake_binary (hr : Ends r) (level : Nat) (arrow : ArrowRole) :
    MayMake (Grammar.binary r level arrow) c := by
  refine puts_value_bind (hr.unary arrow c) fun found mid hfound => ?_
  cases found with
  | none => exact mayMake_none
  | some first =>
      refine mayMake_some (makes_iterate (fun left here hleft => ?_) (hfound first rfl))
      refine puts_look (a := here.rest) rfl ?_
      cases BinaryOperator.ofTerminals? here.rest with
      | none => exact turns_pure hleft
      | some operator =>
          refine puts_ite (fun _ => turns_pure hleft) fun _ => puts_ifAt (fun _ => turns_yield
            (makes_around hleft (Closes.tames (closes_after_bump fun _ =>
              closes_instanceofOperand hr)))) ?_
          refine puts_bind (puts_capture (closes_bind (tames_bumpMany _) fun _ _ mid _ =>
            closes_bind (hr.binary _ _ mid) fun found _ last hfound => ?_)) ?_
          · cases found with
            | none => exact closes_bind_tames (closes_report rfl) fun _ _ => tames_pure _
            | some right =>
                exact closes_bind_tames (closes_put (hfound.2 right rfl)) fun _ _ => tames_pure _
          · rintro ⟨found, parts⟩ _ last ⟨rfl, hnamed, hended⟩
            have hjoined : Whole (.around .binaryExpression left parts) :=
              whole_around hleft hnamed (.inr hended)
            exact puts_ite (fun _ => puts_pure ⟨rfl, hjoined⟩) fun _ => puts_pure ⟨rfl, hjoined⟩

theorem mayMake_conditional (hr : Ends r) (arrow : ArrowRole) :
    MayMake (Grammar.conditional r arrow) c := by
  refine puts_value_bind (hr.binary 0 arrow c) fun found mid hfound => ?_
  cases found with
  | none => exact mayMake_none
  | some condition =>
      have hcondition : Whole condition := hfound condition rfl
      refine puts_ifAt (fun _ => mayMake_some (makes_around hcondition ?_))
        (puts_pure ⟨rfl, fun _ heq => Option.some.inj heq ▸ hcondition⟩)
      exact Closes.tames (closes_after_bump fun next => closes_bind_tames
        (closes_orReport (hr.expression next) rfl) fun _ _ => tames_bind (tames_expect rfl)
          fun _ last => (closes_orReport (hr.conditional arrow last) rfl).tames)

theorem Ends.next (hr : Ends r) : Ends r.next where
  annot _ := makes_annot hr
  arrayInitializer _ := makes_arrayInitializer hr
  type flags _ := mayMake_type hr flags
  pattern _ := makes_pattern hr
  unary arrow _ := mayMake_unary hr arrow
  binary level arrow _ := mayMake_binary hr level arrow
  conditional arrow _ := mayMake_conditional hr arrow

theorem ends_ofDepth (depth : Nat) : Ends (.ofDepth depth) := by
  induction depth with
  | zero => constructor <;> intros <;> exact puts_fail
  | succ depth ih => exact ih.next

theorem closes_labelEnd : Closes labelEnd c := by
  refine puts_bind puts_eat fun found front mid hfront => ?_
  subst hfront
  cases found with
  | true => exact puts_pure rfl
  | false =>
      refine puts_bind puts_eat fun found front last hfront => ?_
      subst hfront
      cases found with
      | true => exact puts_pure rfl
      | false => exact closes_report rfl

/-- An outline is put down, or nothing is, and the value says which. -/
def Says (g : Grammar Bool) (c : Cursor) : Prop :=
  Puts g c fun found parts => if found then endedAll parts = true else parts = []

theorem says_put {outline : Outline} (h : Whole outline) :
    Says (do put outline; return true) c :=
  puts_bind (closes_put h) fun _ _ _ hended =>
    puts_pure (ended_append_tame hended (.inl rfl))

theorem says_found {g : Grammar Outline} (h : Makes g c) :
    Says (do put (← g); return true) c :=
  puts_value_bind h fun _ _ hwhole => says_put hwhole

theorem says_labelElement (hr : Ends r) : Says (labelElement r) c := by
  refine puts_ifAt (fun hdefault => says_found (makes_node (closes_bump
    (length_pos_of_nextKind hdefault)))) (puts_bind puts_lookahead fun found front mid hfront => ?_)
  subst hfront
  refine puts_ite (fun _ => says_found (hr.pattern mid)) fun _ =>
    puts_value_bind (hr.conditional _ mid) fun found next hfound => ?_
  cases found with
  | none => exact puts_pure rfl
  | some constant => exact says_put (hfound constant rfl)

theorem makes_labelElements (hr : Ends r) : Makes (labelElements r) c := by
  refine makes_node (closes_repeatWhile fun here => puts_bind (says_labelElement hr)
    fun found front mid hfront => ?_)
  cases found with
  | true => exact Puts.mono tames_eat fun _ _ => ended_append_tame hfront
  | false =>
      subst hfront
      exact closes_bind_tames (closes_report rfl) fun _ _ => tames_pure _

theorem puts_switchLabel (hr : Ends r)
    (hnext : nextKind c = some .defaultKw ∨ nextKind c = some .caseKw) :
    Puts (switchLabel r) c fun found parts =>
      parts = [] ∧ ∃ label, found = some label ∧ Whole label := by
  have hfound {g : Grammar Unit} (h : Closes g c) : Puts
      (do return some (← node .switchLabel g)) c fun found parts =>
        parts = [] ∧ ∃ label, found = some label ∧ Whole label :=
    puts_value_bind (makes_node h) fun label _ hwhole => puts_pure ⟨rfl, label, rfl, hwhole⟩
  refine puts_look (a := nextKind c) rfl ?_
  rcases hnext with hnext | hnext
  · rw [hnext]
    exact hfound (closes_after_bump fun _ => closes_labelEnd)
  · rw [hnext]
    exact hfound (closes_after_bump fun _ => closes_found_bind (makes_labelElements hr) fun _ =>
      closes_labelEnd.tames)

theorem tames_bumpAll : Tames bumpAll c :=
  tames_repeatWhile fun _ => puts_look rfl (puts_ite (fun _ => tames_pure _) fun _ =>
    tames_bind tames_bump fun _ _ => tames_pure _)

theorem closes_subject (hr : Ends r) {s : Subject} (hlabel : s = .switchLabel →
    nextKind c = some .defaultKw ∨ nextKind c = some .caseKw) :
    Closes (Grammar.subject r s) c := by
  cases s with
  | pattern =>
      refine puts_bind puts_lookahead fun found front mid hfront => ?_
      subst hfront
      refine puts_ite (fun _ => closes_found (hr.pattern mid)) fun _ => closes_found (makes_node ?_)
      exact closes_bind_tames (closes_report rfl) fun _ _ => tames_bumpAll
  | expression => exact closes_orReport (hr.expression c) rfl
  | switchLabel =>
      refine puts_value_bind (puts_switchLabel hr (hlabel rfl)) ?_
      rintro _ mid ⟨label, rfl, hwhole⟩
      exact closes_put hwhole

theorem run_switchLabel_of_ne (hdefault : nextKind c ≠ some .defaultKw)
    (hcase : nextKind c ≠ some .caseKw) : Grammar.subject r .switchLabel c =
      .ok ⟨(), [.loose [], .error (.unexpectedToken (nextKind c)) c.index], c⟩ := by
  have hlabel : switchLabel r c =
      .ok ⟨none, [.loose [], .error (.unexpectedToken (nextKind c)) c.index], c⟩ := by
    refine run_look (a := nextKind c) rfl ?_
    generalize hnext : nextKind c = found at hdefault hcase ⊢
    split
    · exact absurd rfl hdefault
    · exact absurd rfl hcase
    · subst hnext
      exact run_put_bind (run_bind (show reportUnexpected c =
        .ok ⟨(), [.error (.unexpectedToken (nextKind c)) c.index], c⟩ from rfl) rfl)
  exact run_bind hlabel rfl

end PatternSyntax.Proofs.EndedRules
