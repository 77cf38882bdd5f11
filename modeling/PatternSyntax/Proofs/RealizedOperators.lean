import PatternSyntax.Proofs.Neatness
import PatternSyntax.Proofs.RealizedExpressions

/-!
The procedures for operands with their operators realize the rules for them.
-/

namespace PatternSyntax.Proofs.Realization

open PatternSyntax.Proofs.Coverage
open PatternSyntax.Proofs.Markers

variable {γ δ : Type} {p s : Recorder} {m : Marker} {parts held : List Outline} {i : Nat}

section Powers

/-- How tightly an operator binds on its two sides. -/
def power (operator : BinaryOperator) : BindingPower :=
  ⟨2 * operator.level - 1, 2 * operator.level, operator.width⟩

variable {token next last : Token} {tokens : List Token}

theorem ofTokens_gt (hkind : token.kind = .gt) :
    Terminal.ofTokens (token :: next :: tokens) =
      ⟨.gt, (next.kind == .gt || next.kind == .assign) && token.stop == next.start⟩ ::
        Terminal.ofTokens (next :: tokens) := by
  simp [Terminal.ofTokens, Terminal.isGlued, hkind]

theorem ofTerminals?_gt (hkind : token.kind = .gt) (tokens : List Token) :
    (BinaryOperator.ofTerminals? (Terminal.ofTokens (token :: tokens))).map power =
      if (((token :: tokens).take 3).map (·.kind) == [.gt, .gt, .gt] &&
          Recorder.touching ((token :: tokens).take 3)) = true then some ⟨15, 16, 3⟩
      else if (((token :: tokens).take 2).map (·.kind) == [.gt, .gt] &&
          Recorder.touching ((token :: tokens).take 2)) = true then some ⟨15, 16, 2⟩
      else if (((token :: tokens).take 2).map (·.kind) == [.gt, .assign] &&
          Recorder.touching ((token :: tokens).take 2)) = true then some ⟨13, 14, 2⟩
      else some ⟨13, 14, 1⟩ := by
  cases tokens with
  | nil => simp [Terminal.ofTokens, hkind, BinaryOperator.ofTerminals?, power]
  | cons next tokens =>
      rw [ofTokens_gt hkind]
      cases htouch : token.stop == next.start with
      | false => simp [BinaryOperator.ofTerminals?, Recorder.touching, htouch, power]
      | true =>
          by_cases hgt : next.kind = .gt
          · cases tokens with
            | nil =>
                simp [Terminal.ofTokens, hkind, hgt, BinaryOperator.ofTerminals?,
                  Recorder.touching, htouch, power]
            | cons last tokens =>
                rw [ofTokens_gt hgt]
                cases hnext : next.stop == last.start with
                | false =>
                    simp [hkind, hgt, BinaryOperator.ofTerminals?, Recorder.touching, htouch,
                      hnext, power]
                | true =>
                    by_cases hlast : last.kind = .gt
                    · cases tokens <;> simp [Terminal.ofTokens, hkind, hgt, hlast,
                        BinaryOperator.ofTerminals?, Recorder.touching, htouch, hnext, power]
                    · by_cases hassign : last.kind = .assign
                      · cases tokens <;> simp [Terminal.ofTokens, hkind, hgt, hassign,
                          BinaryOperator.ofTerminals?, Recorder.touching, htouch, power]
                      · have hloose : (last.kind == .gt || last.kind == .assign) = false := by
                          simp [hlast, hassign]
                        simp [hkind, hgt, hlast, hloose, BinaryOperator.ofTerminals?,
                          Recorder.touching, htouch, power]
          · by_cases hassign : next.kind = .assign
            · cases tokens <;> simp [Terminal.ofTokens, hkind, hassign,
                BinaryOperator.ofTerminals?, Recorder.touching, htouch, power]
            · have hloose : (next.kind == .gt || next.kind == .assign) = false := by
                simp [hgt, hassign]
              simp [hgt, hassign, hloose, BinaryOperator.ofTerminals?, power]

theorem bindingPower?_eq (p : Recorder) :
    p.bindingPower? = (BinaryOperator.ofTerminals? p.cursor.rest).map power := by
  have hcurrent : p.current = (p.tokens.toList.drop p.index)[0]?.map (·.kind) := by
    simp [Recorder.current, Recorder.nth]
  unfold Recorder.bindingPower? Recorder.isAtComposite Recorder.cursor Recorder.cursorAt
  rw [hcurrent]
  generalize p.tokens.toList.drop p.index = ahead
  cases ahead with
  | nil => rfl
  | cons token tokens =>
      by_cases hgt : token.kind = .gt
      · rw [ofTerminals?_gt hgt]
        simp [hgt]
      · obtain ⟨glued, rest, hrest⟩ : ∃ glued rest,
            Terminal.ofTokens (token :: tokens) = ⟨token.kind, glued⟩ :: rest := by
          cases tokens with
          | nil => exact ⟨_, _, rfl⟩
          | cons next tokens => exact ⟨_, _, rfl⟩
        rw [hrest]
        simp only [List.getElem?_cons_zero, Option.map_some]
        generalize token.kind = kind at hgt ⊢
        cases kind with
        | gt => exact absurd rfl hgt
        | _ => rfl

theorem level_pos {terminals : List Terminal} {operator : BinaryOperator}
    (h : BinaryOperator.ofTerminals? terminals = some operator) : 1 ≤ operator.level := by
  unfold BinaryOperator.ofTerminals? at h
  repeat' split at h
  all_goals first | cases h; decide | cases h

end Powers

section Rules

variable {q : Procedures} {r : Rules} (h : Agree q r)

theorem realizes_grow {f : Procedure (Option CompletedNode)} {g : Grammar (Option Outline)}
    {F : CompletedNode → Procedure (ForInStep CompletedNode)}
    {G : Outline → Grammar (ForInStep Outline)} (hfirst : Realizes View.node.option f g)
    (hturn : Resumes .node (View.step .node) F G) :
    Realizes View.node.option (Procedure.grow f F) (Grammar.grow g G) := by
  refine realizes_of_follows fun p i => follows_mayFind hfirst (fun _ => follows_pure_none)
    fun first handle j hshows => ?_
  exact follows_found (resumes_iterate hturn) hshows

include h

theorem realizes_postfixOperand (arrow : ArrowRole) :
    Realizes View.node.option (Procedure.postfixOperand q arrow) (Grammar.postfixOperand r arrow) :=
  realizes_grow (realizes_primary h arrow) resumes_postfixTurn

omit h in
theorem follows_bumps {A : Aim γ δ} {F : Unit → Procedure δ} {G : Unit → Grammar γ}
    (hrest : ∀ new j, Outline.hasErrorAll new = false →
      Follows p A (parts ++ new) [] j (F ()) (G ())) :
    Follows p A parts [] i (Procedure.bump >>= F) (Grammar.bump >>= G) := by
  cases hkind : nextKind (p.cursorAt i) with
  | some kind => exact follows_bump hkind (hrest _ _ rfl)
  | none =>
      have hcurrent : (p.recordAll (parts ++ []) i).current = none :=
        nextKind_cursorAt.symm.trans hkind
      have hend : (p.cursorAt i).rest = [] := by
        rw [← List.isEmpty_iff, isEmpty_rest, hkind]
        rfl
      have hstop := hrest [] i rfl
      rw [List.append_nil] at hstop
      refine follows_look (v := ()) ?_ ?_ hstop
      · simp only [Procedure.bump, Recorder.bump, hcurrent]
      · simp only [Grammar.bump, hend]

omit h in
theorem hasErrorsSince_start (p : Recorder) (parts : List Outline) (i : Nat) :
    (p.start.2.recordAll parts i).hasErrorsSince p.checkpoint = Outline.hasErrorAll parts := by
  have hevents : (p.start.2.recordAll parts i).events.drop p.events.length =
      .placeholder :: Outline.eventsAll (offsetOf p.tokens p.textEnd) parts := by
    simp [Recorder.recordAll, Recorder.start, Recorder.record]
  unfold Recorder.hasErrorsSince Recorder.checkpoint
  rw [hevents, List.any_cons, any_isError_eventsAll]
  rfl

/-- A cast is given up where its type contains an error, and a lookahead of one token decides. -/
theorem realizes_cast (arrow : ArrowRole) :
    Realizes View.node.option (Procedure.cast q arrow) (Grammar.cast r arrow) := by
  refine realizes_attempt fun p => follows_bumps fun new j hclean => follows_next <|
    follows_mayFind (h.type .plain) (fun _ => ?_) fun type handle k _ => ?_
  · refine follows_sees <| follows_views rfl <| follows_views rfl ?_
    exact Tracks.follows <| tracks_undo fun _ => rfl
  · have herrors : Outline.hasErrorAll ([] ++ new ++ [type] ++ []) = type.hasError := by
      rw [List.append_nil, List.nil_append, Neatness.hasErrorAll_append, hclean]
      exact Bool.or_false _
    refine follows_put <| follows_isAt <|
      follows_views (congrArg (fun seen => Except.ok (seen, _)) (hasErrorsSince_start ..)) <|
        follows_ahead ?_
    rw [herrors, Option.isSome_some, Bool.true_and]
    cases nextKind (p.start.2.cursorAt k) == some .closeParen && !type.hasError &&
        ((p.start.2.cursorAt k).rest[1]?.map (·.kind)).any (TokenKind.startsCastOperand
          ((nextKind (p.start.2.cursorAt j)).any TokenKind.isPrimitiveType)) with
    | false => exact Tracks.follows <| tracks_undo fun _ => rfl
    | true =>
        exact follows_resumed <| follows_node <| follows_putAll <| Tracks.follows <|
          tracks_plain realizes_bump fun _ =>
            tracks_last (realizes_orReport (h.unary arrow)) (tracks_complete_some fun _ => rfl)

omit h in
theorem admits_operand : Admits Procedure.prefixPower BinaryOperator.operandLevel := by
  unfold Admits Procedure.prefixPower BinaryOperator.operandLevel
  omega

theorem realizes_unary (arrow : ArrowRole) :
    Realizes View.node.option (Procedure.unary q arrow) (Grammar.unary r arrow) := by
  refine realizes_of_follows fun p i => follows_next ?_
  cases nextKind (p.cursorAt i) with
  | none => exact follows_pure_none
  | some kind =>
      refine follows_ite (fun _ => ?_) fun _ => follows_ite (fun _ => ?_)
        fun _ => (realizes_postfixOperand h arrow).follows_last
      · refine Realizes.follows_last <| Realizes.found (realizes_node fun _ _ _ hm => ?_) trivial
        exact tracks_plain realizes_bump fun _ =>
          tracks_last (realizes_orReport (h.binary admits_operand arrow)) (tracks_complete hm _)
      · exact follows_mayFind (realizes_cast h arrow)
          (fun _ => (realizes_postfixOperand h arrow).follows_last)
          fun _ _ _ hshows => follows_pure_some hshows

theorem realizes_instanceofOperand :
    Realizes .plain (Procedure.instanceofOperand q) (Grammar.instanceofOperand r) :=
  realizes_of_tracks fun _ => tracks_plain (realizes_isPattern h) fun _ => tracks_ite
    (fun _ => tracks_put_last (realizes_primaryPattern h) fun _ => tracks_pure)
    fun _ => (realizes_orReport (h.type .plain)).tracks_last

omit h in
theorem admits_right (operator : BinaryOperator) :
    Admits (power operator).right (operator.level + 1) := by
  intro other _
  show 2 * other - 1 < 2 * operator.level ↔ other < operator.level + 1
  omega

omit h in
theorem follows_bindingPower {A : Aim γ δ} {F : Option BindingPower → Procedure δ} {g : Grammar γ}
    (hrest : Follows p A parts held i
      (F ((BinaryOperator.ofTerminals? (p.cursorAt i).rest).map power)) g) :
    Follows p A parts held i (Procedure.look Recorder.bindingPower? >>= F) g :=
  follows_views (congrArg (fun seen => Except.ok (seen, _)) (bindingPower?_eq _)) hrest

theorem resumes_binaryTurn {least level : Nat} (hadmits : Admits least level) (arrow : ArrowRole) :
    Resumes .node (View.step .node) (Procedure.binaryTurn q least arrow)
      (Grammar.binaryTurn r level arrow) := by
  refine resumes_of_follows fun p i left handle hshows => ?_
  refine follows_looks rfl <| follows_bindingPower ?_
  cases hoperator : BinaryOperator.ofTerminals? (p.cursorAt i).rest with
  | none => exact follows_pure_done hshows
  | some operator =>
      have hpower : (power operator).left < least ↔ operator.level < level :=
        hadmits _ (level_pos hoperator)
      show Follows _ _ _ _ _ (if (power operator).left < least then _ else _)
        (Grammar.operatorTurn r level arrow left operator)
      unfold Grammar.operatorTurn
      simp only [hpower]
      refine follows_ite (fun _ => follows_pure_done hshows) fun _ =>
        follows_preceding hshows fun m s hm => follows_looks_isAt ?_
      unfold Grammar.rightOperand
      by_cases hinstanceof : nextKind (s.cursorAt i) = some .instanceofKw
      · rw [hinstanceof]
        exact follows_around <| follows_eat hinstanceof <| Tracks.follows <|
          tracks_plain realizes_bump fun _ => tracks_last (realizes_instanceofOperand h)
            (tracks_complete_yield hm _ fun _ => rfl)
      · rw [beq_eq_false_iff_ne.2 hinstanceof, if_neg Bool.false_ne_true]
        exact follows_eat_ne hinstanceof <| follows_capture <| Tracks.follows <|
          tracks_plain (realizes_bumpMany _) fun _ =>
            tracks_mayFind (h.binary (admits_right operator) arrow)
              (tracks_plain (realizes_report _) fun _ => tracks_complete_done hm _ fun _ => rfl)
              fun _ _ _ _ _ => follows_put <| Tracks.follows <|
                tracks_complete_yield hm _ fun _ => rfl

theorem realizes_binary {least level : Nat} (hadmits : Admits least level) (arrow : ArrowRole) :
    Realizes View.node.option (Procedure.binary q least arrow) (Grammar.binary r level arrow) :=
  realizes_grow (h.unary arrow) (resumes_binaryTurn h hadmits arrow)

omit h in
theorem admits_all : Admits 0 0 :=
  fun _ _ => iff_of_false (Nat.not_lt_zero _) (Nat.not_lt_zero _)

theorem realizes_conditional (arrow : ArrowRole) :
    Realizes View.node.option (Procedure.conditional q arrow) (Grammar.conditional r arrow) := by
  refine realizes_of_follows fun p i => follows_mayFind (h.binary admits_all arrow)
    (fun _ => follows_pure_none)
    fun condition handle j hshows => ?_
  refine follows_isAt <| follows_ite (fun _ => ?_) fun _ => follows_pure_some hshows
  exact follows_found (resumes_around fun _ _ _ _ hm => tracks_plain realizes_bump fun _ =>
    tracks_plain (realizes_orReport (realizes_expression h)) fun _ =>
      tracks_plain (realizes_expect _ _) fun _ =>
        tracks_last (realizes_orReport (h.conditional arrow)) (tracks_complete hm _)) hshows

end Rules

end PatternSyntax.Proofs.Realization
