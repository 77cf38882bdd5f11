import PatternSyntax.Proofs.Guesses
import PatternSyntax.Proofs.TypeStarts

/-!
Whether a parenthesis begins a cast, side by side on two texts. Where the first run reads something
else from there on, the second run does not see a cast either: the type of a cast in the second text
would be without an error and without an uneven block, so that the first run would have seen it too.
-/

namespace PatternSyntax.Proofs.Tandem

open Grammar
open PatternSyntax.Proofs.Casts
open PatternSyntax.Proofs.Contract
open PatternSyntax.Proofs.Coverage
open PatternSyntax.Proofs.Depth
open PatternSyntax.Proofs.ExpressionRuns
open PatternSyntax.Proofs.Forward
open PatternSyntax.Proofs.Operands
open PatternSyntax.Proofs.Parentheses
open PatternSyntax.Proofs.Runs
open PatternSyntax.Proofs.Shapes
open PatternSyntax.Proofs.Totality
open PatternSyntax.Proofs.TypeRuns

variable {b : Ends} {front : List Terminal} {r : Rules} {c c' mid : Cursor} {depth : Nat}

theorem answers_of_type {flags : TypeFlags} {found : Parsed (Option Outline)}
    (hrun : (Rules.ofDepth depth).type flags c = .ok found) :
    found.parts = [] ∧ Answers c found.value found.cursor := by
  obtain ⟨answer, stop, hdeep, hanswers⟩ :=
    (ready_ofDepth (5 * c.rest.length + 2)).type flags c (Nat.le_refl _)
  have hsame := ofDepth_agree (fun h => h.type flags) hdeep hrun
  cases hsame
  exact ⟨rfl, hanswers⟩

theorem fair_type_of_clear {flags : TypeFlags} {found : Parsed (Option Outline)} {type : Outline}
    (hclear : Clear c) (hrun : (Rules.ofDepth depth).type flags c = .ok found)
    (hvalue : found.value = some type) (herror : type.hasError = false) : Fair type := by
  obtain ⟨-, hanswers⟩ := answers_of_type hrun
  rw [hvalue] at hanswers
  obtain ⟨passed, hrest, hpassed⟩ := typesAvoid_ofDepth depth flags c hclear found hrun
  have htokens := hanswers.1.2.tokens_append
  rw [hrest, List.map_append, List.append_cancel_right_eq, Outline.tokensAll, Outline.tokensAll,
    List.append_nil] at htokens
  refine ⟨herror, evenBlocksAll_of_forall _ ?_⟩
  rw [kindsAll_outlined, htokens]
  exact List.forall_mem_map.2 fun terminal hmem =>
    isParenthesis_of_not_isScreen (hpassed terminal hmem)

theorem screened_of_append {front back : List TokenKind} (h : screened (front ++ back) = true) :
    screened front = true := by
  induction front with
  | nil => rfl
  | cons kind front ih =>
      rw [List.cons_append, screened, Bool.or_eq_true, Bool.and_eq_true] at h
      rw [screened, Bool.or_eq_true, Bool.and_eq_true]
      exact h.imp_right (And.imp_right ih)

theorem screened_tail {back : List Terminal} (h : Tail back) :
    screened (back.map (·.kind)) = true := by
  cases h with
  | nil => rfl
  | colon => rfl
  | arrow => rfl

theorem clear_of_twins (htwins : Twins b front c c') (hclear : Clear c) : Clear c' := by
  rw [Clear, htwins.left, List.map_append] at hclear
  rw [Clear, htwins.right, List.map_append]
  exact screened_append (screened_of_append hclear) (screened_tail b.right_tail)

theorem exists_of_castType {done : Parsed Bool} (hopen : Passes .openParen c mid)
    (hrun : castType r c = .ok done) (hvalue : done.value = true) :
    ∃ found type, r.type .plain mid = .ok found ∧ found.value = some type ∧
      type.hasError = false ∧ done.parts = .token .openParen :: (found.parts ++ [type]) := by
  obtain ⟨first, second, hfirst, hsecond, rfl⟩ := exists_of_bind_ok hrun
  cases hopen.bump.symm.trans hfirst
  obtain ⟨looked, tried, hlooked, htried, rfl⟩ := exists_of_bind_ok hsecond
  cases hlooked
  obtain ⟨found, tested, hfound, htested, rfl⟩ := exists_of_bind_ok htried
  cases htype : found.value with
  | none =>
      rw [htype] at htested
      cases htested
      cases hvalue
  | some type =>
      rw [htype] at htested
      cases htested
      have hboth := (Bool.and_eq_true_iff.1 hvalue).1
      exact ⟨found, type, hfound, htype,
        Bool.not_eq_true' _ ▸ (Bool.and_eq_true_iff.1 hboth).2, rfl⟩

theorem attempt_none {α : Type} {g : Grammar (Option α)} {inner : Parsed (Option α)}
    (hrun : g c = .ok inner) (hnone : inner.value = none) : attempt g c = .ok ⟨none, [], c⟩ := by
  rw [attempt, hrun]
  dsimp only
  rw [hnone]
  rfl

theorem cast_cases {arrow : ArrowRole} {done : Parsed (Option Outline)}
    (hrun : cast r arrow c = .ok done) : ∃ seen, castType r c = .ok seen ∧
      (seen.value = true ∧ (∃ outline, done.value = some outline) ∨
        seen.value = false ∧ done = ⟨none, [], c⟩) := by
  unfold Grammar.cast at hrun
  obtain ⟨inner, hinner, hcases⟩ := exists_of_attempt_ok hrun
  obtain ⟨captured, later, hcaptured, hlater, rfl⟩ := exists_of_bind_ok hinner
  obtain ⟨seen, hseen, rfl⟩ := exists_of_capture_ok hcaptured
  refine ⟨seen, hseen, ?_⟩
  cases hvalue : seen.value with
  | false =>
      rw [hvalue] at hlater
      cases hlater
      cases (attempt_none hinner rfl).symm.trans hrun
      exact .inr ⟨rfl, rfl⟩
  | true =>
      rw [hvalue] at hlater
      obtain ⟨made, answered, hmade, hanswered, rfl⟩ := exists_of_bind_ok hlater
      cases hanswered
      rcases hcases with rfl | ⟨hnone, -⟩
      · exact .inl ⟨rfl, _, rfl⟩
      · cases hnone

theorem firstParameter_of_lambda {done : Parsed Outline} (hopen : Passes .openParen c mid)
    (hrun : lambda r c = .ok done) (hfair : Fair done.value) :
    nextKind mid = some .closeParen ∨
      ∃ parameter, lambdaParameter r mid = .ok parameter ∧ Sound Fair parameter := by
  obtain ⟨captured, held, hcaptured, hheld, rfl⟩ := exists_of_bind_ok hrun
  cases hheld
  obtain ⟨row, hrow, rfl⟩ := exists_of_capture_ok hcaptured
  obtain ⟨parameters, later, hparameters, hlater, rfl⟩ := exists_of_bind_ok hrow
  obtain ⟨placed, last, hplaced, -, rfl⟩ := exists_of_bind_ok hlater
  cases hplaced
  have hlist : Fair parameters.value :=
    (fairAll_cons.1 (fairAll_append.1 hfair.parts).2).1
  obtain ⟨captured', held', hcaptured', hheld', rfl⟩ := exists_of_bind_ok hparameters
  cases hheld'
  obtain ⟨list, hlisted, rfl⟩ := exists_of_capture_ok hcaptured'
  have hlook : lambdaParameterRow r c = _ := isAhead_bind 0 .ident _ c
  change lambdaParameterRow r c = _ at hlisted
  rw [hlook, ← nextKind, hopen.nextKind_eq] at hlisted
  obtain ⟨passed, behind, hpassed, hbehind, rfl⟩ := exists_of_bind_ok hlisted
  cases hopen.bump.symm.trans hpassed
  by_cases hclose : nextKind mid = some .closeParen
  · exact .inl hclose
  have hunless : _ = Except.ok behind := (isAhead_bind 0 .closeParen _ mid).symm.trans hbehind
  rw [← nextKind, beq_eq_false_iff_ne.2 hclose] at hunless
  obtain ⟨turns, closed, hturns, -, rfl⟩ := exists_of_bind_ok hunless
  obtain ⟨turn, others, hturn, -, rfl⟩ := exists_of_bind_ok hturns
  obtain ⟨again, answered, hagain, -, rfl⟩ := exists_of_bind_ok hturn
  obtain ⟨parameter, placed, hparameter, hplaced, rfl⟩ := exists_of_bind_ok hagain
  obtain ⟨put, eaten, hput, -, rfl⟩ := exists_of_bind_ok hplaced
  cases hput
  refine .inr ⟨parameter, hparameter, ?_⟩
  have hparts := hlist.parts
  simp only [List.append_assoc, List.cons_append, List.nil_append, fairAll_cons, fairAll_append]
    at hparts
  exact ⟨hparts.2.1, hparts.2.2.1⟩

theorem lambdaParameter_cases {parameter : Parsed Outline}
    (hrun : lambdaParameter r c = .ok parameter) (hfair : Fair parameter.value) :
    (nextKind c = some .ident ∧ (c.rest[1]?.map (·.kind) = some .comma ∨
      c.rest[1]?.map (·.kind) = some .closeParen)) ∨
    ∃ modifiers found, modifierList r .variableModifiers c = .ok modifiers ∧
      Sound Fair modifiers ∧ r.type .parameter modifiers.cursor = .ok found ∧
        Sound MayFair found := by
  obtain ⟨captured, held, hcaptured, hheld, rfl⟩ := exists_of_bind_ok hrun
  cases hheld
  obtain ⟨row, hrow, rfl⟩ := exists_of_capture_ok hcaptured
  have hlook : _ = Except.ok row := ((isAhead_bind ..).trans ((isAhead_bind ..).trans
    (isAhead_bind ..))).symm.trans hrow
  split at hlook
  · obtain ⟨hident, hbehind⟩ := Bool.and_eq_true_iff.1 ‹_›
    exact .inl ⟨beq_iff_eq.1 hident, (Bool.or_eq_true_iff.1 hbehind).imp beq_iff_eq.1 beq_iff_eq.1⟩
  · obtain ⟨modifiers, later, hmodifiers, hlater, rfl⟩ := exists_of_bind_ok hlook
    obtain ⟨put, typed, hput, htyped, rfl⟩ := exists_of_bind_ok hlater
    cases hput
    obtain ⟨reported, named, hreported, -, rfl⟩ := exists_of_bind_ok htyped
    have hparts := hfair.parts
    simp only [List.cons_append, List.nil_append, fairAll_cons, fairAll_append] at hparts
    obtain ⟨hmodifiers', hlisted, hreported', -⟩ := hparts
    obtain ⟨found, hfound, hsound⟩ := exists_of_orReport hreported hreported'
    exact .inr ⟨modifiers, found, hmodifiers, ⟨hmodifiers', hlisted⟩, hfound, hsound⟩

theorem Twins.beq_isAhead {kind : TokenKind} (h : Twins b front c c') (hkind : Inner kind)
    (n : Nat) :
    (c.rest[n]?.map (·.kind) == some kind) = (c'.rest[n]?.map (·.kind) == some kind) := by
  have hleft := beq_kindAt_append b.left_tail hkind n front
  have hright := beq_kindAt_append b.right_tail hkind n front
  rw [← h.left] at hleft
  rw [← h.right] at hright
  exact hleft.trans hright.symm

theorem Twins.isAhead {kind : TokenKind} (h : Twins b front c c') (hkind : Inner kind) (n : Nat) :
    c.rest[n]?.map (·.kind) = some kind ↔ c'.rest[n]?.map (·.kind) = some kind := by
  have hboth := h.beq_isAhead hkind n
  exact ⟨fun hc => beq_iff_eq.1 (hboth ▸ beq_iff_eq.2 hc),
    fun hc => beq_iff_eq.1 (hboth.symm ▸ beq_iff_eq.2 hc)⟩

theorem Twins.nameAhead (h : Twins b front c c') (hname : NameAhead c') : NameAhead c := by
  obtain ⟨kind, hnext, hkind⟩ := hname
  have hall : ∀ kind ∈ TokenKind.all, kind.isPrimitiveType = true → Inner kind := by decide
  have hinner : Inner kind := by
    rcases hkind with rfl | hkind
    · decide
    · exact hall kind (TokenKind.mem_all kind) hkind
  exact ⟨kind, (h.isAhead hinner 0).2 hnext, hkind⟩

theorem fair_type_of_name {found : Parsed (Option Outline)} {type : Outline}
    (hident : nextKind c = some .ident) (hbehind : c.rest[1]?.map (·.kind) = some .comma ∨
      c.rest[1]?.map (·.kind) = some .closeParen)
    (hrun : Grammar.type r .plain c = .ok found) (hvalue : found.value = some type) :
    Fair type := by
  obtain ⟨base, hbase, -, hfair⟩ := exists_fair_base_of_type hrun hvalue
  obtain ⟨stop, hpasses⟩ := exists_passes hident
  rw [hpasses.ahead_eq] at hbehind
  have hne {kind : TokenKind} (hkind : kind ≠ .comma ∧ kind ≠ .closeParen) :
      nextKind stop ≠ some kind := by
    rcases hbehind with h | h
    · rw [h]
      exact fun heq => hkind.1 (Option.some.inj heq).symm
    · rw [h]
      exact fun heq => hkind.2 (Option.some.inj heq).symm
  have hreference : codeReference r false true c =
      .ok ⟨.node .javaCodeReference [.token .ident], [], stop⟩ := by
    unfold codeReference
    exact run_look (run_node (hpasses.bump_bind (run_optionalTypeArguments_none (hne (by decide)))))
      ((Turns.refl _ _).iterate (run_referenceTurn_done (hne (by decide))))
  have hnamed : typeBase r .plain c =
      .ok ⟨.named, [.node .javaCodeReference [.token .ident]], stop⟩ :=
    run_typeBase (by rw [hident]; decide) (run_typeHead_reference hident hreference)
  have hname : Fair (.node .javaCodeReference [.token .ident]) :=
    fair_node (by decide) (fairAll_singleton.2 (fair_token .ident))
  cases hnamed.symm.trans hbase
  exact hfair.2 (fairAll_singleton.2 hname)

section Rules

variable (hr : ∀ shallow ≤ depth, InTandem (.ofDepth shallow))

include hr

/-- If the first run reads a fair parameter, the type that the second run reads there is fair. -/
theorem fair_type_of_parameter {parameter : Parsed Outline} {found : Parsed (Option Outline)}
    {type : Outline} (htwins : Twins b front c c')
    (hparameter : lambdaParameter (.ofDepth depth) c = .ok parameter)
    (hsound : Sound Fair parameter)
    (hrun : (Rules.ofDepth depth).type .plain c' = .ok found)
    (hvalue : found.value = some type) : Fair type := by
  obtain _ | depth := depth
  · cases hrun
  rcases lambdaParameter_cases hparameter hsound.value with
    ⟨hident, hbehind⟩ | ⟨modifiers, read, hmodifiers, hlisted, hread, hread'⟩
  · exact fair_type_of_name ((htwins.isAhead (by decide) 0).1 hident)
      (hbehind.imp (htwins.isAhead (by decide) 1).1 (htwins.isAhead (by decide) 1).1) hrun hvalue
  · obtain ⟨base, hbase, hform, hfair⟩ := exists_fair_base_of_type hrun hvalue
    obtain ⟨annots, mid', head, hmodifiers', hname, hhead, -, hparts, -⟩ :=
      exists_modifiers_of_typeBase (ofDepth_refines (Nat.le_succ depth)) hbase hform
    obtain ⟨later, htwins', hvalue', -⟩ :=
      (tracks_modifierList (hr _ (Nat.le_refl _))).same htwins hmodifiers hmodifiers' hlisted
    obtain ⟨type', htype', hfair'⟩ := hread'.value
    obtain ⟨base', hbase', -, hbaseFair⟩ := exists_fair_base_of_type hread htype'
    obtain ⟨turned, head', hturned, hhead', rfl⟩ := exists_of_bind_ok hbase'
    cases (run_annotTurns_none (htwins'.nameAhead hname)).symm.trans hturned
    have hheadFair := hbaseFair.1 hfair'
    obtain ⟨-, -, -, hsame⟩ := (tracks_typeHead (hr depth (Nat.le_succ _)) .plain
      (V := fun _ => True)).same htwins' hhead' hhead ⟨hheadFair, trivial⟩
    rw [hparts] at hfair
    refine hfair.2 (fairAll_append.2 ⟨?_, hsame ▸ hheadFair⟩)
    have hlist := hlisted.value
    rw [← hvalue'] at hlist
    exact hlist.parts

theorem tracks_postfixOperand (arrow : ArrowRole) :
    Tracks b (arrow = .lambda) MayFair (postfixOperand (.ofDepth depth) arrow) front :=
  tracks_grow (tracks_primary (hr depth (Nat.le_refl _)) arrow) (fun _ => spoils_postfixTurn)
    fun subject _ => tracks_postfixTurn subject

/-- If the first run reads an operand, the type that the second run reads behind the parenthesis is
fair, unless there is an error in it. -/
theorem fair_type_of_postfixOperand {arrow : ArrowRole} {mid' : Cursor}
    {operand found : Parsed (Option Outline)} {type : Outline} (hopen : Passes .openParen c mid)
    (htwins : Twins b front mid mid')
    (hoperand : postfixOperand (.ofDepth depth) arrow c = .ok operand)
    (hsound : Sound MayFair operand)
    (hrun : (Rules.ofDepth depth).type .plain mid' = .ok found)
    (hvalue : found.value = some type) (herror : type.hasError = false) : Fair type := by
  rw [postfixOperand] at hoperand
  obtain ⟨primary, later, hprimary, hlater, rfl⟩ := exists_of_bind_ok hoperand
  obtain ⟨hsound₁, -⟩ := sound_of_bind (V := MayFair)
    (spoils_grown fun _ => spoils_postfixTurn) hlater hsound
  -- Behind the parenthesis of an operand, a screen comes before any at sign.
  have hoperation (h : grow (Grammar.operand (.ofDepth depth))
      (selectorTurn (.ofDepth depth)) c = .ok primary) : Fair type := by
    obtain ⟨first, second, hfirst, hsecond, rfl⟩ := exists_of_bind_ok h
    obtain ⟨hsound₂, -⟩ := sound_of_bind (V := MayFair)
      (spoils_grown fun _ => spoils_selectorTurn) hsecond hsound₁
    obtain ⟨inner, hgroups⟩ := groups_of_operand hopen.nextKind_eq hfirst hsound₂
    exact fair_type_of_clear (clear_of_twins htwins (hgroups.clear hopen)) hrun hvalue herror
  cases arrow with
  | terminator =>
      have hlook : _ = Except.ok primary := (look_bind (a := c.rest) rfl).symm.trans hprimary
      exact hoperation hlook
  | lambda =>
      cases hlambda : isLambda c.rest with
      | false =>
          rw [primary_of_not_isLambda hlambda] at hprimary
          exact hoperation hprimary
      | true =>
          rw [primary_of_isLambda hlambda] at hprimary
          obtain ⟨lambda, answered, hmade, hanswered, rfl⟩ := exists_of_bind_ok hprimary
          cases hanswered
          rcases firstParameter_of_lambda hopen hmade (mayFair_some.1 hsound₁.value) with
            hclose | ⟨parameter, hparameter, hfair⟩
          · obtain ⟨glued, rest, hrest⟩ := exists_of_nextKind hclose
            have hclear : Clear mid := by
              rw [Clear, hrest]
              exact screened_cons rfl
            exact fair_type_of_clear (clear_of_twins htwins hclear) hrun hvalue herror
          · exact fair_type_of_parameter hr htwins hparameter hfair hrun hvalue

theorem castType_of_castType {arrow : ArrowRole} {glued : Bool} {front : List Terminal}
    {done done' : Parsed Bool} {operand : Parsed (Option Outline)}
    (htwins : Twins b (⟨.openParen, glued⟩ :: front) c c')
    (hrun : castType (.ofDepth depth) c = .ok done)
    (hrun' : castType (.ofDepth depth) c' = .ok done')
    (hoperand : postfixOperand (.ofDepth depth) arrow c = .ok operand)
    (hsound : Sound MayFair operand) (hvalue' : done'.value = true) : done.value = true := by
  obtain ⟨index, rest⟩ := c
  obtain ⟨index', rest'⟩ := c'
  obtain ⟨hleft, hright⟩ := htwins
  cases hleft
  cases hright
  have hopen : Passes .openParen ⟨index, ⟨.openParen, glued⟩ :: (front ++ b.left)⟩
      ⟨index + 1, front ++ b.left⟩ := .intro ..
  have hopen' : Passes .openParen ⟨index', ⟨.openParen, glued⟩ :: (front ++ b.right)⟩
      ⟨index' + 1, front ++ b.right⟩ := .intro ..
  obtain ⟨found, type, hfound, htype, herror, hparts⟩ := exists_of_castType hopen' hrun' hvalue'
  have hfair : Fair type :=
    fair_type_of_postfixOperand hr hopen ⟨rfl, rfl⟩ hoperand hsound hfound htype herror
  have hsound' : Sound (· = true) done' := by
    refine ⟨?_, hvalue'⟩
    rw [hparts, (answers_of_type hfound).1]
    exact fairAll_cons.2 ⟨fair_token .openParen, fairAll_singleton.2 hfair⟩
  obtain ⟨-, -, hvalue, -⟩ := (tracks_castType (b := b.swap) (hr depth (Nat.le_refl _))).same
    ⟨rfl, rfl⟩ hrun' hrun hsound'
  exact hvalue.trans hvalue'

theorem tracks_unary (arrow : ArrowRole) : Tracks b (arrow = .lambda) MayFair
    (Grammar.unary (.ofDepth depth) arrow) front := by
  have hself := hr depth (Nat.le_refl _)
  cases front with
  | nil =>
      exact tracks_of_spoilsAt fun c hc => spoilsAt_of_none
        ((barren_ofDepth (depth + 1)).unary arrow c (hc ▸ b.left_tail))
  | cons terminal mid =>
      refine tracks_next (fun kind glued mid hfront => ?_) nofun
      rw [hfront]
      refine tracks_ite (fun _ => ?_) fun _ => tracks_ite (fun hopen => ?_)
        fun _ => tracks_postfixOperand hr arrow
      · exact tracks_some (tracks_node (tracks_bump_bind
          (tracks_orReport (hself.binary b _ arrow mid))))
      cases beq_iff_eq.1 hopen
      constructor
      · intro c c' done done' htwins hrun hrun' hsound
        obtain ⟨first, second, hcast, hsecond, rfl⟩ := exists_of_bind_ok hrun
        obtain ⟨first', second', hcast', hsecond', rfl⟩ := exists_of_bind_ok hrun'
        obtain ⟨seen, hseen, ⟨-, outline, hvalue⟩ | ⟨hno, rfl⟩⟩ := cast_cases hcast
        · rw [hvalue] at hsecond
          cases hsecond
          have hsound₁ : Sound MayFair first :=
            ⟨(fairAll_append.1 hsound.parts).1, hvalue ▸ hsound.value⟩
          refine ((tracks_cast hself arrow).runs htwins hcast hcast' hsound₁).imp_left ?_
          rintro ⟨later, hlater, hvalue', hparts⟩
          rw [hvalue', hvalue] at hsecond'
          cases hsecond'
          exact ⟨later, hlater, rfl, by simp only [hparts]⟩
        -- Where the first text has no cast, neither has the second one.
        · obtain ⟨seen', hseen', ⟨hyes, -⟩ | ⟨-, rfl⟩⟩ := cast_cases hcast'
          · cases hno.symm.trans
              (castType_of_castType hr htwins hseen hseen' hsecond hsound hyes)
          · exact (tracks_postfixOperand hr arrow).runs htwins hsecond hsecond' hsound
      · exact fun h => nomatch h

end Rules

end PatternSyntax.Proofs.Tandem
