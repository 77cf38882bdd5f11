import PatternSyntax.Proofs.TandemCasts

/-!
Binary operators and `instanceof`, side by side on two texts, and with them the rules of all tables.
-/

namespace PatternSyntax.Proofs.Tandem

open Grammar
open BinaryOperator (ofTerminals?)
open PatternSyntax.Proofs.Contract
open PatternSyntax.Proofs.Coverage
open PatternSyntax.Proofs.Depth
open PatternSyntax.Proofs.ExpressionRuns
open PatternSyntax.Proofs.Forward
open PatternSyntax.Proofs.Operands
open PatternSyntax.Proofs.Runs
open PatternSyntax.Proofs.Speculation
open PatternSyntax.Proofs.Totality
open PatternSyntax.Proofs.TypeRuns

variable {b : Ends} {edge : Prop} {front : List Terminal} {r : Rules} {c c' : Cursor} {depth : Nat}

theorem ne_openParen_of_typeBase {flags : TypeFlags} {base : Parsed TypeForm}
    (hrun : typeBase r flags c = .ok base) (hform : base.value ≠ .missing) :
    nextKind c ≠ some .openParen := by
  intro hopen
  have hhead : typeHead r flags c = .ok ⟨.missing, [], c⟩ := by
    have hlook : typeHead r flags c = _ := look_bind (a := nextKind c) rfl
    rw [hlook, hopen]
    simp [TokenKind.isPrimitiveType]
    rfl
  cases (run_typeBase (by rw [hopen]; decide) hhead).symm.trans hrun
  exact hform rfl

theorem ofTerminals?_cons {kind : TokenKind} {glued : Bool} (h : ¬(kind = .gt ∧ glued = true))
    (rest : List Terminal) : ofTerminals? (⟨kind, glued⟩ :: rest) =
      ofTerminals? [⟨kind, glued⟩] := by
  unfold ofTerminals?
  split
  all_goals simp_all

theorem Tail.congr {α : Type} {f : List Terminal → α} {back : List Terminal} (h : Tail back)
    (hcolon : ∀ glued, f [⟨.colon, glued⟩] = f []) (harrow : ∀ glued, f [⟨.arrow, glued⟩] = f []) :
    f back = f [] := by
  cases h with
  | nil => rfl
  | colon glued => exact hcolon glued
  | arrow glued => exact harrow glued

theorem ofTerminals?_gt_cons {kind : TokenKind} {glued : Bool} (h : ¬(kind = .gt ∧ glued = true))
    (rest : List Terminal) : ofTerminals? (⟨.gt, true⟩ :: ⟨kind, glued⟩ :: rest) =
      ofTerminals? [⟨.gt, true⟩, ⟨kind, glued⟩] := by
  cases kind with
  | gt =>
      cases glued with
      | false => rfl
      | true => exact absurd ⟨rfl, rfl⟩ h
  | _ => rfl

theorem ofTerminals?_gt_gt_cons (kind : TokenKind) (glued : Bool) (rest : List Terminal) :
    ofTerminals? (⟨.gt, true⟩ :: ⟨.gt, true⟩ :: ⟨kind, glued⟩ :: rest) =
      ofTerminals? [⟨.gt, true⟩, ⟨.gt, true⟩, ⟨kind, glued⟩] := by
  cases kind with
  | _ => rfl

theorem ofTerminals?_append {back : List Terminal} (hback : Tail back) (front : List Terminal) :
    ofTerminals? (front ++ back) = ofTerminals? front := by
  -- Three tokens decide, and those behind the first one only as long as they touch.
  match front with
  | [] => exact hback.congr (fun _ => rfl) fun _ => rfl
  | ⟨kind, glued⟩ :: front =>
      by_cases hgt : kind = .gt ∧ glued = true
      · obtain ⟨rfl, rfl⟩ := hgt
        match front with
        | [] =>
            exact hback.congr (f := fun back => ofTerminals? (⟨.gt, true⟩ :: back)) (fun _ => rfl)
              fun _ => rfl
        | ⟨kind, glued⟩ :: front =>
            by_cases hgt : kind = .gt ∧ glued = true
            · obtain ⟨rfl, rfl⟩ := hgt
              match front with
              | [] =>
                  exact hback.congr
                    (f := fun back => ofTerminals? (⟨.gt, true⟩ :: ⟨.gt, true⟩ :: back))
                    (fun _ => rfl) fun _ => rfl
              | ⟨kind, glued⟩ :: front =>
                  exact (ofTerminals?_gt_gt_cons ..).trans (ofTerminals?_gt_gt_cons ..).symm
            · exact (ofTerminals?_gt_cons hgt _).trans (ofTerminals?_gt_cons hgt _).symm
      · exact (ofTerminals?_cons hgt _).trans (ofTerminals?_cons hgt _).symm

theorem width_le_of_ofTerminals? {rest : List Terminal} {operator : BinaryOperator}
    (h : ofTerminals? rest = some operator) : operator.width ≤ rest.length := by
  unfold ofTerminals? at h
  split at h
  case h_1 => cases h
  case h_5 =>
    split at h
    all_goals cases h
    all_goals simp
  all_goals
    cases h
    simp

theorem tracks_bumpMany {n : Nat} (hn : n ≤ front.length) :
    Tracks b edge (fun _ => True) (bumpMany n) front := by
  induction n generalizing front with
  | zero => exact tracks_pure ()
  | succ n ih =>
      cases front with
      | nil => cases hn
      | cons terminal mid => exact tracks_bump_bind (ih (Nat.le_of_succ_le_succ hn))

theorem spoils_joined {left : Outline} {captured : Bool × List Outline}
    (h : ¬(Fair left ∧ FairAll captured.2)) : Spoils (Turn Fair Fair)
      (if captured.1 then return .yield (.around .binaryExpression left captured.2)
      else return .done (.around .binaryExpression left captured.2)) := by
  have hunfair : ¬Fair (.around .binaryExpression left captured.2) :=
    fun hfair => h hfair.around
  exact spoils_ite (spoils_pure hunfair) (spoils_pure hunfair)

theorem spoils_binaryTurn {level : Nat} {arrow : ArrowRole} {left : Outline} (h : ¬Fair left) :
    Spoils (Turn Fair Fair) (binaryTurn r level arrow left) := by
  unfold binaryTurn
  refine spoils_bind fun rest => ?_
  cases ofTerminals? rest with
  | none => exact spoils_pure h
  | some operator =>
      exact spoils_ite (spoils_pure h) (spoils_bind fun _ => spoils_ite
        (spoils_yield (spoils_around h)) (spoils_bind fun captured =>
          spoils_joined fun hboth => h hboth.1))

section Rules

variable (hr : ∀ shallow ≤ depth, InTandem (.ofDepth shallow))

include hr

/-- If the first run reads a type where no pattern begins, then no pattern begins in the second text
either. -/
theorem probe_of_type {seen seen' : Parsed Bool} {found : Parsed (Option Outline)}
    (htwins : Twins b front c c') (hseen : probe (.ofDepth depth) c = .ok seen)
    (hseen' : probe (.ofDepth depth) c' = .ok seen')
    (hrun : (Rules.ofDepth depth).type .plain c = .ok found) (hsound : Sound MayFair found) :
    seen'.value = seen.value := by
  obtain _ | depth := depth
  · cases hrun
  obtain ⟨type, htype, hfair⟩ := hsound.value
  obtain ⟨base, hbase, hform, hbaseFair⟩ := exists_fair_base_of_type hrun htype
  obtain ⟨annots, mid, head, hmodifiers, hname, hhead, -, hparts, -⟩ :=
    exists_modifiers_of_typeBase (ofDepth_refines (Nat.le_succ depth)) hbase hform
  have hfairParts := hbaseFair.1 hfair
  rw [hparts, fairAll_append] at hfairParts
  have hopen := ne_openParen_of_typeBase hbase hform
  have hopen' : nextKind c' ≠ some .openParen := fun h => hopen ((htwins.isAhead (by decide) 0).2 h)
  have hpattern : Refines ((Rules.ofDepth (depth + 1)).type .pattern)
      (Grammar.type (.ofDepth depth) .pattern) := .refl _
  obtain ⟨listed, hlisted, hbehind⟩ := exists_behindType hpattern hopen hseen
  obtain ⟨listed', hlisted', hbehind'⟩ := exists_behindType hpattern hopen' hseen'
  cases hmodifiers.symm.trans hlisted
  have hlist : Sound Fair (⟨.node .modifierList annots, [], mid⟩ : Parsed Outline) :=
    ⟨fairAll_nil, fair_node (by decide) hfairParts.1⟩
  obtain ⟨later, htwins', -, -⟩ :=
    (tracks_modifierList (hr _ (Nat.le_refl _))).same htwins hlisted hlisted' hlist
  -- Both lookaheads pass the same modifiers and the same head of a type.
  obtain ⟨head₁, behind, hhead₁, hrun₁, hvalue⟩ := hbehind hname
  obtain ⟨head', behind', hhead', hrun', hvalue'⟩ := hbehind' (htwins'.swap.nameAhead hname)
  cases hhead.symm.trans hhead₁
  obtain ⟨last, htwins'', -, -⟩ := (tracks_typeHead (hr depth (Nat.le_succ _)) .plain
    (V := fun _ => True)).same htwins' hhead hhead' ⟨hfairParts.2, trivial⟩
  have hident : (nextKind mid == some .ident) = (nextKind listed'.cursor == some .ident) :=
    htwins'.beq_isAhead (by decide) 0
  rw [← hident] at hrun'
  rw [← hvalue, ← hvalue']
  exact value_behindType htwins'' hrun₁ hrun'

theorem tracks_instanceofOperand :
    Tracks b False (fun _ => True) (instanceofOperand (.ofDepth depth)) front := by
  have hself := hr depth (Nat.le_refl _)
  refine tracks_isPattern_of hself (fun c h => ?_) (tracks_found (tracks_primaryPattern hself))
    (tracks_orReport (hself.type b .plain front))
      fun htwins hseen hseen' hsecond hsound hvalue => ?_
  · exact spoilsAt_bind fun first hfirst hfair => spoils_put
      (fun h' => spoilsAt_primaryPattern hself h first hfirst ⟨hfair, h'⟩) _
  · obtain ⟨found, hfound, hsound'⟩ := exists_of_orReport hsecond hsound.parts
    exact (probe_of_type hr htwins hseen hseen' hfound hsound').trans hvalue

theorem tracks_rightOperand {arrow : ArrowRole} {operator : BinaryOperator}
    (h : operator.width ≤ front.length) : Tracks b (arrow = .lambda) (fun _ => True)
      (rightOperand (.ofDepth depth) arrow operator) front := by
  refine tracks_seq (tracks_bumpMany h) fun _ mid => tracks_bind
    ((hr depth (Nat.le_refl _)).binary b _ arrow mid)
    (fun found hfound => ?_) fun found later hfound => ?_
  · cases found with
    | none => exact spoils_before spoils_report
    | some right => exact spoils_before (spoils_put (mt mayFair_some.2 hfound))
  · obtain ⟨right, rfl, -⟩ := hfound
    exact tracks_put_bind (tracks_pure true)

theorem tracks_operatorTurn (level : Nat) (arrow : ArrowRole) (left : Outline)
    {operator : BinaryOperator} (h : operator.width ≤ front.length) :
    Tracks b (arrow = .lambda) (Turn Fair Fair)
      (operatorTurn (.ofDepth depth) level arrow left operator) front := by
  refine tracks_ite (fun _ => tracks_pure _) fun _ => tracks_ifAt (by decide)
    (fun glued mid hfront => ?_) fun _ => ?_
  · rw [hfront]
    exact tracks_yield (tracks_around (tracks_bump_bind (tracks_instanceofOperand hr).closed))
  · refine tracks_bind (tracks_capture (tracks_rightOperand hr h)) (fun captured hcaptured => ?_)
      fun captured mid _ => tracks_ite (fun _ => tracks_pure _) fun _ => tracks_pure _
    exact spoils_joined fun hboth => hcaptured ⟨trivial, hboth.2⟩

theorem tracks_binaryTurn (level : Nat) (arrow : ArrowRole) (left : Outline) :
    Tracks b (arrow = .lambda) (Turn Fair Fair) (binaryTurn (.ofDepth depth) level arrow left)
      front := by
  have hlook {c : Cursor} (hc : c.rest = front ++ b.left ∨ c.rest = front ++ b.right) :
      ofTerminals? c.rest = ofTerminals? front := by
    obtain ⟨back, hback, hrest⟩ := Ends.tail_of_or hc
    rw [hrest, ofTerminals?_append hback]
  unfold binaryTurn
  cases hoperator : ofTerminals? front with
  | none =>
      refine tracks_look_of (fun c hc => ⟨c.rest, rfl, ?_⟩) (tracks_pure (ForInStep.done left))
      rw [hlook hc, hoperator]
  | some operator =>
      refine tracks_look_of (fun c hc => ⟨c.rest, rfl, ?_⟩)
        (tracks_operatorTurn hr level arrow left (width_le_of_ofTerminals? hoperator))
      rw [hlook hc, hoperator]

theorem tracks_binary (level : Nat) (arrow : ArrowRole) : Tracks b (arrow = .lambda) MayFair
    (Grammar.binary (.ofDepth depth) level arrow) front := by
  rw [Grammar.binary]
  exact tracks_grow ((hr depth (Nat.le_refl _)).unary b arrow front) (fun _ => spoils_binaryTurn)
    fun left mid => tracks_binaryTurn hr level arrow left

end Rules

theorem asks_of_refines {r r' : Rules} (h : RulesRefine r r') (hasks : Asks r c) : Asks r' c := by
  obtain ⟨seen, hseen, hsound⟩ := hasks
  exact ⟨seen, probe_refines h c seen hseen, hsound⟩

/-- On tokens that differ only in what comes behind them, all rules do the same, as long as the
first run puts down no error and no block in which the parentheses are not balanced. -/
theorem inTandem_ofDepth (depth : Nat) : InTandem (.ofDepth depth) := by
  induction depth using Nat.strongRecOn with
  | ind depth ih =>
      obtain _ | depth := depth
      · exact {
          annot := fun _ _ _ => tracks_of_spoils spoils_fail
          arrayInitializer := fun _ _ _ => tracks_of_spoils spoils_fail
          type := fun _ _ _ => tracks_of_spoils spoils_fail
          pattern := fun _ _ => tracks_of_spoils spoils_fail
          unary := fun _ _ _ => tracks_of_spoils spoils_fail
          binary := fun _ _ _ _ => tracks_of_spoils spoils_fail
          conditional := fun _ _ _ => tracks_of_spoils spoils_fail
          barren := barren_ofDepth 0
          primitive := fun _ _ _ _ _ _ => nofun
          asks := fun _ _ => spoils_fail _ }
      · have hr : ∀ shallow ≤ depth, InTandem (.ofDepth shallow) :=
          fun shallow hle => ih shallow (Nat.lt_succ_of_le hle)
        have hself := hr depth (Nat.le_refl _)
        exact {
          annot := fun b terminal mid => tracks_annot hself terminal mid
          arrayInitializer := fun b terminal mid => tracks_arrayInitializer hself terminal mid
          type := fun b flags front => tracks_type hself flags
          pattern := fun b front => tracks_pattern hself
          unary := fun b arrow front => tracks_unary hr arrow
          binary := fun b level arrow front => tracks_binary hr level arrow
          conditional := fun b arrow front => tracks_conditional hself arrow
          barren := barren_ofDepth (depth + 1)
          primitive := fun flags c done kind hnext hkind => type_ne_none hnext hkind
          asks := fun c h => spoilsAt_pattern hself fun h' =>
            h (asks_of_refines (ofDepth_refines (Nat.le_succ depth)) h') }

end PatternSyntax.Proofs.Tandem
