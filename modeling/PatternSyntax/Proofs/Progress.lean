import PatternSyntax.Proofs.Labels
import PatternSyntax.Proofs.Operations

/-!
The procedures end, and how deep they call each other is linear in the tokens ahead. A procedure
never goes back; where it finds something that is not allowed to be empty, it has passed a token. A
loop of a procedure is left, or its turn has passed a token.
-/

namespace PatternSyntax.Proofs.Progress

open Grammar
open PatternSyntax.Proofs.Contract
open PatternSyntax.Proofs.Coverage
open PatternSyntax.Proofs.Depth
open PatternSyntax.Proofs.Document
open PatternSyntax.Proofs.ExpressionRuns
open PatternSyntax.Proofs.Forward
open PatternSyntax.Proofs.Labels
open PatternSyntax.Proofs.Markers
open PatternSyntax.Proofs.Operands
open PatternSyntax.Proofs.Operations
open PatternSyntax.Proofs.PatternGrammar
open PatternSyntax.Proofs.Realization
open PatternSyntax.Proofs.Runs
open PatternSyntax.Proofs.Totality
open PatternSyntax.Proofs.TypeRuns

variable {α β σ : Type} {depth : Nat} {r : Rules} {c : Cursor}

/-- From a cursor the turn of a loop ends, and it is the last one or has passed a token. -/
def Advances (turn : Grammar (ForInStep σ)) (c : Cursor) : Prop :=
  Ends turn c (Turns (fun _ _ => True) (fun _ _ => True) c)

theorem ends_pure {a : α} {Q : α → Cursor → Prop} (h : Q a c) : Ends (pure a : Grammar α) c Q :=
  ⟨_, rfl, h⟩

theorem ends_look {g : Grammar α} {f : α → Grammar β} {a : α} {mid : Cursor}
    {Q : β → Cursor → Prop} (hrun : g c = .ok ⟨a, [], mid⟩) (h : Ends (f a) mid Q) :
    Ends (g >>= f) c Q := by
  obtain ⟨done, hdone, hQ⟩ := h
  exact ⟨_, bind_ok hrun hdone, hQ⟩

theorem ends_ifAt {kind : TokenKind} {yes no : Grammar α} {Q : α → Cursor → Prop}
    (hyes : nextKind c = some kind → Ends yes c Q) (hno : nextKind c ≠ some kind → Ends no c Q) :
    Ends (isAt kind >>= fun found => if found = true then yes else no) c Q := by
  apply ends_look (a := nextKind c == some kind) rfl
  split
  · exact hyes (beq_iff_eq.1 ‹_›)
  · exact hno fun h => ‹¬_› (beq_iff_eq.2 h)

theorem advances_done {s : σ} : Advances (pure (.done s)) c :=
  ends_pure trivial

theorem advances_lays {turn : Grammar (ForInStep σ)}
    (h : Lays turn c c (Turns (fun _ _ => True) (fun _ _ => True) c)) : Advances turn c := by
  obtain ⟨done, hrun, -, hdone⟩ := h
  exact ⟨done, hrun, hdone⟩

theorem ends_around {kind : NodeKind} {first : Outline} {g : Grammar Unit}
    {Q : Unit → Cursor → Prop} (h : Ends g c Q) :
    Ends (around kind first g) c fun _ stop => Q () stop := by
  obtain ⟨⟨_, parts, stop⟩, hrun, hQ⟩ := h
  exact ⟨_, run_around hrun, hQ⟩

theorem advances_around {kind : NodeKind} {first : Outline} {f : Unit → Grammar Unit}
    (hpos : 0 < c.rest.length)
    (h : ∀ mid, mid.rest.length < c.rest.length → Lays (f ()) mid mid fun _ _ => True) :
    Advances (do return .yield (← around kind first (bump >>= f))) c :=
  ends_bind (ends_around (lays_bump_bind hpos h).ends) fun _ _ hlt => ends_pure ⟨trivial, hlt.2⟩

theorem advances_around_done {kind : NodeKind} {first : Outline} {g : Grammar Unit}
    {Q : Unit → Cursor → Prop} (h : Lays g c c Q) :
    Advances (do return .done (← around kind first g)) c :=
  ends_bind (ends_around h.ends) fun _ _ _ => ends_pure trivial

theorem advances_again {g : Grammar Bool}
    (h : Lays g c c fun found stop => found = true → stop.rest.length < c.rest.length) :
    Advances (again g ()) c := by
  refine advances_lays (lays_bind h fun found mid _ hmid => ?_)
  split
  · exact lays_pure ⟨trivial, hmid ‹_›⟩
  · exact lays_pure trivial

variable (hr : Ready depth r)
include hr

theorem advances_argumentTurn (state : Bool) (hroom : 5 * c.rest.length + 5 ≤ depth) :
    Advances (argumentTurn r state) c :=
  advances_lays (lays_argumentTurn hr (by omega) state)

theorem advances_referenceTurn (eatLastDot allowed : Bool) (reference : Outline)
    (hroom : 5 * c.rest.length + 5 ≤ depth) :
    Advances (referenceTurn r eatLastDot allowed reference) c := by
  refine ends_ifAt (fun hdot => ?_) fun _ => advances_done
  have hpos := length_pos_of_nextKind hdot
  apply ends_look rfl
  split
  · exact advances_around hpos fun next hnext => lays_bind lays_bump fun _ last hlast _ =>
      lays_optionalTypeArguments hr allowed (by omega)
  split
  · exact advances_around_done (lays_bump_bind hpos fun _ _ =>
      lays_report.mono fun _ _ _ _ => trivial)
  · exact advances_done

omit hr in
theorem advances_arrayTurn (element : Outline) : Advances (arrayTurn element) c := by
  refine ends_look (a := nextKind c == some .openBracket) rfl (ends_look rfl ?_)
  split
  · rename_i h
    simp only [Bool.and_eq_true, beq_iff_eq] at h
    exact advances_around (length_pos_of_nextKind h.1) fun _ _ =>
      lays_bump.mono fun _ _ _ _ => trivial
  · exact advances_done

theorem advances_componentTurn (isFirst : Bool) (hroom : 5 * c.rest.length + 5 ≤ depth) :
    Advances (componentTurn r isFirst) c := by
  apply advances_lays
  apply lays_ifAt (fun _ => lays_pure trivial)
  intro _
  dsimp only
  split
  · exact lays_component hr isFirst (Nat.le_refl _) (by omega)
  · exact lays_bind lays_expect fun _ mid hmid _ =>
      lays_component hr isFirst hmid (by omega)

theorem advances_selectorTurn (subject : Outline) (hroom : 5 * c.rest.length + 5 ≤ depth) :
    Advances (selectorTurn r subject) c := by
  refine ends_ifAt (fun hdot => ?_) fun _ => ends_look (a := nextKind c == some .openParen) rfl ?_
  · have hpos := length_pos_of_nextKind hdot
    apply ends_look rfl
    split
    · exact advances_around hpos fun _ _ => lays_bump.mono fun _ _ _ _ => trivial
    · apply ends_look rfl
      split
      · exact advances_around hpos fun _ _ => lays_bump.mono fun _ _ _ _ => trivial
      · exact advances_around_done (lays_bump_bind hpos fun _ _ =>
          lays_report.mono fun _ _ _ _ => trivial)
  · split
    · rename_i h
      simp only [Bool.and_eq_true, beq_iff_eq] at h
      have hcall := lays_found (finds_arguments hr (length_pos_of_nextKind h.2) (by omega)).covers
      exact ends_bind (ends_around hcall.ends) fun _ _ hlt => ends_pure ⟨trivial, hlt.2⟩
    · refine ends_ifAt (fun hbracket => ?_) fun _ => advances_done
      exact advances_around (length_pos_of_nextKind hbracket) fun mid _ =>
        lays_bind (lays_orReport (hr.expression mid (by omega))) fun _ _ _ _ => lays_expect

omit hr in
theorem advances_postfixTurn (subject : Outline) : Advances (postfixTurn subject) c := by
  refine ends_look (a := nextKind c == some .plusPlus) rfl
    (ends_look (a := nextKind c == some .minusMinus) rfl ?_)
  split
  · rename_i h
    have hpos : 0 < c.rest.length := by
      simp only [Bool.or_eq_true, beq_iff_eq] at h
      exact h.elim length_pos_of_nextKind length_pos_of_nextKind
    have hbump := lays_bump.mono (Q := fun _ stop => stop.rest.length < c.rest.length)
      fun _ _ _ hlt => hlt hpos
    exact ends_bind (ends_around hbump.ends) fun _ _ hlt => ends_pure ⟨trivial, hlt.2⟩
  · exact advances_done

theorem advances_binaryTurn (level : Nat) (arrow : ArrowRole) (left : Outline)
    (hroom : 5 * c.rest.length + 5 ≤ depth) : Advances (binaryTurn r level arrow left) c := by
  apply ends_look (a := c.rest) rfl
  split
  · exact advances_done
  · rename_i operator hoperator
    unfold operatorTurn
    split
    · exact advances_done
    · refine ends_ifAt (fun _ => ?_) fun _ => ?_
      · exact advances_around (bounds_of_ofTerminals? hoperator).2 fun mid _ =>
          lays_instanceofOperand hr (by omega)
      · refine ends_bind (finds_capture (lays_rightOperand hr arrow hoperator (by omega))).ends ?_
        rintro ⟨found, parts⟩ stop ⟨-, hlt⟩
        dsimp only
        split
        · exact ends_pure ⟨trivial, hlt⟩
        · exact ends_pure trivial

theorem lays_elementTurn (hroom : 5 * c.rest.length + 5 ≤ depth) :
    Lays (elementTurn r) c c fun found stop =>
      found = true → stop.rest.length < c.rest.length := by
  refine lays_bind (lays_labelElement hr hroom) fun found mid hmid _ => ?_
  split
  · exact lays_eat.mono fun _ _ _ hlt h => Nat.lt_of_lt_of_le (hlt h) hmid
  · exact lays_report_bind (lays_pure nofun)

omit hr

theorem rule_refines (name : RuleName) {r' : Rules} (h : RulesRefine r r') :
    Refines (name.rule r) (name.rule r') := by
  cases name with
  | pattern => exact bind_refines_left h.pattern
  | primaryPattern => exact bind_refines_left (primaryPattern_refines h)
  | modifierList allowed => exact bind_refines_left (modifierList_refines h allowed)
  | annot => exact bind_refines_left h.annot
  | type flags => exact h.type flags
  | codeReference eatLastDot allowed => exact bind_refines_left (codeReference_refines h _ _)
  | expression => exact h.expression
  | conditional arrow => exact h.conditional arrow
  | conditionalAnd arrow => exact h.binary _ arrow
  | arrayInitializer => exact bind_refines_left h.arrayInitializer
  | switchLabel => exact switchLabel_refines h

/-- Whether a rule may only be applied where a pattern lies ahead. -/
def AsksForPattern : RuleName → Bool
  | .pattern | .primaryPattern => true
  | _ => false

/-- Whether a rule that has found something, or nothing, must have passed a token: a pattern never
is without tokens, and neither is a type or an expression that was found. -/
def MustPass : RuleName → Bool → Bool
  | .pattern, _ | .primaryPattern, _ => true
  | .type _, found | .expression, found | .conditional _, found | .conditionalAnd _, found => found
  | _, _ => false

/-- From a cursor the rule ends. What it puts down and what it answers with accounts for the tokens
that it passes, and it passes some if it must. -/
def Goes (name : RuleName) (r : Rules) (c : Cursor) : Prop :=
  ∃ done, name.rule r c = .ok done ∧ Covers c (done.parts ++ done.value.toList) done.cursor ∧
    (MustPass name done.value.isSome = true → done.cursor.rest.length < c.rest.length)

theorem goes_some {name : RuleName} {g : Grammar Outline}
    (hrule : name.rule r = do return some (← g))
    (h : Finds g c fun outline stop => Covers c [outline] stop ∧
      (MustPass name true = true → stop.rest.length < c.rest.length)) :
    Goes name r c := by
  obtain ⟨outline, stop, hrun, hcovers, hlt⟩ := h
  exact ⟨⟨some outline, [], stop⟩, by rw [hrule, run_some hrun], hcovers, hlt⟩

theorem goes_answers {name : RuleName} (h : Finds (name.rule r) c (Answers c))
    (hmust : MustPass name false = false) : Goes name r c := by
  obtain ⟨found, stop, hrun, hfound⟩ := h
  cases found with
  | none =>
      cases hfound
      exact ⟨_, hrun, .nil _, fun h => by simp [hmust] at h⟩
  | some outline => exact ⟨_, hrun, hfound.1.2, fun _ => hfound.2⟩

/-- A rule that begins with a token, and is also applied where none is left; there it only reports
what is missing. -/
theorem makes_anywhere {g : Rules → Grammar Outline} (hroom : 5 * c.rest.length + 5 ≤ depth)
    (hpos : 0 < c.rest.length → Finds (g (.ofDepth depth)) c (Builds c))
    (hnil : ∀ smaller index, Finds (g (.ofDepth (smaller + 5))) ⟨index, []⟩ (Makes ⟨index, []⟩)) :
    Finds (g (.ofDepth depth)) c (Makes c) := by
  obtain ⟨index, rest⟩ := c
  cases rest with
  | nil =>
      obtain ⟨smaller, rfl⟩ := Nat.exists_eq_add_of_le' hroom
      exact hnil smaller index
  | cons terminal rest => exact (hpos (Nat.succ_pos _)).mono fun _ _ hbuilds => hbuilds.1

theorem makes_annot (hroom : 5 * c.rest.length + 5 ≤ depth) :
    Finds (Rules.ofDepth depth).annot c (Makes c) :=
  makes_anywhere (g := Rules.annot) hroom
    (fun hpos => (ready_ofDepth depth).annot c hpos (by omega))
    fun _ _ => ⟨_, _, rfl, trivial, .node (.error (.nil _)) ⟨nofun, nofun⟩ (.nil _)⟩

theorem makes_codeReference (eatLastDot allowed : Bool) (hroom : 5 * c.rest.length + 5 ≤ depth) :
    Finds (codeReference (.ofDepth depth) eatLastDot allowed) c (Makes c) := by
  refine makes_anywhere (g := (codeReference · eatLastDot allowed)) hroom (fun hpos =>
    finds_codeReference (ready_ofDepth depth) eatLastDot allowed hpos (by omega)) fun _ _ => ?_
  cases allowed
  all_goals exact ⟨_, _, rfl, trivial, .node (.nil _) ⟨nofun, nofun⟩ (.nil _)⟩

theorem makes_arrayInitializer (hroom : 5 * c.rest.length + 5 ≤ depth) :
    Finds (Rules.ofDepth depth).arrayInitializer c (Makes c) :=
  makes_anywhere (g := Rules.arrayInitializer) hroom
    (fun hpos => (ready_ofDepth depth).arrayInitializer c hpos (by omega))
    fun _ _ => ⟨_, _, rfl, trivial, .node (.error (.nil _)) ⟨nofun, nofun⟩ (.nil _)⟩

theorem finds_cast_anywhere (arrow : ArrowRole) (hroom : 5 * c.rest.length + 5 ≤ depth) :
    Finds (Grammar.cast (.ofDepth depth) arrow) c (Answers c) := by
  obtain ⟨index, rest⟩ := c
  cases rest with
  | nil =>
      obtain ⟨smaller, rfl⟩ := Nat.exists_eq_add_of_le' hroom
      exact ⟨none, _, rfl, rfl⟩
  | cons terminal rest =>
      exact finds_cast (ready_ofDepth depth) arrow (Nat.succ_pos _) (by omega)

theorem goes_makes {name : RuleName} {g : Grammar Outline}
    (hrule : name.rule r = do return some (← g)) (h : Finds g c (Makes c))
    (hmust : MustPass name true = false) : Goes name r c :=
  goes_some hrule (h.mono fun outline _ hmakes => ⟨hmakes.2, fun h => by simp [hmust] at h⟩)

theorem goes_rule (name : RuleName) (hname : AsksForPattern name = true → PatternAhead c)
    (hroom : 5 * c.rest.length + 5 ≤ depth) : Goes name (.ofDepth depth) c := by
  have hr := ready_ofDepth depth
  cases name with
  | pattern =>
      exact goes_some rfl ((hr.pattern _ (hname rfl) (by omega)).mono
        fun _ _ ⟨hcovers, hlt⟩ => ⟨hcovers, fun _ => hlt⟩)
  | primaryPattern =>
      exact goes_some rfl ((finds_primaryPattern hr (hname rfl) (by omega)).mono
        fun _ _ hbuilds => ⟨hbuilds.1.2, fun _ => hbuilds.2⟩)
  | modifierList allowed =>
      exact goes_makes rfl (finds_modifierList hr allowed (by omega)) rfl
  | annot => exact goes_makes rfl (makes_annot hroom) rfl
  | type flags => exact goes_answers (hr.type flags _ (by omega)) rfl
  | codeReference eatLastDot allowed =>
      exact goes_makes rfl (makes_codeReference eatLastDot allowed hroom) rfl
  | expression => exact goes_answers (hr.expression _ hroom) rfl
  | conditional arrow => exact goes_answers (hr.conditional arrow _ hroom) rfl
  | conditionalAnd arrow => exact goes_answers (hr.binary _ arrow _ (by omega)) rfl
  | arrayInitializer => exact goes_makes rfl (makes_arrayInitializer hroom) rfl
  | switchLabel =>
      by_cases hkind : nextKind c = some .defaultKw ∨ nextKind c = some .caseKw
      · exact goes_answers (finds_switchLabel hr (by omega) hkind) rfl
      · obtain ⟨hdefault, hcase⟩ := not_or.1 hkind
        obtain ⟨done, hrun, hcovers, hnone⟩ :=
          lays_switchLabel_of_ne (r := .ofDepth depth) hdefault hcase
        refine ⟨done, hrun, ?_, nofun⟩
        rw [hnone]
        simpa using hcovers

theorem exists_run_isPattern (p : Recorder) :
    ∃ answer, (∀ depth, 5 * (p.tokens.size - p.index) + 5 ≤ depth →
        Procedure.isPattern (.ofDepth depth) p = .ok (answer, p)) ∧
      ∀ depth, 5 * (p.tokens.size - p.index) + 5 ≤ depth →
        isPattern (.ofDepth depth) p.cursor = .ok ⟨answer, [], p.cursor⟩ := by
  rw [← length_rest_cursor]
  obtain ⟨answer, stop, hrun, rfl, -⟩ := finds_isPattern (c := p.cursor)
    (ready_ofDepth (5 * p.cursor.rest.length + 5)) (by omega)
  have hrule (depth : Nat) (hroom : 5 * p.cursor.rest.length + 5 ≤ depth) :
      isPattern (.ofDepth depth) p.cursor = .ok ⟨answer, [], p.cursor⟩ :=
    isPattern_refines (ofDepth_refines hroom) _ _ hrun
  refine ⟨answer, fun depth hroom => ?_, hrule⟩
  have houtcome := realizes_isPattern (agree_ofDepth depth) p
  rw [hrule depth hroom] at houtcome
  obtain ⟨_, i, hindex, -, rfl, hanswer⟩ := houtcome.exists_of_rule_ok
  cases hindex
  rw [hanswer]
  exact congrArg (fun q => Except.ok (answer, q)) (recordAll_nil p)

theorem run_isPattern_iff (p : Recorder) :
    Procedure.deepEnough Procedure.isPattern p = .ok (true, p) ↔ PatternAhead p.cursor := by
  obtain ⟨answer, hanswer, hrun⟩ := exists_run_isPattern p
  have hdeep : Procedure.deepEnough Procedure.isPattern p = .ok (answer, p) :=
    hanswer _ (Nat.le_refl _)
  constructor
  · intro h
    cases hdeep.symm.trans h
    exact ⟨_, hrun _ (Nat.le_refl _)⟩
  · rintro ⟨deep, htrue⟩
    cases ofDepth_agree (fun h => isPattern_refines h) (hrun _ (Nat.le_refl _)) htrue
    exact hdeep

theorem found_unique {before : Nat} {found : Option Outline} {handle other : Option CompletedNode}
    (h : View.found.shows before found handle) (h' : View.found.shows before found other) :
    handle = other := by
  cases found with
  | none =>
      cases handle with
      | none =>
          cases other with
          | none => rfl
          | some other => cases h'
      | some handle => cases h
  | some found =>
      cases handle with
      | none => cases h
      | some handle =>
          cases other with
          | none => cases h'
          | some other =>
              obtain ⟨-, kind, htop, rfl⟩ := h
              obtain ⟨-, kind', htop', rfl⟩ := h'
              rw [Option.some.inj (htop.symm.trans htop')]

theorem isSome_of_shows {before : Nat} {found : Option Outline} {handle : Option CompletedNode}
    (h : View.found.shows before found handle) : handle.isSome = found.isSome := by
  cases found with
  | none =>
      cases handle with
      | none => rfl
      | some handle => cases h
  | some found =>
      cases handle with
      | none => cases h
      | some handle => rfl

theorem exists_run_name (p : Recorder) (name : RuleName)
    (hname : AsksForPattern name = true → PatternAhead p.cursor) :
    ∃ found q, (∀ depth, 5 * (p.tokens.size - p.index) + 5 ≤ depth →
        name.procedure (.ofDepth depth) p = .ok (found, q)) ∧
      p.index ≤ q.index ∧ (p.index ≤ p.tokens.size → q.index ≤ p.tokens.size) ∧
      (MustPass name found.isSome = true → p.index < q.index) := by
  rw [← length_rest_cursor]
  obtain ⟨done, hrun, hcovers, hlt⟩ := goes_rule name (c := p.cursor) hname (Nat.le_refl _)
  have hindex : done.cursor.index + done.cursor.rest.length = p.index + p.cursor.rest.length :=
    hcovers.index_add_length
  have hle := hcovers.length_le
  have hlength := length_rest_cursor p
  have hprocedure (depth : Nat) (hroom : 5 * p.cursor.rest.length + 5 ≤ depth) :
      Outcome .found p (.ok done) (name.procedure (.ofDepth depth) p) := by
    rw [← rule_refines name (ofDepth_refines hroom) _ _ hrun]
    exact realizes_name (agree_ofDepth depth) name p
  obtain ⟨found, i, hcursor, -, hshows, -⟩ := (hprocedure _ (Nat.le_refl _)).exists_of_rule_ok
  have hi : done.cursor.index = i := congrArg Cursor.index hcursor
  refine ⟨found, p.recordAll (done.parts ++ View.found.pending done.value) i,
    fun depth hroom => ?_, ?_, ?_, ?_⟩
  · obtain ⟨found', i', hcursor', -, hshows', hrun'⟩ := (hprocedure depth hroom).exists_of_rule_ok
    cases hcursor.symm.trans hcursor'
    rw [hrun', found_unique hshows hshows']
  · show p.index ≤ i
    omega
  · show _ → i ≤ _
    omega
  · intro hmust
    rw [isSome_of_shows hshows] at hmust
    have := hlt hmust
    show p.index < i
    omega

inductive Loop where
  | typeArguments
  | nameParts (eatLastDot arguments : Bool)
  | arraySuffix
  | annots
  | annotParameters
  | modifiers (allowed : TokenSet)
  | openParens
  | components
  | block
  | lambdaParameters
  | arguments
  | values
  | dimensions
  | selectors
  | postfixes
  | operators (least : Nat) (arrow : ArrowRole)
  | labelElements

namespace Loop

/-- What a loop carries from turn to turn. -/
def State : Loop → Type
  | typeArguments | components => Bool
  | nameParts _ _ | arraySuffix | selectors | postfixes | operators _ _ => CompletedNode
  | block => Option Nat
  | _ => Unit

def turn (q : Procedures) : (loop : Loop) → loop.State → Procedure (ForInStep loop.State)
  | typeArguments => fun _ => Procedure.argumentTurn q
  | nameParts eatLastDot allowed => Procedure.referenceTurn q eatLastDot allowed
  | arraySuffix => Procedure.arrayTurn
  | annots => Procedure.again (Procedure.annotTurn q)
  | annotParameters => Procedure.again (Procedure.annotParameterTurn q)
  | modifiers allowed => Procedure.again (Procedure.modifierTurn q allowed)
  | openParens => Procedure.again (Procedure.eat .openParen)
  | components => Procedure.componentTurn q
  | block => Procedure.blockTurn
  | lambdaParameters => Procedure.again (Procedure.lambdaParameterTurn q)
  | arguments => Procedure.again (Procedure.parameterTurn q)
  | values => Procedure.again (Procedure.valueTurn q)
  | dimensions => Procedure.again (Procedure.dimensionTurn q)
  | selectors => Procedure.selectorTurn q
  | postfixes => Procedure.postfixTurn
  | operators least arrow => Procedure.binaryTurn q least arrow
  | labelElements => Procedure.again (Procedure.elementTurn q)

end Loop

/-- The node that has been finished last is the one with the handle. -/
def JustFinished (p : Recorder) (handle : CompletedNode) : Prop :=
  ∃ (earlier : Recorder) (found : Outline) (i : Nat), p = earlier.recordAll [found] i ∧
    View.node.shows earlier.events.length found handle

/-- What a loop carries is as the loop needs it: a node that can be wrapped, or a count of braces
that is not below zero when the next one closes. -/
def Loop.Holds (p : Recorder) : (loop : Loop) → loop.State → Prop
  | nameParts _ _, node | arraySuffix, node | selectors, node | postfixes, node
  | operators _ _, node => JustFinished p node
  | block, depth => ∃ n, depth = some n ∧ (n = 0 → p.isAt .openBrace = true)
  | _, _ => True

variable {p : Recorder}

theorem exists_turn {f : Procedure (ForInStep σ)} {g : Grammar (ForInStep σ)}
    (h : Realizes .plain f g) (hg : Advances g p.cursor) :
    ∃ next q, f p = .ok (next, q) ∧ ∀ s, next = .yield s → p.index < q.index := by
  obtain ⟨done, hrun, hdone⟩ := hg
  have houtcome := h p
  rw [hrun] at houtcome
  obtain ⟨next, i, hcursor, -, rfl, hturn⟩ := houtcome.exists_of_rule_ok
  refine ⟨_, _, hturn, fun s hs => ?_⟩
  rw [hs, hcursor] at hdone
  have hlt := hdone.2
  rw [length_rest_cursorAt, length_rest_cursor] at hlt
  show p.index < i
  omega

theorem exists_turn_node {f : CompletedNode → Procedure (ForInStep CompletedNode)}
    {g : Outline → Grammar (ForInStep Outline)} (h : Resumes .node (View.step .node) f g)
    (hg : ∀ found, Advances (g found) p.cursor) {handle : CompletedNode}
    (hhandle : JustFinished p handle) :
    ∃ next q, f handle p = .ok (next, q) ∧
      ∀ s, next = .yield s → p.index < q.index ∧ JustFinished q s := by
  obtain ⟨earlier, found, i, rfl, hshows⟩ := hhandle
  obtain ⟨done, hrun, hdone⟩ := hg found
  have houtcome := h earlier i found handle hshows
  rw [show g found (earlier.cursorAt i) = .ok done from hrun] at houtcome
  obtain ⟨next, j, hcursor, hsilent, hnext, hturn⟩ := houtcome.exists_of_rule_ok
  refine ⟨_, _, hturn, fun s hs => ?_⟩
  cases hs
  cases hvalue : done.value with
  | done outline =>
      rw [hvalue] at hnext
      cases hnext
  | yield outline =>
      rw [hvalue] at hnext hdone
      rw [hsilent trivial] at hnext ⊢
      rw [hcursor] at hdone
      have hlt := hdone.2
      rw [length_rest_cursorAt, length_rest_cursor] at hlt
      refine ⟨?_, earlier, outline, j, rfl, hnext⟩
      show i < j
      have hindex : (earlier.recordAll [found] i).index = i := rfl
      have htokens : (earlier.recordAll [found] i).tokens = earlier.tokens := rfl
      rw [hindex, htokens] at hlt
      omega

theorem exists_turn_block {depth : Option Nat} (hdepth : Loop.Holds p .block depth) :
    ∃ next q, Procedure.blockTurn depth p = .ok (next, q) ∧
      ∀ s, next = .yield s → p.index < q.index ∧ Loop.Holds q .block s := by
  obtain ⟨n, rfl, hzero⟩ := hdepth
  unfold Procedure.blockTurn
  simp only [bind, Procedure.next, Procedure.look]
  have hdone (q : Recorder) (last : Option Nat) : ∀ s,
      ForInStep.done last = .yield s → p.index < q.index ∧ Loop.Holds q .block s := by
    rintro _ ⟨⟩
  cases hcurrent : p.current with
  | none => exact ⟨_, p, rfl, hdone p _⟩
  | some kind =>
      have hindex : p.bump.index = p.index + 1 := by simp [Recorder.bump, hcurrent, Recorder.record]
      have hzero (hn : n = 0) : kind = .openBrace :=
        Option.some.inj (hcurrent.symm.trans (beq_iff_eq.1 (hzero hn)))
      have hyield (depth : Nat) (hpos : depth ≠ 0) : ∀ s,
          ForInStep.yield (some depth) = .yield s → p.index < p.bump.index ∧
            Loop.Holds p.bump .block s := by
        rintro _ ⟨⟩
        exact ⟨by omega, depth, rfl, fun h => absurd h hpos⟩
      cases kind with
      | openBrace => exact ⟨_, p.bump, rfl, hyield (n + 1) (Nat.succ_ne_zero n)⟩
      | closeBrace =>
          obtain _ | _ | n := n
          · cases hzero rfl
          · exact ⟨_, p.bump, rfl, hdone p.bump none⟩
          · exact ⟨_, p.bump, rfl, hyield (n + 1) (Nat.succ_ne_zero n)⟩
      | _ => exact ⟨_, p.bump, rfl, hyield n fun hn => by cases hzero hn⟩

theorem admits_half (least : Nat) : Admits least (least / 2 + 1) := by
  unfold Admits
  omega

/-- A turn of a loop ends if what the loop carries is as it needs it, and it is the last one or has
passed a token; then what it carries is again as it needs it. -/
theorem exists_turn_loop (loop : Loop) (s : loop.State) (hs : loop.Holds p s)
    (hroom : 5 * p.cursor.rest.length + 5 ≤ depth) :
    ∃ next q, loop.turn (.ofDepth depth) s p = .ok (next, q) ∧
      ∀ s, next = .yield s → p.index < q.index ∧ loop.Holds q s := by
  have hr := ready_ofDepth depth
  have h := agree_ofDepth depth
  have hplain {σ : Type} {f : Procedure (ForInStep σ)} {g : Grammar (ForInStep σ)}
      (hrealizes : Realizes .plain f g) (hg : Advances g p.cursor) :
      ∃ next q, f p = .ok (next, q) ∧ ∀ s, next = .yield s → p.index < q.index ∧ True := by
    obtain ⟨next, q, hrun, hlt⟩ := exists_turn hrealizes hg
    exact ⟨next, q, hrun, fun s hs => ⟨hlt s hs, trivial⟩⟩
  cases loop with
  | typeArguments =>
      exact hplain (realizes_argumentTurn h s) (advances_argumentTurn hr s hroom)
  | nameParts eatLastDot allowed =>
      exact exists_turn_node (resumes_referenceTurn h eatLastDot allowed)
        (fun found => advances_referenceTurn hr eatLastDot allowed found hroom) hs
  | arraySuffix => exact exists_turn_node resumes_arrayTurn advances_arrayTurn hs
  | annots =>
      exact hplain (realizes_again (realizes_annotTurn h) s)
        (advances_again (lays_annotTurn hr (by omega)))
  | annotParameters =>
      exact hplain (realizes_again (realizes_annotParameterTurn h) s)
        (advances_again (lays_annotParameterTurn hr hroom))
  | modifiers allowed =>
      exact hplain (realizes_again (realizes_modifierTurn h allowed) s)
        (advances_again (lays_modifierTurn hr allowed (by omega)))
  | openParens => exact hplain (realizes_again (realizes_eat _) s) (advances_again lays_eat)
  | components =>
      exact hplain (realizes_componentTurn h s) (advances_componentTurn hr s hroom)
  | block => exact exists_turn_block hs
  | lambdaParameters =>
      exact hplain (realizes_again (realizes_lambdaParameterTurn h) s)
        (advances_again (lays_lambdaParameterTurn hr hroom))
  | arguments =>
      exact hplain (realizes_again (realizes_parameterTurn h) s)
        (advances_again (lays_parameterTurn hr hroom))
  | values =>
      exact hplain (realizes_again (realizes_valueTurn h) s)
        (advances_again (lays_valueTurn hr hroom))
  | dimensions =>
      exact hplain (realizes_again (realizes_dimensionTurn h) s)
        (advances_again (lays_dimensionTurn hr hroom))
  | selectors =>
      exact exists_turn_node (resumes_selectorTurn h)
        (fun found => advances_selectorTurn hr found hroom) hs
  | postfixes => exact exists_turn_node resumes_postfixTurn advances_postfixTurn hs
  | operators least arrow =>
      exact exists_turn_node (resumes_binaryTurn h (admits_half least) arrow)
        (fun found => advances_binaryTurn hr _ arrow found hroom) hs
  | labelElements =>
      exact hplain (realizes_again (realizes_elementTurn h) s)
        (advances_again (lays_elementTurn hr hroom))

/-- A procedure ends at any place of any recording, from a depth on that is linear in the tokens
ahead; the procedures for patterns do so where the lookahead sees one. The recorder then stands
behind where it stood, at most at the end, and some token has been passed if something was found
that cannot be empty. The lookahead ends as well, and leaves everything as it was. A turn of a loop
ends, and it is the last one or has passed a token. -/
theorem rules_end (p : Recorder) :
    (∃ answer, ∀ depth, 5 * (p.tokens.size - p.index) + 5 ≤ depth →
      Procedure.isPattern (.ofDepth depth) p = .ok (answer, p)) ∧
    (∀ name : RuleName, (AsksForPattern name = true →
        Procedure.deepEnough Procedure.isPattern p = .ok (true, p)) →
      ∃ found q,
        (∀ depth, 5 * (p.tokens.size - p.index) + 5 ≤ depth →
          name.procedure (.ofDepth depth) p = .ok (found, q)) ∧
        p.index ≤ q.index ∧ (p.index ≤ p.tokens.size → q.index ≤ p.tokens.size) ∧
        (MustPass name found.isSome = true → p.index < q.index)) ∧
    ∀ (loop : Loop) (s : loop.State) (depth : Nat), 5 * (p.tokens.size - p.index) + 5 ≤ depth →
      loop.Holds p s → ∃ next q, loop.turn (.ofDepth depth) s p = .ok (next, q) ∧
        ∀ s, next = .yield s → p.index < q.index ∧ loop.Holds q s := by
  refine ⟨?_, fun name hname => ?_, fun loop s depth hroom hs => ?_⟩
  · obtain ⟨answer, hanswer, -⟩ := exists_run_isPattern p
    exact ⟨answer, hanswer⟩
  · exact exists_run_name p name fun h => (run_isPattern_iff p).1 (hname h)
  · rw [← length_rest_cursor] at hroom
    exact exists_turn_loop loop s hs hroom

end PatternSyntax.Proofs.Progress
