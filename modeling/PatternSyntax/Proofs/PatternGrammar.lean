import PatternSyntax.Proofs.Forward
import PatternSyntax.Proofs.Marks
import PatternSyntax.Proofs.Reading

/-!
The grammar of patterns, and that a text is taken for a pattern without an error if and only if the
grammar derives it.
-/

namespace PatternSyntax.Proofs.PatternGrammar

open Grammar
open PatternSyntax.Proofs.CleanDocument
open PatternSyntax.Proofs.CleanRuns
open PatternSyntax.Proofs.Contract
open PatternSyntax.Proofs.Coverage
open PatternSyntax.Proofs.Depth
open PatternSyntax.Proofs.Document
open PatternSyntax.Proofs.Forward
open PatternSyntax.Proofs.Marks
open PatternSyntax.Proofs.Neatness
open PatternSyntax.Proofs.Reading
open PatternSyntax.Proofs.Runs
open PatternSyntax.Proofs.Totality
open PatternSyntax.Proofs.Weave

variable {r : Rules} {c mid stop : Cursor}

/-- The modifiers of a pattern reach from one place to another. -/
def Modifiers (c stop : Cursor) : Prop :=
  ∃ outline, deepEnough (modifierList · .variableModifiers) c = .ok ⟨outline, [], stop⟩ ∧
    outline.hasError = false

/-- The type of a pattern reaches from one place to another. -/
def TypeName (c stop : Cursor) : Prop :=
  ∃ outline, deepEnough (·.type .pattern) c = .ok ⟨some outline, [], stop⟩ ∧
    outline.hasError = false

/-- The condition of a guard reaches from one place to another. -/
def ConditionalAnd (c stop : Cursor) : Prop :=
  ∃ outline, deepEnough (·.binary guardLevel .terminator) c = .ok ⟨some outline, [], stop⟩ ∧
    outline.hasError = false

inductive Nonterminal where
  | pattern
  | primaryPattern
  | recordStructure
  /-- Patterns around commas. -/
  | components
deriving DecidableEq, Repr

/-- The grammar derives the tokens from one place to another. -/
inductive Derives : Nonterminal → Cursor → Cursor → Prop
  | plain {c stop : Cursor} : Derives .primaryPattern c stop → Derives .pattern c stop
  | guarded {c mid next stop : Cursor} :
      Derives .primaryPattern c mid → Passes .andAnd mid next → ConditionalAnd next stop →
      Derives .pattern c stop
  | parenthesized {c first last stop : Cursor} :
      Passes .openParen c first → Derives .pattern first last → Passes .closeParen last stop →
      Derives .primaryPattern c stop
  | record {c mid next stop : Cursor} :
      Modifiers c mid → TypeName mid next → Derives .recordStructure next stop →
      Derives .primaryPattern c stop
  | namedRecord {c mid next last stop : Cursor} :
      Modifiers c mid → TypeName mid next → Derives .recordStructure next last →
      Passes .ident last stop → Derives .primaryPattern c stop
  | typeTest {c mid next stop : Cursor} :
      Modifiers c mid → TypeName mid next → Passes .ident next stop →
      Derives .primaryPattern c stop
  | empty {c mid stop : Cursor} :
      Passes .openParen c mid → Passes .closeParen mid stop → Derives .recordStructure c stop
  | bracketed {c first last stop : Cursor} :
      Passes .openParen c first → Derives .components first last →
      Passes .closeParen last stop → Derives .recordStructure c stop
  | single {c stop : Cursor} : Derives .pattern c stop → Derives .components c stop
  | cons {c mid next stop : Cursor} :
      Derives .pattern c mid → Passes .comma mid next → Derives .components next stop →
      Derives .components c stop

theorem reads_modifierList (depth : Nat) (c : Cursor) :
    Reads (modifierList (.ofDepth depth) .variableModifiers) c (Modifiers c) := by
  intro done hrun
  obtain ⟨outline, stop, hdeep, -⟩ := finds_modifierList (c := c)
    (ready_ofDepth (5 * c.rest.length + 5)) .variableModifiers (by omega)
  cases ofDepth_agree (fun h => modifierList_refines h _) hdeep hrun
  exact ⟨rfl, fun hclean => ⟨outline, hdeep, hclean⟩⟩

theorem mayRead_type (depth : Nat) (c : Cursor) :
    MayRead ((Rules.ofDepth depth).type .pattern) c (TypeName c) := by
  intro done hrun
  obtain ⟨found, stop, hdeep, -⟩ := (ready_ofDepth (5 * c.rest.length + 5)).type .pattern c
    (by omega)
  cases ofDepth_agree (fun h => h.type _) hdeep hrun
  exact ⟨rfl, fun outline hfound hclean => ⟨outline, hfound ▸ hdeep, hclean⟩⟩

theorem mayRead_binary (depth : Nat) (c : Cursor) :
    MayRead ((Rules.ofDepth depth).binary guardLevel .terminator) c (ConditionalAnd c) := by
  intro done hrun
  obtain ⟨found, stop, hdeep, -⟩ := (ready_ofDepth (5 * c.rest.length + 5)).binary guardLevel
    .terminator c (by omega)
  cases ofDepth_agree (fun h => h.binary _ _) hdeep hrun
  exact ⟨rfl, fun outline hfound hclean => ⟨outline, hfound ▸ hdeep, hclean⟩⟩

/-- The components of a record up to its closing parenthesis, from a place where the first one comes
next or, behind another one, a comma. -/
def ComponentsFrom (isFirst : Bool) (c : Cursor) (_ : Bool) (stop : Cursor) : Prop :=
  nextKind stop = some .closeParen → stop = c ∨
    if isFirst then Derives .components c stop
    else ∃ next, Passes .comma c next ∧ Derives .components next stop

theorem leads_component (hpattern : ∀ c, Reads r.pattern c (Derives .pattern c)) {isFirst : Bool}
    {here : Cursor}
    (hhere : ∀ stop, Derives .components c stop → ComponentsFrom isFirst here isFirst stop) :
    Leads (component r isFirst) c (Extends ComponentsFrom isFirst here) := by
  refine after_look rfl ?_
  split
  · refine after_pure fun hclose => ?_
    rename_i hend
    rw [nextKind, List.isEmpty_iff.1 hend] at hclose
    cases hclose
  · refine leads_bind (P := fun _ next => next = c) ?_ fun answer next heq => ?_
    · exact fun done hrun hclean => (clean_lookahead done hrun hclean).2.2
    · subst heq
      split
      · refine leads_found_bind (hpattern _) fun last hderives => after_pure ?_
        intro _ stop hlater hclose
        refine hhere stop ?_ hclose
        rcases hlater hclose with rfl | ⟨next, hcomma, hcomponents⟩
        · exact .single hderives
        · exact .cons hderives hcomma hcomponents
      · exact after_report_bind

theorem leads_componentTurn (hpattern : ∀ c, Reads r.pattern c (Derives .pattern c))
    (isFirst : Bool) :
    Leads (componentTurn r isFirst) c (Extends ComponentsFrom isFirst c) := by
  refine leads_ifAt (fun _ => after_pure fun _ => .inl rfl) fun _ => ?_
  cases isFirst with
  | true => exact leads_component hpattern fun stop hderives _ => .inr hderives
  | false =>
      refine leads_bind leads_expect fun _ mid hcomma => ?_
      exact leads_component hpattern fun stop hderives _ => .inr ⟨mid, hcomma, hderives⟩

theorem reads_recordStructure (hpattern : ∀ c, Reads r.pattern c (Derives .pattern c))
    (hopen : nextKind c = some .openParen) :
    Reads (recordStructure r) c (Derives .recordStructure c) := by
  unfold recordStructure
  refine reads_node (leads_bump_bind hopen fun first hfirst => leads_bind (leads_iterate
    (fun _ _ => leads_componentTurn hpattern _) true) fun _ last hcomponents =>
      leads_expect.mono fun _ _ stop hclose => ?_)
  rcases hcomponents hclose.nextKind_eq with rfl | hderives
  · exact .empty hfirst hclose
  · exact .bracketed hfirst hderives hclose

theorem leads_recordName :
    Leads recordName c fun _ stop => stop = c ∨ Passes .ident c stop :=
  leads_ifAt (fun hident => leads_found (reads_node (leads_bump hident)) |>.mono
    fun _ _ _ hpasses => .inr hpasses) fun _ => after_pure (.inl rfl)

theorem reads_typeOrRecordPattern {depth : Nat}
    (hpattern : ∀ c, Reads (Rules.ofDepth depth).pattern c (Derives .pattern c)) :
    Reads (typeOrRecordPattern (.ofDepth depth)) c (Derives .primaryPattern c) := by
  refine reads_bind fun modifiers hmodifiers => ?_
  obtain ⟨hparts, hmodifiers⟩ := reads_modifierList depth c modifiers hmodifiers
  refine ⟨hparts, reads_bind fun found hfound => ?_⟩
  obtain ⟨hparts, htype⟩ := mayRead_type depth modifiers.cursor found hfound
  refine ⟨hparts, ?_⟩
  cases hvalue : found.value with
  | none => exact fun _ hrun => nomatch hrun
  | some type =>
      have htype := htype type hvalue
      refine reads_ifAt (fun hopen => ?_) fun _ => reads_ifAt (fun hident => ?_) fun _ =>
        fun _ hrun => nomatch hrun
      · intro done hrun
        obtain ⟨_, _, hcapture, hpure, rfl⟩ := exists_of_bind_ok hrun
        obtain ⟨inner, hinner, rfl⟩ := exists_of_capture_ok hcapture
        cases hpure
        refine ⟨rfl, fun hclean => ?_⟩
        have hbody : Leads (do
            put modifiers.value
            put type
            put (← recordStructure (.ofDepth depth))
            recordName) found.cursor fun _ stop => Derives .primaryPattern c stop := by
          refine leads_put_bind fun hclean => leads_put_bind fun hclean' => ?_
          refine leads_found_bind (reads_recordStructure hpattern hopen) fun last hrecord => ?_
          refine leads_recordName.mono fun _ _ stop hname => ?_
          rcases hname with rfl | hident
          · exact .record (hmodifiers hclean) (htype hclean') hrecord
          · exact .namedRecord (hmodifiers hclean) (htype hclean') hrecord hident
        exact hbody inner hinner (by simpa [Outline.hasError, Outline.hasErrorAll] using hclean)
      · refine reads_bind fun declared hdeclared => ?_
        have hbody : Reads (node .patternVariable do
            put modifiers.value
            put type
            bump) found.cursor (Derives .primaryPattern c) := by
          refine reads_node (leads_put_bind fun hclean => leads_put_bind fun hclean' => ?_)
          exact (leads_bump hident).mono fun _ _ stop hpasses =>
            .typeTest (hmodifiers hclean) (htype hclean') hpasses
        obtain ⟨hparts, hderives⟩ := hbody declared hdeclared
        refine ⟨hparts, reads_pure fun hclean => hderives ?_⟩
        simpa [Outline.hasError, Outline.hasErrorAll] using hclean

theorem reads_primaryPattern {depth : Nat}
    (hpattern : ∀ c, Reads (Rules.ofDepth depth).pattern c (Derives .pattern c)) :
    Reads (primaryPattern (.ofDepth depth)) c (Derives .primaryPattern c) := by
  refine reads_ifAt (fun hopen => reads_node ?_) fun _ => reads_typeOrRecordPattern hpattern
  refine leads_bump_bind hopen fun first hfirst => ?_
  exact leads_found_bind (hpattern first) fun last hderives => leads_expect.mono
    fun _ _ stop hclose => .parenthesized hfirst hderives hclose

theorem reads_pattern_next {depth : Nat}
    (hpattern : ∀ c, Reads (Rules.ofDepth depth).pattern c (Derives .pattern c)) :
    Reads (Grammar.pattern (.ofDepth depth)) c (Derives .pattern c) := by
  refine reads_bind fun primary hprimary => ?_
  obtain ⟨hparts, hderives⟩ := reads_primaryPattern hpattern primary hprimary
  refine ⟨hparts, reads_ifAt (fun hguard => reads_node ?_) fun _ => reads_pure fun hclean => ?_⟩
  · refine leads_put_bind fun hclean => leads_bump_bind hguard fun next hnext => ?_
    exact (leads_orReport (mayRead_binary depth next)).mono fun _ _ stop hcondition =>
      .guarded (hderives hclean) hnext hcondition
  · refine .plain (hderives ?_)
    simpa [Outline.hasError, Outline.hasErrorAll] using hclean

theorem reads_pattern (depth : Nat) (c : Cursor) :
    Reads (Rules.ofDepth depth).pattern c (Derives .pattern c) := by
  induction depth generalizing c with
  | zero => exact fun _ hrun => nomatch hrun
  | succ depth ih =>
      rw [Rules.ofDepth_succ]
      exact reads_pattern_next ih

theorem Modifiers.length_le (h : Modifiers c stop) : stop.rest.length ≤ c.rest.length := by
  obtain ⟨outline, hrun, -⟩ := h
  obtain ⟨found, last, hdeep, hmakes⟩ := finds_modifierList (c := c)
    (ready_ofDepth (5 * c.rest.length + 5)) .variableModifiers (by omega)
  cases hdeep.symm.trans hrun
  exact hmakes.2.length_le

theorem TypeName.length_lt (h : TypeName c stop) : stop.rest.length < c.rest.length := by
  obtain ⟨outline, hrun, -⟩ := h
  obtain ⟨found, last, hdeep, hanswers⟩ :=
    (ready_ofDepth (5 * c.rest.length + 5)).type .pattern c (by omega)
  cases hdeep.symm.trans hrun
  exact hanswers.2

theorem ConditionalAnd.length_lt (h : ConditionalAnd c stop) :
    stop.rest.length < c.rest.length := by
  obtain ⟨outline, hrun, -⟩ := h
  obtain ⟨found, last, hdeep, hanswers⟩ := (ready_ofDepth (5 * c.rest.length + 5)).binary
    guardLevel .terminator c (by omega)
  cases hdeep.symm.trans hrun
  exact hanswers.2

theorem Derives.length_lt {symbol : Nonterminal} (h : Derives symbol c stop) :
    stop.rest.length < c.rest.length := by
  induction h with
  | plain _ ih => exact ih
  | guarded _ hguard hcondition ih =>
      have := hguard.length_lt
      have := hcondition.length_lt
      omega
  | parenthesized hopen _ hclose ih =>
      have := hopen.length_lt
      have := hclose.length_lt
      omega
  | record hmodifiers htype _ ih =>
      have := hmodifiers.length_le
      have := htype.length_lt
      omega
  | namedRecord hmodifiers htype _ hname ih =>
      have := hmodifiers.length_le
      have := htype.length_lt
      have := hname.length_lt
      omega
  | typeTest hmodifiers htype hname =>
      have := hmodifiers.length_le
      have := htype.length_lt
      have := hname.length_lt
      omega
  | empty hopen hclose => exact hclose.length_lt.trans hopen.length_lt
  | bracketed hopen _ hclose ih =>
      have := hopen.length_lt
      have := hclose.length_lt
      omega
  | single _ ih => exact ih
  | cons _ hcomma _ ih ih' =>
      have := hcomma.length_lt
      omega

theorem Modifiers.eventually (h : Modifiers c stop) :
    ∃ outline, outline.hasError = false ∧
      Eventually fun r => modifierList r .variableModifiers c = .ok ⟨outline, [], stop⟩ := by
  obtain ⟨outline, hrun, hclean⟩ := h
  exact ⟨outline, hclean, .of_run (fun h => modifierList_refines h _) hrun⟩

theorem TypeName.eventually (h : TypeName c stop) :
    ∃ outline, outline.hasError = false ∧
      Eventually fun r => r.type .pattern c = .ok ⟨some outline, [], stop⟩ := by
  obtain ⟨outline, hrun, hclean⟩ := h
  exact ⟨outline, hclean, .of_run (fun h => h.type _) hrun⟩

theorem ConditionalAnd.eventually (h : ConditionalAnd c stop) :
    ∃ outline, outline.hasError = false ∧
      Eventually fun r =>
        r.binary guardLevel .terminator c = .ok ⟨some outline, [], stop⟩ := by
  obtain ⟨outline, hrun, hclean⟩ := h
  exact ⟨outline, hclean, .of_run (fun h => h.binary _ _) hrun⟩

theorem not_typeAhead (hnext : nextKind c = some .openParen ∨ nextKind c = some .closeParen ∨
    nextKind c = some .defaultKw) : ¬TypeAhead c := by
  rintro ⟨depth, modifiers, found, hmodifiers, hfound, hsome, -⟩
  obtain ⟨index, rest⟩ := c
  obtain ⟨depth, rfl⟩ : ∃ smaller, depth = smaller + 1 := by
    cases depth with
    | zero => cases hfound
    | succ depth => exact ⟨depth, rfl⟩
  have hstay : modifierList (.ofDepth (depth + 1)) .variableModifiers ⟨index, rest⟩ =
        .ok ⟨.node .modifierList [], [], ⟨index, rest⟩⟩ ∧
      (Rules.ofDepth (depth + 1)).type .pattern ⟨index, rest⟩ =
        .ok ⟨none, [], ⟨index, rest⟩⟩ := by
    rcases hnext with hnext | hnext | hnext
    · obtain ⟨glued, later, rfl⟩ := exists_of_nextKind hnext
      exact ⟨rfl, rfl⟩
    · obtain ⟨glued, later, rfl⟩ := exists_of_nextKind hnext
      exact ⟨rfl, rfl⟩
    · obtain ⟨glued, later, rfl⟩ := exists_of_nextKind hnext
      exact ⟨rfl, rfl⟩
  cases hstay.1.symm.trans hmodifiers
  cases hstay.2.symm.trans hfound
  cases hsome

theorem typeAhead_of_typeName (hmodifiers : Modifiers c mid) (htype : TypeName mid stop)
    (hnext : nextKind stop = some .ident ∨ nextKind stop = some .openParen) : TypeAhead c := by
  obtain ⟨modifiers, -, hmodifiers⟩ := hmodifiers.eventually
  obtain ⟨type, -, htype⟩ := htype.eventually
  obtain ⟨depth, h⟩ := hmodifiers.and htype
  obtain ⟨hmodifiers, htype⟩ := h depth (Nat.le_refl _)
  exact ⟨depth, _, _, hmodifiers, htype, rfl, hnext⟩

theorem patternAhead_of_typeAhead (h : TypeAhead c) : PatternAhead c := by
  have hopen : nextKind c ≠ some .openParen := fun hnext => not_typeAhead (.inl hnext) h
  exact patternAhead_iff.2 ⟨_, repeatWhile_of_false (eat_of_nextKind_ne hopen), h⟩

theorem patternAhead_of_passes (hopen : Passes .openParen c mid) (h : PatternAhead mid) :
    PatternAhead c := by
  obtain ⟨parens, hparens, htype⟩ := patternAhead_iff.1 h
  obtain ⟨index, glued, rest⟩ := hopen
  have hstep : (do if ← eat .openParen then return .yield () else return .done () :
      Grammar (ForInStep Unit)) ⟨index, ⟨.openParen, glued⟩ :: rest⟩ =
      .ok ⟨.yield (), [.token .openParen], ⟨index + 1, rest⟩⟩ := rfl
  exact patternAhead_iff.2 ⟨_, run_bind hstep hparens, htype⟩

/-- What the lookahead sees where something is derived. -/
def Begins : Nonterminal → Cursor → Prop
  | .recordStructure, c => nextKind c = some .openParen
  | _, c => PatternAhead c

theorem begins_of_derives {symbol : Nonterminal} (h : Derives symbol c stop) :
    Begins symbol c := by
  induction h with
  | plain _ ih => exact ih
  | guarded _ _ _ ih => exact ih
  | parenthesized hopen _ _ ih => exact patternAhead_of_passes hopen ih
  | record hmodifiers htype _ ih =>
      exact patternAhead_of_typeAhead (typeAhead_of_typeName hmodifiers htype (.inr ih))
  | namedRecord hmodifiers htype _ _ ih =>
      exact patternAhead_of_typeAhead (typeAhead_of_typeName hmodifiers htype (.inr ih))
  | typeTest hmodifiers htype hname =>
      exact patternAhead_of_typeAhead
        (typeAhead_of_typeName hmodifiers htype (.inl hname.nextKind_eq))
  | empty hopen _ => exact hopen.nextKind_eq
  | bracketed hopen _ _ _ => exact hopen.nextKind_eq
  | single _ ih => exact ih
  | cons _ _ _ ih _ => exact ih

theorem patternAhead_of_derives (h : Derives .pattern c stop) : PatternAhead c :=
  begins_of_derives h

theorem eventually_isPattern (h : PatternAhead c) :
    Eventually fun r => Grammar.isPattern r c = .ok ⟨true, [], c⟩ := by
  obtain ⟨depth, hrun⟩ := h
  exact .of_run (fun h => isPattern_refines h) hrun

theorem ne_closeParen_of_patternAhead (h : PatternAhead c) : nextKind c ≠ some .closeParen := by
  intro hclose
  have hopen : nextKind c ≠ some .openParen := by simp [hclose]
  exact not_typeAhead (.inr (.inl hclose)) (typeAhead_of_patternAhead h hopen)

theorem ne_defaultKw_of_patternAhead (h : PatternAhead c) : nextKind c ≠ some .defaultKw := by
  intro hdefault
  have hopen : nextKind c ≠ some .openParen := by simp [hdefault]
  exact not_typeAhead (.inr (.inr hdefault)) (typeAhead_of_patternAhead h hopen)

/-- From some depth on the rule answers with an outline without errors. -/
def Accepts (rule : Rules → Grammar Outline) (c stop : Cursor) : Prop :=
  ∃ outline, outline.hasError = false ∧
    Eventually fun r => rule r c = .ok ⟨outline, [], stop⟩

/-- What is read without an error where something is derived, if no token behind it could also
belong to it. -/
def Accepted : Nonterminal → Cursor → Cursor → Prop
  | .pattern, c, stop => nextKind stop ≠ some .ident → nextKind stop ≠ some .andAnd →
      Accepts (·.pattern) c stop
  | .primaryPattern, c, stop => nextKind stop ≠ some .ident → Accepts primaryPattern c stop
  | .recordStructure, c, stop => Accepts recordStructure c stop
  | .components, c, stop => nextKind stop = some .closeParen →
      ∃ parts, Outline.hasErrorAll parts = false ∧ Eventually fun r =>
        Loops (componentTurn r) true c false parts stop ∧
        ∀ here, Passes .comma here c →
          Loops (componentTurn r) false here false (.token .comma :: parts) stop

theorem run_component {outline : Outline} {isFirst : Bool} (hlt : mid.rest.length < c.rest.length)
    (hahead : isPattern r c = .ok ⟨true, [], c⟩) (hrun : r.pattern c = .ok ⟨outline, [], mid⟩) :
    component r isFirst c = .ok ⟨.yield false, [outline], mid⟩ := by
  refine run_look (a := c.rest.isEmpty) rfl ?_
  rw [if_neg fun hempty => by simp [List.isEmpty_iff.1 hempty] at hlt]
  exact run_look hahead (run_found_bind hrun rfl)

theorem loops_component {outline : Outline} {back : List Outline}
    (hlt : mid.rest.length < c.rest.length) (hclose : nextKind c ≠ some .closeParen)
    (hahead : isPattern r c = .ok ⟨true, [], c⟩) (hrun : r.pattern c = .ok ⟨outline, [], mid⟩)
    (hlater : Loops (componentTurn r) false mid false back stop) :
    Loops (componentTurn r) true c false (outline :: back) stop ∧
      ∀ here, Passes .comma here c →
        Loops (componentTurn r) false here false (.token .comma :: outline :: back) stop := by
  constructor
  · have hturn : componentTurn r true c = .ok ⟨.yield false, [outline], mid⟩ := by
      refine run_ifAt_neg hclose ?_
      exact run_component hlt hahead hrun
    exact .yield hturn hlt hlater
  · intro here hcomma
    have hturn : componentTurn r false here =
        .ok ⟨.yield false, [.token .comma, outline], mid⟩ := by
      refine run_ifAt_neg (by simp [hcomma.nextKind_eq]) ?_
      exact hcomma.expect_bind (run_component hlt hahead hrun)
    exact .yield hturn (hlt.trans hcomma.length_lt) hlater

theorem accepts_recordStructure {parts : List Outline} {last : Cursor} (isFirst : Bool)
    (hopen : Passes .openParen c mid) (hclose : Passes .closeParen last stop)
    (hclean : Outline.hasErrorAll parts = false)
    (hloops : Eventually fun r => Loops (componentTurn r) true mid isFirst parts last) :
    Accepts recordStructure c stop := by
  refine ⟨.node .recordStructurePattern (.token .openParen :: (parts ++ [.token .closeParen])),
    ?_, hloops.mono fun r hloops => ?_⟩
  · simp [Outline.hasError, Outline.hasErrorAll, hasErrorAll_append, hclean]
  · exact run_node (hopen.bump_bind (run_bind hloops.iterate hclose.expect))

theorem accepts_record {modifiers type record : Outline} {next : Cursor}
    {names : List Outline} (hmodifiers : modifiers.hasError = false)
    (htype : type.hasError = false) (hrecord : record.hasError = false)
    (hnames : Outline.hasErrorAll names = false) (hahead : TypeAhead c)
    (hopen : nextKind next = some .openParen) {last : Cursor}
    (hruns : Eventually fun r =>
      modifierList r .variableModifiers c = .ok ⟨modifiers, [], mid⟩ ∧
      r.type .pattern mid = .ok ⟨some type, [], next⟩ ∧
      recordStructure r next = .ok ⟨record, [], last⟩)
    (hname : recordName last = .ok ⟨(), names, stop⟩) :
    Accepts primaryPattern c stop := by
  refine ⟨.node .recordPattern [.loose (modifiers :: type :: record :: names)], ?_,
    hruns.mono fun r hruns => ?_⟩
  · simp [Outline.hasError, Outline.hasErrorAll, hmodifiers, htype, hrecord, hnames]
  · obtain ⟨hmodifiers, htype, hrecord⟩ := hruns
    refine run_ifAt_neg (fun hnext => not_typeAhead (.inl hnext) hahead) ?_
    refine run_look hmodifiers (run_look htype (run_ifAt_pos hopen ?_))
    refine run_look (run_capture (run_put_bind (run_put_bind (run_found_bind hrecord hname)))) rfl

theorem accepted_of_derives {symbol : Nonterminal} (h : Derives symbol c stop) :
    Accepted symbol c stop := by
  induction h with
  | plain _ ih =>
      intro hident hguard
      obtain ⟨outline, hclean, hruns⟩ := ih hident
      refine ⟨.loose [outline], ?_, .next (hruns.mono fun r hrun => ?_)⟩
      · simp [Outline.hasError, Outline.hasErrorAll, hclean]
      · exact run_look hrun (run_ifAt_neg hguard rfl)
  | guarded _ hguard hcondition ih =>
      intro _ _
      obtain ⟨outline, hclean, hruns⟩ := ih (by simp [hguard.nextKind_eq])
      obtain ⟨condition, hclean', hruns'⟩ := hcondition.eventually
      refine ⟨.node .guardedPattern [outline, .token .andAnd, condition], ?_,
        .next ((hruns.and hruns').mono fun r ⟨hrun, hrun'⟩ => ?_)⟩
      · simp [Outline.hasError, Outline.hasErrorAll, hclean, hclean']
      · refine run_look hrun (run_ifAt_pos hguard.nextKind_eq (run_node (run_put_bind ?_)))
        exact hguard.bump_bind (run_orReport hrun')
  | parenthesized hopen _ hclose ih =>
      intro _
      obtain ⟨outline, hclean, hruns⟩ := ih (by simp [hclose.nextKind_eq])
        (by simp [hclose.nextKind_eq])
      refine ⟨.node .parenthesizedPattern [.token .openParen, outline, .token .closeParen], ?_,
        hruns.mono fun r hrun => ?_⟩
      · simp [Outline.hasError, Outline.hasErrorAll, hclean]
      · exact run_ifAt_pos hopen.nextKind_eq (run_node (hopen.bump_bind
          (run_found_bind hrun hclose.expect)))
  | record hmodifiers htype hrecord ih =>
      intro hident
      have hopen := begins_of_derives hrecord
      have hahead := typeAhead_of_typeName hmodifiers htype (.inr hopen)
      obtain ⟨modifiers, hclean, hmodifiers⟩ := hmodifiers.eventually
      obtain ⟨type, hclean', htype⟩ := htype.eventually
      obtain ⟨record, hclean'', hrecord⟩ := ih
      exact accepts_record hclean hclean' hclean'' rfl hahead hopen
        (hmodifiers.and (htype.and hrecord)) (run_ifAt_neg hident rfl)
  | namedRecord hmodifiers htype hrecord hname ih =>
      intro _
      have hopen := begins_of_derives hrecord
      have hahead := typeAhead_of_typeName hmodifiers htype (.inr hopen)
      obtain ⟨modifiers, hclean, hmodifiers⟩ := hmodifiers.eventually
      obtain ⟨type, hclean', htype⟩ := htype.eventually
      obtain ⟨record, hclean'', hrecord⟩ := ih
      exact accepts_record hclean hclean' hclean'' rfl hahead hopen
        (hmodifiers.and (htype.and hrecord))
        (run_ifAt_pos hname.nextKind_eq (run_found (run_node hname.bump)))
  | typeTest hmodifiers htype hname =>
      intro _
      have hahead := typeAhead_of_typeName hmodifiers htype (.inl hname.nextKind_eq)
      obtain ⟨modifiers, hclean, hmodifiers⟩ := hmodifiers.eventually
      obtain ⟨type, hclean', htype⟩ := htype.eventually
      refine ⟨.node .typeTestPattern [.node .patternVariable [modifiers, type, .token .ident]], ?_,
        (hmodifiers.and htype).mono fun r ⟨hmodifiers, htype⟩ => ?_⟩
      · simp [Outline.hasError, Outline.hasErrorAll, hclean, hclean']
      · refine run_ifAt_neg (fun hnext => not_typeAhead (.inl hnext) hahead) ?_
        refine run_look hmodifiers (run_look htype (run_ifAt_neg (by simp [hname.nextKind_eq])
          (run_ifAt_pos hname.nextKind_eq ?_)))
        exact run_look (run_node (run_put_bind (run_put_bind hname.bump))) rfl
  | empty hopen hclose =>
      have hloops : Eventually fun r => Loops (componentTurn r) true _ true [] _ :=
        ⟨0, fun _ _ => .done (run_ifAt_pos hclose.nextKind_eq rfl)⟩
      exact accepts_recordStructure true hopen hclose rfl hloops
  | bracketed hopen _ hclose ih =>
      obtain ⟨parts, hclean, hloops⟩ := ih hclose.nextKind_eq
      exact accepts_recordStructure false hopen hclose hclean (hloops.mono fun r hloops => hloops.1)
  | single hpattern ih =>
      intro hclose
      have hahead := patternAhead_of_derives hpattern
      obtain ⟨outline, hclean, hruns⟩ := ih (by simp [hclose]) (by simp [hclose])
      refine ⟨[outline], by simp [Outline.hasErrorAll, hclean],
        (hruns.and (eventually_isPattern hahead)).mono fun r ⟨hrun, hahead'⟩ => ?_⟩
      exact loops_component hpattern.length_lt (ne_closeParen_of_patternAhead hahead) hahead' hrun
        (.done (run_ifAt_pos hclose rfl))
  | cons hpattern hcomma _ ih ih' =>
      intro hclose
      have hahead := patternAhead_of_derives hpattern
      obtain ⟨outline, hclean, hruns⟩ := ih (by simp [hcomma.nextKind_eq])
        (by simp [hcomma.nextKind_eq])
      obtain ⟨parts, hclean', hloops⟩ := ih' hclose
      refine ⟨outline :: .token .comma :: parts,
        by simp [Outline.hasErrorAll, Outline.hasError, hclean, hclean'],
        ((hruns.and (eventually_isPattern hahead)).and hloops).mono
          fun r ⟨⟨hrun, hahead'⟩, _, hlater⟩ => ?_⟩
      exact loops_component hpattern.length_lt (ne_closeParen_of_patternAhead hahead) hahead' hrun
        (hlater _ hcomma)

theorem leads_subject (depth : Nat) :
    Leads (Grammar.subject (.ofDepth depth) .pattern) c fun _ stop => Derives .pattern c stop := by
  refine leads_bind (P := fun _ next => next = c) ?_ fun answer next heq => ?_
  · exact fun done hrun hclean => (clean_lookahead done hrun hclean).2.2
  · subst heq
    split
    · exact leads_found (reads_pattern depth _)
    · exact (after_put_node (P := False) after_report_bind).mono fun _ _ _ h => h.elim

theorem reads_document (depth : Nat) :
    Reads (document (.ofDepth depth) .pattern) c fun _ =>
      ∃ stop, stop.rest = [] ∧ Derives .pattern c stop := by
  refine reads_node (leads_capture_bind (leads_subject depth) fun _ parts mid hderives =>
    leads_putAll_bind fun hclean => ?_)
  exact (after_documentTail hclean).mono fun _ _ _ hrest => ⟨mid, hrest.2, hderives hclean⟩

theorem document_of_derives (h : Derives .pattern c stop) (hstop : stop.rest = [])
    {depth : Nat} (hroom : 5 * c.rest.length + 5 ≤ depth) :
    ∃ outline, outline.hasError = false ∧
      document (.ofDepth depth) .pattern c = .ok ⟨.node .root [outline], [], stop⟩ := by
  have hready := ready_ofDepth depth
  have hahead := patternAhead_of_derives h
  have hnext : nextKind stop = none := by simp [nextKind, hstop]
  obtain ⟨outline, hclean, hruns⟩ := accepted_of_derives h (by simp [hnext]) (by simp [hnext])
  obtain ⟨_, _, hisPattern, -⟩ := finds_isPattern hready (c := c) (by omega)
  obtain ⟨_, _, hpattern, -⟩ := hready.pattern c hahead (by omega)
  cases (eventually_isPattern hahead).eq_of_run (fun h => isPattern_refines h) hisPattern
  cases hruns.eq_of_run (fun h => h.pattern) hpattern
  exact ⟨outline, hclean, run_document (run_look hisPattern (run_found hpattern)) hstop⟩

theorem hasErrorAll_eq_false_iff_derives {text : String} (a : Account .pattern text) :
    Outline.hasErrorAll a.parts = false ↔
      ∃ stop, stop.rest = [] ∧ Derives .pattern (origin text) stop := by
  obtain ⟨stop, hrun⟩ := exists_run a
  constructor
  · exact (reads_document _ _ hrun).2
  · rintro ⟨last, hend, hderives⟩
    obtain ⟨outline, hclean, hrun'⟩ := document_of_derives hderives hend (Nat.le_refl _)
    have hparts := Except.ok.inj (hrun.symm.trans hrun')
    simp only [Parsed.mk.injEq, Outline.node.injEq, true_and] at hparts
    rw [hparts.1, Outline.hasErrorAll, hclean]
    rfl

/-- A text is taken for a pattern without an error if and only if the grammar of patterns derives
all of its significant tokens. -/
theorem errors_eq_nil_iff_derives (text : String) :
    ∃ parse, Parse.ofText .pattern text = .ok parse ∧
      (parse.errors = [] ↔ ∃ stop, stop.rest = [] ∧ Derives .pattern (origin text) stop) := by
  obtain ⟨a, hparse⟩ := exists_account .pattern text
  exact ⟨a.parse, hparse, (errors_eq_nil_iff a).trans (hasErrorAll_eq_false_iff_derives a)⟩

end PatternSyntax.Proofs.PatternGrammar
