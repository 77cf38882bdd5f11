import PatternSyntax.Proofs.Copies
import PatternSyntax.Proofs.Embedding
import PatternSyntax.Proofs.Labels
import PatternSyntax.Proofs.Complete
import PatternSyntax.Proofs.TandemOperators

/-!
A pattern means the same wherever it stands: as a text of its own, as the element of a label, and
behind `instanceof`. What comes behind it in the last two places ends it as the end of a text does.
-/

namespace PatternSyntax.Proofs.PatternUses

open Grammar
open PatternSyntax.Proofs.Blanks
open PatternSyntax.Proofs.CleanDocument
open PatternSyntax.Proofs.Marks
open PatternSyntax.Proofs.CleanRules
open PatternSyntax.Proofs.CleanRuns
open PatternSyntax.Proofs.Complete
open PatternSyntax.Proofs.Contract
open PatternSyntax.Proofs.Copies
open PatternSyntax.Proofs.Coverage
open PatternSyntax.Proofs.Depth
open PatternSyntax.Proofs.Embedding
open PatternSyntax.Proofs.Endings
open PatternSyntax.Proofs.ExpressionRuns
open PatternSyntax.Proofs.Forward
open PatternSyntax.Proofs.Labels
open PatternSyntax.Proofs.Leftovers
open PatternSyntax.Proofs.NeatTrees
open PatternSyntax.Proofs.Neatness
open PatternSyntax.Proofs.Operands
open PatternSyntax.Proofs.Parentheses
open PatternSyntax.Proofs.PatternGrammar
open PatternSyntax.Proofs.Precedence
open PatternSyntax.Proofs.Runs
open PatternSyntax.Proofs.Scanning
open PatternSyntax.Proofs.Shapes
open PatternSyntax.Proofs.Speculation
open PatternSyntax.Proofs.Spelling
open PatternSyntax.Proofs.Tandem
open PatternSyntax.Proofs.Terminals
open PatternSyntax.Proofs.Totality
open PatternSyntax.Proofs.Weave

variable {r : Rules} {c c' mid stop : Cursor} {depth : Nat} {pattern : Outline}
  {back : List Terminal}

theorem pattern_cases {done : Parsed Outline} (h : Grammar.pattern r c = .ok done) :
    (∃ primary, primaryPattern r c = .ok ⟨primary, done.parts, done.cursor⟩ ∧
      done.value = .loose [primary]) ∨ ∃ row, done.value = .node .guardedPattern row := by
  obtain ⟨primary, later, hprimary, hlater, rfl⟩ := exists_of_bind_ok h
  obtain ⟨found, last, hfound, hlast, rfl⟩ := exists_of_bind_ok hlater
  cases hfound
  dsimp only at hlast
  split at hlast
  · obtain ⟨captured, made, hcaptured, hmade, rfl⟩ := exists_of_bind_ok hlast
    cases hmade
    exact .inr ⟨_, rfl⟩
  · cases hlast
    exact .inl ⟨primary.value, by rw [hprimary]; simp, rfl⟩

/-- A pattern that is read up to the end of a text is read as well where one of the tokens stands
behind it that end a label. -/
theorem pattern_runs (hrun : (Rules.ofDepth depth).pattern c = .ok ⟨pattern, [], stop⟩)
    (hfair : Fair pattern) (hstop : stop.rest = []) (hback : Tail back)
    (hrest : c'.rest = c.rest ++ back) :
    PatternAhead c' ∧ ∃ stop', stop'.rest = back ∧
      Eventually fun r => r.pattern c' = .ok ⟨pattern, [], stop'⟩ := by
  let ends : Ends := ⟨[], back, .nil, hback⟩
  let deep := max depth (5 * c'.rest.length + 5)
  have htwins : Twins ends c.rest c c' := ⟨(List.append_nil _).symm, hrest⟩
  have hdeep : RulesRefine (.ofDepth depth) (.ofDepth deep) := ofDepth_refines (Nat.le_max_left ..)
  have hroom : 5 * c'.rest.length + 5 ≤ deep := Nat.le_max_right ..
  have hsound : Sound Fair (⟨pattern, [], stop⟩ : Parsed Outline) := ⟨fairAll_nil, hfair⟩
  -- Without what the lookahead asks for, the run would have put down an error.
  have hasks : Asks (.ofDepth depth) c := by
    by_contra h
    exact (inTandem_ofDepth depth).asks c h _ hrun hsound
  obtain ⟨seen, hseen, hsees⟩ := asks_of_refines hdeep hasks
  obtain ⟨seen', hseen', -⟩ := lays_probe (c := c') (ready_ofDepth deep) (by omega)
  obtain ⟨-, -, hvalue, -⟩ := (tracks_probe (inTandem_ofDepth deep)).same htwins hseen hseen' hsees
  have hahead : PatternAhead c' := by
    refine ⟨deep, ?_⟩
    have hanswer : seen'.value = true := hvalue.trans hsees.value
    rw [← hanswer, isPattern, lookahead, hseen']
  obtain ⟨pattern', stop', hrun', -⟩ := (ready_ofDepth deep).pattern c' hahead (by omega)
  obtain ⟨front, hends, hsame, -⟩ := ((inTandem_ofDepth deep).pattern ends c.rest).same htwins
    (hdeep.pattern c _ hrun) hrun' hsound
  obtain rfl : front = [] := by
    have hleft : stop.rest = front ++ [] := hends.left
    rwa [List.append_nil, hstop, eq_comm] at hleft
  obtain rfl : pattern' = pattern := hsame
  exact ⟨hahead, stop', hends.right, .of_run (fun h => h.pattern) hrun'⟩

theorem primaryPattern_runs {primary : Outline}
    (h : Eventually fun r => r.pattern c = .ok ⟨.loose [primary], [], stop⟩) :
    Eventually fun r => primaryPattern r c = .ok ⟨primary, [], stop⟩ := by
  obtain ⟨depth, h⟩ := h
  have hrun : Grammar.pattern (.ofDepth depth) c = .ok ⟨.loose [primary], [], stop⟩ :=
    h (depth + 1) (Nat.le_succ _)
  rcases pattern_cases hrun with ⟨_, hprimary, heq⟩ | ⟨_, heq⟩
  · cases heq
    exact .of_run (fun h => primaryPattern_refines h) hprimary
  · cases heq

theorem label_runs {terminator : Terminator} (hcase : Passes .caseKw c c')
    (hahead : PatternAhead c')
    (hpattern : Eventually fun r => r.pattern c' = .ok ⟨pattern, [], mid⟩)
    (hend : Passes terminator.kind mid stop) :
    Eventually fun r => switchLabel r c = .ok ⟨some (.node .switchLabel [.token .caseKw,
      .node .caseLabelElementList [pattern], .token terminator.kind]), [], stop⟩ := by
  refine ((eventually_isPattern hahead).and hpattern).mono fun r ⟨hlook, hrun⟩ => ?_
  have helement : labelElement r c' = .ok ⟨true, [pattern], mid⟩ :=
    run_ifAt_neg (ne_defaultKw_of_patternAhead hahead)
      (run_look hlook (run_found_bind hrun rfl))
  have hcomma : nextKind mid ≠ some .comma := by
    rw [hend.nextKind_eq]
    cases terminator with
    | _ => decide
  have hloops : Loops (again (elementTurn r)) () c' () [pattern] mid :=
    .done (run_again_done (run_bind helement (eat_of_nextKind_ne hcomma)))
  refine run_look (a := nextKind c) rfl ?_
  rw [hcase.nextKind_eq]
  exact run_some (run_node (hcase.bump_bind (run_found_bind (run_labelElements hloops)
    (run_labelEnd hend))))

theorem instanceof_runs {primary : Outline} (hname : Passes .ident c mid)
    (hinstanceof : Passes .instanceofKw mid c') (hahead : PatternAhead c')
    (hpattern : Eventually fun r => r.pattern c' = .ok ⟨.loose [primary], [], stop⟩)
    (hstop : stop.rest = []) :
    Eventually fun r => r.expression c = .ok ⟨some (.around .instanceofExpression
      (.node .referenceExpression [.token .ident]) [.token .instanceofKw, primary]), [], stop⟩ := by
  have hnext := hinstanceof.nextKind_eq
  have hlt : stop.rest.length < mid.rest.length := by
    have := hinstanceof.length_lt
    rw [hstop]
    exact Nat.zero_lt_of_lt this
  have hlambda : isLambda c.rest = false := by
    cases hname
    cases hinstanceof
    rfl
  have hoperand (r : Rules) : operand r c =
      .ok ⟨some (.node .referenceExpression [.token .ident]), [], mid⟩ :=
    run_operand_word hname (by decide)
  have hunary : Eventually fun r => r.unary .lambda c =
      .ok ⟨some (.node .referenceExpression [.token .ident]), [], mid⟩ :=
    .next (.of_forall fun r => run_unary_plain hname.nextKind_eq (by decide) (by rintro ⟨⟩)
      (run_postfixOperand (.of_run (run_primary (fun _ => hlambda) (.of_run (hoperand r))
        (by rw [hnext]; decide))) (by rw [hnext]; decide)))
  have hprimary := primaryPattern_runs hpattern
  have hturn : Eventually fun r => binaryTurn r 0 .lambda
      (.node .referenceExpression [.token .ident]) mid = .ok ⟨.yield (.around
        .instanceofExpression (.node .referenceExpression [.token .ident])
        [.token .instanceofKw, primary]), [], stop⟩ := by
    refine ((eventually_isPattern hahead).and hprimary).mono fun r hruns => ?_
    obtain ⟨hlook, hrun⟩ := hruns
    refine run_look (a := mid.rest) rfl ?_
    rw [ofTerminals?_of_passes hinstanceof]
    exact run_ifAt_pos hnext (run_look (run_around (hinstanceof.bump_bind
      (run_look hlook (run_found hrun)))) rfl)
  have hbinary : Eventually fun r => r.binary 0 .lambda c = .ok ⟨some (.around .instanceofExpression
      (.node .referenceExpression [.token .ident]) [.token .instanceofKw, primary]), [], stop⟩ :=
    .next ((hunary.and hturn).mono fun r hruns =>
      run_binary ((Grows.of_run hruns.1).snoc hruns.2 hlt) (by rw [hstop]; rintro _ ⟨⟩))
  exact .next (hbinary.mono fun r hrun =>
    run_conditional_plain hrun (by rw [nextKind, hstop]; rintro ⟨⟩))

theorem rest_origin (text : String) :
    (origin text).rest = terminals (Token.lexemes text.toList) :=
  ofTokens_significant_place (fun _ hmem => ne_nil_of_mem_lexemes hmem) 0

/-- How the token that ends a label is written. -/
def terminatorText : Terminator → String
  | .colon => ":"
  | .arrow => "->"

theorem lexemes_label (terminator : Terminator) {text : String}
    (hends : EndsWithLine text.toList) (hsolid : text.toList.dropWhile Text.isBlank ≠ []) :
    ∃ lead front trail lead',
      Token.lexemes text.toList = blankPiece lead ++ (front ++ blankPiece trail) ∧
      Token.lexemes ("case " ++ text ++ "\n" ++ terminatorText terminator).toList =
        (.caseKw, "case".toList) :: (.whitespace, lead') :: (front ++
          [(.whitespace, trail ++ ['\n']),
            (terminator.kind, (terminatorText terminator).toList)]) := by
  have hcase : IsWord .caseKw "case" := isWord_spelling rfl
  have hword : IsWord terminator.kind (terminatorText terminator) := by
    cases terminator with
    | _ => exact isWord_spelling rfl
  obtain ⟨next, later, hchars, hnext⟩ : ∃ next later,
      (terminatorText terminator).toList = next :: later ∧ Text.isBlank next = false := by
    cases terminator with
    | _ => exact ⟨_, _, rfl, by decide⟩
  obtain ⟨lead, front, trail, lead', hlexemes, hlabel⟩ :=
    lexemes_between hcase hnext later hends hsolid
  refine ⟨lead, front, trail, lead', hlexemes, ?_⟩
  rw [← hchars, hword.2] at hlabel
  rw [← hlabel]
  simp

theorem endsWithLine_of_account {s : Subject} {text : String} (a : Account s text)
    (hneat : Neat a.parts) : EndsWithLine text.toList := by
  intro piece hpiece
  have hlast : ∀ kind, kind.isTrivia = false → piece.1 = kind →
      kind ∈ (Outline.tokensAll a.parts).getLast? := by
    rintro kind hkind rfl
    obtain ⟨front, hlexemes⟩ := List.getLast?_eq_some_iff.1 hpiece
    obtain ⟨next, htokens⟩ := place_append 0 front [piece]
    rw [tokensAll_of_account, Token.tokenize, hlexemes, htokens, significant_append,
      Token.place, Token.place, significant_cons hkind, List.map_append]
    exact List.getLast?_concat
  constructor
  · intro hkind
    exact (plain_of_mem_getLast?_all a.parts hneat (hlast _ rfl hkind)).2.2 rfl
  · intro hkind
    exact (plain_of_mem_getLast?_all a.parts hneat (hlast _ rfl hkind)).2.1 rfl

theorem exists_token_of_weaves {i j : Nat} {tokens rest : List Token} {kind : TokenKind}
    {trees : List Tree} (h : Weaves i tokens [.token kind] trees j rest) :
    ∃ blanks last, tokens = blanks ++ last :: rest ∧
      (∀ token ∈ blanks, token.kind.isTrivia = true) ∧ last.kind = kind ∧
      trees = blanks.map leafOf ++ [leafOf last] := by
  generalize hrow : [Outline.token kind] = row at h
  induction h with
  | nil => cases hrow
  | @trivia _ _ token _ _ _ _ htrivia _ _ ih =>
      obtain ⟨blanks, last, rfl, hblanks, hlast, rfl⟩ := ih hrow
      exact ⟨token :: blanks, last, rfl, List.forall_mem_cons.2 ⟨htrivia, hblanks⟩, hlast, rfl⟩
  | token _ hlater =>
      cases hrow
      obtain rfl := eq_nil_of_weaves_nil hlater
      obtain ⟨-, rfl, -⟩ := hlater.of_trees_eq_nil rfl
      exact ⟨[], _, rfl, nofun, rfl, rfl⟩
  | error => cases hrow
  | node => cases hrow
  | around => cases hrow
  | loose => cases hrow

/-- Where a significant token comes next, there are no blanks and comments before it. -/
theorem eq_nil_of_atSignificant {blanks later : List Token}
    (hblanks : ∀ token ∈ blanks, token.kind.isTrivia = true)
    (hat : AtSignificant (blanks ++ later)) : blanks = [] := by
  cases blanks with
  | nil => rfl
  | cons token blanks => simpa [hat token rfl] using hblanks token List.mem_cons_self

/-- The tree of a label with a single element. -/
def labelTree (before behind : List Token) (terminator : Terminator) (element : Tree) : Tree :=
  .node (.node .switchLabel) (.leaf .caseKw "case" :: (before.map leafOf ++
    .node (.node .caseLabelElementList) [element] ::
      (behind.map leafOf ++ [.leaf terminator.kind (terminatorText terminator)])))

/-- The tree of a name that is tested. -/
def testTree (before behind : List Token) (tested : Tree) : Tree :=
  .node (.node .instanceofExpression)
    (.node (.node .referenceExpression) [.leaf .ident "o"] :: (before.map leafOf ++
      .leaf .instanceofKw "instanceof" :: (behind.map leafOf ++ [tested])))

section Inversion

variable {i j : Nat} {first : Token} {tokens rest : List Token} {trees : List Tree}
  (hnode : IsNode pattern ∨ ∃ inner, pattern = .loose [inner] ∧ IsNode inner)

include hnode

theorem exists_element_of_weaves {kind : TokenKind} (hfirst : first.kind = .caseKw)
    (h : Weaves i (first :: tokens) [.node .switchLabel [.token .caseKw,
      .node .caseLabelElementList [pattern], .token kind]] trees j rest) :
    ∃ before later made children behind last mid,
      (∀ token ∈ before ++ behind, token.kind.isTrivia = true) ∧ tokens = before ++ later ∧
      AtSignificant later ∧ last.kind = kind ∧
      trees = [.node (.node .switchLabel) (leafOf first :: (before.map leafOf ++
        .node (.node .caseLabelElementList) [.node (.node made) children] ::
          (behind.map leafOf ++ [leafOf last])))] ∧
      Weaves (i + 1) later [pattern] [.node (.node made) children] mid
        (behind ++ last :: rest) := by
  have hat : AtSignificant (first :: tokens) := by
    rintro _ ⟨⟩
    rw [hfirst]
    rfl
  obtain ⟨inner, more, _, _, rfl, hinner, hmore⟩ := exists_of_node hat h
  obtain rfl := eq_nil_of_weaves_nil hmore
  obtain ⟨-, rfl, -⟩ := hmore.of_trees_eq_nil rfl
  obtain ⟨_, _, row, heq, rfl, hrow⟩ := exists_of_token hat hinner
  obtain ⟨rfl, rfl⟩ := List.cons.inj heq
  rw [← List.singleton_append] at hrow
  obtain ⟨front, back, mid, later, rfl, hfront, hback⟩ := hrow.split
  obtain ⟨before, behind, elements, rfl, hbefore, hbehind, rfl, helements⟩ :=
    exists_node_of_weaves hfront
  obtain ⟨blanks, start, made, children, rfl, hblanks, hstart, rfl, hmade⟩ :=
    single_of_weaves hnode helements
  obtain ⟨between, last, rfl, hbetween, hlast, rfl⟩ := exists_token_of_weaves hback
  obtain rfl := eq_nil_of_atSignificant hblanks hbehind
  refine ⟨before, start, made, children, between, last, _, List.forall_mem_append.2
    ⟨hbefore, hbetween⟩, rfl, hstart, hlast, ?_, hmade⟩
  simp

theorem exists_tested_of_weaves (hfirst : first.kind = .ident)
    (h : Weaves i (first :: tokens) [.around .instanceofExpression
      (.node .referenceExpression [.token .ident]) [.token .instanceofKw, pattern]] trees j rest) :
    ∃ before later made children behind test mid,
      (∀ token ∈ before ++ behind, token.kind.isTrivia = true) ∧
      tokens = before ++ test :: (behind ++ later) ∧ AtSignificant later ∧
      test.kind = .instanceofKw ∧
      trees = [.node (.node .instanceofExpression)
        (.node (.node .referenceExpression) [leafOf first] :: (before.map leafOf ++
          leafOf test :: (behind.map leafOf ++ [.node (.node made) children])))] ∧
      Weaves mid later [pattern] [.node (.node made) children] j rest := by
  have hat : AtSignificant (first :: tokens) := by
    rintro _ ⟨⟩
    rw [hfirst]
    rfl
  obtain ⟨head, row, more, _, _, _, _, rfl, hhead, hrow, hmore⟩ := exists_of_around hat h
  obtain rfl := eq_nil_of_weaves_nil hmore
  obtain ⟨rfl, rfl, -⟩ := hmore.of_trees_eq_nil rfl
  obtain ⟨name, more, _, _, hname, hleaf, hmore⟩ := exists_of_node hat hhead
  obtain rfl := eq_nil_of_weaves_nil hmore
  obtain ⟨-, rfl, -⟩ := hmore.of_trees_eq_nil rfl
  cases List.singleton_inj.1 hname
  obtain ⟨_, _, more, heq, rfl, hmore⟩ := exists_of_token hat hleaf
  obtain rfl := eq_nil_of_weaves_nil hmore
  obtain ⟨-, rfl, -⟩ := hmore.of_trees_eq_nil rfl
  obtain ⟨rfl, rfl⟩ := List.cons.inj heq
  rw [← List.singleton_append] at hrow
  obtain ⟨front, back, mid, later, rfl, hfront, hback⟩ := hrow.split
  obtain ⟨before, test, rfl, hbefore, htest, rfl⟩ := exists_token_of_weaves hfront
  obtain ⟨behind, start, made, children, rfl, hbehind, hstart, rfl, hmade⟩ :=
    single_of_weaves hnode hback
  refine ⟨before, start, made, children, behind, test, mid, List.forall_mem_append.2
    ⟨hbefore, hbehind⟩, rfl, hstart, htest, ?_, hmade⟩
  simp

end Inversion

/-- A text that is read as a pattern without an error, and in which the parentheses in blocks are
balanced. -/
structure Reads (text : String) (a : Account .pattern text) (pattern : Outline) : Prop where
  parts : a.parts = [pattern]
  laid : Laid pattern
  fair : Fair pattern
  neat : Neat a.parts
  runs : ∃ depth stop, (Rules.ofDepth depth).pattern (origin text) = .ok ⟨pattern, [], stop⟩ ∧
    stop.rest = []

theorem exists_run_pattern {text : String} (a : Account .pattern text)
    (hclean : Outline.hasErrorAll a.parts = false) :
    ∃ pattern, a.parts = [pattern] ∧ ∃ depth stop,
      (Rules.ofDepth depth).pattern (origin text) = .ok ⟨pattern, [], stop⟩ ∧ stop.rest = [] := by
  obtain ⟨inner, hrun, hrest, -, hparts⟩ :=
    exists_whole_subject a ((hasErrorAll_eq_false_iff _).1 hclean)
  rw [hparts] at hclean ⊢
  obtain ⟨answer, mid, hlook, rfl, hahead⟩ :=
    finds_isPattern (c := origin text) (ready_ofDepth (5 * (origin text).rest.length + 5))
      (by omega)
  obtain ⟨looked, later, hlooked, hlater, rfl⟩ := exists_of_bind_ok hrun
  cases hlook.symm.trans hlooked
  cases answer with
  | false => exact (after_put_node (P := False) after_report_bind later hlater hclean).elim
  | true =>
      obtain ⟨pattern, stop, hpattern, -⟩ :=
        (ready_ofDepth (5 * (origin text).rest.length + 5)).pattern (origin text) (hahead rfl)
          (by omega)
      have hput : (do put (← (Rules.ofDepth (5 * (origin text).rest.length + 5)).pattern) :
          Grammar Unit) (origin text) = .ok ⟨(), [pattern], stop⟩ := run_found hpattern
      cases hput.symm.trans hlater
      exact ⟨pattern, rfl, _, stop, hpattern, hrest⟩

theorem exists_reads {text : String} (a : Account .pattern text) (herrors : a.parse.errors = [])
    (heven : evenBlocksAll (shape a.parse.tree) = true) : ∃ pattern, Reads text a pattern := by
  have hclean := (errors_eq_nil_iff a).1 herrors
  obtain ⟨outline, hparts, hlaid⟩ := single_of_outline a.outline_eq hclean
  obtain ⟨pattern, hpattern, hruns⟩ := exists_run_pattern a hclean
  obtain rfl := List.singleton_inj.1 (hparts.symm.trans hpattern)
  rw [shape_parse, hparts] at heven
  rw [hparts, Outline.hasErrorAll, Bool.or_eq_false_iff] at hclean
  have hinner := (evenBlocks_node heven).2
  rw [outlinedAll, outlinedAll, List.append_nil] at hinner
  refine ⟨outline, hparts, hlaid, ⟨hclean.1, hinner⟩, ?_, hruns⟩
  rw [hparts]
  exact ⟨hlaid.2 hclean.1, trivial⟩

theorem exists_solid_of_account {s : Subject} {text : String} (a : Account s text)
    (hclean : marksAll a.parts = []) :
    ∃ piece ∈ Token.lexemes text.toList, piece.1.isTrivia = false := by
  obtain ⟨front, last, htokens, hlast⟩ :=
    endsAt_of_weaves a.weaves hclean (endedAll_of_account a hclean)
  have hmem : last.kind ∈ (Token.tokenize text).map (·.kind) := by
    rw [htokens]
    simp
  rw [Token.tokenize, map_kind_place, List.mem_map] at hmem
  obtain ⟨piece, hpiece, hkind⟩ := hmem
  exact ⟨piece, hpiece, hkind ▸ hlast⟩

theorem exists_token_of_piece {pieces : List (TokenKind × List Char)}
    (h : ∃ piece ∈ pieces, piece.1.isTrivia = false) (start : Nat) :
    ∃ token ∈ Token.place start pieces, token.kind.isTrivia = false := by
  obtain ⟨piece, hpiece, hsolid⟩ := h
  have hmem := List.mem_map_of_mem (f := (·.1)) hpiece
  rw [← map_kind_place start, List.mem_map] at hmem
  obtain ⟨token, htoken, hkind⟩ := hmem
  exact ⟨token, htoken, hkind ▸ hsolid⟩

theorem isTrivia_of_mem_place {start : Nat} {blanks : List Char} {token : Token}
    (hmem : token ∈ Token.place start (blankPiece blanks)) : token.kind.isTrivia = true := by
  have hkind := List.mem_map_of_mem (f := (·.kind)) hmem
  rw [map_kind_place, List.mem_map] at hkind
  obtain ⟨piece, hpiece, heq⟩ := hkind
  exact heq ▸ isTrivia_of_mem_blankPiece hpiece

theorem exists_tokens_of_lexemes {text : String} {lead trail : List Char}
    {front : List (TokenKind × List Char)}
    (h : Token.lexemes text.toList = blankPiece lead ++ (front ++ blankPiece trail)) :
    ∃ blanks start next, Token.tokenize text =
        blanks ++ (Token.place start front ++ Token.place next (blankPiece trail)) ∧
      ∀ token ∈ blanks, token.kind.isTrivia = true := by
  obtain ⟨start, hlead⟩ := place_append 0 (blankPiece lead) (front ++ blankPiece trail)
  obtain ⟨next, hfront⟩ := place_append start front (blankPiece trail)
  refine ⟨Token.place 0 (blankPiece lead), start, next, ?_,
    fun token hmem => isTrivia_of_mem_place hmem⟩
  rw [Token.tokenize, h, hlead, hfront]

theorem dropWhile_ne_nil {cs : List Char}
    (h : ∃ piece ∈ Token.lexemes cs, piece.1.isTrivia = false) :
    cs.dropWhile Text.isBlank ≠ [] := by
  intro hnil
  obtain ⟨piece, hmem, hsolid⟩ := h
  rw [lexemes_lead, hnil, Token.lexemes, List.append_nil] at hmem
  rw [isTrivia_of_mem_blankPiece hmem] at hsolid
  cases hsolid

theorem terminals_label (terminator : Terminator) (front : List (TokenKind × List Char))
    (word lead trail last : List Char) :
    terminals ((.caseKw, word) :: (.whitespace, lead) :: (front ++
      [(.whitespace, trail), (terminator.kind, last)])) =
        ⟨.caseKw, false⟩ :: (terminals front ++ [⟨terminator.kind, false⟩]) := by
  have hlast : terminals [(terminator.kind, last)] = [⟨terminator.kind, false⟩] := by
    cases terminator with
    | _ => rfl
  have hrow := terminals_append_blanks front [(terminator.kind, last)] trail
  rw [hlast] at hrow
  rw [← hrow]
  rfl

theorem terminals_test (rest : List (TokenKind × List Char)) (name word lead lead' : List Char) :
    terminals ((.ident, name) :: (.whitespace, lead) :: (.instanceofKw, word) ::
      (.whitespace, lead') :: rest) =
        ⟨.ident, false⟩ :: ⟨.instanceofKw, false⟩ :: terminals rest :=
  rfl

theorem exists_tokens_label {label : String} {word lead trail last : List Char} {kind : TokenKind}
    {front : List (TokenKind × List Char)} (h : Token.lexemes label.toList =
      (.caseKw, word) :: (.whitespace, lead) :: (front ++ [(.whitespace, trail), (kind, last)])) :
    ∃ blank start between final, Token.tokenize label =
        ⟨.caseKw, 0, String.ofList word⟩ :: blank :: (Token.place start front ++ [between, final]) ∧
      blank.kind = .whitespace ∧ between.kind = .whitespace ∧
      leafOf final = .leaf kind (String.ofList last) := by
  rw [Token.tokenize, h, Token.place, Token.place]
  obtain ⟨next, hplace⟩ := place_append _ front [(.whitespace, trail), (kind, last)]
  rw [hplace]
  exact ⟨_, _, _, _, rfl, rfl, rfl, rfl⟩

theorem exists_tokens_test {test : String} {name word lead lead' : List Char}
    {rest : List (TokenKind × List Char)} (h : Token.lexemes test.toList =
      (.ident, name) :: (.whitespace, lead) :: (.instanceofKw, word) :: (.whitespace, lead') ::
        rest) :
    ∃ blank tester blank' start, Token.tokenize test =
        ⟨.ident, 0, String.ofList name⟩ :: blank :: tester :: blank' :: Token.place start rest ∧
      blank.kind = .whitespace ∧ blank'.kind = .whitespace ∧
      leafOf tester = .leaf .instanceofKw (String.ofList word) := by
  rw [Token.tokenize, h]
  exact ⟨_, _, _, _, rfl, rfl, rfl, rfl⟩

theorem tail_terminator (terminator : Terminator) : Tail [⟨terminator.kind, false⟩] := by
  cases terminator with
  | colon => exact .colon false
  | arrow => exact .arrow false

/-- The last one of some tokens of which the other ones at the end are blanks and comments. -/
theorem eq_of_concat {behind front rest : List Token} {last final : Token}
    (h : behind ++ last :: rest = front ++ [final])
    (hrest : ∀ token ∈ rest, token.kind.isTrivia = true) (hfinal : final.kind.isTrivia = false) :
    rest = [] ∧ last = final := by
  rcases List.eq_nil_or_concat rest with rfl | ⟨tokens, token, rfl⟩
  · exact ⟨rfl, (List.append_singleton_inj.1 h).2⟩
  · rw [List.concat_eq_append, ← List.cons_append, ← List.append_assoc] at h
    obtain rfl := (List.append_singleton_inj.1 h).2
    simp [hrest] at hfinal

theorem eq_of_blank {blank token token' : Token} {blanks rest rest' : List Token}
    (hblank : blank.kind.isTrivia = true)
    (hblanks : ∀ token ∈ blanks, token.kind.isTrivia = true)
    (htoken : token.kind.isTrivia = false) (htoken' : token'.kind.isTrivia = false)
    (h : blank :: token :: rest = blanks ++ token' :: rest') : token = token' ∧ rest = rest' := by
  have hdrop := congrArg (List.dropWhile (·.kind.isTrivia)) h
  rw [List.dropWhile_append_of_pos hblanks, List.dropWhile_cons_of_pos (by simpa using hblank),
    List.dropWhile_cons_of_neg (by simp [htoken]),
    List.dropWhile_cons_of_neg (by simp [htoken'])] at hdrop
  exact List.cons.inj hdrop

/-- Where a blank and another token are left behind a significant one, at least these two are. -/
theorem two_le_length {front later rest : List Token} {between final : Token}
    (h : EndsAt later rest) (hlater : later = front ++ [between, final])
    (hbetween : between.kind.isTrivia = true) (hne : rest ≠ []) : 2 ≤ rest.length := by
  obtain ⟨before, last, hsplit, hlast⟩ := h
  match rest with
  | [] => exact absurd rfl hne
  | [token] =>
      obtain ⟨-, hends⟩ := List.append_inj' (hsplit.symm.trans hlater) rfl
      obtain ⟨rfl, -⟩ := List.cons.inj hends
      rw [hlast] at hbetween
      cases hbetween
  | _ :: _ :: _ => exact Nat.le_add_left ..

namespace Reads

variable {text : String} {a : Account .pattern text} {blanks later : List Token} {kind : NodeKind}
  {children : List Tree}

theorem clean (h : Reads text a pattern) : marksAll [pattern] = [] := by
  rw [← hasErrorAll_eq_false_iff, Outline.hasErrorAll, h.fair.1]
  rfl

theorem ended (h : Reads text a pattern) : endedAll [pattern] = true := by
  rw [← h.parts]
  exact endedAll_of_account a (h.parts ▸ h.clean)

theorem exists_solid (h : Reads text a pattern) :
    ∃ piece ∈ Token.lexemes text.toList, piece.1.isTrivia = false :=
  exists_solid_of_account a (h.parts ▸ h.clean)

theorem exists_solid_front (h : Reads text a pattern) {lead trail : List Char}
    {front : List (TokenKind × List Char)}
    (hlexemes : Token.lexemes text.toList = blankPiece lead ++ (front ++ blankPiece trail)) :
    ∃ piece ∈ front, piece.1.isTrivia = false := by
  obtain ⟨piece, hmem, hsolid⟩ := h.exists_solid
  have hblank {blanks : List Char} : piece ∉ blankPiece blanks := fun hmem => by
    simp [isTrivia_of_mem_blankPiece hmem] at hsolid
  rw [hlexemes] at hmem
  exact ⟨piece, ((List.mem_append.1 ((List.mem_append.1 hmem).resolve_left hblank)).resolve_right
    hblank), hsolid⟩

theorem endsWithLine (h : Reads text a pattern) : EndsWithLine text.toList :=
  endsWithLine_of_account a h.neat

/-- Where the tokens of the pattern come again behind a blank, they are a copy of those of the text. -/
theorem exists_copied (h : Reads text a pattern) (htokens : Token.tokenize text = blanks ++ later)
    (hblanks : ∀ token ∈ blanks, token.kind.isTrivia = true) (hat : AtSignificant later)
    {lead trail : List Char} {front : List (TokenKind × List Char)}
    (hlexemes : Token.lexemes text.toList = blankPiece lead ++ (front ++ blankPiece trail))
    {blank : Token} {before later' tail : List Token} {start : Nat}
    (hblank : blank.kind = .whitespace) (hbefore : ∀ token ∈ before, token.kind.isTrivia = true)
    (hrow : blank :: (Token.place start front ++ tail) = before ++ later')
    (hat' : AtSignificant later') :
    ∃ next, Copied tail (Token.place next (blankPiece trail)) later' later := by
  obtain ⟨lead, first, next, hrow', hlead⟩ := exists_tokens_of_lexemes hlexemes
  have hblank' : ∀ token ∈ [blank], token.kind.isTrivia = true := by
    intro token htoken
    rw [List.mem_singleton.1 htoken, hblank]
    rfl
  exact ⟨next, copied_of_rows (List.forall_mem_append.2 ⟨hblank', hbefore⟩)
    (List.forall_mem_append.2 ⟨hlead, hblanks⟩) ((List.singleton_append ..).trans hrow)
    (hrow'.symm.trans htokens) hat' hat (map_leafOf_place ..)
    (exists_token_of_piece (h.exists_solid_front hlexemes) start)⟩

theorem parts_label (h : Reads text a pattern) (terminator : Terminator) {label : String}
    (hrest : (origin label).rest =
      ⟨.caseKw, false⟩ :: ((origin text).rest ++ [⟨terminator.kind, false⟩]))
    (b : Account .switchLabel label) :
    b.parts = [.node .switchLabel [.token .caseKw, .node .caseLabelElementList [pattern],
      .token terminator.kind]] := by
  obtain ⟨depth, stop, hrun, hstop⟩ := h.runs
  have horigin : origin label =
      ⟨0, ⟨.caseKw, false⟩ :: ((origin text).rest ++ [⟨terminator.kind, false⟩])⟩ :=
    congrArg (Cursor.mk 0) hrest
  let start : Cursor := ⟨1, (origin text).rest ++ [⟨terminator.kind, false⟩]⟩
  have hstart : start.rest = (origin text).rest ++ [⟨terminator.kind, false⟩] := rfl
  obtain ⟨hahead, ⟨index, rest⟩, hmid, hpattern⟩ :=
    pattern_runs hrun h.fair hstop (tail_terminator terminator) hstart
  cases hmid
  have hruns := label_runs (.intro 0 false _) hahead hpattern (.intro index false [])
  rw [← horigin] at hruns
  exact parts_eq_of_eventually b (hruns.mono fun _ hrun => run_document (run_look hrun rfl) rfl)

/-- A label with the pattern as its only element has the node of the pattern as its only element. -/
theorem label (h : Reads text a pattern) (htokens : Token.tokenize text = blanks ++ later)
    (hblanks : ∀ token ∈ blanks, token.kind.isTrivia = true) (hat : AtSignificant later)
    (hweaves : Weaves 0 later [pattern] [.node (.node kind) children] a.stop a.rest)
    (terminator : Terminator) :
    ∃ parse before behind,
      Parse.ofText .switchLabel ("case " ++ text ++ "\n" ++ terminatorText terminator) = .ok parse ∧
      parse.errors = [] ∧ (∀ token ∈ before ++ behind, token.kind.isTrivia = true) ∧
      parse.tree = .node (.node .root)
        [labelTree before behind terminator (.node (.node kind) children)] := by
  obtain ⟨b, hparse⟩ :=
    exists_account .switchLabel ("case " ++ text ++ "\n" ++ terminatorText terminator)
  obtain ⟨lead, front, trail, lead', hlexemes, hlabel⟩ :=
    lexemes_label terminator h.endsWithLine (dropWhile_ne_nil h.exists_solid)
  have hparts := h.parts_label terminator (by
    rw [rest_origin, rest_origin, hlexemes, hlabel, terminals_blankPiece_append,
      terminals_append_blankPiece, terminals_label]) b
  have herrors : b.parse.errors = [] := by
    rw [errors_eq_nil_iff b, hparts]
    simp [Outline.hasErrorAll, Outline.hasError, h.fair.1]
  obtain ⟨blank, start, between, final, htokens', hblank, hbetween, hfinal⟩ :=
    exists_tokens_label hlabel
  have hwoven := b.weaves
  rw [hparts, htokens'] at hwoven
  obtain ⟨before, later', made, children', behind, last, mid, htrivia, hrow, hat', -, htrees,
    hmade⟩ := exists_element_of_weaves h.laid.1 rfl hwoven
  obtain ⟨hbefore, hbehind⟩ := List.forall_mem_append.1 htrivia
  obtain ⟨next, hcopied⟩ :=
    h.exists_copied htokens hblanks hat hlexemes hblank hbefore hrow hat'
  have hlength : 2 ≤ (behind ++ last :: b.rest).length := by
    obtain ⟨_, _, hlater, -⟩ := hcopied
    exact two_le_length (endsAt_of_weaves hmade h.clean h.ended) hlater (by rw [hbetween]; rfl)
      (List.append_ne_nil_of_right_ne_nil _ (List.cons_ne_nil _ _))
  -- A blank comes behind the copy, so that nothing is asked of what comes behind the pattern.
  obtain ⟨heq, front', _, hends, -⟩ := hcopied.trees_eq (fun hat => by
    have hsolid := hat between rfl
    rw [hbetween] at hsolid
    cases hsolid) hmade hlength hweaves
  have hlast : final.kind.isTrivia = false := by
    rw [(Tree.leaf.inj hfinal).1]
    cases terminator with
    | _ => rfl
  rw [List.append_cons front'] at hends
  obtain ⟨hrest, rfl⟩ := eq_of_concat hends b.trivia hlast
  refine ⟨b.parse, before, behind, hparse, herrors, htrivia, ?_⟩
  rw [Account.parse, htrees, hrest, ← List.singleton_inj.1 heq, hfinal, String.ofList_toList,
    String.ofList_toList]
  rfl

theorem parts_test {primary : Outline} (h : Reads text a (.loose [primary])) {test : String}
    (hrest : (origin test).rest =
      ⟨.ident, false⟩ :: ⟨.instanceofKw, false⟩ :: (origin text).rest)
    (b : Account .expression test) :
    b.parts = [.around .instanceofExpression (.node .referenceExpression [.token .ident])
      [.token .instanceofKw, primary]] := by
  obtain ⟨depth, stop, hrun, hstop⟩ := h.runs
  have horigin : origin test =
      ⟨0, ⟨.ident, false⟩ :: ⟨.instanceofKw, false⟩ :: (origin text).rest⟩ :=
    congrArg (Cursor.mk 0) hrest
  let start : Cursor := ⟨2, (origin text).rest⟩
  have hstart : start.rest = (origin text).rest ++ [] := (List.append_nil _).symm
  obtain ⟨hahead, behind, hbehind, hpattern⟩ := pattern_runs hrun h.fair hstop .nil hstart
  have hruns := instanceof_runs (.intro 0 false _) (.intro 1 false _) hahead hpattern hbehind
  rw [← horigin] at hruns
  exact parts_eq_of_eventually b
    (hruns.mono fun _ hrun => run_document (run_orReport hrun) hbehind)

/-- A name that is tested with the pattern, if it has no guard, is tested with its node. -/
theorem test {primary : Outline} (h : Reads text a (.loose [primary]))
    (htokens : Token.tokenize text = blanks ++ later)
    (hblanks : ∀ token ∈ blanks, token.kind.isTrivia = true) (hat : AtSignificant later)
    (hweaves : Weaves 0 later [.loose [primary]] [.node (.node kind) children] a.stop a.rest) :
    ∃ parse before between behind, Parse.ofText .expression ("o instanceof " ++ text) = .ok parse ∧
      parse.errors = [] ∧
      (∀ token ∈ before ++ between ++ behind, token.kind.isTrivia = true) ∧
      parse.tree = .node (.node .root)
        (testTree before between (.node (.node kind) children) :: behind.map leafOf) := by
  obtain ⟨b, hparse⟩ := exists_account .expression ("o instanceof " ++ text)
  have hname : IsWord .ident "o" := isWord_of_isIdent (by decide +kernel)
  obtain ⟨lead', htest⟩ := lexemes_behind hname text.toList
  have hchars : ("o instanceof " ++ text).toList =
      "o".toList ++ ' ' :: ("instanceof".toList ++ ' ' :: text.toList) := by
    simp
  rw [← hchars] at htest
  have hparts := h.parts_test (by
    rw [rest_origin, rest_origin, htest, terminals_test, lexemes_lead text.toList,
      terminals_blankPiece_append]) b
  have herrors : b.parse.errors = [] := by
    rw [errors_eq_nil_iff b, hparts]
    have hclean := h.fair.1
    simpa [Outline.hasErrorAll, Outline.hasError] using hclean
  have hnode : IsNode primary := by
    rcases h.laid.1 with hnode | ⟨_, heq, hnode⟩
    · cases hnode
    · cases heq
      exact hnode
  obtain ⟨blank, tester, blank', start, htokens', hblank, hblank', htester⟩ :=
    exists_tokens_test htest
  have hwoven := b.weaves
  rw [hparts, htokens'] at hwoven
  obtain ⟨before, later', made, children', between, word, mid, htrivia, hrow, hat', hword, htrees,
    hmade⟩ := exists_tested_of_weaves (.inl hnode) rfl hwoven
  obtain ⟨hbefore, hbetween⟩ := List.forall_mem_append.1 htrivia
  obtain ⟨rfl, hbehind⟩ := eq_of_blank (by rw [hblank]; rfl) hbefore
    (by rw [(Tree.leaf.inj htester).1]; rfl) (by rw [hword]; rfl) hrow
  have hlexemes : Token.lexemes text.toList = blankPiece (text.toList.takeWhile Text.isBlank) ++
      (Token.lexemes (text.toList.dropWhile Text.isBlank) ++ blankPiece []) := by
    rw [blankPiece, List.append_nil, lexemes_lead]
  rw [← List.append_nil (Token.place start _)] at hbehind
  obtain ⟨next, hcopied⟩ :=
    h.exists_copied htokens hblanks hat hlexemes hblank' hbetween hbehind hat'
  obtain ⟨heq, -⟩ := hcopied.trees_eq id hmade (Nat.zero_le _) (weaves_of_loose hweaves)
  refine ⟨b.parse, before, between, b.rest, hparse, herrors,
    List.forall_mem_append.2 ⟨htrivia, b.trivia⟩, ?_⟩
  rw [Account.parse, htrees, ← List.singleton_inj.1 heq, htester]
  rfl

theorem exists_primary (h : Reads text a pattern) (hat : AtSignificant later)
    (hweaves : Weaves 0 later [pattern] [.node (.node kind) children] a.stop a.rest)
    (hkind : kind ≠ .guardedPattern) : ∃ primary, pattern = .loose [primary] := by
  obtain ⟨depth, stop, hrun, -⟩ := h.runs
  cases depth with
  | zero => cases hrun
  | succ depth =>
      rcases pattern_cases (r := .ofDepth depth) hrun with ⟨primary, -, hloose⟩ | ⟨row, hguarded⟩
      · exact ⟨primary, hloose⟩
      · obtain rfl : pattern = .node .guardedPattern row := hguarded
        obtain ⟨_, _, _, _, heq, -⟩ := exists_of_node hat hweaves
        cases heq
        exact absurd rfl hkind

end Reads

/-- A pattern means the same in its three places. If a text is read as a pattern without an error,
and in its blocks the parentheses are balanced, then it is one node between blanks and comments. On
a line of its own between the keyword and the end of a label it is read without an error, and the
only element of the label is that node, with the same blanks and comments in it. If the pattern has
no guard, the same is true behind `instanceof`. -/
theorem pattern_read_alike {text : String} {parse : Parse}
    (hparse : Parse.ofText .pattern text = .ok parse) (herrors : parse.errors = [])
    (heven : evenBlocksAll (shape parse.tree) = true) :
    ∃ kind children, ∃ before behind : List Token,
      parse.tree = .node (.node .root)
        (before.map leafOf ++ .node (.node kind) children :: behind.map leafOf) ∧
      (∀ token ∈ before ++ behind, token.kind.isTrivia = true) ∧
      (∀ terminator, ∃ label, ∃ before behind : List Token,
        Parse.ofText .switchLabel ("case " ++ text ++ "\n" ++ terminatorText terminator) = .ok label ∧
        label.errors = [] ∧ (∀ token ∈ before ++ behind, token.kind.isTrivia = true) ∧
        label.tree = .node (.node .root)
          [labelTree before behind terminator (.node (.node kind) children)]) ∧
      (kind ≠ .guardedPattern → ∃ test, ∃ before between behind : List Token,
        Parse.ofText .expression ("o instanceof " ++ text) = .ok test ∧ test.errors = [] ∧
        (∀ token ∈ before ++ between ++ behind, token.kind.isTrivia = true) ∧
        test.tree = .node (.node .root)
          (testTree before between (.node (.node kind) children) :: behind.map leafOf)) := by
  obtain ⟨a, ha⟩ := exists_account .pattern text
  obtain rfl := Except.ok.inj (hparse.symm.trans ha)
  obtain ⟨pattern, h⟩ := exists_reads a herrors heven
  have hweaves := a.weaves
  rw [h.parts] at hweaves
  obtain ⟨blanks, later, kind, children, htokens, hblanks, hat, htrees, hmade⟩ :=
    single_of_weaves h.laid.1 hweaves
  refine ⟨kind, children, blanks, a.rest, ?_, List.forall_mem_append.2 ⟨hblanks, a.trivia⟩,
    h.label htokens hblanks hat hmade, fun hkind => ?_⟩
  · rw [Account.parse, htrees, List.append_assoc]
    rfl
  · obtain ⟨primary, rfl⟩ := h.exists_primary hat hmade hkind
    exact h.test htokens hblanks hat hmade

/-- The components of a record behind a block in which there are parentheses, with a comment at the
end that reaches to the end of the line. -/
theorem pattern_read_alike_commented :
    ∃ parse children, ∃ before behind : List Token,
      Parse.ofText .pattern "@X(new A() \x7b (b) \x7d) R(final A a, (B b)) r // c" = .ok parse ∧
      parse.errors = [] ∧ evenBlocksAll (shape parse.tree) = true ∧
      parse.tree = .node (.node .root)
        (before.map leafOf ++ .node (.node .recordPattern) children :: behind.map leafOf) ∧
      (∃ label, ∃ before behind : List Token, Parse.ofText .switchLabel
          "case @X(new A() \x7b (b) \x7d) R(final A a, (B b)) r // c\n->" = .ok label ∧
        label.errors = [] ∧ label.tree = .node (.node .root)
          [labelTree before behind .arrow (.node (.node .recordPattern) children)]) ∧
      ∃ test, ∃ before between behind : List Token, Parse.ofText .expression
          "o instanceof @X(new A() \x7b (b) \x7d) R(final A a, (B b)) r // c" = .ok test ∧
        test.errors = [] ∧ test.tree = .node (.node .root)
          (testTree before between (.node (.node .recordPattern) children) ::
            behind.map leafOf) := by
  obtain ⟨a, hparse⟩ :=
    exists_account .pattern "@X(new A() \x7b (b) \x7d) R(final A a, (B b)) r // c"
  have hknown : (Parse.ofText .pattern
      "@X(new A() \x7b (b) \x7d) R(final A a, (B b)) r // c").toOption.map (fun parse =>
        (parse.errors, evenBlocksAll (shape parse.tree), parse.tree.rows[1]?.map (·.kind))) =
          some ([], true, some (.node .recordPattern)) := by
    decide +kernel
  rw [hparse] at hknown
  simp only [Except.toOption, Option.map_some, Option.some.injEq, Prod.mk.injEq] at hknown
  obtain ⟨herrors, heven, hkind⟩ := hknown
  obtain ⟨kind, children, before, behind, htree, htrivia, hlabel, htest⟩ :=
    pattern_read_alike hparse herrors heven
  obtain rfl : kind = .recordPattern := by
    rw [htree] at hkind
    cases before with
    | nil => exact SyntaxKind.node.inj (Option.some.inj hkind)
    | cons token before => cases hkind
  obtain ⟨label, front, back, hread, hclean, -, hmade⟩ := hlabel .arrow
  obtain ⟨test, front', mid', back', hread', hclean', -, hmade'⟩ := htest (by decide)
  exact ⟨a.parse, children, before, behind, hparse, herrors, heven, htree,
    ⟨label, front, back, hread, hclean, hmade⟩, test, front', mid', back', hread', hclean', hmade'⟩

end PatternSyntax.Proofs.PatternUses
