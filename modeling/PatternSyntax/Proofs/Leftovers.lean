import PatternSyntax.Proofs.EndedRules
import PatternSyntax.Proofs.ErrorPlaces
import PatternSyntax.Proofs.Forward
import PatternSyntax.Proofs.NeatTrees

/-!
The tokens behind the subject of a text. They are all put into one node of errors, and an error of
their own is only reported where none has been reported yet.
-/

namespace PatternSyntax.Proofs.Leftovers

open Grammar
open PatternSyntax.Proofs.Coverage
open PatternSyntax.Proofs.Document
open PatternSyntax.Proofs.EndedRules
open PatternSyntax.Proofs.Endings
open PatternSyntax.Proofs.ErrorPlaces
open PatternSyntax.Proofs.Forward
open PatternSyntax.Proofs.Marks
open PatternSyntax.Proofs.NeatTrees
open PatternSyntax.Proofs.Totality
open PatternSyntax.Proofs.Weave

mutual

/-- The tokens and the errors of an outline, from left to right. Only the errors have a mark. -/
def beats : Outline → List (Option (ErrorKind × Nat))
  | .token _ => [none]
  | .error kind index => [some (kind, index)]
  | .node _ parts => beatsAll parts
  | .around _ first later => beats first ++ beatsAll later
  | .loose parts => beatsAll parts

/-- The tokens and the errors of a row of outlines, from left to right. -/
def beatsAll : List Outline → List (Option (ErrorKind × Nat))
  | [] => []
  | part :: rest => beats part ++ beatsAll rest

end

/-- The token or the error that an event records. -/
def beat? : Event → Option (Option (ErrorKind × Nat))
  | .token _ => some none
  | .error error => some (some (error.kind, error.span.start))
  | _ => none

mutual

theorem filterMap_events (link : Option Nat) (outline : Outline) :
    (Outline.events id link outline).filterMap beat? = beats outline := by
  cases outline with
  | token kind => rfl
  | error kind index => rfl
  | node kind parts =>
      rw [Outline.events, List.filterMap_cons_none rfl, List.filterMap_append,
        filterMap_eventsAll parts]
      exact List.append_nil _
  | around kind first later =>
      rw [Outline.events, List.filterMap_append, filterMap_events _ first,
        List.filterMap_cons_none rfl, List.filterMap_append, filterMap_eventsAll later]
      exact congrArg (beats first ++ ·) (List.append_nil _)
  | loose parts =>
      have hparts := filterMap_eventsAll parts
      rw [Outline.events, beats, ← hparts]
      split
      · simp [*]
      · rfl

theorem filterMap_eventsAll (parts : List Outline) :
    (Outline.eventsAll id parts).filterMap beat? = beatsAll parts := by
  cases parts with
  | nil => rfl
  | cons part rest =>
      rw [Outline.eventsAll, List.filterMap_append, filterMap_events none part,
        filterMap_eventsAll rest, beatsAll]

end

mutual

theorem filterMap_beats (outline : Outline) : (beats outline).filterMap id = marks outline := by
  cases outline with
  | token kind => rfl
  | error kind index => rfl
  | node kind parts => exact filterMap_beatsAll parts
  | around kind first later =>
      rw [beats, List.filterMap_append, filterMap_beats first, filterMap_beatsAll later, marks]
  | loose parts => exact filterMap_beatsAll parts

theorem filterMap_beatsAll (parts : List Outline) :
    (beatsAll parts).filterMap id = marksAll parts := by
  cases parts with
  | nil => rfl
  | cons part rest =>
      rw [beatsAll, List.filterMap_append, filterMap_beats part, filterMap_beatsAll rest, marksAll]

end

/-- Among the events behind the last token there is an error if and only if the last beat is one. -/
theorem any_takeWhile_iff (events : List Event) :
    (events.takeWhile fun event => !event.isToken).any Event.isError = true ↔
      ∃ mark, (events.filterMap beat?).head? = some (some mark) := by
  induction events with
  | nil => simp
  | cons event events ih =>
      -- What is no token and no error is passed over on both sides.
      have hpass (hbeat : beat? event = none) (htoken : event.isToken = false)
          (herror : event.isError = false) :
          ((event :: events).takeWhile fun event => !event.isToken).any Event.isError = true ↔
            ∃ mark, ((event :: events).filterMap beat?).head? = some (some mark) := by
        rw [List.filterMap_cons_none hbeat, ← ih, List.takeWhile_cons_of_pos (by simp [htoken]),
          List.any_cons, herror, Bool.false_or]
      cases event with
      | token kind => simp [Event.isToken, beat?]
      | error error => simp [Event.isToken, Event.isError, beat?]
      | placeholder => exact hpass rfl rfl rfl
      | start kind link => exact hpass rfl rfl rfl
      | finish => exact hpass rfl rfl rfl

theorem endsInError_iff (parts : List Outline) :
    endsInError parts = true ↔ ∃ mark, (beatsAll parts).getLast? = some (some mark) := by
  rw [endsInError, any_takeWhile_iff, List.filterMap_reverse, List.head?_reverse,
    filterMap_eventsAll]

/-- Counting tokens from `i` to `j`, each error is marked with the tokens before it. -/
def Counts : Nat → List (Option (ErrorKind × Nat)) → Nat → Prop
  | i, [], j => i = j
  | i, none :: rest, j => Counts (i + 1) rest j
  | i, some mark :: rest, j => mark.2 = i ∧ Counts i rest j

theorem counts_append_iff {i j : Nat} {front back : List (Option (ErrorKind × Nat))} :
    Counts i (front ++ back) j ↔ ∃ mid, Counts i front mid ∧ Counts mid back j := by
  induction front generalizing i with
  | nil => exact ⟨fun h => ⟨i, rfl, h⟩, fun ⟨_, heq, h⟩ => heq ▸ h⟩
  | cons beat front ih =>
      cases beat with
      | none => exact ih
      | some mark => simp only [List.cons_append, Counts, ih, and_assoc, exists_and_left]

theorem Counts.append {i mid j : Nat} {front back : List (Option (ErrorKind × Nat))}
    (hfront : Counts i front mid) (hback : Counts mid back j) : Counts i (front ++ back) j :=
  counts_append_iff.2 ⟨mid, hfront, hback⟩

theorem counts_of_covers {c stop : Cursor} {parts : List Outline} (h : Covers c parts stop) :
    Counts c.index (beatsAll parts) stop.index := by
  induction h with
  | nil => rfl
  | token _ ih => exact ih
  | error _ ih => exact ⟨rfl, ih⟩
  | node _ _ _ ihInner ih => exact ihInner.append ih
  | around _ _ _ _ _ ihFirst ihLater ih =>
      rw [beatsAll, beatsAll, List.append_nil] at ihFirst
      exact (ihFirst.append ihLater).append ih
  | loose _ _ ihInner ih => exact ihInner.append ih

theorem Counts.le {i j : Nat} {row : List (Option (ErrorKind × Nat))} (h : Counts i row j) :
    i ≤ j := by
  induction row generalizing i with
  | nil => exact Nat.le_of_eq h
  | cons beat row ih =>
      cases beat with
      | none => exact Nat.le_of_succ_le (ih h)
      | some mark => exact ih h.2

theorem Counts.mark_le {i j : Nat} {row : List (Option (ErrorKind × Nat))} (h : Counts i row j)
    {mark : ErrorKind × Nat} (hmem : mark ∈ row.filterMap id) : mark.2 ≤ j := by
  obtain ⟨beat, hbeat, rfl⟩ := List.mem_filterMap.1 hmem
  obtain ⟨front, back, rfl⟩ := List.append_of_mem hbeat
  obtain ⟨mid, -, rfl, hback⟩ := counts_append_iff.1 h
  exact hback.le

/-- Either the last error of a row is behind its last token, or all errors are before it. -/
theorem endsInError_cases {c stop : Cursor} {parts : List Outline} (h : Covers c parts stop) :
    (endsInError parts = true ∧ ∃ mark, (marksAll parts).getLast? = some mark ∧
      mark.2 = stop.index) ∨
    (endsInError parts = false ∧ ∀ mark ∈ marksAll parts, mark.2 < stop.index) := by
  have hcounts := counts_of_covers h
  rw [← Bool.not_eq_true, endsInError_iff, ← filterMap_beatsAll]
  rcases List.eq_nil_or_concat (beatsAll parts) with hnil | ⟨front, beat, hrow⟩
  · exact .inr (by simp [hnil])
  · rw [List.concat_eq_append] at hrow
    rw [hrow] at hcounts ⊢
    obtain ⟨mid, hfront, hlast⟩ := counts_append_iff.1 hcounts
    cases beat with
    | none =>
        have hstop : mid + 1 = stop.index := hlast
        refine .inr ⟨by simp, fun mark hmem => ?_⟩
        have hle : mark.2 ≤ mid := hfront.mark_le (by simpa using hmem)
        omega
    | some mark =>
        obtain ⟨hmark, hstop⟩ : mark.2 = mid ∧ mid = stop.index := hlast
        exact .inl ⟨by simp, mark, by simp, hmark.trans hstop⟩

/-- The node of errors for the tokens behind a subject. -/
def leftovers (parts : List Outline) (c : Cursor) : List Outline :=
  if c.rest.isEmpty then []
  else [.node .error ((if endsInError parts then []
    else [.error (.unexpectedToken (nextKind c)) c.index]) ++
      c.rest.map fun terminal => .token terminal.kind)]

theorem run_bumpAll (c : Cursor) : bumpAll c =
    .ok ⟨(), c.rest.map fun terminal => .token terminal.kind, ⟨c.index + c.rest.length, []⟩⟩ := by
  obtain ⟨index, rest⟩ := c
  have hloops : Loops (again bumpTurn) () ⟨index, rest⟩ ()
      (rest.map fun terminal => .token terminal.kind) ⟨index + rest.length, []⟩ := by
    induction rest generalizing index with
    | nil => exact .done (run_again_done rfl)
    | cons terminal rest ih =>
        have hlater := ih (index + 1)
        rw [Nat.add_right_comm, Nat.add_assoc] at hlater
        have hpasses : Passes terminal.kind ⟨index, terminal :: rest⟩ ⟨index + 1, rest⟩ :=
          .intro index terminal.glued rest
        exact .yield (run_again (run_look (a := false) rfl (hpasses.bump_bind rfl)))
          hpasses.length_lt hlater
  exact hloops.iterate

variable {r : Rules} {c : Cursor} {s : Subject} {text : String}

theorem run_document_leftovers {inner : Parsed Unit} (h : Grammar.subject r s c = .ok inner) :
    ∃ last, document r s c =
      .ok ⟨.node .root (inner.parts ++ leftovers inner.parts inner.cursor), [], last⟩ := by
  obtain ⟨_, parts, mid⟩ := inner
  have hputAll : putAll parts mid = .ok ⟨(), parts, mid⟩ := rfl
  by_cases hend : mid.rest.isEmpty = true
  · refine ⟨mid, run_node (run_look (run_capture h) (run_bind hputAll
      (run_look (a := mid.rest.isEmpty) rfl ?_)))⟩
    rw [leftovers, if_pos hend, if_pos hend]
    rfl
  · refine ⟨⟨mid.index + mid.rest.length, []⟩, run_node (run_look (run_capture h)
      (run_bind hputAll (run_look (a := mid.rest.isEmpty) rfl ?_)))⟩
    rw [leftovers, if_neg hend, if_neg hend]
    refine run_found (run_node ?_)
    unfold leftoverRow
    cases endsInError parts with
    | true => exact run_bumpAll mid
    | false =>
        have hreport : reportUnexpected mid =
            .ok ⟨(), [.error (.unexpectedToken (nextKind mid)) mid.index], mid⟩ := rfl
        exact run_bind hreport (run_bumpAll mid)

theorem exists_subject (a : Account s text) :
    ∃ inner, deepEnough (fun r => Grammar.subject r s) (origin text) = .ok inner ∧
      Covers (origin text) inner.parts inner.cursor ∧
      a.parts = inner.parts ++ leftovers inner.parts inner.cursor := by
  obtain ⟨stop, hrun⟩ := exists_run a
  obtain ⟨inner, hinner, hcovers, -⟩ :=
    lays_subject (c := origin text) (ready_ofDepth _) s (Nat.le_refl _)
  obtain ⟨last, hrun'⟩ := run_document_leftovers hinner
  refine ⟨inner, hinner, hcovers, ?_⟩
  have hdone := Except.ok.inj (hrun.symm.trans hrun')
  simp only [Parsed.mk.injEq, Outline.node.injEq, true_and] at hdone
  exact hdone.1

theorem countP_isUnexpected {parts : List Outline} (h : Named parts) :
    (marksAll parts).countP (fun mark => isUnexpected mark.1) = 0 :=
  List.countP_eq_zero.2 fun mark hmem => by simp [h mark hmem]

theorem marksAll_map_token (terminals : List Terminal) :
    marksAll (terminals.map fun terminal => .token terminal.kind) = [] := by
  induction terminals with
  | nil => rfl
  | cons terminal terminals ih => exact ih

theorem marksAll_leftovers (parts : List Outline) (c : Cursor) :
    marksAll (leftovers parts c) =
      if c.rest.isEmpty || endsInError parts then []
      else [(.unexpectedToken (nextKind c), c.index)] := by
  rw [leftovers]
  cases c.rest.isEmpty with
  | true => rfl
  | false =>
      simp only [Bool.false_eq_true, if_false, marksAll, marks, marksAll_append,
        marksAll_map_token, List.append_nil, Bool.false_or]
      split
      · rfl
      · rfl

theorem ended_or_unexpected {inner : Parsed Unit}
    (hrun : deepEnough (fun r => Grammar.subject r s) c = .ok inner) :
    (Named inner.parts ∧ endedAll inner.parts = true) ∨ (endsInError inner.parts = true ∧
      (marksAll inner.parts).countP (fun mark => isUnexpected mark.1) = 1) := by
  by_cases hlabel : s = .switchLabel → nextKind c = some .defaultKw ∨ nextKind c = some .caseKw
  · exact .inl (closes_subject (ends_ofDepth _) hlabel inner hrun)
  · obtain ⟨rfl, hnext⟩ := Classical.not_imp.1 hlabel
    obtain ⟨hdefault, hcase⟩ := not_or.1 hnext
    cases (run_switchLabel_of_ne hdefault hcase).symm.trans hrun
    exact .inr ⟨rfl, rfl⟩

theorem countP_marks_le_one (a : Account s text) :
    (marksAll a.parts).countP (fun mark => isUnexpected mark.1) ≤ 1 := by
  obtain ⟨inner, hrun, -, hparts⟩ := exists_subject a
  rw [hparts, marksAll_append, List.countP_append, marksAll_leftovers]
  rcases ended_or_unexpected hrun with ⟨hnamed, -⟩ | ⟨hends, hcount⟩
  · rw [countP_isUnexpected hnamed, Nat.zero_add]
    split
    · exact Nat.zero_le 1
    · exact Nat.le_refl 1
  · rw [hends, hcount, Bool.or_true]
    exact Nat.le_refl 1

theorem index_eq_of_weaves {i j : Nat} {tokens rest : List Token} {parts : List Outline}
    {trees : List Tree} (h : Weaves i tokens parts trees j rest) :
    j = i + (Outline.tokensAll parts).length := by
  induction h with
  | nil => rfl
  | trivia _ _ _ ih => exact ih
  | token _ _ ih => simp [ih, Outline.tokensAll, Outline.tokens, Nat.add_assoc, Nat.add_comm 1]
  | error _ _ ih => exact ih
  | node _ _ _ _ ihInner ih =>
      rw [Outline.tokensAll, Outline.tokens, List.length_append, ih, ihInner, Nat.add_assoc]
  | around _ _ _ _ _ _ ihFirst ihInner ih =>
      rw [ih, ihInner, ihFirst]
      simp [Outline.tokensAll, Outline.tokens, Nat.add_assoc]
  | loose _ _ ihInner ih =>
      rw [Outline.tokensAll, Outline.tokens, List.length_append, ih, ihInner, Nat.add_assoc]

theorem exists_node_of_weaves {i j : Nat} {tokens rest : List Token} {kind : NodeKind}
    {inner : List Outline} {trees : List Tree}
    (h : Weaves i tokens [.node kind inner] trees j rest) :
    ∃ (blanks later : List Token) (children : List Tree), tokens = blanks ++ later ∧
      (∀ token ∈ blanks, token.kind.isTrivia = true) ∧ AtSignificant later ∧
      trees = blanks.map leafOf ++ [.node (.node kind) children] ∧
      Weaves i later inner children j rest := by
  generalize hrow : [Outline.node kind inner] = row at h
  induction h with
  | nil => cases hrow
  | @trivia _ _ token _ _ _ _ htrivia _ _ ih =>
      obtain ⟨blanks, later, children, rfl, hblanks, hat, rfl, hinner⟩ := ih hrow
      exact ⟨token :: blanks, later, children, rfl, List.forall_mem_cons.2 ⟨htrivia, hblanks⟩, hat,
        rfl, hinner⟩
  | token => cases hrow
  | error => cases hrow
  | node hat _ hinner hlater =>
      cases hrow
      obtain rfl := eq_nil_of_weaves_nil hlater
      obtain ⟨rfl, rfl, -⟩ := hlater.of_trees_eq_nil rfl
      exact ⟨[], _, _, rfl, nofun, hat, rfl, hinner⟩
  | around => cases hrow
  | loose => cases hrow

theorem exists_error_of_weaves {i j index : Nat} {tokens rest : List Token} {kind : ErrorKind}
    {parts : List Outline} {trees : List Tree} (hat : AtSignificant tokens)
    (h : Weaves i tokens (.error kind index :: parts) trees j rest) :
    ∃ later, trees = .node (.node .error) [] :: later ∧ Weaves i tokens parts later j rest := by
  generalize hrow : Outline.error kind index :: parts = row at h
  cases h with
  | nil => cases hrow
  | trivia htrivia => simp [hat _ rfl] at htrivia
  | token => cases hrow
  | error _ hlater =>
      cases hrow
      exact ⟨_, rfl, hlater⟩
  | node => cases hrow
  | around => cases hrow
  | loose => cases hrow

theorem exists_row_of_weaves {i j : Nat} {tokens rest : List Token} {terminals : List Terminal}
    {trees : List Tree}
    (h : Weaves i tokens (terminals.map fun terminal => .token terminal.kind) trees j rest) :
    ∃ row : List Token, tokens = row ++ rest ∧ trees = row.map leafOf := by
  generalize hrow : terminals.map (fun terminal => Outline.token terminal.kind) = parts at h
  induction h generalizing terminals with
  | nil => exact ⟨[], rfl, rfl⟩
  | @trivia _ _ token _ _ _ _ _ _ _ ih =>
      obtain ⟨row, rfl, rfl⟩ := ih hrow
      exact ⟨token :: row, rfl, rfl⟩
  | @token _ _ token _ _ _ _ _ _ ih =>
      obtain ⟨_, terminals, rfl, -, hlater⟩ := List.map_eq_cons_iff.1 hrow
      obtain ⟨row, rfl, rfl⟩ := ih hlater
      exact ⟨token :: row, rfl, rfl⟩
  | error => obtain ⟨_, _, _, heq, -⟩ := List.map_eq_cons_iff.1 hrow; cases heq
  | node => obtain ⟨_, _, _, heq, -⟩ := List.map_eq_cons_iff.1 hrow; cases heq
  | around => obtain ⟨_, _, _, heq, -⟩ := List.map_eq_cons_iff.1 hrow; cases heq
  | loose => obtain ⟨_, _, _, heq, -⟩ := List.map_eq_cons_iff.1 hrow; cases heq

/-- The tokens `first :: later` are left over behind the subject of a text. -/
structure Collected (text : String) (parse : Parse) (inner : Parsed Unit) (first : Token)
    (later : List Token) : Prop where
  /-- They are the significant tokens that the subject has not passed. -/
  tokens : (Token.significant (Token.tokenize text)).drop inner.cursor.index = first :: later
  kinds : inner.cursor.rest.map (·.kind) = (first :: later).map (·.kind)
  /-- They are children of the last node of the root, in which there is no other node than that of
  an error. -/
  node : ∃ (before : List Tree) (reported : List Tree) (row behind : List Token),
    parse.tree = .node (.node .root)
      (before ++ .node (.node .error) (reported ++ row.map leafOf) :: behind.map leafOf) ∧
    (reported = [] ∨ reported = [.node (.node .error) []]) ∧
    Token.significant row = first :: later ∧ ∀ token ∈ behind, token.kind.isTrivia = true
  /-- The last error is about the first of them. -/
  last : parse.errors.getLast?.map (·.span) = some (.empty first.start)
  /-- That error is one that the subject has put down behind its last token, or else the error that
  the token is unexpected. -/
  errors :
    ((∃ mark ∈ marksAll inner.parts, mark.2 = inner.cursor.index) ∧
      parse.errors = errorsAll (locate text) inner.parts) ∨
    ((∀ mark ∈ marksAll inner.parts, mark.2 ≠ inner.cursor.index) ∧
      parse.errors = errorsAll (locate text) inner.parts ++
        [⟨.unexpectedToken (some first.kind), .empty first.start⟩])

theorem locate_eq_start {i : Nat} {first : Token} {later : List Token}
    (h : (Token.significant (Token.tokenize text)).drop i = first :: later) :
    locate text i = first.start := by
  have hget : (Token.significant (Token.tokenize text))[i]? = some first := by
    rw [← Nat.add_zero i, ← List.getElem?_drop, h]
    rfl
  rw [locate, offsetOf, List.getElem?_toArray, hget]

theorem significant_append (front back : List Token) :
    Token.significant (front ++ back) = Token.significant front ++ Token.significant back :=
  List.filter_append ..

theorem significant_eq_nil {tokens : List Token}
    (h : ∀ token ∈ tokens, token.kind.isTrivia = true) : Token.significant tokens = [] :=
  List.filter_eq_nil_iff.2 fun token hmem => by simp [h token hmem]

theorem exists_errorNode (a : Account s text) {inner : Parsed Unit}
    (hcovers : Covers (origin text) inner.parts inner.cursor)
    (hparts : a.parts = inner.parts ++ leftovers inner.parts inner.cursor)
    (hrest : inner.cursor.rest.isEmpty = false) :
    ∃ (before : List Tree) (reported : List Tree) (row : List Token),
      a.trees = before ++ [.node (.node .error) (reported ++ row.map leafOf)] ∧
      (reported = [] ∨ reported = [.node (.node .error) []]) ∧
      Token.significant row =
        (Token.significant (Token.tokenize text)).drop inner.cursor.index := by
  have hweaves := a.weaves
  rw [hparts, leftovers, hrest, if_neg Bool.false_ne_true] at hweaves
  obtain ⟨front, back, mid, tokens, htrees, hfront, hback⟩ := hweaves.split
  obtain ⟨blanks, later, children, rfl, hblanks, hat, rfl, hinner⟩ := exists_node_of_weaves hback
  have hmid : mid = inner.cursor.index := by
    have hlength := congrArg List.length hcovers.tokens_append
    have hindex := hcovers.index_add_length
    simp only [List.length_append, List.length_map] at hlength
    rw [index_eq_of_weaves hfront]
    simp only [origin] at hindex hlength ⊢
    omega
  have hahead := (errorEnds_of_weaves hfront (ahead_tokenize text)).1.significant
  rw [significant_append, significant_eq_nil hblanks, List.nil_append, hmid] at hahead
  obtain ⟨reported, later', hreported, rfl, hrow⟩ : ∃ reported later',
      (reported = [] ∨ reported = [.node (.node .error) []]) ∧ children = reported ++ later' ∧
      Weaves mid later (inner.cursor.rest.map fun terminal => .token terminal.kind) later' a.stop
        a.rest := by
    split at hinner
    · exact ⟨[], children, .inl rfl, rfl, hinner⟩
    · obtain ⟨later', rfl, hlater⟩ := exists_error_of_weaves hat hinner
      exact ⟨_, later', .inr rfl, rfl, hlater⟩
  obtain ⟨row, rfl, rfl⟩ := exists_row_of_weaves hrow
  refine ⟨front ++ blanks.map leafOf, reported, row, ?_, hreported, ?_⟩
  · rw [htrees, List.append_assoc]
  · rw [← hahead, significant_append, significant_eq_nil a.trivia, List.append_nil]

/-- The errors of a text, by whether its subject has put down one behind its last token. -/
theorem errors_cases (a : Account s text) {inner : Parsed Unit}
    (hcovers : Covers (origin text) inner.parts inner.cursor)
    (hparts : a.parts = inner.parts ++ leftovers inner.parts inner.cursor)
    (hrest : inner.cursor.rest.isEmpty = false) :
    ((∃ mark, (marksAll inner.parts).getLast? = some mark ∧ mark.2 = inner.cursor.index) ∧
      marksAll a.parts = marksAll inner.parts) ∨
    ((∀ mark ∈ marksAll inner.parts, mark.2 ≠ inner.cursor.index) ∧
      marksAll a.parts = marksAll inner.parts ++
        [(.unexpectedToken (nextKind inner.cursor), inner.cursor.index)]) := by
  rw [hparts, marksAll_append, marksAll_leftovers, hrest, Bool.false_or]
  rcases endsInError_cases hcovers with ⟨hends, hlast⟩ | ⟨hends, hbefore⟩
  · exact .inl ⟨hlast, by rw [hends, if_pos rfl, List.append_nil]⟩
  · exact .inr ⟨fun mark hmem => (hbefore mark hmem).ne, by rw [hends, if_neg Bool.false_ne_true]⟩

theorem collected_of_account (a : Account s text) {inner : Parsed Unit}
    (hcovers : Covers (origin text) inner.parts inner.cursor)
    (hparts : a.parts = inner.parts ++ leftovers inner.parts inner.cursor)
    (hrest : inner.cursor.rest ≠ []) :
    ∃ first later, Collected text a.parse inner first later := by
  have hempty : inner.cursor.rest.isEmpty = false := by simpa using hrest
  -- What is left over of the terminals is left over of the tokens.
  have hkinds : inner.cursor.rest.map (·.kind) =
      ((Token.significant (Token.tokenize text)).drop inner.cursor.index).map (·.kind) := by
    have hindex := hcovers.index_add_length
    have htokens := hcovers.tokens_append
    have hlength := congrArg List.length htokens
    simp only [origin, List.length_append, List.length_map] at hindex hlength
    rw [origin, Terminal.map_kind_ofTokens] at htokens
    rw [List.map_drop, ← htokens, List.drop_left' (by omega)]
  cases htokens : (Token.significant (Token.tokenize text)).drop inner.cursor.index with
  | nil =>
      rw [htokens] at hkinds
      exact absurd (List.map_eq_nil_iff.1 hkinds) hrest
  | cons first later =>
      rw [htokens] at hkinds
      have hlocate := locate_eq_start htokens
      have hnext : nextKind inner.cursor = some first.kind := by
        rw [nextKind, ← List.getElem?_map, hkinds]
        rfl
      have herrors : a.parse.errors = (marksAll a.parts).map (errorAt (locate text)) :=
        errorsAll_eq_map_marks _ _
      obtain ⟨before, reported, row, htrees, hreported, hrow⟩ :=
        exists_errorNode a hcovers hparts hempty
      refine ⟨first, later, htokens, hkinds,
        ⟨before, reported, row, a.rest, ?_, hreported, hrow.trans htokens, a.trivia⟩, ?_, ?_⟩
      · rw [Account.parse, htrees, List.append_assoc]
        rfl
      · rw [herrors, List.getLast?_map, Option.map_map, ← hlocate]
        rcases errors_cases a hcovers hparts hempty with
          ⟨⟨mark, hlast, hmark⟩, hmarks⟩ | ⟨-, hmarks⟩
        · rw [hmarks, hlast, ← hmark]
          rfl
        · rw [hmarks, List.getLast?_concat]
          rfl
      · rw [herrors, errorsAll_eq_map_marks, ← hlocate, ← hnext]
        rcases errors_cases a hcovers hparts hempty with
          ⟨⟨mark, hlast, hmark⟩, hmarks⟩ | ⟨hbefore, hmarks⟩
        · exact .inl ⟨⟨mark, List.mem_of_getLast? hlast, hmark⟩, by rw [hmarks]⟩
        · exact .inr ⟨hbefore, by rw [hmarks, List.map_append]; rfl⟩

/-- Tokens behind the subject of a text are reported once and never dropped. At most one error is
that a token is unexpected; and if the subject ends before the text, all the tokens behind it are
in the last node of the root, which is one of errors, and the last error is about the first of them.
If the subject ends with the text, there are no other errors than its own. -/
theorem leftovers_collected (s : Subject) (text : String) :
    ∃ parse inner, Parse.ofText s text = .ok parse ∧
      deepEnough (fun r => Grammar.subject r s) (origin text) = .ok inner ∧
      parse.errors.countP (fun error => isUnexpected error.kind) ≤ 1 ∧
      (inner.cursor.rest = [] → parse.errors = errorsAll (locate text) inner.parts) ∧
      (inner.cursor.rest ≠ [] → ∃ first later, Collected text parse inner first later) := by
  obtain ⟨a, hparse⟩ := exists_account s text
  obtain ⟨inner, hrun, hcovers, hparts⟩ := exists_subject a
  refine ⟨a.parse, inner, hparse, hrun, ?_, fun hrest => ?_, collected_of_account a hcovers hparts⟩
  · rw [Account.parse, errorsAll_eq_map_marks, List.countP_map]
    exact countP_marks_le_one a
  · rw [Account.parse, hparts, leftovers, hrest]
    exact congrArg (errorsAll (locate text)) (List.append_nil _)

/-- Behind a name, another one and what is behind that are left over. -/
theorem leftovers_collected_names :
    ∃ parse inner first later, Parse.ofText .expression "a /* b */ c ) d" = .ok parse ∧
      inner.cursor.rest ≠ [] ∧
      Collected "a /* b */ c ) d" parse inner first later := by
  obtain ⟨parse, inner, hparse, hrun, -, -, hcollected⟩ :=
    leftovers_collected .expression "a /* b */ c ) d"
  have hlength : (deepEnough (fun r => Grammar.subject r .expression)
      (origin "a /* b */ c ) d")).toOption.map (·.cursor.rest.length) = some 3 := by
    decide +kernel
  rw [hrun] at hlength
  have hrest : inner.cursor.rest ≠ [] := List.length_pos_iff.1 (by simp_all [Except.toOption])
  obtain ⟨first, later, hfirst⟩ := hcollected hrest
  exact ⟨parse, inner, first, later, hparse, hrest, hfirst⟩

end PatternSyntax.Proofs.Leftovers
