import PatternSyntax.Proofs.ErrorPlaces
import PatternSyntax.Proofs.Marks
import PatternSyntax.Proofs.Shapes

/-!
What a parse depends on: the kinds of the significant tokens, and which marks of an operator that
begins with `>` touch. Texts that agree in this are parsed alike.
-/

namespace PatternSyntax.Proofs.Terminals

open PatternSyntax.Proofs.ErrorPlaces
open PatternSyntax.Proofs.Lossless
open PatternSyntax.Proofs.Marks
open PatternSyntax.Proofs.Shapes
open PatternSyntax.Proofs.Weave

/-- Rows of significant tokens of the same kinds, in which each `>` before a `>` or `=` touches it
in both of them or in none. -/
structure Alike (tokens others : List Token) : Prop where
  kinds : tokens.map (·.kind) = others.map (·.kind)
  adjacency : ∀ (i : Nat) (token next other follower : Token),
    tokens[i]? = some token → tokens[i + 1]? = some next →
    others[i]? = some other → others[i + 1]? = some follower →
    token.kind = .gt → next.kind = .gt ∨ next.kind = .assign →
    (token.stop = next.start ↔ other.stop = follower.start)

theorem isGlued_iff (token next : Token) :
    Terminal.isGlued token next = true ↔
      token.kind = .gt ∧ (next.kind = .gt ∨ next.kind = .assign) ∧ token.stop = next.start := by
  simp [Terminal.isGlued, and_assoc]

/-- Whether the token behind a place, if there is one, makes one operator with the token before. -/
theorem getElem?_ofTokens (tokens : List Token) (i : Nat) :
    (Terminal.ofTokens tokens)[i]? = tokens[i]?.map fun token =>
      ⟨token.kind, tokens[i + 1]?.any (Terminal.isGlued token)⟩ := by
  induction i generalizing tokens with
  | zero =>
      fun_cases Terminal.ofTokens tokens
      all_goals simp
  | succ i ih =>
      fun_cases Terminal.ofTokens tokens
      · rfl
      · rfl
      · rw [List.getElem?_cons_succ, List.getElem?_cons_succ, List.getElem?_cons_succ]
        exact ih _

namespace Alike

variable {tokens others : List Token}

theorem kind_eq (h : Alike tokens others) {i : Nat} {token other : Token}
    (htoken : tokens[i]? = some token) (hother : others[i]? = some other) :
    token.kind = other.kind := by
  have heq := congrArg (·[i]?) h.kinds
  simpa [htoken, hother] using heq

theorem length_eq (h : Alike tokens others) : tokens.length = others.length := by
  simpa using congrArg List.length h.kinds

theorem both_or_none (h : Alike tokens others) (i : Nat) :
    (∃ token other, tokens[i]? = some token ∧ others[i]? = some other) ∨
      (tokens[i]? = none ∧ others[i]? = none) := by
  by_cases hlt : i < tokens.length
  · exact .inl ⟨_, _, List.getElem?_eq_getElem hlt, List.getElem?_eq_getElem (h.length_eq ▸ hlt)⟩
  · exact .inr ⟨List.getElem?_eq_none (by omega),
      List.getElem?_eq_none (by have := h.length_eq; omega)⟩

theorem isGlued_eq (h : Alike tokens others) {i : Nat} {token next other follower : Token}
    (htoken : tokens[i]? = some token) (hnext : tokens[i + 1]? = some next)
    (hother : others[i]? = some other) (hfollower : others[i + 1]? = some follower) :
    Terminal.isGlued token next = Terminal.isGlued other follower := by
  rw [Bool.eq_iff_iff, isGlued_iff, isGlued_iff, ← h.kind_eq htoken hother,
    ← h.kind_eq hnext hfollower]
  exact and_congr_right fun hgt => and_congr_right fun hmark =>
    h.adjacency i token next other follower htoken hnext hother hfollower hgt hmark

theorem ofTokens_eq (h : Alike tokens others) :
    Terminal.ofTokens tokens = Terminal.ofTokens others := by
  refine List.ext_getElem? fun i => ?_
  rw [getElem?_ofTokens, getElem?_ofTokens]
  rcases h.both_or_none i with ⟨token, other, htoken, hother⟩ | ⟨htoken, hother⟩
  · rw [htoken, hother, Option.map_some, Option.map_some, h.kind_eq htoken hother]
    rcases h.both_or_none (i + 1) with ⟨next, follower, hnext, hfollower⟩ | ⟨hnext, hfollower⟩
    · rw [hnext, hfollower, Option.any_some, Option.any_some,
        h.isGlued_eq htoken hnext hother hfollower]
    · rw [hnext, hfollower, Option.any_none, Option.any_none]
  · rw [htoken, hother, Option.map_none, Option.map_none]

end Alike

/-- The index of the significant token at an offset: how many of them begin before it. -/
def indexAt (text : String) (offset : Nat) : Nat :=
  (Token.significant (Token.tokenize text)).countP fun token => token.start < offset

theorem lexeme_ne_nil (first : Char) (rest : List Char) : Token.lexeme first rest ≠ [] := by
  have hlength := (Token.scan_suffix first rest).length_le
  rw [Token.lexeme, ← List.length_pos_iff, List.length_take, List.length_cons]
  omega

theorem ne_nil_of_mem_lexemes {cs : List Char} {piece : TokenKind × List Char}
    (hmem : piece ∈ Token.lexemes cs) : piece.2 ≠ [] := by
  fun_induction Token.lexemes cs with
  | case1 => cases hmem
  | case2 first rest ih =>
      rcases List.mem_cons.1 hmem with rfl | hmem
      · exact lexeme_ne_nil first rest
      · exact ih hmem

theorem exists_of_mem_place {start : Nat} {pieces : List (TokenKind × List Char)} {token : Token}
    (hmem : token ∈ Token.place start pieces) :
    ∃ piece ∈ pieces, token.kind = piece.1 ∧ token.text = String.ofList piece.2 := by
  induction pieces generalizing start with
  | nil => cases hmem
  | cons piece rest ih =>
      rcases List.mem_cons.1 hmem with rfl | hmem
      · exact ⟨piece, List.mem_cons_self, rfl, rfl⟩
      · obtain ⟨found, hfound, heq⟩ := ih hmem
        exact ⟨found, List.mem_cons_of_mem _ hfound, heq⟩

theorem start_lt_stop {text : String} {token : Token} (hmem : token ∈ Token.tokenize text) :
    token.start < token.stop := by
  obtain ⟨piece, hpiece, -, htext⟩ := exists_of_mem_place hmem
  have hne : token.text ≠ "" := fun hempty => ne_nil_of_mem_lexemes hpiece <| by
    simpa [htext] using hempty
  have hpos : token.text.utf8ByteSize ≠ 0 := fun hzero =>
    hne (String.utf8ByteSize_eq_zero_iff.1 hzero)
  rw [Token.stop]
  omega

theorem sorted_of_adjoins {start : Nat} {tokens : List Token} (hadjoins : Adjoins start tokens)
    (hpos : ∀ token ∈ tokens, token.start < token.stop) :
    tokens.Pairwise (fun before behind => before.start < behind.start) ∧
      start ≤ endOf start tokens ∧
      ∀ token ∈ tokens, start ≤ token.start ∧ token.start < endOf start tokens := by
  induction tokens generalizing start with
  | nil => exact ⟨.nil, Nat.le_refl _, nofun⟩
  | cons token tokens ih =>
      obtain ⟨rfl, hrest⟩ := hadjoins
      obtain ⟨hlt, hpos⟩ := List.forall_mem_cons.1 hpos
      obtain ⟨hsorted, hend, hbounds⟩ := ih hrest hpos
      refine ⟨List.pairwise_cons.2 ⟨fun behind hbehind => ?_, hsorted⟩, ?_,
        List.forall_mem_cons.2 ⟨⟨Nat.le_refl _, Nat.lt_of_lt_of_le hlt hend⟩,
          fun behind hbehind => ⟨?_, (hbounds behind hbehind).2⟩⟩⟩
      · exact Nat.lt_of_lt_of_le hlt (hbounds behind hbehind).1
      · exact hlt.le.trans hend
      · exact hlt.le.trans (hbounds behind hbehind).1

theorem countP_start_lt {tokens : List Token}
    (hsorted : tokens.Pairwise fun before behind => before.start < behind.start) {i : Nat}
    {token : Token} (hget : tokens[i]? = some token) :
    tokens.countP (fun other => other.start < token.start) = i := by
  induction tokens generalizing i with
  | nil => simp at hget
  | cons head tokens ih =>
      obtain ⟨hhead, hsorted⟩ := List.pairwise_cons.1 hsorted
      cases i with
      | zero =>
          cases hget
          refine List.countP_eq_zero.2 fun other hother => ?_
          rcases List.mem_cons.1 hother with rfl | hother
          · simp
          · simpa using (hhead other hother).le
      | succ i =>
          rw [List.getElem?_cons_succ] at hget
          have hlt := hhead token (List.mem_of_getElem? hget)
          rw [List.countP_cons_of_pos (by simpa using hlt), ih hsorted hget]

/-- As many significant tokens begin before the place of an index as come before the index. -/
theorem indexAt_locate (text : String) (i : Nat) :
    indexAt text (locate text i) = min i (Token.significant (Token.tokenize text)).length := by
  obtain ⟨hsorted, -, hbounds⟩ := sorted_of_adjoins (adjoins_tokenize text) fun _ => start_lt_stop
  rw [endOf_tokenize] at hbounds
  have hfilter : (Token.significant (Token.tokenize text)).Sublist (Token.tokenize text) :=
    List.filter_sublist
  rw [indexAt, locate, offsetOf, List.getElem?_toArray]
  split
  · rename_i token hget
    have hlt := (List.getElem?_eq_some_iff.1 hget).1
    rw [countP_start_lt (hsorted.sublist hfilter) hget, Nat.min_eq_left hlt.le]
  · rename_i hnone
    rw [Nat.min_eq_right (List.getElem?_eq_none_iff.1 hnone), List.countP_eq_length]
    exact fun token hmem => decide_eq_true (hbounds token (hfilter.subset hmem)).2

theorem indexAt_errorsAll (text : String) (parts : List Outline) :
    (errorsAll (locate text) parts).map (fun error => indexAt text error.span.start) =
      (marksAll parts).map fun mark =>
        min mark.2 (Token.significant (Token.tokenize text)).length := by
  rw [errorsAll_eq_map_marks, List.map_map]
  exact List.map_congr_left fun mark _ => indexAt_locate text mark.2

theorem parts_eq_of_alike {s : Subject} {text other : String} (a : Account s text)
    (b : Account s other)
    (h : Alike (Token.significant (Token.tokenize text))
      (Token.significant (Token.tokenize other))) : a.parts = b.parts := by
  have houtline : Parse.outline s (Token.tokenize text) =
      Parse.outline s (Token.tokenize other) := by
    rw [Parse.outline, Parse.outline, h.ofTokens_eq]
  rw [a.outline_eq, b.outline_eq] at houtline
  exact (Outline.node.inj (Except.ok.inj houtline)).2

/-- Two texts with the same kinds of significant tokens, of which the same ones touch where a `>`
is before a `>` or `=`, have trees of the same shape, and the same errors at the same tokens. Names
and values, blanks and comments do not matter. -/
theorem parse_of_alike (s : Subject) (text other : String)
    (h : Alike (Token.significant (Token.tokenize text))
      (Token.significant (Token.tokenize other))) :
    ∃ parse parse', Parse.ofText s text = .ok parse ∧ Parse.ofText s other = .ok parse' ∧
      shape parse.tree = shape parse'.tree ∧
      parse.errors.map (·.kind) = parse'.errors.map (·.kind) ∧
      parse.errors.map (fun error => indexAt text error.span.start) =
        parse'.errors.map (fun error => indexAt other error.span.start) := by
  obtain ⟨a, hparse⟩ := exists_account s text
  obtain ⟨b, hparse'⟩ := exists_account s other
  have hparts := parts_eq_of_alike a b h
  refine ⟨a.parse, b.parse, hparse, hparse', ?_, ?_, ?_⟩
  · rw [shape_parse, shape_parse, hparts]
  · rw [Account.parse, Account.parse, errorsAll_eq_map_marks, errorsAll_eq_map_marks, hparts,
      List.map_map, List.map_map]
    rfl
  · rw [Account.parse, Account.parse, indexAt_errorsAll, indexAt_errorsAll, hparts, h.length_eq]

/-- A shift with a token too many behind it, once without blanks and once with a comment. -/
theorem parse_of_alike_shift :
    Alike (Token.significant (Token.tokenize "a>>b)"))
        (Token.significant (Token.tokenize "sum >> /* by */\n n )")) ∧
      ∃ parse parse', Parse.ofText .expression "a>>b)" = .ok parse ∧
        Parse.ofText .expression "sum >> /* by */\n n )" = .ok parse' ∧
        shape parse.tree = shape parse'.tree ∧
        parse.errors.map (·.kind) = parse'.errors.map (·.kind) ∧
        parse.errors.map (fun error => indexAt "a>>b)" error.span.start) =
          parse'.errors.map (fun error => indexAt "sum >> /* by */\n n )" error.span.start) := by
  have htokens : Token.significant (Token.tokenize "a>>b)") =
      [⟨.ident, 0, "a"⟩, ⟨.gt, 1, ">"⟩, ⟨.gt, 2, ">"⟩, ⟨.ident, 3, "b"⟩,
        ⟨.closeParen, 4, ")"⟩] := by
    decide +kernel
  have hothers : Token.significant (Token.tokenize "sum >> /* by */\n n )") =
      [⟨.ident, 0, "sum"⟩, ⟨.gt, 4, ">"⟩, ⟨.gt, 5, ">"⟩, ⟨.ident, 17, "n"⟩,
        ⟨.closeParen, 19, ")"⟩] := by
    decide +kernel
  have halike : Alike (Token.significant (Token.tokenize "a>>b)"))
      (Token.significant (Token.tokenize "sum >> /* by */\n n )")) := by
    rw [htokens, hothers]
    refine ⟨rfl, fun i token next other follower htoken hnext hother hfollower hgt hmark => ?_⟩
    match i with
    | 0 => cases htoken; cases hgt
    | 1 => cases htoken; cases hnext; cases hother; cases hfollower; decide
    | 2 => cases hnext; simp at hmark
    | 3 => cases htoken; cases hgt
    | i + 4 => simp at hnext
  exact ⟨halike, parse_of_alike .expression _ _ halike⟩

end PatternSyntax.Proofs.Terminals
