import PatternSyntax.Proofs.Scanning
import PatternSyntax.Proofs.Spelling
import PatternSyntax.Proofs.Terminals

/-!
A text as a part of another one: a keyword and a blank come before it, and a line end and one more
token behind it. Its significant tokens stay the same, and so does what the grammar knows of them.
-/

namespace PatternSyntax.Proofs.Embedding

open PatternSyntax.Proofs.Scanning
open PatternSyntax.Proofs.Spelling
open PatternSyntax.Proofs.Terminals
open Text (isBlank)
open Token

/-- The token of a row of blanks, if there are any. -/
def blankPiece : List Char → List (TokenKind × List Char)
  | [] => []
  | blanks => [(.whitespace, blanks)]

theorem isTrivia_of_mem_blankPiece {blanks : List Char} {piece : TokenKind × List Char}
    (hmem : piece ∈ blankPiece blanks) : piece.1.isTrivia = true := by
  cases blanks with
  | nil => cases hmem
  | cons first rest =>
      cases List.mem_singleton.1 hmem
      rfl

theorem scan_of_isBlank {first : Char} (h : isBlank first = true) (rest : List Char) :
    scan first rest = (.whitespace, rest.dropWhile isBlank) :=
  if_pos h

theorem lexemes_of_isBlank {first : Char} (h : isBlank first = true) (rest : List Char) :
    lexemes (first :: rest) =
      (.whitespace, first :: rest.takeWhile isBlank) :: lexemes (rest.dropWhile isBlank) :=
  lexemes_eq (scan_of_isBlank h rest) List.takeWhile_append_dropWhile.symm

theorem lexemes_lead (cs : List Char) :
    lexemes cs = blankPiece (cs.takeWhile isBlank) ++ lexemes (cs.dropWhile isBlank) := by
  cases cs with
  | nil => rfl
  | cons first rest =>
      by_cases h : isBlank first = true
      · rw [lexemes_of_isBlank h, List.takeWhile_cons_of_pos h, List.dropWhile_cons_of_pos h]
        rfl
      · rw [List.takeWhile_cons_of_neg h, List.dropWhile_cons_of_neg h]
        rfl

theorem lexemes_word_blank {kind : TokenKind} {word : String} (h : IsWord kind word)
    (cs : List Char) : lexemes (word.toList ++ ' ' :: cs) =
      (kind, word.toList) :: (.whitespace, ' ' :: cs.takeWhile isBlank) ::
        lexemes (cs.dropWhile isBlank) := by
  obtain ⟨first, rest, hword, hscan⟩ := h.exists_scan
  have hscan' := scan_blank (by decide) hscan (.inr (endsBefore_of_solid h.1 ' ')) cs
  rw [hword, List.cons_append, lexemes_eq hscan' rfl, List.nil_append,
    lexemes_of_isBlank (by decide)]

/-- The last token of a text ends with a line. -/
def EndsWithLine (cs : List Char) : Prop :=
  ∀ piece ∈ (lexemes cs).getLast?,
    piece.1 ≠ .unterminatedBlockComment ∧ piece.1 ≠ .unterminatedLiteral

/-- A token at the end of a text ends before a line end, unless that becomes a part of it. -/
theorem eq_whitespace_of_endsBefore {kind : TokenKind} (h : ¬endsBefore '\n' kind = true)
    (hkind : kind ≠ .unterminatedBlockComment ∧ kind ≠ .unterminatedLiteral) :
    kind = .whitespace := by
  unfold endsBefore at h
  split at h
  · rfl
  · exact absurd rfl hkind.1
  · exact absurd rfl hkind.2
  · exact absurd (by decide) h
  · exact absurd rfl h

theorem EndsWithLine.tail {cs back : List Char} {piece : TokenKind × List Char}
    (h : EndsWithLine cs) (hcs : lexemes cs = piece :: lexemes back) : EndsWithLine back := by
  intro last hlast
  refine h last ?_
  rw [hcs, List.getLast?_cons, hlast]
  rfl

/-- A line end behind a text becomes a part of the blanks at its end, or a token of its own. -/
theorem lexemes_append_line {next : Char} (hnext : isBlank next = false) (later cs : List Char)
    (hends : EndsWithLine cs) : ∃ front blanks,
      lexemes cs = front ++ blankPiece blanks ∧
      lexemes (cs ++ '\n' :: next :: later) =
        front ++ (.whitespace, blanks ++ ['\n']) :: lexemes (next :: later) := by
  have htake : ('\n' :: next :: later).takeWhile isBlank = ['\n'] := by
    rw [List.takeWhile_cons_of_pos (by decide), List.takeWhile_cons_of_neg (by simp [hnext])]
  have hdrop : ('\n' :: next :: later).dropWhile isBlank = next :: later := by
    rw [List.dropWhile_cons_of_pos (by decide), List.dropWhile_cons_of_neg (by simp [hnext])]
  fun_induction lexemes cs with
  | case1 =>
      refine ⟨[], [], rfl, ?_⟩
      rw [List.nil_append, lexemes_lead, htake, hdrop]
      rfl
  | case2 first rest ih =>
      rw [← lexemes.eq_2]
      obtain ⟨word, hword⟩ := scan_suffix first rest
      cases hscan : scan first rest with
      | mk kind back =>
          rw [hscan] at ih hword
          have hfirst : lexemes (first :: rest) = (kind, first :: word) :: lexemes back :=
            lexemes_eq hscan hword.symm
          by_cases hend : back ≠ [] ∨ endsBefore '\n' kind = true
          · obtain ⟨front, blanks, hfront, hlater⟩ := ih (hends.tail hfirst)
            refine ⟨(kind, first :: word) :: front, blanks, by rw [hfirst, hfront]; rfl, ?_⟩
            have hscan' := scan_blank (by decide) hscan hend (next :: later)
            rw [List.cons_append, lexemes_eq hscan' (by rw [← hword, List.append_assoc]), hlater]
            rfl
          · obtain ⟨hback, hkind⟩ := not_or.1 hend
            obtain rfl := not_ne_iff.1 hback
            -- the text ends with blanks, and the line end is one more of them
            obtain rfl := eq_whitespace_of_endsBefore hkind (hends (kind, first :: word)
              (by rw [hfirst, lexemes]; rfl))
            refine ⟨[], first :: word, by rw [hfirst, lexemes]; rfl, ?_⟩
            have hblank : isBlank first = true := isBlank_of_scan (by rw [hscan])
            have hall : ∀ c ∈ word, isBlank c = true := by
              rw [scan_of_isBlank hblank, ← hword, List.append_nil] at hscan
              exact List.dropWhile_eq_nil_iff.1 (Prod.mk.inj hscan).2
            rw [← hword, List.append_nil, List.cons_append, lexemes_of_isBlank hblank,
              List.takeWhile_append_of_pos hall, List.dropWhile_append_of_pos hall, htake, hdrop]
            rfl

theorem EndsWithLine.dropWhile {cs : List Char} (h : EndsWithLine cs) :
    EndsWithLine (cs.dropWhile isBlank) := by
  intro piece hpiece
  refine h piece ?_
  rw [lexemes_lead, List.getLast?_append, hpiece]
  rfl

/-- A text that stands between a keyword and a token on the next line keeps its tokens, but for the
blanks around it. -/
theorem lexemes_between {kind : TokenKind} {word : String} (hword : IsWord kind word) {next : Char}
    (hnext : isBlank next = false) (later : List Char) {cs : List Char} (hends : EndsWithLine cs)
    (hsolid : cs.dropWhile isBlank ≠ []) : ∃ lead front trail lead',
      lexemes cs = blankPiece lead ++ (front ++ blankPiece trail) ∧
      lexemes (word.toList ++ ' ' :: (cs ++ '\n' :: next :: later)) =
        (kind, word.toList) :: (.whitespace, lead') ::
          (front ++ (.whitespace, trail ++ ['\n']) :: lexemes (next :: later)) := by
  obtain ⟨front, trail, hcs, hlater⟩ :=
    lexemes_append_line hnext later (cs.dropWhile isBlank) hends.dropWhile
  refine ⟨cs.takeWhile isBlank, front, trail,
    ' ' :: (cs ++ '\n' :: next :: later).takeWhile isBlank, by rw [lexemes_lead, hcs], ?_⟩
  have hdrop : (cs ++ '\n' :: next :: later).dropWhile isBlank =
      cs.dropWhile isBlank ++ '\n' :: next :: later := by
    rw [List.dropWhile_append, if_neg (by simpa using hsolid)]
  rw [lexemes_word_blank hword, hdrop, hlater]

/-- A text that stands behind a name and a keyword keeps its tokens, but for the blanks before
it. -/
theorem lexemes_behind {kind : TokenKind} {word : String} (hword : IsWord kind word)
    (cs : List Char) : ∃ lead',
      lexemes (word.toList ++ ' ' :: ("instanceof".toList ++ ' ' :: cs)) =
        (kind, word.toList) :: (.whitespace, [' ']) :: (.instanceofKw, "instanceof".toList) ::
          (.whitespace, lead') :: lexemes (cs.dropWhile isBlank) := by
  have hkeyword : IsWord .instanceofKw "instanceof" := isWord_spelling rfl
  exact ⟨_, (lexemes_word_blank hword _).trans
    (congrArg (fun pieces => (kind, word.toList) :: (.whitespace, [' ']) :: pieces)
      (lexemes_word_blank hkeyword cs))⟩

/-- What the grammar knows of the significant ones of tokens that stand one behind the other. -/
def terminals : List (TokenKind × List Char) → List Terminal
  | [] => []
  | (kind, _) :: rest =>
    if kind.isTrivia then terminals rest
    else ⟨kind, kind == .gt && rest.head?.any fun next => next.1 == .gt || next.1 == .assign⟩ ::
      terminals rest

theorem ofTokens_cons (token : Token) (tokens : List Token) :
    Terminal.ofTokens (token :: tokens) =
      ⟨token.kind, tokens.head?.any (Terminal.isGlued token)⟩ :: Terminal.ofTokens tokens := by
  cases tokens with
  | nil => rfl
  | cons next rest => rfl

theorem start_le_of_mem_place {start : Nat} {pieces : List (TokenKind × List Char)} {token : Token}
    (hmem : token ∈ place start pieces) : start ≤ token.start := by
  induction pieces generalizing start with
  | nil => cases hmem
  | cons piece rest ih =>
      rcases List.mem_cons.1 hmem with rfl | hmem
      · exact Nat.le_refl _
      · exact (Nat.le_add_right _ _).trans (ih hmem)

theorem significant_cons_of_isTrivia {token : Token} {rest : List Token}
    (h : token.kind.isTrivia = true) : significant (token :: rest) = significant rest :=
  List.filter_cons_of_neg (by simp [h])

theorem any_isGlued_significant (token : Token) {rest : List (TokenKind × List Char)}
    (hne : ∀ piece ∈ rest, piece.2 ≠ []) :
    (significant (place token.stop rest)).head?.any (Terminal.isGlued token) =
      (token.kind == .gt && rest.head?.any fun next => next.1 == .gt || next.1 == .assign) := by
  cases rest with
  | nil => exact (Bool.and_false _).symm
  | cons next rest =>
      obtain ⟨kind, chars⟩ := next
      by_cases htrivia : kind.isTrivia = true
      · have hmark : (kind == .gt || kind == .assign) = false := by
          cases kind with
          | _ => first | rfl | cases htrivia
        have hchars : (String.ofList chars).utf8ByteSize ≠ 0 := fun hzero =>
          hne _ List.mem_cons_self
            (String.ofList_eq_empty_iff.1 (String.utf8ByteSize_eq_zero_iff.1 hzero))
        rw [place, significant_cons_of_isTrivia htrivia, List.head?_cons, Option.any_some, hmark,
          Bool.and_false, Option.any_eq_false]
        intro later hlater
        have hstart := start_le_of_mem_place (List.mem_filter.1 (List.mem_of_mem_head? hlater)).1
        have hapart : token.stop ≠ later.start := by
          rw [Token.stop] at hstart
          dsimp only at hstart
          omega
        simp [Terminal.isGlued, hapart]
      · rw [place, significant_cons (by simpa using htrivia), List.head?_cons, Option.any_some,
          List.head?_cons, Option.any_some, Terminal.isGlued]
        simp

theorem ofTokens_significant_place {pieces : List (TokenKind × List Char)}
    (hne : ∀ piece ∈ pieces, piece.2 ≠ []) (start : Nat) :
    Terminal.ofTokens (significant (place start pieces)) = terminals pieces := by
  induction pieces generalizing start with
  | nil => rfl
  | cons piece rest ih =>
      obtain ⟨kind, chars⟩ := piece
      obtain ⟨-, hrest⟩ := List.forall_mem_cons.1 hne
      by_cases htrivia : kind.isTrivia = true
      · rw [place, terminals, if_pos htrivia, significant_cons_of_isTrivia htrivia, ih hrest]
      · rw [place, significant_cons (by simpa using htrivia), ofTokens_cons, terminals,
          if_neg htrivia, ih hrest, any_isGlued_significant _ hrest]

theorem terminals_append_blanks (front back : List (TokenKind × List Char)) (blanks : List Char) :
    terminals (front ++ (.whitespace, blanks) :: back) = terminals front ++ terminals back := by
  induction front with
  | nil => rfl
  | cons piece rest ih =>
      obtain ⟨kind, chars⟩ := piece
      rw [List.cons_append, terminals, terminals, ih]
      split
      · rfl
      · cases rest with
        | nil => rfl
        | cons next rest => rfl

theorem terminals_blankPiece_append (blanks : List Char) (back : List (TokenKind × List Char)) :
    terminals (blankPiece blanks ++ back) = terminals back := by
  cases blanks with
  | nil => rfl
  | cons first rest => rfl

theorem terminals_append_blankPiece (front : List (TokenKind × List Char)) (blanks : List Char) :
    terminals (front ++ blankPiece blanks) = terminals front := by
  cases blanks with
  | nil => exact congrArg terminals (List.append_nil front)
  | cons first rest => exact (terminals_append_blanks front [] _).trans (List.append_nil _)

end PatternSyntax.Proofs.Embedding
