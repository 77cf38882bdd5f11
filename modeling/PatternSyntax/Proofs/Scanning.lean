import PatternSyntax.Token.Scan

/-!
What the scanners say about the token that they take.
-/

namespace PatternSyntax.Proofs.Scanning

open Token

theorem isLiteral_scanIntegerSuffix (cs : List Char) :
    (scanIntegerSuffix cs).1.isLiteral = true := by
  unfold scanIntegerSuffix
  split
  all_goals rfl

theorem isLiteral_scanFloatTail (cs : List Char) : (scanFloatTail cs).1.isLiteral = true := by
  unfold scanFloatTail scanFloatSuffix
  split
  all_goals rfl

theorem isLiteral_scanDecimalTail (cs : List Char) :
    (scanDecimalTail cs).1.isLiteral = true := by
  unfold scanDecimalTail
  split
  · split
    · rfl
    split
    · exact isLiteral_scanFloatTail _
    · exact isLiteral_scanFloatTail _
  · split
    · exact isLiteral_scanFloatTail _
    · exact isLiteral_scanIntegerSuffix _

theorem isLiteral_scanNumber (first : Char) (cs : List Char) :
    (scanNumber first cs).1.isLiteral = true := by
  unfold scanNumber
  split
  · unfold scanZero
    split
    · exact isLiteral_scanIntegerSuffix _
    · exact isLiteral_scanIntegerSuffix _
    · exact isLiteral_scanIntegerSuffix _
    · exact isLiteral_scanIntegerSuffix _
    · exact isLiteral_scanDecimalTail _
  · exact isLiteral_scanDecimalTail _

theorem wordKind_cases (word : List Char) :
    (wordKind word).word?.isSome = true ∨ wordKind word = .ident := by
  unfold wordKind
  cases hword : TokenKind.ofWord? (String.ofList word) with
  | none => exact .inr rfl
  | some kind =>
      left
      have hfound := List.find?_some hword
      rw [beq_iff_eq] at hfound
      simp [hfound]

theorem ne_unterminatedBlockComment_of_isLiteral {kind : TokenKind} (h : kind.isLiteral = true) :
    kind ≠ .unterminatedBlockComment := by
  rintro rfl
  cases h

theorem scanLiteral_ne_unterminatedBlockComment {kind : TokenKind} (quote : Char) (cs : List Char)
    (hkind : kind ≠ .unterminatedBlockComment) :
    (scanLiteral kind quote cs).1 ≠ .unterminatedBlockComment := by
  unfold scanLiteral
  split
  · exact hkind
  · exact nofun

theorem scanString_ne_unterminatedBlockComment (cs : List Char) :
    (scanString cs).1 ≠ .unterminatedBlockComment := by
  unfold scanString
  split
  · split
    · exact nofun
    · exact nofun
  · exact scanLiteral_ne_unterminatedBlockComment _ _ (by decide)

theorem wordKind_ne_unterminatedBlockComment (word : List Char) :
    wordKind word ≠ .unterminatedBlockComment := by
  intro h
  rcases wordKind_cases word with hword | hident
  · rw [h] at hword
    cases hword
  · rw [h] at hident
    cases hident

theorem scanSymbol_unterminatedBlockComment {first : Char} {cs : List Char}
    (h : (scanSymbol first cs).1 = .unterminatedBlockComment) : (scanSymbol first cs).2 = [] := by
  revert h
  unfold scanSymbol
  split
  case h_5 =>
    split
    · intro h
      exact absurd h (ne_unterminatedBlockComment_of_isLiteral (isLiteral_scanFloatTail _))
    · exact nofun
  case h_22 =>
    split
    · exact nofun
    · exact fun _ => rfl
  all_goals exact nofun

theorem scan_unterminatedBlockComment {first : Char} {cs : List Char}
    (h : (scan first cs).1 = .unterminatedBlockComment) : (scan first cs).2 = [] := by
  revert h
  unfold scan
  split
  · exact nofun
  split
  · intro h
    exact absurd h (wordKind_ne_unterminatedBlockComment _)
  split
  · intro h
    exact absurd h (ne_unterminatedBlockComment_of_isLiteral (isLiteral_scanNumber first cs))
  split
  · intro h
    exact absurd h (scanString_ne_unterminatedBlockComment cs)
  split
  · intro h
    exact absurd h (scanLiteral_ne_unterminatedBlockComment _ _ (by decide))
  · exact scanSymbol_unterminatedBlockComment

theorem scanLiteral_ne_whitespace {kind : TokenKind} (quote : Char) (cs : List Char)
    (hkind : kind ≠ .whitespace) : (scanLiteral kind quote cs).1 ≠ .whitespace := by
  unfold scanLiteral
  split
  · exact hkind
  · exact nofun

theorem scanString_ne_whitespace (cs : List Char) : (scanString cs).1 ≠ .whitespace := by
  unfold scanString
  split
  · split
    · exact nofun
    · exact nofun
  · exact scanLiteral_ne_whitespace _ _ (by decide)

theorem ne_whitespace_of_isLiteral {kind : TokenKind} (h : kind.isLiteral = true) :
    kind ≠ .whitespace := by
  rintro rfl
  cases h

theorem wordKind_ne_whitespace (word : List Char) : wordKind word ≠ .whitespace := by
  intro h
  rcases wordKind_cases word with hword | hident
  · rw [h] at hword
    cases hword
  · rw [h] at hident
    cases hident

theorem scanSymbol_ne_whitespace (first : Char) (cs : List Char) :
    (scanSymbol first cs).1 ≠ .whitespace := by
  unfold scanSymbol
  split
  case h_5 =>
    split
    · exact ne_whitespace_of_isLiteral (isLiteral_scanFloatTail _)
    · exact nofun
  case h_22 =>
    split
    · exact nofun
    · exact nofun
  all_goals exact nofun

theorem isBlank_of_scan {first : Char} {cs : List Char} (h : (scan first cs).1 = .whitespace) :
    Text.isBlank first = true := by
  revert h
  unfold scan
  split
  · exact fun _ => ‹_›
  split
  · exact fun h => absurd h (wordKind_ne_whitespace _)
  split
  · exact fun h => absurd h (ne_whitespace_of_isLiteral (isLiteral_scanNumber first cs))
  split
  · exact fun h => absurd h (scanString_ne_whitespace cs)
  split
  · exact fun h => absurd h (scanLiteral_ne_whitespace _ _ (by decide))
  · exact fun h => absurd h (scanSymbol_ne_whitespace first cs)

theorem map_kind_place (start : Nat) (pieces : List (TokenKind × List Char)) :
    (place start pieces).map (·.kind) = pieces.map (·.1) := by
  induction pieces generalizing start with
  | nil => rfl
  | cons piece rest ih => simp [place, ih]

theorem lexemes_dropLast_ne_unterminatedBlockComment (cs : List Char) :
    ∀ piece ∈ (lexemes cs).dropLast, piece.1 ≠ .unterminatedBlockComment := by
  fun_induction lexemes cs with
  | case1 => simp
  | case2 first cs ih =>
      intro piece hmem hkind
      by_cases hlast : lexemes (scan first cs).2 = []
      · simp [hlast] at hmem
      · rw [List.dropLast_cons_of_ne_nil hlast] at hmem
        rcases List.mem_cons.1 hmem with rfl | hmem
        · apply hlast
          rw [scan_unterminatedBlockComment hkind, lexemes]
        · exact ih piece hmem hkind

theorem tokenize_dropLast_ne_unterminatedBlockComment (text : String) :
    ∀ token ∈ (tokenize text).dropLast, token.kind ≠ .unterminatedBlockComment := by
  intro token hmem
  have hkind := List.mem_map_of_mem (f := fun token : Token => token.kind) hmem
  rw [List.map_dropLast, tokenize, map_kind_place, ← List.map_dropLast, List.mem_map] at hkind
  obtain ⟨piece, hpiece, heq⟩ := hkind
  rw [← heq]
  exact lexemes_dropLast_ne_unterminatedBlockComment text.toList piece hpiece

end PatternSyntax.Proofs.Scanning
