import Mathlib.Data.List.TakeWhile
import PatternSyntax.Grammar.Basic
import PatternSyntax.Token.Scan

/-!
Writing tokens down so that they can be read back. A blank ends a token without changing it, so
tokens with single blanks between them are scanned one by one.
-/

namespace PatternSyntax.Proofs.Spelling

open Text
open Token

theorem blank_cases {blank : Char} (h : isBlank blank = true) :
    blank = '\t' ∨ blank = '\n' ∨ blank = '\x0c' ∨ blank = '\r' ∨ blank = ' ' := by
  simpa [isBlank, or_assoc] using h

section Tables

variable [WordTables]

theorem isIdentStart_of_ascii {c : Char} (hc : c.toNat < 128) :
    isIdentStart c = (c == '_' || c == '$' || isLetter c) := by
  rw [isIdentStart, WordTables.start_of_ascii c hc]

theorem isIdentPart_of_ascii {c : Char} (hc : c.toNat < 128) :
    isIdentPart c = (isIdentStart c || isDigit c) := by
  rw [isIdentPart, WordTables.part_of_ascii c hc, isIdentStart_of_ascii hc]
  ac_rfl

theorem isIdentStart_of_isBlank {c : Char} (h : isBlank c = true) : isIdentStart c = false := by
  have hascii : c.toNat < 128 := by
    rcases blank_cases h with rfl | rfl | rfl | rfl | rfl <;> decide
  rw [isIdentStart_of_ascii hascii]
  rcases blank_cases h with rfl | rfl | rfl | rfl | rfl <;> rfl

theorem isIdentPart_of_isBlank {c : Char} (h : isBlank c = true) : isIdentPart c = false := by
  have hascii : c.toNat < 128 := by
    rcases blank_cases h with rfl | rfl | rfl | rfl | rfl <;> decide
  rw [isIdentPart_of_ascii hascii, isIdentStart_of_isBlank h]
  rcases blank_cases h with rfl | rfl | rfl | rfl | rfl <;> rfl

theorem isBlank_of_isIdentStart {c : Char} (h : isIdentStart c = true) : isBlank c = false := by
  cases hblank : isBlank c with
  | false => rfl
  | true =>
      rw [isIdentStart_of_isBlank hblank] at h
      cases h

theorem scan_of_isIdentStart {first : Char} (h : isIdentStart first = true) (rest : List Char) :
    scan first rest =
      (wordKind (first :: rest.takeWhile isIdentPart), rest.dropWhile isIdentPart) := by
  rw [scan, if_neg (by simp [isBlank_of_isIdentStart h]), if_pos h]

end Tables

theorem dropWhile_blank {blank : Char} {p : Char → Bool} (hp : p blank = false)
    (cs s : List Char) : (cs ++ blank :: s).dropWhile p = cs.dropWhile p ++ blank :: s := by
  rw [List.dropWhile_append]
  split
  · rename_i h
    rw [List.isEmpty_iff.1 h, List.dropWhile_cons_of_neg (by simp [hp]), List.nil_append]
  · rfl

theorem takeWhile_blank {blank : Char} {p : Char → Bool} (hp : p blank = false)
    (cs s : List Char) : (cs ++ blank :: s).takeWhile p = cs.takeWhile p := by
  induction cs with
  | nil => rw [List.nil_append, List.takeWhile_cons_of_neg (by simp [hp]), List.takeWhile_nil]
  | cons c cs ih => rw [List.cons_append, List.takeWhile_cons, List.takeWhile_cons, ih]

theorem head_any_blank {blank : Char} {p : Char → Bool} (hp : p blank = false)
    (cs s : List Char) : (cs ++ blank :: s).head?.any p = cs.head?.any p := by
  cases cs with
  | nil => exact hp
  | cons c cs => rfl

theorem ne_cons_blank {blank c : Char} {cs : List Char} (hc : blank ≠ c)
    (h : ∀ rest, cs = c :: rest → False) (s : List Char) :
    ∀ rest, cs ++ blank :: s = c :: rest → False := by
  intro rest heq
  cases cs with
  | nil => exact hc (List.cons.inj heq).1
  | cons d cs => exact h cs (by rw [(List.cons.inj heq).1])

/-- The scanner takes the same characters if a blank follows. -/
def Ignores (blank : Char) (scanner : List Char → TokenKind × List Char) : Prop :=
  ∀ cs s, scanner (cs ++ blank :: s) = ((scanner cs).1, (scanner cs).2 ++ blank :: s)

section Blank

variable {blank : Char} (hblank : isBlank blank = true)

include hblank

theorem ne_of_isBlank {c : Char} (hc : isBlank c = false) : blank ≠ c := by
  rintro rfl
  rw [hblank] at hc
  cases hc

theorem isDigitPart_of_isBlank : isDigitPart blank = false := by
  rcases blank_cases hblank with rfl | rfl | rfl | rfl | rfl <;> rfl

theorem ignores_scanIntegerSuffix : Ignores blank scanIntegerSuffix := by
  intro cs s
  cases cs with
  | nil => rcases blank_cases hblank with rfl | rfl | rfl | rfl | rfl <;> rfl
  | cons c cs =>
      rw [List.cons_append]
      unfold scanIntegerSuffix
      split <;> simp_all

theorem ignores_scanFloatSuffix : Ignores blank scanFloatSuffix := by
  intro cs s
  cases cs with
  | nil => rcases blank_cases hblank with rfl | rfl | rfl | rfl | rfl <;> rfl
  | cons c cs =>
      rw [List.cons_append]
      unfold scanFloatSuffix
      split <;> simp_all

theorem dropSign_blank (cs s : List Char) :
    dropSign (cs ++ blank :: s) = dropSign cs ++ blank :: s := by
  cases cs with
  | nil => rcases blank_cases hblank with rfl | rfl | rfl | rfl | rfl <;> rfl
  | cons c cs =>
      rw [List.cons_append]
      unfold dropSign
      split <;> simp_all

theorem dropExponent_blank (cs s : List Char) :
    dropExponent (cs ++ blank :: s) = dropExponent cs ++ blank :: s := by
  cases cs with
  | nil => rcases blank_cases hblank with rfl | rfl | rfl | rfl | rfl <;> rfl
  | cons c cs =>
      rw [List.cons_append]
      have hdigits := isDigitPart_of_isBlank hblank
      unfold dropExponent
      split <;> rename_i heq
      · cases heq
        exact (congrArg _ (dropSign_blank hblank _ _)).trans (dropWhile_blank hdigits _ _)
      · cases heq
        exact (congrArg _ (dropSign_blank hblank _ _)).trans (dropWhile_blank hdigits _ _)
      · simp_all

theorem ignores_scanFloatTail : Ignores blank scanFloatTail := by
  intro cs s
  rw [scanFloatTail, dropExponent_blank hblank, ignores_scanFloatSuffix hblank, scanFloatTail]

theorem ignores_scanDecimalTail : Ignores blank scanDecimalTail := by
  have hdigit : isDigit blank = false := by
    rcases blank_cases hblank with rfl | rfl | rfl | rfl | rfl <;> rfl
  have hmark : isFloatMark blank = false := by
    rcases blank_cases hblank with rfl | rfl | rfl | rfl | rfl <;> rfl
  intro cs s
  by_cases hdot : ∃ rest, cs = '.' :: rest
  · obtain ⟨rest, rfl⟩ := hdot
    rw [List.cons_append, scanDecimalTail, scanDecimalTail,
      head_any_blank (isIdentStart_of_isBlank hblank), head_any_blank hdigit,
      dropWhile_blank (isDigitPart_of_isBlank hblank)]
    split
    · rfl
    split
    · exact ignores_scanFloatTail hblank _ _
    · exact ignores_scanFloatTail hblank _ _
  · rw [not_exists] at hdot
    rw [scanDecimalTail.eq_2 _ (ne_cons_blank (ne_of_isBlank hblank rfl) hdot s),
      scanDecimalTail.eq_2 _ hdot, head_any_blank hmark]
    split
    · exact ignores_scanFloatTail hblank _ _
    · exact ignores_scanIntegerSuffix hblank _ _

theorem ignores_scanNumber (first : Char) : Ignores blank (scanNumber first) := by
  have hpart := isDigitPart_of_isBlank hblank
  have hhex : isHexDigitPart blank = false := by
    rcases blank_cases hblank with rfl | rfl | rfl | rfl | rfl <;> rfl
  intro cs s
  unfold scanNumber
  rw [dropWhile_blank hpart]
  split
  · fun_cases scanZero cs with
    | case1 rest =>
        rw [List.cons_append, scanZero, dropWhile_blank hpart]
        exact ignores_scanIntegerSuffix hblank _ _
    | case2 rest =>
        rw [List.cons_append, scanZero, dropWhile_blank hpart]
        exact ignores_scanIntegerSuffix hblank _ _
    | case3 rest =>
        rw [List.cons_append, scanZero, dropWhile_blank hhex]
        exact ignores_scanIntegerSuffix hblank _ _
    | case4 rest =>
        rw [List.cons_append, scanZero, dropWhile_blank hhex]
        exact ignores_scanIntegerSuffix hblank _ _
    | case5 =>
        rename_i h1 h2 h3 h4
        have hne {c : Char} (hc : isBlank c = false) (h : ∀ rest, cs = c :: rest → False) :=
          ne_cons_blank (ne_of_isBlank hblank hc) h s
        rw [scanZero.eq_5 _ (hne rfl h1) (hne rfl h2) (hne rfl h3) (hne rfl h4),
          dropWhile_blank hpart]
        exact ignores_scanDecimalTail hblank _ _
  · exact ignores_scanDecimalTail hblank _ _

end Blank

theorem scanQuoted_append {quote : Char} (hquote : quote ≠ '\\') {cs rest : List Char}
    (h : scanQuoted quote cs = .ok rest) (s : List Char) :
    scanQuoted quote (cs ++ s) = .ok (rest ++ s) := by
  fun_induction scanQuoted quote cs with
  | case1 => cases h
  | case2 => cases h
  | case3 escaped cs hescaped ih =>
      rw [List.cons_append, List.cons_append, scanQuoted, if_neg hescaped]
      exact ih h
  | case4 => cases h
  | case5 c cs hpair hend hclose =>
      cases h
      have hc : c ≠ '\\' := fun heq => hquote (by rw [← beq_iff_eq.1 hclose, heq])
      rw [List.cons_append, scanQuoted.eq_3 _ _ _ fun _ _ heq => absurd heq hc, if_neg hend,
        if_pos hclose]
  | case6 c cs hpair hend hclose ih =>
      cases cs with
      | nil => cases h
      | cons d cs =>
          have hc : c ≠ '\\' := fun heq => hpair _ _ heq rfl
          rw [List.cons_append, scanQuoted.eq_3 _ _ _ fun _ _ heq => absurd heq hc, if_neg hend,
            if_neg hclose]
          exact ih h

theorem scanQuoted_append_error {quote : Char} {cs rest : List Char}
    (h : scanQuoted quote cs = .error rest) (hrest : rest ≠ []) (s : List Char) :
    scanQuoted quote (cs ++ s) = .error (rest ++ s) := by
  fun_induction scanQuoted quote cs with
  | case1 =>
      cases h
      exact absurd rfl hrest
  | case2 escaped cs hescaped =>
      cases h
      rw [List.cons_append, List.cons_append, scanQuoted, if_pos hescaped]
  | case3 escaped cs hescaped ih =>
      rw [List.cons_append, List.cons_append, scanQuoted, if_neg hescaped]
      exact ih h
  | case4 c cs hpair hend =>
      cases h
      have hc : c ≠ '\\' := by
        rintro rfl
        cases hend
      rw [List.cons_append, scanQuoted.eq_3 _ _ _ fun _ _ heq => absurd heq hc, if_pos hend]
  | case5 => cases h
  | case6 c cs hpair hend hclose ih =>
      -- A backslash at the end would take what is appended along.
      cases cs with
      | nil =>
          cases h
          exact absurd rfl hrest
      | cons d cs =>
          have hc : c ≠ '\\' := fun heq => hpair _ _ heq rfl
          rw [List.cons_append, scanQuoted.eq_3 _ _ _ fun _ _ heq => absurd heq hc, if_neg hend,
            if_neg hclose]
          exact ih h

theorem scanTextBlock_append {cs rest : List Char} (h : scanTextBlock cs = some rest)
    (s : List Char) : scanTextBlock (cs ++ s) = some (rest ++ s) := by
  fun_induction scanTextBlock cs with
  | case1 => cases h
  | case2 c cs ih => exact ih h
  | case3 cs =>
      cases h
      rfl
  | case4 c cs hescape hclose ih =>
      cases cs with
      | nil => cases h
      | cons d cs =>
          cases cs with
          | nil => simp [scanTextBlock] at h
          | cons e cs =>
              rw [List.cons_append, scanTextBlock.eq_4 _ _ (fun _ _ heq _ => hescape _ _ heq rfl)
                fun _ heq htail => ?_]
              · exact ih h
              · cases htail
                exact hclose _ heq rfl

theorem scanComment_append {cs rest : List Char} (h : scanComment cs = some rest)
    (s : List Char) : scanComment (cs ++ s) = some (rest ++ s) := by
  fun_induction scanComment cs with
  | case1 => cases h
  | case2 cs =>
      cases h
      rfl
  | case3 c cs hclose ih =>
      cases cs with
      | nil => cases h
      | cons d cs =>
          rw [List.cons_append, scanComment.eq_3 _ _ fun _ hc hd => ?_]
          · exact ih h
          · cases hd
            exact hclose _ hc rfl

/-- The kinds of tokens that a blank ends. -/
def Solid : TokenKind → Bool
  | .whitespace | .lineComment | .blockComment | .unterminatedBlockComment
  | .unterminatedLiteral | .unknown => false
  | _ => true

/-- Whether a token of a kind, at the end of a text, ends before this blank. -/
def endsBefore (blank : Char) : TokenKind → Bool
  | .whitespace | .unterminatedBlockComment | .unterminatedLiteral => false
  | .lineComment => blank == '\n'
  | _ => true

theorem endsBefore_of_solid {kind : TokenKind} (h : Solid kind = true) (blank : Char) :
    endsBefore blank kind = true := by
  unfold endsBefore
  split
  all_goals first | rfl | cases h

theorem scanLiteral_append {kind : TokenKind} {quote : Char} (hquote : quote ≠ '\\')
    {cs : List Char} (h : (scanLiteral kind quote cs).2 ≠ [] ∨
      (scanLiteral kind quote cs).1 ≠ .unterminatedLiteral) (s : List Char) :
    scanLiteral kind quote (cs ++ s) =
      ((scanLiteral kind quote cs).1, (scanLiteral kind quote cs).2 ++ s) := by
  unfold scanLiteral at h ⊢
  cases hscan : scanQuoted quote cs with
  | error rest =>
      rw [hscan] at h
      rw [scanQuoted_append_error hscan (h.resolve_right fun h => h rfl)]
  | ok rest => rw [scanQuoted_append hquote hscan]

section Blank

variable {blank : Char} (hblank : isBlank blank = true)

include hblank

theorem scanString_blank {cs : List Char}
    (h : (scanString cs).2 ≠ [] ∨ (scanString cs).1 ≠ .unterminatedLiteral) (s : List Char) :
    scanString (cs ++ blank :: s) = ((scanString cs).1, (scanString cs).2 ++ blank :: s) := by
  by_cases hopen : ∃ rest, cs = '"' :: '"' :: rest
  · obtain ⟨rest, rfl⟩ := hopen
    rw [List.cons_append, List.cons_append]
    unfold scanString at h ⊢
    cases hscan : scanTextBlock rest with
    | none =>
        simp only [hscan] at h
        exact absurd h (by decide)
    | some last => simp only [scanTextBlock_append hscan, hscan]
  · rw [not_exists] at hopen
    have hquote : blank ≠ '"' := ne_of_isBlank hblank rfl
    have hopen' : ∀ rest, cs ++ blank :: s = '"' :: '"' :: rest → False := by
      intro rest heq
      match cs, hopen with
      | [], _ => exact hquote (List.cons.inj heq).1
      | [c], _ => exact hquote (List.cons.inj (List.cons.inj heq).2).1
      | c :: d :: cs, hopen =>
          cases heq
          exact hopen _ rfl
    rw [scanString.eq_2 _ hopen] at h ⊢
    rw [scanString.eq_2 _ hopen']
    exact scanLiteral_append (by decide) h _

theorem scanSymbol_blank {first : Char} {cs back : List Char} {kind : TokenKind}
    (h : scanSymbol first cs = (kind, back)) (hback : back ≠ [] ∨ endsBefore blank kind = true)
    (s : List Char) : scanSymbol first (cs ++ blank :: s) = (kind, back ++ blank :: s) := by
  unfold scanSymbol at h
  split at h
  case h_5 hellipsis =>
    have hdots : ∀ rest, cs ++ blank :: s = '.' :: '.' :: rest → False := by
      have hdot : blank ≠ '.' := ne_of_isBlank hblank rfl
      intro rest heq
      match cs, hellipsis with
      | [], _ => exact hdot (List.cons.inj heq).1
      | [c], _ => exact hdot (List.cons.inj (List.cons.inj heq).2).1
      | c :: d :: cs, hellipsis =>
          cases heq
          exact hellipsis _ rfl
    have hdigit : isDigit blank = false := by
      rcases blank_cases hblank with rfl | rfl | rfl | rfl | rfl <;> rfl
    rw [scanSymbol.eq_5 _ hdots, head_any_blank hdigit,
      dropWhile_blank (isDigitPart_of_isBlank hblank), ignores_scanFloatTail hblank]
    split at h
    · rw [if_pos ‹_›, h]
    · rw [if_neg ‹_›]
      cases h
      rfl
  case h_21 rest =>
    obtain ⟨rfl, rfl⟩ := Prod.mk.inj h
    rw [List.cons_append, scanSymbol]
    by_cases hline : blank = '\n'
    · rw [dropWhile_blank (by simp [hline])]
    · have hne := hback.resolve_right (by simpa [endsBefore] using hline)
      rw [List.dropWhile_append, if_neg (by simpa using hne)]
  case h_22 rest =>
    cases hscan : scanComment rest with
    | none =>
        rw [hscan] at h
        cases h
        rcases hback with hback | hback
        · exact absurd rfl hback
        · cases hback
    | some last =>
        rw [hscan] at h
        cases h
        rw [List.cons_append, scanSymbol, scanComment_append hscan]
  case h_39 =>
    cases h
    unfold scanSymbol
    split
    all_goals first | rfl | contradiction
  -- The symbol is as long as possible, and the blank does not make it any longer.
  all_goals try (cases h; rfl)
  all_goals
    cases h
    cases cs with
    | nil => rcases blank_cases hblank with rfl | rfl | rfl | rfl | rfl <;> rfl
    | cons c cs =>
        rw [List.cons_append]
        unfold scanSymbol
        split
        all_goals simp_all

/-- A blank behind a text does not change the token that was scanned, if that is not the last one or
if the blank ends it. -/
theorem scan_blank {first : Char} {rest back : List Char} {kind : TokenKind}
    (h : scan first rest = (kind, back)) (hback : back ≠ [] ∨ endsBefore blank kind = true)
    (s : List Char) : scan first (rest ++ blank :: s) = (kind, back ++ blank :: s) := by
  have hliteral : back ≠ [] ∨ kind ≠ .unterminatedLiteral := by
    refine hback.imp_right ?_
    rintro hkind rfl
    cases hkind
  unfold scan at h ⊢
  split at h
  · rename_i hfirst
    obtain ⟨rfl, rfl⟩ := Prod.mk.inj h
    have hne := hback.resolve_right Bool.false_ne_true
    rw [if_pos hfirst, List.dropWhile_append, if_neg (by simpa using hne)]
  rename_i hfirst
  rw [if_neg hfirst]
  split at h
  · rename_i hstart
    obtain ⟨hword, hend⟩ := Prod.mk.inj h
    have hpart := isIdentPart_of_isBlank hblank
    rw [if_pos hstart, takeWhile_blank hpart, dropWhile_blank hpart, hword, hend]
  rename_i hstart
  rw [if_neg hstart]
  split at h
  · rename_i hdigit
    rw [if_pos hdigit, ignores_scanNumber hblank, h]
  rename_i hdigit
  rw [if_neg hdigit]
  split at h
  · rename_i hquote
    rw [if_pos hquote, scanString_blank hblank (by rwa [h]), h]
  rename_i hquote
  rw [if_neg hquote]
  split at h
  · rename_i hchar
    rw [if_pos hchar, scanLiteral_append (by decide) (by rwa [h]), h]
  · rename_i hchar
    rw [if_neg hchar]
    exact scanSymbol_blank hblank h hback s

end Blank

/-- A token to be written down, and whether the next one touches it. -/
structure Lexeme where
  kind : TokenKind
  text : String
  glued : Bool
deriving DecidableEq, Repr, Inhabited

/-- The text of tokens with single blanks between those that do not touch. -/
def spell : List Lexeme → List Char
  | [] => []
  | [last] => last.text.toList
  | lexeme :: next :: rest =>
    lexeme.text.toList ++ (if lexeme.glued then [] else [' ']) ++ spell (next :: rest)

/-- What the grammar knows of a token that is written down. -/
def Lexeme.terminal (lexeme : Lexeme) : Terminal :=
  ⟨lexeme.kind, lexeme.glued⟩

/-- A text that is a single token of a kind. -/
def IsWord (kind : TokenKind) (text : String) : Prop :=
  Solid kind = true ∧ lexemes text.toList = [(kind, text.toList)]

theorem IsWord.exists_scan {kind : TokenKind} {text : String} (h : IsWord kind text) :
    ∃ first rest, text.toList = first :: rest ∧ scan first rest = (kind, []) := by
  have hlexemes := h.2
  cases hchars : text.toList with
  | nil =>
      rw [hchars, lexemes] at hlexemes
      cases hlexemes
  | cons first rest =>
      rw [hchars, lexemes] at hlexemes
      obtain ⟨hhead, hback⟩ := List.cons.inj hlexemes
      refine ⟨first, rest, rfl, Prod.ext (Prod.mk.inj hhead).1 ?_⟩
      cases hscan : (scan first rest).2 with
      | nil => rfl
      | cons second later =>
          rw [hscan, lexemes] at hback
          cases hback

theorem isWord_spelling {kind : TokenKind} {text : String} (h : kind.spelling? = some text) :
    IsWord kind text := by
  have hall : ∀ kind ∈ TokenKind.all, ∀ text ∈ kind.spelling?,
      Solid kind = true ∧ lexemes text.toList = [(kind, text.toList)] := by
    decide +kernel
  exact hall kind (TokenKind.mem_all kind) text h

theorem lexemes_eq [WordTables] {first : Char} {rest word back : List Char} {kind : TokenKind}
    (h : scan first rest = (kind, back)) (hrest : rest = word ++ back) :
    lexemes (first :: rest) = (kind, first :: word) :: lexemes back := by
  have hlexeme : lexeme first rest = first :: word := by
    have happend := lexeme_append_scan first rest
    rw [h, hrest, ← List.cons_append] at happend
    rw [hrest]
    exact List.append_cancel_right happend
  rw [lexemes, hlexeme, h]

theorem lexemes_of_scan [WordTables] {first : Char} {rest : List Char} {kind : TokenKind}
    (h : scan first rest = (kind, [])) : lexemes (first :: rest) = [(kind, first :: rest)] := by
  rw [lexemes_eq h (List.append_nil rest).symm, lexemes]

theorem tokenize_of_lexemes [WordTables] {kind : TokenKind} {text : String}
    (h : lexemes text.toList = [(kind, text.toList)]) : tokenize text = [⟨kind, 0, text⟩] := by
  rw [tokenize, h, place, place, String.ofList_toList]

theorem isWord_of_isIdent {text : String} (h : isIdent text = true) : IsWord .ident text := by
  refine ⟨rfl, ?_⟩
  unfold isIdent at h
  split at h
  · cases h
  · rename_i first rest hchars
    simp only [Bool.and_eq_true, Option.isNone_iff_eq_none] at h
    obtain ⟨⟨hstart, hpart⟩, hkeyword⟩ := h
    have hword : rest.takeWhile isIdentPart = rest :=
      List.takeWhile_eq_self_iff.2 (List.all_eq_true.1 hpart)
    have hkind : wordKind (first :: rest) = .ident := by
      rw [wordKind, ← hchars, String.ofList_toList, hkeyword]
      rfl
    have hscan : scan first rest = (.ident, []) := by
      rw [scan_of_isIdentStart hstart, hword, hkind,
        List.dropWhile_eq_nil_iff.2 (List.all_eq_true.1 hpart)]
    rw [hchars, lexemes_of_scan hscan]

/-- Tokens that can be read back. Only a `>` before another one or before `=` touches the next. -/
inductive Spelled : List Lexeme → Prop
  | nil : Spelled []
  | cons {kind : TokenKind} {text : String} {rest : List Lexeme} :
      IsWord kind text → Spelled rest → Spelled (⟨kind, text, false⟩ :: rest)
  | glue {next : Lexeme} {rest : List Lexeme} :
      next.kind = .gt ∨ next.kind = .assign → Spelled (next :: rest) →
      Spelled (⟨.gt, ">", true⟩ :: next :: rest)

theorem Spelled.append {front back : List Lexeme} (hfront : Spelled front)
    (hback : Spelled back) : Spelled (front ++ back) := by
  induction hfront with
  | nil => exact hback
  | cons hword _ ih => exact .cons hword ih
  | glue hnext _ ih => exact .glue hnext ih

/-- All tokens of what is written down, blanks included. -/
def pieces : List Lexeme → List (TokenKind × List Char)
  | [] => []
  | [last] => [(last.kind, last.text.toList)]
  | lexeme :: next :: rest =>
    (lexeme.kind, lexeme.text.toList) ::
      ((if lexeme.glued then [] else [(.whitespace, [' '])]) ++ pieces (next :: rest))

theorem scan_of_symbol {first : Char} (hascii : first.toNat < 128)
    (hblank : isBlank first = false)
    (hword : (first == '_' || first == '$' || isLetter first) = false)
    (hdigit : isDigit first = false) (rest : List Char) :
    scan first rest = if first == '"' then scanString rest
      else if first == '\'' then scanLiteral .charLiteral '\'' rest
      else scanSymbol first rest := by
  rw [scan, hblank, isIdentStart_of_ascii hascii, hword, hdigit]
  rfl

theorem scan_gt (s : List Char) : scan '>' s = (.gt, s) :=
  scan_of_symbol (by decide) rfl rfl rfl s

theorem scan_space {first : Char} (hblank : isBlank first = false) (s : List Char) :
    scan ' ' (first :: s) = (.whitespace, first :: s) := by
  rw [scan, if_pos (by decide), List.dropWhile_cons_of_neg (by simp [hblank])]

theorem isBlank_of_solid {first : Char} {rest : List Char}
    (hkind : Solid (scan first rest).1 = true) : isBlank first = false := by
  cases hblank : isBlank first with
  | false => rfl
  | true =>
      rw [scan, if_pos hblank] at hkind
      cases hkind

theorem Spelled.head_spell {lexeme : Lexeme} {rest : List Lexeme}
    (h : Spelled (lexeme :: rest)) :
    ∃ first later, spell (lexeme :: rest) = first :: later ∧ isBlank first = false := by
  obtain ⟨first, word, hword, hblank⟩ : ∃ first word, lexeme.text.toList = first :: word ∧
      isBlank first = false := by
    cases h with
    | cons hword =>
        obtain ⟨first, word, htext, hscan⟩ := hword.exists_scan
        exact ⟨first, word, htext, isBlank_of_solid (by rw [hscan]; exact hword.1)⟩
    | glue => exact ⟨'>', [], rfl, rfl⟩
  cases rest with
  | nil => exact ⟨first, word, hword, hblank⟩
  | cons next rest =>
      rw [spell, hword]
      exact ⟨first, _, rfl, hblank⟩

theorem lexemes_spell {row : List Lexeme} (h : Spelled row) : lexemes (spell row) = pieces row := by
  induction h with
  | nil => exact lexemes.eq_1
  | @cons kind text rest hword hrest ih =>
      obtain ⟨first, word, htext, hscan⟩ := hword.exists_scan
      cases rest with
      | nil =>
          rw [spell, pieces, htext, lexemes_of_scan hscan]
      | cons next rest =>
          obtain ⟨second, later, hspell, hblank⟩ := hrest.head_spell
          rw [spell, pieces, ← ih, htext, hspell]
          change lexemes (first :: (word ++ [' '] ++ second :: later)) =
            (kind, first :: word) :: (.whitespace, [' ']) :: lexemes (second :: later)
          rw [List.append_assoc, List.singleton_append,
            lexemes_eq (scan_blank (by decide) hscan (.inr (endsBefore_of_solid hword.1 _)) _) rfl,
            List.nil_append, lexemes_eq (scan_space hblank later) (List.nil_append _).symm]
  | @glue next rest hnext _ ih =>
      rw [spell, pieces, ← ih]
      exact lexemes_eq (scan_gt _) (List.nil_append _).symm

/-- The significant tokens of what is written down, the first one at `start`. -/
def tokensFrom (start : Nat) : List Lexeme → List Token
  | [] => []
  | lexeme :: rest =>
    ⟨lexeme.kind, start, lexeme.text⟩ ::
      tokensFrom (start + lexeme.text.utf8ByteSize + if lexeme.glued then 0 else 1) rest

theorem isTrivia_of_solid {kind : TokenKind} (h : Solid kind = true) : kind.isTrivia = false := by
  cases kind with
  | whitespace => cases h
  | lineComment => cases h
  | blockComment => cases h
  | _ => rfl

theorem significant_cons {token : Token} {rest : List Token} (h : token.kind.isTrivia = false) :
    significant (token :: rest) = token :: significant rest := by
  rw [significant, List.filter_cons_of_pos (by simp [h])]
  rfl

theorem significant_place {row : List Lexeme} (h : Spelled row) (start : Nat) :
    significant (place start (pieces row)) = tokensFrom start row := by
  induction h generalizing start with
  | nil => rfl
  | @cons kind text rest hword hrest ih =>
      have htrivia := isTrivia_of_solid hword.1
      cases rest with
      | nil =>
          rw [pieces, place, significant_cons htrivia, String.ofList_toList]
          rfl
      | cons next rest =>
          rw [pieces, place, significant_cons htrivia, String.ofList_toList, tokensFrom, ← ih]
          rfl
  | @glue next rest _ _ ih =>
      rw [pieces, place, significant_cons rfl, tokensFrom, ← ih]
      rfl

theorem ofTokens_tokensFrom {row : List Lexeme} (h : Spelled row) (start : Nat) :
    Terminal.ofTokens (tokensFrom start row) = row.map Lexeme.terminal := by
  induction h generalizing start with
  | nil => rfl
  | @cons kind text rest _ _ ih =>
      cases rest with
      | nil => rfl
      | cons next rest =>
          have hapart : Terminal.isGlued ⟨kind, start, text⟩
              ⟨next.kind, start + text.utf8ByteSize + 1, next.text⟩ = false := by
            simp [Terminal.isGlued, Token.stop]
          exact congr (congrArg List.cons (congrArg (Terminal.mk kind) hapart)) (ih _)
  | @glue next rest hnext _ ih =>
      have htouch : Terminal.isGlued ⟨.gt, start, ">"⟩
          ⟨next.kind, start + ">".utf8ByteSize + 0, next.text⟩ = true := by
        rcases hnext with hgt | hassign
        · simp [Terminal.isGlued, Token.stop, hgt]
        · simp [Terminal.isGlued, Token.stop, hassign]
      exact congr (congrArg List.cons (congrArg (Terminal.mk .gt) htouch)) (ih _)

theorem map_tokensFrom (row : List Lexeme) (start : Nat) :
    (tokensFrom start row).map (fun token => (token.kind, token.text)) =
      row.map fun lexeme => (lexeme.kind, lexeme.text) := by
  induction row generalizing start with
  | nil => rfl
  | cons lexeme rest ih => rw [tokensFrom, List.map_cons, List.map_cons, ih]

theorem significant_tokenize {row : List Lexeme} (h : Spelled row) :
    significant (tokenize (String.ofList (spell row))) = tokensFrom 0 row := by
  rw [tokenize, String.toList_ofList, lexemes_spell h, significant_place h]

end PatternSyntax.Proofs.Spelling
