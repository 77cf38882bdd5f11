import PatternSyntax.Proofs.Scanning
import PatternSyntax.Proofs.Spelling

/-!
Words as a whole text and words as tokens. Whether a text is an identifier or a keyword is asked in
two ways: of the whole text, and of the tokens that it is cut into. Both depend on tables of the
characters of the world's scripts, of which only the ASCII part matters here, so the tables are left
open: `WordTables` are any tables that are right about ASCII, and a text is read by any of them.
-/

namespace PatternSyntax.Proofs.Words

open Text
open Token
open Spelling

/-- The kinds that the tokens of words have. -/
def isWord (kind : TokenKind) : Bool :=
  kind == .ident || kind.word?.isSome

theorem isWord_scanIntegerSuffix (cs : List Char) : isWord (scanIntegerSuffix cs).1 = false := by
  unfold scanIntegerSuffix
  split <;> rfl

theorem isWord_scanFloatTail (cs : List Char) : isWord (scanFloatTail cs).1 = false := by
  unfold scanFloatTail scanFloatSuffix
  split <;> rfl

theorem isWord_scanLiteral {kind : TokenKind} (hkind : isWord kind = false) (quote : Char)
    (cs : List Char) : isWord (scanLiteral kind quote cs).1 = false := by
  unfold scanLiteral
  split
  · exact hkind
  · rfl

theorem isWord_scanString (cs : List Char) : isWord (scanString cs).1 = false := by
  unfold scanString
  split
  · split <;> rfl
  · exact isWord_scanLiteral rfl _ _

theorem isWord_scanSymbol (first : Char) (cs : List Char) :
    isWord (scanSymbol first cs).1 = false := by
  unfold scanSymbol
  split
  case h_5 =>
    split
    · exact isWord_scanFloatTail _
    · rfl
  case h_22 => split <;> rfl
  all_goals rfl

theorem toNat_lt_of_isLetter {c : Char} (h : isLetter c = true) : c.toNat < 128 := by
  simp only [isLetter, Bool.or_eq_true, Bool.and_eq_true, decide_eq_true_eq, Char.le_def,
    UInt32.le_iff_toNat_le] at h
  change c.val.toNat < 128
  rcases h with ⟨-, h⟩ | ⟨-, h⟩
  · exact Nat.lt_of_le_of_lt h (by decide)
  · exact Nat.lt_of_le_of_lt h (by decide)

theorem of_word {kind : TokenKind} {word : String} (h : kind.word? = some word) :
    TokenKind.ofWord? word = some kind ∧
      ∃ first rest, word.toList = first :: rest ∧ (first :: rest).all isLetter = true := by
  have hall : ∀ kind ∈ TokenKind.all, ∀ word ∈ kind.word?,
      TokenKind.ofWord? word = some kind ∧ word.toList ≠ [] ∧
        word.toList.all isLetter = true := by
    decide +kernel
  obtain ⟨hfound, hne, hletters⟩ := hall kind (TokenKind.mem_all kind) word h
  obtain ⟨first, rest, hchars⟩ := List.exists_cons_of_ne_nil hne
  exact ⟨hfound, first, rest, hchars, hchars ▸ hletters⟩

theorem ofWord?_eq_some_iff {kind : TokenKind} {text : String} :
    TokenKind.ofWord? text = some kind ↔ kind.word? = some text :=
  ⟨fun h => by simpa using List.find?_some h, fun h => (of_word h).1⟩

theorem getD_ofWord?_eq_ident_iff {text : String} :
    (TokenKind.ofWord? text).getD .ident = .ident ↔ TokenKind.ofWord? text = none := by
  cases hword : TokenKind.ofWord? text with
  | none => simp
  | some kind =>
      have hkind := ofWord?_eq_some_iff.1 hword
      constructor
      · rintro rfl
        cases hkind
      · intro h
        cases h

section Tables

variable [WordTables]

theorem isIdentStart_of_isLetter {c : Char} (h : isLetter c = true) : isIdentStart c = true := by
  rw [isIdentStart_of_ascii (toNat_lt_of_isLetter h), h, Bool.or_true]

theorem isIdentPart_of_isLetter {c : Char} (h : isLetter c = true) : isIdentPart c = true := by
  rw [isIdentPart_of_ascii (toNat_lt_of_isLetter h), isIdentStart_of_isLetter h, Bool.true_or]

theorem isWord_scanDecimalTail (cs : List Char) : isWord (scanDecimalTail cs).1 = false := by
  unfold scanDecimalTail
  split
  · split
    · rfl
    · split
      · exact isWord_scanFloatTail _
      · exact isWord_scanFloatTail _
  · split
    · exact isWord_scanFloatTail _
    · exact isWord_scanIntegerSuffix _

theorem isWord_scanNumber (first : Char) (cs : List Char) :
    isWord (scanNumber first cs).1 = false := by
  unfold scanNumber
  split
  · unfold scanZero
    split
    · exact isWord_scanIntegerSuffix _
    · exact isWord_scanIntegerSuffix _
    · exact isWord_scanIntegerSuffix _
    · exact isWord_scanIntegerSuffix _
    · exact isWord_scanDecimalTail _
  · exact isWord_scanDecimalTail _

theorem isIdentStart_of_scan {first : Char} {rest : List Char}
    (h : isWord (scan first rest).1 = true) : isIdentStart first = true := by
  by_contra hstart
  rw [scan, if_neg hstart] at h
  have hnot : ∀ {kind : TokenKind}, isWord kind = false → isWord kind = true → False :=
    fun hfalse htrue => Bool.false_ne_true (hfalse.symm.trans htrue)
  split at h
  · exact hnot rfl h
  · split at h
    · exact hnot (isWord_scanNumber _ _) h
    · split at h
      · exact hnot (isWord_scanString _) h
      · split at h
        · exact hnot (isWord_scanLiteral rfl _ _) h
        · exact hnot (isWord_scanSymbol _ _) h

/-- One token of an identifier or of a keyword is all of a text if the text is a word. -/
theorem scan_eq_iff {kind : TokenKind} (hkind : isWord kind = true) (first : Char)
    (rest : List Char) :
    scan first rest = (kind, []) ↔
      isIdentStart first = true ∧ rest.all isIdentPart = true ∧
        wordKind (first :: rest) = kind := by
  constructor
  · intro h
    have hstart : isIdentStart first = true := isIdentStart_of_scan (by rw [h, hkind])
    rw [scan_of_isIdentStart hstart] at h
    obtain ⟨hword, hrest⟩ := Prod.mk.inj h
    have hpart := List.dropWhile_eq_nil_iff.1 hrest
    rw [List.takeWhile_eq_self_iff.2 hpart] at hword
    exact ⟨hstart, List.all_eq_true.2 hpart, hword⟩
  · rintro ⟨hstart, hall, hword⟩
    have hpart := List.all_eq_true.1 hall
    rw [scan_of_isIdentStart hstart, List.takeWhile_eq_self_iff.2 hpart,
      List.dropWhile_eq_nil_iff.2 hpart, hword]

theorem lexemes_eq_iff {kind : TokenKind} (first : Char) (rest : List Char) :
    lexemes (first :: rest) = [(kind, first :: rest)] ↔ scan first rest = (kind, []) := by
  refine ⟨fun h => ?_, lexemes_of_scan⟩
  have happend := lexeme_append_scan first rest
  rw [lexemes] at h
  obtain ⟨hkind, hchars⟩ := Prod.mk.inj (List.cons.inj h).1
  rw [hchars] at happend
  exact Prod.ext hkind (List.append_right_eq_self.1 happend)

theorem tokenize_eq_iff {kind : TokenKind} (text : String) :
    tokenize text = [⟨kind, 0, text⟩] ↔ lexemes text.toList = [(kind, text.toList)] := by
  refine ⟨fun h => ?_, tokenize_of_lexemes⟩
  rw [tokenize] at h
  cases hpieces : lexemes text.toList with
  | nil =>
      rw [hpieces, place] at h
      cases h
  | cons piece rest =>
      rw [hpieces, place] at h
      obtain ⟨hfirst, hlater⟩ := List.cons.inj h
      obtain ⟨hkind, -, htext⟩ := Token.mk.inj hfirst
      cases rest with
      | nil => rw [← htext, String.toList_ofList, ← hkind]
      | cons later rest =>
          rw [place] at hlater
          cases hlater

theorem tokenize_eq_word_iff {kind : TokenKind} (hkind : isWord kind = true) (text : String) :
    tokenize text = [⟨kind, 0, text⟩] ↔
      ∃ first rest, text.toList = first :: rest ∧ isIdentStart first = true ∧
        rest.all isIdentPart = true ∧ (TokenKind.ofWord? text).getD .ident = kind := by
  rw [tokenize_eq_iff]
  cases hchars : text.toList with
  | nil => simp [lexemes]
  | cons first rest =>
      have hword : wordKind (first :: rest) = (TokenKind.ofWord? text).getD .ident := by
        rw [wordKind, ← hchars, String.ofList_toList]
      rw [lexemes_eq_iff, scan_eq_iff hkind, hword]
      constructor
      · exact fun h => ⟨first, rest, rfl, h⟩
      · rintro ⟨_, _, hcons, h⟩
        obtain ⟨rfl, rfl⟩ := List.cons.inj hcons
        exact h

/-- What asking whether a text is a word and cutting a text into tokens say of the same text. -/
structure Agree (isIdent : String → Bool) (tokenize : String → List Token) (text : String) :
    Prop where
  ident : isIdent text = true ↔ tokenize text = [⟨.ident, 0, text⟩]
  keyword : ∀ kind : TokenKind, kind.word?.isSome = true →
    (TokenKind.ofWord? text = some kind ↔ tokenize text = [⟨kind, 0, text⟩])

theorem isIdent_iff (text : String) :
    isIdent text = true ↔
      ∃ first rest, text.toList = first :: rest ∧ isIdentStart first = true ∧
        rest.all isIdentPart = true ∧ TokenKind.ofWord? text = none := by
  rw [isIdent]
  cases text.toList with
  | nil => simp
  | cons first rest => simp [and_assoc]

theorem agree (text : String) : Agree isIdent tokenize text where
  ident := by
    rw [isIdent_iff, tokenize_eq_word_iff rfl]
    simp only [getD_ofWord?_eq_ident_iff]
  keyword kind hkind := by
    rw [tokenize_eq_word_iff (by rw [isWord, hkind, Bool.or_true])]
    constructor
    · intro h
      obtain ⟨-, first, rest, hchars, hletters⟩ := of_word (ofWord?_eq_some_iff.1 h)
      rw [List.all_cons, Bool.and_eq_true] at hletters
      obtain ⟨hfirst, hrest⟩ := hletters
      refine ⟨first, rest, hchars, isIdentStart_of_isLetter hfirst, ?_, by rw [h]; rfl⟩
      exact List.all_eq_true.2 fun c hc =>
        isIdentPart_of_isLetter (List.all_eq_true.1 hrest c hc)
    · rintro ⟨-, -, -, -, -, hword⟩
      cases hfound : TokenKind.ofWord? text with
      | none =>
          rw [hfound] at hword
          subst hword
          cases hkind
      | some found =>
          rw [hfound] at hword
          rw [← hword]
          rfl

end Tables

/-- A text is an identifier if it is a single token, an identifier, and it is a keyword if it is a
single token of that kind. So it is for the tables of Unicode, and for any others that are right
about ASCII. -/
theorem agree_isIdent_tokenize (text : String) :
    Agree isIdent tokenize text ∧ ∀ t : WordTables, Agree (@isIdent t) (@tokenize t) text :=
  ⟨agree text, fun _ => agree text⟩

theorem agree_isIdent_tokenize_final :
    TokenKind.finalKw.word?.isSome = true ∧ tokenize "final" = [⟨.finalKw, 0, "final"⟩] ∧
      isIdent "final" = false := by
  obtain ⟨hident, hkeyword⟩ := (agree_isIdent_tokenize "final").1
  have hfinal : tokenize "final" = [⟨.finalKw, 0, "final"⟩] :=
    (hkeyword .finalKw rfl).1 (by decide +kernel)
  refine ⟨rfl, hfinal, ?_⟩
  rw [← Bool.not_eq_true, hident, hfinal]
  decide

end PatternSyntax.Proofs.Words
