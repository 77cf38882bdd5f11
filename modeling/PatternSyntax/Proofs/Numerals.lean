import PatternSyntax.Proofs.Spelling

/-!
Numbers are single tokens. The literals of the language are described by what they are made of, and
the scanner of numbers takes each of them as a whole, but for those in which a letter follows the
dot.
-/

namespace PatternSyntax.Proofs.Numerals

open PatternSyntax.Proofs.Spelling
open Text
open Token

def isOctalDigit (c : Char) : Bool :=
  '0' ≤ c && c ≤ '7'

def isBinaryDigit (c : Char) : Bool :=
  c == '0' || c == '1'

/-- A digit, or digits and underscores between two digits. -/
inductive Digits (digit : Char → Bool) : List Char → Prop
  | one {c : Char} : digit c = true → Digits digit [c]
  | group {first last : Char} {middle : List Char} : digit first = true →
      (∀ c ∈ middle, digit c = true ∨ c = '_') → digit last = true →
      Digits digit (first :: (middle ++ [last]))

/-- Underscores, and digits behind them. -/
inductive Spaced (digit : Char → Bool) : List Char → Prop
  | intro {underscores digits : List Char} : (∀ c ∈ underscores, c = '_') →
      Digits digit digits → Spaced digit (underscores ++ digits)

/-- Integers to the bases ten, eight, sixteen and two. -/
inductive Integer : List Char → Prop
  | zero : Integer ['0']
  | digit {first : Char} : isDigit first = true → first ≠ '0' → Integer [first]
  | decimal {first : Char} {more : List Char} : isDigit first = true → first ≠ '0' →
      Spaced isDigit more → Integer (first :: more)
  | octal {more : List Char} : Spaced isOctalDigit more → Integer ('0' :: more)
  | hexadecimal {mark : Char} {digits : List Char} : mark = 'x' ∨ mark = 'X' →
      Digits isHexDigit digits → Integer ('0' :: mark :: digits)
  | binary {mark : Char} {digits : List Char} : mark = 'b' ∨ mark = 'B' →
      Digits isBinaryDigit digits → Integer ('0' :: mark :: digits)

/-- The end of an integer literal of a kind. -/
inductive IntegerSuffix : TokenKind → List Char → Prop
  | none : IntegerSuffix .intLiteral []
  | long {mark : Char} : mark = 'l' ∨ mark = 'L' → IntegerSuffix .longLiteral [mark]

inductive Exponent : List Char → Prop
  | intro {mark : Char} {sign digits : List Char} : mark = 'e' ∨ mark = 'E' →
      sign = [] ∨ sign = ['+'] ∨ sign = ['-'] → Digits isDigit digits →
      Exponent (mark :: (sign ++ digits))

/-- The end of a floating-point literal of a kind. -/
inductive FloatSuffix : TokenKind → List Char → Prop
  | none : FloatSuffix .doubleLiteral []
  | float {mark : Char} : mark = 'f' ∨ mark = 'F' → FloatSuffix .floatLiteral [mark]
  | double {mark : Char} : mark = 'd' ∨ mark = 'D' → FloatSuffix .doubleLiteral [mark]

def Optionally (P : List Char → Prop) (cs : List Char) : Prop :=
  cs = [] ∨ P cs

/-- Integer literals and decimal floating-point literals of a kind. -/
inductive Literal : TokenKind → List Char → Prop
  | integer {kind : TokenKind} {digits suffix : List Char} : Integer digits →
      IntegerSuffix kind suffix → Literal kind (digits ++ suffix)
  | pointed {kind : TokenKind} {whole fraction exponent suffix : List Char} :
      Digits isDigit whole → Optionally (Digits isDigit) fraction →
      Optionally Exponent exponent → FloatSuffix kind suffix →
      Literal kind (whole ++ '.' :: (fraction ++ (exponent ++ suffix)))
  | fraction {kind : TokenKind} {digits exponent suffix : List Char} : Digits isDigit digits →
      Optionally Exponent exponent → FloatSuffix kind suffix →
      Literal kind ('.' :: (digits ++ (exponent ++ suffix)))
  | scaled {kind : TokenKind} {whole exponent suffix : List Char} : Digits isDigit whole →
      Exponent exponent → FloatSuffix kind suffix → Literal kind (whole ++ (exponent ++ suffix))
  | marked {kind : TokenKind} {whole exponent suffix : List Char} : Digits isDigit whole →
      Optionally Exponent exponent → FloatSuffix kind suffix → suffix ≠ [] →
      Literal kind (whole ++ (exponent ++ suffix))

/-- Digits, a dot, and right behind the dot the letter of an exponent or a suffix. -/
def LetterBehindDot (cs : List Char) : Prop :=
  ∃ whole mark rest, Digits isDigit whole ∧ isFloatMark mark = true ∧
    cs = whole ++ '.' :: mark :: rest

theorem isIdentStart_of_isDigit {c : Char} (h : isDigit c = true) : isIdentStart c = false := by
  have hrange : 48 ≤ c.toNat ∧ c.toNat ≤ 57 := by
    simpa [isDigit, Char.le_def, UInt32.le_iff_toNat_le] using h
  rw [isIdentStart_of_ascii (by omega)]
  simp only [isLetter, Bool.or_eq_false_iff, Bool.and_eq_false_iff, decide_eq_false_iff_not,
    beq_eq_false_iff_ne, Char.le_def, UInt32.le_iff_toNat_le]
  refine ⟨⟨?_, ?_⟩, ?_⟩
  · rintro rfl
    cases h
  · rintro rfl
    cases h
  · change (¬97 ≤ c.toNat ∨ ¬c.toNat ≤ 122) ∧ (¬65 ≤ c.toNat ∨ ¬c.toNat ≤ 90)
    omega

theorem isBlank_of_isDigit {c : Char} (h : isDigit c = true) : isBlank c = false := by
  by_contra hblank
  rw [Bool.not_eq_false] at hblank
  rcases blank_cases hblank with rfl | rfl | rfl | rfl | rfl <;> cases h

theorem scan_of_isDigit {first : Char} (h : isDigit first = true) (rest : List Char) :
    scan first rest = scanNumber first rest := by
  rw [scan, isBlank_of_isDigit h, isIdentStart_of_isDigit h, h]
  rfl

section Digits

variable {digit part : Char → Bool} {cs : List Char}

theorem Digits.head (h : Digits digit cs) :
    ∃ first rest, cs = first :: rest ∧ digit first = true := by
  cases h with
  | one hc => exact ⟨_, _, rfl, hc⟩
  | group hfirst => exact ⟨_, _, rfl, hfirst⟩

theorem Digits.forall_part (h : Digits digit cs) (hdigit : ∀ c, digit c = true → part c = true)
    (hunderscore : part '_' = true) : ∀ c ∈ cs, part c = true := by
  cases h with
  | one hc => simpa using hdigit _ hc
  | group hfirst hmiddle hlast =>
      simp only [List.mem_cons, List.mem_append, List.not_mem_nil, or_false]
      rintro c (rfl | hc | rfl)
      · exact hdigit _ hfirst
      · rcases hmiddle c hc with hc | rfl
        · exact hdigit _ hc
        · exact hunderscore
      · exact hdigit _ hlast

theorem Spaced.forall_part (h : Spaced digit cs) (hdigit : ∀ c, digit c = true → part c = true)
    (hunderscore : part '_' = true) : ∀ c ∈ cs, part c = true := by
  obtain ⟨hunderscores, hdigits⟩ := h
  rw [List.forall_mem_append]
  refine ⟨fun c hc => ?_, hdigits.forall_part hdigit hunderscore⟩
  rw [hunderscores c hc, hunderscore]

end Digits

theorem isDigitPart_of_isDigit (c : Char) (h : isDigit c = true) : isDigitPart c = true := by
  rw [isDigitPart, h, Bool.true_or]

theorem isDigitPart_of_isOctalDigit (c : Char) (h : isOctalDigit c = true) :
    isDigitPart c = true := by
  apply isDigitPart_of_isDigit
  simp only [isOctalDigit, isDigit, Bool.and_eq_true, decide_eq_true_eq] at h ⊢
  exact ⟨h.1, Char.le_trans h.2 (by decide)⟩

theorem isDigitPart_of_isBinaryDigit (c : Char) (h : isBinaryDigit c = true) :
    isDigitPart c = true := by
  simp only [isBinaryDigit, Bool.or_eq_true, beq_iff_eq] at h
  rcases h with rfl | rfl
  · rfl
  · rfl

theorem isHexDigitPart_of_isHexDigit (c : Char) (h : isHexDigit c = true) :
    isHexDigitPart c = true := by
  rw [isHexDigitPart, h, Bool.true_or]

theorem dropWhile_digits {part : Char → Bool} {digits tail : List Char}
    (hdigits : ∀ c ∈ digits, part c = true) (htail : tail.head?.any part = false) :
    (digits ++ tail).dropWhile part = tail := by
  rw [List.dropWhile_append_of_pos hdigits]
  rcases tail with _ | ⟨c, tail⟩
  · rfl
  · exact List.dropWhile_cons_of_neg (by simpa using htail)

/-- The letters behind a zero that name a base. -/
def isBase (c : Char) : Bool :=
  c == 'b' || c == 'B' || c == 'x' || c == 'X'

theorem of_isFloatMark {c : Char} (h : isFloatMark c = true) :
    isDigit c = false ∧ isDigitPart c = false ∧ isBase c = false ∧ isIdentStart c = true ∧
      c ≠ '.' := by
  simp only [isFloatMark, Bool.or_eq_true, beq_iff_eq] at h
  rcases h with ((((rfl | rfl) | rfl) | rfl) | rfl) | rfl
  all_goals exact ⟨rfl, rfl, rfl, rfl, by decide⟩

section Float

variable {kind : TokenKind} {exponent suffix : List Char}

theorem scanFloatSuffix_of_suffix (h : FloatSuffix kind suffix) :
    scanFloatSuffix suffix = (kind, []) := by
  cases h with
  | none => rfl
  | float hmark => rcases hmark with rfl | rfl <;> rfl
  | double hmark => rcases hmark with rfl | rfl <;> rfl

theorem FloatSuffix.head (h : FloatSuffix kind suffix) : suffix.head?.any isDigitPart = false := by
  cases h with
  | none => rfl
  | float hmark => rcases hmark with rfl | rfl <;> rfl
  | double hmark => rcases hmark with rfl | rfl <;> rfl

theorem dropExponent_of_suffix (h : FloatSuffix kind suffix) : dropExponent suffix = suffix := by
  cases h with
  | none => rfl
  | float hmark => rcases hmark with rfl | rfl <;> rfl
  | double hmark => rcases hmark with rfl | rfl <;> rfl

theorem dropSign_of_digits {sign digits : List Char}
    (hsign : sign = [] ∨ sign = ['+'] ∨ sign = ['-'])
    (hdigits : Digits isDigit digits) (tail : List Char) :
    dropSign (sign ++ (digits ++ tail)) = digits ++ tail := by
  obtain ⟨first, rest, rfl, hfirst⟩ := hdigits.head
  rcases hsign with rfl | rfl | rfl
  · rw [List.nil_append, List.cons_append, dropSign.eq_3]
    · rintro _ ⟨rfl, -⟩
      cases hfirst
    · rintro _ ⟨rfl, -⟩
      cases hfirst
  · rfl
  · rfl

theorem dropExponent_of_exponent (h : Exponent exponent) (hsuffix : FloatSuffix kind suffix) :
    dropExponent (exponent ++ suffix) = suffix := by
  obtain ⟨hmark, hsign, hdigits⟩ := h
  have hdrop := congrArg (List.dropWhile isDigitPart) (dropSign_of_digits hsign hdigits suffix)
  rw [dropWhile_digits (hdigits.forall_part isDigitPart_of_isDigit rfl) hsuffix.head] at hdrop
  rw [List.cons_append, List.append_assoc]
  rcases hmark with rfl | rfl
  · exact hdrop
  · exact hdrop

theorem scanFloatTail_of_exponent (hexponent : Optionally Exponent exponent)
    (hsuffix : FloatSuffix kind suffix) : scanFloatTail (exponent ++ suffix) = (kind, []) := by
  rw [scanFloatTail]
  rcases hexponent with rfl | hexponent
  · rw [List.nil_append, dropExponent_of_suffix hsuffix, scanFloatSuffix_of_suffix hsuffix]
  · rw [dropExponent_of_exponent hexponent hsuffix, scanFloatSuffix_of_suffix hsuffix]

theorem exists_mark (hexponent : Optionally Exponent exponent) (hsuffix : FloatSuffix kind suffix) :
    exponent ++ suffix = [] ∨
      ∃ mark rest, exponent ++ suffix = mark :: rest ∧ isFloatMark mark = true := by
  rcases hexponent with rfl | ⟨hmark, -, -⟩
  · cases hsuffix with
    | none => exact .inl rfl
    | float hmark => exact .inr ⟨_, _, rfl, by rcases hmark with rfl | rfl <;> rfl⟩
    | double hmark => exact .inr ⟨_, _, rfl, by rcases hmark with rfl | rfl <;> rfl⟩
  · exact .inr ⟨_, _, rfl, by rcases hmark with rfl | rfl <;> rfl⟩

theorem head_of_exponent (hexponent : Optionally Exponent exponent)
    (hsuffix : FloatSuffix kind suffix) :
    (exponent ++ suffix).head?.any isDigitPart = false := by
  rcases exists_mark hexponent hsuffix with hnil | ⟨mark, rest, heq, hmark⟩
  · rw [hnil]
    rfl
  · simpa [heq] using (of_isFloatMark hmark).2.1

end Float

theorem scanNumber_of_not_isBase (first : Char) {cs : List Char}
    (h : cs.head?.any isBase = false) :
    scanNumber first cs = scanDecimalTail (cs.dropWhile isDigitPart) := by
  have hne {c : Char} (hc : isBase c = true) : ∀ rest, cs = c :: rest → False := by
    rintro rest rfl
    simp [hc] at h
  rw [scanNumber, scanZero.eq_5 _ (hne rfl) (hne rfl) (hne rfl) (hne rfl)]
  split <;> rfl

theorem isBase_of_isDigitPart {c : Char} (h : isDigitPart c = true) : isBase c = false := by
  simp only [isBase, Bool.or_eq_false_iff, beq_eq_false_iff_ne]
  refine ⟨⟨⟨?_, ?_⟩, ?_⟩, ?_⟩
  all_goals
    rintro rfl
    cases h

theorem scanNumber_of_digits (first : Char) {more tail : List Char}
    (hmore : ∀ c ∈ more, isDigitPart c = true) (htail : tail.head?.any isDigitPart = false)
    (hbase : tail.head?.any isBase = false) :
    scanNumber first (more ++ tail) = scanDecimalTail tail := by
  rw [scanNumber_of_not_isBase, dropWhile_digits hmore htail]
  rcases more with _ | ⟨c, more⟩
  · exact hbase
  · simpa using isBase_of_isDigitPart (hmore c List.mem_cons_self)

theorem scan_of_digits {whole tail : List Char} (hwhole : Digits isDigit whole)
    (htail : tail.head?.any isDigitPart = false) (hbase : tail.head?.any isBase = false) :
    ∃ first more, whole = first :: more ∧
      scan first (more ++ tail) = scanDecimalTail tail := by
  have hparts := hwhole.forall_part isDigitPart_of_isDigit rfl
  obtain ⟨first, more, rfl, hfirst⟩ := hwhole.head
  refine ⟨first, more, rfl, ?_⟩
  rw [scan_of_isDigit hfirst,
    scanNumber_of_digits first (fun c hc => hparts c (List.mem_cons_of_mem _ hc)) htail hbase]

/-- The text is one token of a kind. -/
def TakenWhole (kind : TokenKind) (cs : List Char) : Prop :=
  ∃ first rest, cs = first :: rest ∧ scan first rest = (kind, [])

theorem TakenWhole.tokenize_eq {kind : TokenKind} {text : String}
    (h : TakenWhole kind text.toList) : tokenize text = [⟨kind, 0, text⟩] := by
  obtain ⟨first, rest, htext, hscan⟩ := h
  apply tokenize_of_lexemes
  rw [htext, lexemes_of_scan hscan]

section Suffix

variable {kind : TokenKind} {suffix : List Char} (hsuffix : IntegerSuffix kind suffix)

include hsuffix

theorem scanIntegerSuffix_of_suffix : scanIntegerSuffix suffix = (kind, []) := by
  cases hsuffix with
  | none => rfl
  | long hmark => rcases hmark with rfl | rfl <;> rfl

theorem scanDecimalTail_of_suffix : scanDecimalTail suffix = (kind, []) := by
  cases hsuffix with
  | none => rfl
  | long hmark => rcases hmark with rfl | rfl <;> rfl

theorem IntegerSuffix.head : suffix.head?.any isDigitPart = false ∧
    suffix.head?.any isHexDigitPart = false ∧ suffix.head?.any isBase = false := by
  cases hsuffix with
  | none => exact ⟨rfl, rfl, rfl⟩
  | long hmark => rcases hmark with rfl | rfl <;> exact ⟨rfl, rfl, rfl⟩

theorem takenWhole_plain {first : Char} {more : List Char} (hfirst : isDigit first = true)
    (hmore : ∀ c ∈ more, isDigitPart c = true) : TakenWhole kind (first :: more ++ suffix) := by
  obtain ⟨hpart, -, hbase⟩ := IntegerSuffix.head hsuffix
  refine ⟨first, more ++ suffix, rfl, ?_⟩
  rw [scan_of_isDigit hfirst, scanNumber_of_digits first hmore hpart hbase,
    scanDecimalTail_of_suffix hsuffix]

theorem takenWhole_based {part : Char → Bool} {mark : Char} {digits : List Char}
    (hscan : ∀ rest, scanNumber '0' (mark :: rest) = scanIntegerSuffix (rest.dropWhile part))
    (hdigits : ∀ c ∈ digits, part c = true) (htail : suffix.head?.any part = false) :
    TakenWhole kind ('0' :: mark :: digits ++ suffix) := by
  refine ⟨'0', mark :: (digits ++ suffix), rfl, ?_⟩
  rw [scan_of_isDigit rfl, hscan, dropWhile_digits hdigits htail,
    scanIntegerSuffix_of_suffix hsuffix]

theorem takenWhole_integer {digits : List Char} (hdigits : Integer digits) :
    TakenWhole kind (digits ++ suffix) := by
  obtain ⟨hpart, hhex, -⟩ := IntegerSuffix.head hsuffix
  cases hdigits with
  | zero => exact takenWhole_plain hsuffix rfl (by simp)
  | digit hfirst => exact takenWhole_plain hsuffix hfirst (by simp)
  | decimal hfirst _ hmore =>
      exact takenWhole_plain hsuffix hfirst (hmore.forall_part isDigitPart_of_isDigit rfl)
  | octal hmore =>
      exact takenWhole_plain hsuffix rfl (hmore.forall_part isDigitPart_of_isOctalDigit rfl)
  | hexadecimal hmark hdigits =>
      refine takenWhole_based hsuffix (fun rest => ?_)
        (hdigits.forall_part isHexDigitPart_of_isHexDigit rfl) hhex
      rcases hmark with rfl | rfl
      · rfl
      · rfl
  | binary hmark hdigits =>
      refine takenWhole_based hsuffix (fun rest => ?_)
        (hdigits.forall_part isDigitPart_of_isBinaryDigit rfl) hpart
      rcases hmark with rfl | rfl
      · rfl
      · rfl

end Suffix

section Float

variable {kind : TokenKind} {whole exponent suffix : List Char}

theorem takenWhole_marked (hwhole : Digits isDigit whole)
    (hexponent : Optionally Exponent exponent) (hsuffix : FloatSuffix kind suffix)
    (hne : exponent ++ suffix ≠ []) : TakenWhole kind (whole ++ (exponent ++ suffix)) := by
  have htail := scanFloatTail_of_exponent hexponent hsuffix
  have hpart := head_of_exponent hexponent hsuffix
  obtain ⟨mark, rest, heq, hmark⟩ := (exists_mark hexponent hsuffix).resolve_left hne
  obtain ⟨-, -, hbase, -, hdot⟩ := of_isFloatMark hmark
  rw [heq] at htail hpart ⊢
  obtain ⟨first, more, rfl, hscan⟩ := scan_of_digits hwhole hpart (by simpa using hbase)
  refine ⟨first, more ++ mark :: rest, rfl, ?_⟩
  rw [hscan, scanDecimalTail.eq_2 _ fun _ hcons => hdot (List.cons.inj hcons).1,
    if_pos (by simpa using hmark), htail]

theorem scan_of_dot (hwhole : Digits isDigit whole) (tail : List Char) :
    ∃ first more, whole = first :: more ∧
      scan first (more ++ '.' :: tail) = scanDecimalTail ('.' :: tail) :=
  scan_of_digits hwhole rfl rfl

theorem takenWhole_pointed {fraction : List Char} (hwhole : Digits isDigit whole)
    (hfraction : Optionally (Digits isDigit) fraction) (hexponent : Optionally Exponent exponent)
    (hsuffix : FloatSuffix kind suffix)
    (hletter : ¬LetterBehindDot (whole ++ '.' :: (fraction ++ (exponent ++ suffix)))) :
    TakenWhole kind (whole ++ '.' :: (fraction ++ (exponent ++ suffix))) := by
  have htail := scanFloatTail_of_exponent hexponent hsuffix
  rcases hfraction with rfl | hfraction
  · rcases exists_mark hexponent hsuffix with hnil | ⟨mark, rest, heq, hmark⟩
    · rw [hnil] at htail ⊢
      obtain ⟨first, more, rfl, hscan⟩ := scan_of_dot hwhole []
      exact ⟨first, more ++ ['.'], rfl, hscan.trans htail⟩
    · rw [List.nil_append, heq] at hletter
      exact absurd ⟨whole, mark, rest, hwhole, hmark, rfl⟩ hletter
  · have hdrop := dropWhile_digits (hfraction.forall_part isDigitPart_of_isDigit rfl)
      (head_of_exponent hexponent hsuffix)
    obtain ⟨digit, digits, rfl, hdigit⟩ := hfraction.head
    obtain ⟨first, more, rfl, hscan⟩ :=
      scan_of_dot hwhole (digit :: digits ++ (exponent ++ suffix))
    refine ⟨first, more ++ '.' :: (digit :: digits ++ (exponent ++ suffix)), rfl, ?_⟩
    rw [hscan, scanDecimalTail, if_neg (by simp [isIdentStart_of_isDigit hdigit]),
      if_pos (by simpa using hdigit), hdrop, htail]

theorem scan_dot {tail : List Char} (hdot : ∀ rest, tail ≠ '.' :: rest) :
    scan '.' tail =
      if tail.head?.any isDigit then scanFloatTail (tail.dropWhile isDigitPart)
      else (.dot, tail) := by
  have hscan : scan '.' tail = scanSymbol '.' tail := scan_of_symbol (by decide) rfl rfl rfl tail
  rw [hscan, scanSymbol.eq_5 _ fun rest => hdot ('.' :: rest)]

theorem takenWhole_fraction {digits : List Char} (hdigits : Digits isDigit digits)
    (hexponent : Optionally Exponent exponent) (hsuffix : FloatSuffix kind suffix) :
    TakenWhole kind ('.' :: (digits ++ (exponent ++ suffix))) := by
  have hdrop := dropWhile_digits (hdigits.forall_part isDigitPart_of_isDigit rfl)
    (head_of_exponent hexponent hsuffix)
  obtain ⟨first, more, rfl, hfirst⟩ := hdigits.head
  refine ⟨'.', first :: more ++ (exponent ++ suffix), rfl, ?_⟩
  rw [scan_dot, if_pos (by simpa using hfirst), hdrop, scanFloatTail_of_exponent hexponent hsuffix]
  rintro rest ⟨rfl, -⟩
  cases hfirst

theorem tokenize_letterBehindDot {mark : Char} {rest : List Char} (hwhole : Digits isDigit whole)
    (hmark : isFloatMark mark = true) :
    tokenize (String.ofList (whole ++ '.' :: mark :: rest)) =
      ⟨.intLiteral, 0, String.ofList whole⟩ ::
        ⟨.dot, (String.ofList whole).utf8ByteSize, "."⟩ ::
        place ((String.ofList whole).utf8ByteSize + 1) (lexemes (mark :: rest)) := by
  obtain ⟨hdigit, -, -, hstart, hdot⟩ := of_isFloatMark hmark
  obtain ⟨first, more, rfl, hscan⟩ := scan_of_dot hwhole (mark :: rest)
  rw [scanDecimalTail, if_pos (by simpa using hstart)] at hscan
  have hscan' : scan '.' (mark :: rest) = (.dot, mark :: rest) := by
    rw [scan_dot fun _ hcons => hdot (List.cons.inj hcons).1, if_neg (by simp [hdigit])]
  rw [tokenize, String.toList_ofList, List.cons_append, lexemes_eq hscan rfl,
    lexemes_eq hscan' (List.nil_append _).symm]
  simp only [place, Token.stop, Nat.zero_add]
  rfl

end Float

/-- Each literal is one token of its kind, but for those in which a letter follows the dot: there
the digits before the dot are a token, the dot is one, and what follows is cut on its own. -/
theorem tokenize_literal {kind : TokenKind} {text : String} (h : Literal kind text.toList) :
    (¬LetterBehindDot text.toList → tokenize text = [⟨kind, 0, text⟩]) ∧
      (LetterBehindDot text.toList → ∃ whole mark rest, Digits isDigit whole ∧
        isFloatMark mark = true ∧ text.toList = whole ++ '.' :: mark :: rest ∧
        tokenize text = ⟨.intLiteral, 0, String.ofList whole⟩ ::
          ⟨.dot, (String.ofList whole).utf8ByteSize, "."⟩ ::
          place ((String.ofList whole).utf8ByteSize + 1) (lexemes (mark :: rest))) := by
  constructor
  · intro hletter
    refine TakenWhole.tokenize_eq ?_
    generalize text.toList = cs at h hletter ⊢
    cases h with
    | integer hdigits hsuffix => exact takenWhole_integer hsuffix hdigits
    | pointed hwhole hfraction hexponent hsuffix =>
        exact takenWhole_pointed hwhole hfraction hexponent hsuffix hletter
    | fraction hdigits hexponent hsuffix => exact takenWhole_fraction hdigits hexponent hsuffix
    | scaled hwhole hexponent hsuffix =>
        refine takenWhole_marked hwhole (.inr hexponent) hsuffix ?_
        obtain ⟨-, -, -⟩ := hexponent
        exact List.cons_ne_nil _ _
    | marked hwhole hexponent hsuffix hne =>
        exact takenWhole_marked hwhole hexponent hsuffix fun hnil =>
          hne (List.append_eq_nil_iff.1 hnil).2
  · rintro ⟨whole, mark, rest, hwhole, hmark, htext⟩
    refine ⟨whole, mark, rest, hwhole, hmark, htext, ?_⟩
    rw [← tokenize_letterBehindDot hwhole hmark, ← htext, String.ofList_toList]

/-- Digits in a group, a fraction, an exponent with a sign and a suffix. -/
theorem tokenize_literal_pointed :
    Literal .floatLiteral "1_0.5e-3f".toList ∧ ¬LetterBehindDot "1_0.5e-3f".toList ∧
      tokenize "1_0.5e-3f" = [⟨.floatLiteral, 0, "1_0.5e-3f"⟩] := by
  have hliteral : Literal .floatLiteral "1_0.5e-3f".toList :=
    @Literal.pointed .floatLiteral ['1', '_', '0'] ['5'] ['e', '-', '3'] ['f']
      (@Digits.group isDigit '1' '0' ['_'] rfl (by simp) rfl) (.inr (.one rfl))
      (.inr (.intro (.inl rfl) (.inr (.inr rfl)) (.one rfl))) (.float (.inl rfl))
  have hletter : ¬LetterBehindDot "1_0.5e-3f".toList := by
    rintro ⟨whole, mark, rest, hwhole, hmark, htext⟩
    have hdrop := congrArg (List.dropWhile isDigitPart) htext
    rw [dropWhile_digits (hwhole.forall_part isDigitPart_of_isDigit rfl) rfl] at hdrop
    cases hdrop
    cases hmark
  exact ⟨hliteral, hletter, (tokenize_literal hliteral).1 hletter⟩

/-- A power of ten right behind the dot is no part of the number. -/
theorem tokenize_exponent_behind_dot :
    Literal .doubleLiteral "1.e5".toList ∧ tokenize "1.e5" ≠ [⟨.doubleLiteral, 0, "1.e5"⟩] := by
  constructor
  · exact @Literal.pointed .doubleLiteral ['1'] [] ['e', '5'] [] (.one rfl) (.inl rfl)
      (.inr (.intro (.inl rfl) (.inl rfl) (.one rfl))) .none
  · have hsplit := @tokenize_letterBehindDot ['1'] 'e' ['5'] (.one rfl) rfl
    intro hwhole
    have hkind := congrArg (List.map Token.kind) (hsplit.symm.trans hwhole)
    cases hkind

end PatternSyntax.Proofs.Numerals
