import PatternSyntax.Text.CharClass
import PatternSyntax.Token.Basic

/-!
Cutting source text into tokens. Each scanner is given what follows the characters it has already
taken, and answers with the kind of the token and with what follows the whole token. Main
statements: a scanner's rest is a suffix of what it was given (`scan_suffix`), and the tokens of a
text, put together, are the text (`flatten_lexemes`, `join_tokenize`).
-/

namespace PatternSyntax.Token

open Text

/-- What goes on in a group of decimal digits. Binary and octal numbers are read with it too. -/
def isDigitPart (c : Char) : Bool :=
  isDigit c || c == '_'

/-- What goes on in a group of hexadecimal digits. -/
def isHexDigitPart (c : Char) : Bool :=
  isHexDigit c || c == '_'

/-- After the digits of an integer: an `l` makes it long. -/
def scanIntegerSuffix : List Char → TokenKind × List Char
  | 'l' :: rest => (.longLiteral, rest)
  | 'L' :: rest => (.longLiteral, rest)
  | rest => (.intLiteral, rest)

/-- After the digits of a floating-point number: its suffix, if any. -/
def scanFloatSuffix : List Char → TokenKind × List Char
  | 'f' :: rest => (.floatLiteral, rest)
  | 'F' :: rest => (.floatLiteral, rest)
  | 'd' :: rest => (.doubleLiteral, rest)
  | 'D' :: rest => (.doubleLiteral, rest)
  | rest => (.doubleLiteral, rest)

/-- Drops the sign of an exponent. -/
def dropSign : List Char → List Char
  | '+' :: rest => rest
  | '-' :: rest => rest
  | rest => rest

/-- Drops an exponent, which need not have digits. -/
def dropExponent : List Char → List Char
  | 'e' :: rest => (dropSign rest).dropWhile isDigitPart
  | 'E' :: rest => (dropSign rest).dropWhile isDigitPart
  | rest => rest

/-- After the whole and fractional digits of a floating-point number. -/
def scanFloatTail (rest : List Char) : TokenKind × List Char :=
  scanFloatSuffix (dropExponent rest)

/-- Whether `c`, right after whole digits, makes the number a floating-point one. -/
def isFloatMark (c : Char) : Bool :=
  c == 'e' || c == 'E' || c == 'f' || c == 'F' || c == 'd' || c == 'D'

/-- After the digits of a number without a base. A dot before an identifier is not part of the
number, but selects a member of it. -/
def scanDecimalTail [WordTables] : List Char → TokenKind × List Char
  | '.' :: rest =>
    if rest.head?.any isIdentStart then (.intLiteral, '.' :: rest)
    else if rest.head?.any isDigit then scanFloatTail (rest.dropWhile isDigitPart)
    else scanFloatTail rest
  | rest => if rest.head?.any isFloatMark then scanFloatTail rest else scanIntegerSuffix rest

/-- After a zero: a base, or more digits. -/
def scanZero [WordTables] : List Char → TokenKind × List Char
  | 'b' :: rest => scanIntegerSuffix (rest.dropWhile isDigitPart)
  | 'B' :: rest => scanIntegerSuffix (rest.dropWhile isDigitPart)
  | 'x' :: rest => scanIntegerSuffix (rest.dropWhile isHexDigitPart)
  | 'X' :: rest => scanIntegerSuffix (rest.dropWhile isHexDigitPart)
  | rest => scanDecimalTail (rest.dropWhile isDigitPart)

/-- After the first digit of a number. -/
def scanNumber [WordTables] (first : Char) (rest : List Char) : TokenKind × List Char :=
  if first == '0' then scanZero rest else scanDecimalTail (rest.dropWhile isDigitPart)

/-- The ends of a line inside a quoted literal. -/
def isLineEnd (c : Char) : Bool :=
  c == '\n' || c == '\r'

/-- After the opening `quote` of a literal on one line: what follows the closing one, or else the
rest that starts with the end of the line. A backslash takes the next character with it, unless
that ends the line. -/
def scanQuoted (quote : Char) : List Char → Except (List Char) (List Char)
  | [] => .error []
  | '\\' :: escaped :: rest =>
    if isLineEnd escaped then .error (escaped :: rest) else scanQuoted quote rest
  | c :: rest =>
    if isLineEnd c then .error (c :: rest)
    else if c == quote then .ok rest
    else scanQuoted quote rest

/-- After the opening quotes of a text block: what follows the closing ones. A backslash takes the
next character with it. -/
def scanTextBlock : List Char → Option (List Char)
  | [] => none
  | '\\' :: _ :: rest => scanTextBlock rest
  | '"' :: '"' :: '"' :: rest => some rest
  | _ :: rest => scanTextBlock rest

/-- After the opening `/*` of a comment: what follows the first `*/`. -/
def scanComment : List Char → Option (List Char)
  | [] => none
  | '*' :: '/' :: rest => some rest
  | _ :: rest => scanComment rest

/-- After a single or double quote. -/
def scanLiteral (kind : TokenKind) (quote : Char) (rest : List Char) : TokenKind × List Char :=
  match scanQuoted quote rest with
  | .ok rest => (kind, rest)
  | .error rest => (.unterminatedLiteral, rest)

/-- After a double quote: two more of them open a text block. -/
def scanString : List Char → TokenKind × List Char
  | '"' :: '"' :: rest =>
    match scanTextBlock rest with
    | some rest => (.stringLiteral, rest)
    | none => (.unterminatedLiteral, [])
  | rest => scanLiteral .stringLiteral '"' rest

/-- After the first character of an operator or separator. Each is as long as possible, but for
`>`, which stands alone. -/
def scanSymbol (first : Char) (rest : List Char) : TokenKind × List Char :=
  match first, rest with
  | '-', '>' :: rest => (.arrow, rest)
  | '-', '-' :: rest => (.minusMinus, rest)
  | '-', rest => (.minus, rest)
  | '.', '.' :: '.' :: rest => (.ellipsis, rest)
  | '.', rest =>
    if rest.head?.any isDigit then scanFloatTail (rest.dropWhile isDigitPart) else (.dot, rest)
  | '&', '&' :: rest => (.andAnd, rest)
  | '&', rest => (.ampersand, rest)
  | '|', '|' :: rest => (.orOr, rest)
  | '|', rest => (.vbar, rest)
  | '=', '=' :: rest => (.eqEq, rest)
  | '=', rest => (.assign, rest)
  | '!', '=' :: rest => (.notEq, rest)
  | '!', rest => (.bang, rest)
  | '<', '=' :: rest => (.ltEq, rest)
  | '<', '<' :: rest => (.shl, rest)
  | '<', rest => (.lt, rest)
  | '+', '+' :: rest => (.plusPlus, rest)
  | '+', rest => (.plus, rest)
  | ':', ':' :: rest => (.doubleColon, rest)
  | ':', rest => (.colon, rest)
  | '/', '/' :: rest => (.lineComment, rest.dropWhile (· != '\n'))
  | '/', '*' :: rest =>
    match scanComment rest with
    | some rest => (.blockComment, rest)
    | none => (.unterminatedBlockComment, [])
  | '/', rest => (.slash, rest)
  | ',', rest => (.comma, rest)
  | ';', rest => (.semicolon, rest)
  | '(', rest => (.openParen, rest)
  | ')', rest => (.closeParen, rest)
  | '\x7b', rest => (.openBrace, rest)
  | '\x7d', rest => (.closeBrace, rest)
  | '[', rest => (.openBracket, rest)
  | ']', rest => (.closeBracket, rest)
  | '@', rest => (.atSign, rest)
  | '?', rest => (.question, rest)
  | '~', rest => (.tilde, rest)
  | '>', rest => (.gt, rest)
  | '^', rest => (.caret, rest)
  | '*', rest => (.asterisk, rest)
  | '%', rest => (.percent, rest)
  | _, rest => (.unknown, rest)

/-- The kind of a whole word. -/
def wordKind (word : List Char) : TokenKind :=
  (TokenKind.ofWord? (String.ofList word)).getD .ident

/-- The kind of the token that begins with `first`, and what follows that token. -/
def scan [WordTables] (first : Char) (rest : List Char) : TokenKind × List Char :=
  if isBlank first then (.whitespace, rest.dropWhile isBlank)
  else if isIdentStart first then
    (wordKind (first :: rest.takeWhile isIdentPart), rest.dropWhile isIdentPart)
  else if isDigit first then scanNumber first rest
  else if first == '"' then scanString rest
  else if first == '\'' then scanLiteral .charLiteral '\'' rest
  else scanSymbol first rest

theorem scanIntegerSuffix_suffix (cs : List Char) : (scanIntegerSuffix cs).2 <:+ cs := by
  unfold scanIntegerSuffix
  split <;> simp [List.suffix_cons]

theorem scanFloatSuffix_suffix (cs : List Char) : (scanFloatSuffix cs).2 <:+ cs := by
  unfold scanFloatSuffix
  split <;> simp [List.suffix_cons]

theorem dropSign_suffix (cs : List Char) : dropSign cs <:+ cs := by
  unfold dropSign
  split <;> simp [List.suffix_cons]

theorem dropExponent_suffix (cs : List Char) : dropExponent cs <:+ cs := by
  unfold dropExponent
  split
  · exact ((List.dropWhile_suffix _).trans (dropSign_suffix _)).trans (List.suffix_cons _ _)
  · exact ((List.dropWhile_suffix _).trans (dropSign_suffix _)).trans (List.suffix_cons _ _)
  · exact List.suffix_refl _

theorem scanFloatTail_suffix (cs : List Char) : (scanFloatTail cs).2 <:+ cs :=
  (scanFloatSuffix_suffix _).trans (dropExponent_suffix cs)

theorem scanDecimalTail_suffix [WordTables] (cs : List Char) : (scanDecimalTail cs).2 <:+ cs := by
  unfold scanDecimalTail
  split
  · split
    · exact List.suffix_refl _
    · split
      · exact ((scanFloatTail_suffix _).trans (List.dropWhile_suffix _)).trans
          (List.suffix_cons _ _)
      · exact (scanFloatTail_suffix _).trans (List.suffix_cons _ _)
  · split
    · exact scanFloatTail_suffix _
    · exact scanIntegerSuffix_suffix _

private theorem scanNumber_suffix [WordTables] (first : Char) (cs : List Char) :
    (scanNumber first cs).2 <:+ cs := by
  have based (p : Char → Bool) (c : Char) (cs : List Char) :
      (scanIntegerSuffix (cs.dropWhile p)).2 <:+ c :: cs :=
    ((scanIntegerSuffix_suffix _).trans (List.dropWhile_suffix _)).trans (List.suffix_cons _ _)
  have plain (cs : List Char) : (scanDecimalTail (cs.dropWhile isDigitPart)).2 <:+ cs :=
    (scanDecimalTail_suffix _).trans (List.dropWhile_suffix _)
  unfold scanNumber
  split
  · unfold scanZero
    split
    · exact based _ _ _
    · exact based _ _ _
    · exact based _ _ _
    · exact based _ _ _
    · exact plain _
  · exact plain _

theorem scanLiteral_suffix (kind : TokenKind) (quote : Char) (cs : List Char) :
    (scanLiteral kind quote cs).2 <:+ cs := by
  have quoted : ∀ rest, scanQuoted quote cs = .ok rest ∨ scanQuoted quote cs = .error rest →
      rest <:+ cs := by
    fun_induction scanQuoted quote cs with
    | case1 => simp
    | case2 escaped rest h =>
      rintro _ (h | h) <;> cases h
      exact List.suffix_cons _ _
    | case3 escaped rest h ih =>
      exact fun r hr => (ih r hr).trans ((List.suffix_cons _ _).trans (List.suffix_cons _ _))
    | case4 c rest _ h =>
      rintro _ (h | h) <;> cases h
      exact List.suffix_refl _
    | case5 c rest _ h hq =>
      rintro _ (h | h) <;> cases h
      exact List.suffix_cons _ _
    | case6 c rest _ h hq ih => exact fun r hr => (ih r hr).trans (List.suffix_cons _ _)
  unfold scanLiteral
  split
  · exact quoted _ (.inl ‹_›)
  · exact quoted _ (.inr ‹_›)

private theorem scanTextBlock_suffix {cs rest : List Char} (h : scanTextBlock cs = some rest) :
    rest <:+ cs := by
  fun_induction scanTextBlock cs with
  | case1 => cases h
  | case2 c cs ih => exact (ih h).trans ((List.suffix_cons _ _).trans (List.suffix_cons _ _))
  | case3 cs =>
    cases h
    exact ⟨['"', '"', '"'], rfl⟩
  | case4 c cs _ _ ih => exact (ih h).trans (List.suffix_cons _ _)

theorem scanString_suffix (cs : List Char) : (scanString cs).2 <:+ cs := by
  unfold scanString
  split
  · split
    · exact (scanTextBlock_suffix ‹_›).trans
        ((List.suffix_cons _ _).trans (List.suffix_cons _ _))
    · exact List.nil_suffix
  · exact scanLiteral_suffix _ _ _

private theorem scanComment_suffix {cs rest : List Char} (h : scanComment cs = some rest) :
    rest <:+ cs := by
  fun_induction scanComment cs with
  | case1 => cases h
  | case2 cs =>
    cases h
    exact ⟨['*', '/'], rfl⟩
  | case3 c cs _ ih => exact (ih h).trans (List.suffix_cons _ _)

theorem scanSymbol_suffix (first : Char) (cs : List Char) :
    (scanSymbol first cs).2 <:+ cs := by
  have two (c d : Char) (cs : List Char) : cs <:+ c :: d :: cs :=
    (List.suffix_cons _ _).trans (List.suffix_cons _ _)
  unfold scanSymbol
  split
  case h_5 =>
    split
    · exact (scanFloatTail_suffix _).trans (List.dropWhile_suffix _)
    · exact List.suffix_refl _
  case h_21 => exact (List.dropWhile_suffix _).trans (List.suffix_cons _ _)
  case h_22 =>
    split
    · exact (scanComment_suffix ‹_›).trans (List.suffix_cons _ _)
    · exact List.nil_suffix
  all_goals first
    | exact List.suffix_refl _
    | exact List.suffix_cons _ _
    | exact two _ _ _

/-- Scanning only drops characters from the front. -/
theorem scan_suffix [WordTables] (first : Char) (rest : List Char) :
    (scan first rest).2 <:+ rest := by
  unfold scan
  split
  · exact List.dropWhile_suffix _
  · split
    · exact List.dropWhile_suffix _
    · split
      · exact scanNumber_suffix _ _
      · split
        · exact scanString_suffix _
        · split
          · exact scanLiteral_suffix _ _ _
          · exact scanSymbol_suffix _ _

/-- The characters of the token that begins with `first`. -/
def lexeme [WordTables] (first : Char) (rest : List Char) : List Char :=
  (first :: rest).take (rest.length + 1 - (scan first rest).2.length)

theorem lexeme_append_scan [WordTables] (first : Char) (rest : List Char) :
    lexeme first rest ++ (scan first rest).2 = first :: rest := by
  obtain ⟨taken, h⟩ := scan_suffix first rest
  have size : rest.length + 1 - (scan first rest).2.length = (first :: taken).length := by
    have := congrArg List.length h
    simp only [List.length_append] at this
    simp only [List.length_cons]
    omega
  have split : first :: rest = (first :: taken) ++ (scan first rest).2 := by
    rw [List.cons_append, h]
  rw [lexeme, size, split, List.take_left]

/-- The tokens of a text, without their offsets. -/
def lexemes [WordTables] : List Char → List (TokenKind × List Char)
  | [] => []
  | first :: rest =>
    ((scan first rest).1, lexeme first rest) :: lexemes (scan first rest).2
termination_by cs => cs.length
decreasing_by
  have := (scan_suffix first rest).length_le
  simp only [List.length_cons]
  omega

theorem flatten_lexemes [WordTables] (cs : List Char) : ((lexemes cs).map (·.2)).flatten = cs := by
  fun_induction lexemes cs with
  | case1 => rfl
  | case2 first rest ih => rw [List.map_cons, List.flatten_cons, ih, lexeme_append_scan]

/-- Places tokens one behind the other, the first one at `start`. -/
def place (start : Nat) : List (TokenKind × List Char) → List Token
  | [] => []
  | (kind, chars) :: rest =>
    let token : Token := ⟨kind, start, String.ofList chars⟩
    token :: place token.stop rest

/-- All tokens of a text, blanks and comments included. -/
def tokenize [WordTables] (text : String) : List Token :=
  place 0 (lexemes text.toList)

/-- A whole text that is one word, and no keyword. -/
def isIdent [WordTables] (text : String) : Bool :=
  match text.toList with
  | [] => false
  | first :: rest =>
    isIdentStart first && rest.all isIdentPart && (TokenKind.ofWord? text).isNone

private theorem map_text_place (start : Nat) (pieces : List (TokenKind × List Char)) :
    (place start pieces).map (·.text.toList) = pieces.map (·.2) := by
  induction pieces generalizing start with
  | nil => rfl
  | cons piece rest ih => simp [place, ih]

/-- Put together, the tokens of a text are the text. -/
theorem join_tokenize [WordTables] (text : String) :
    ((tokenize text).map (·.text.toList)).flatten = text.toList := by
  rw [tokenize, map_text_place, flatten_lexemes]

end PatternSyntax.Token
