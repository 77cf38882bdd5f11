/-!
The kinds of token, how each is spelled, and how a message names it.
-/

namespace PatternSyntax

/-- The lexical classes of Java source text that patterns and expressions use. A `>` is always a
token of its own, so that nested type arguments close one at a time; `>=`, `>>` and `>>>` are put
together by the grammar. -/
inductive TokenKind where
  | finalKw | instanceofKw | newKw | thisKw | superKw | extendsKw | classKw | caseKw | defaultKw
  | nullKw | trueKw | falseKw
  | booleanKw | byteKw | charKw | shortKw | intKw | longKw | floatKw | doubleKw | voidKw
  | andAnd | orOr | eqEq | notEq | ltEq | shl | plusPlus | minusMinus | arrow | doubleColon
  | ellipsis
  | comma | dot | semicolon | openParen | closeParen | openBrace | closeBrace | openBracket
  | closeBracket | atSign | question | colon | assign | bang | tilde | lt | gt | ampersand | vbar
  | caret | plus | minus | asterisk | slash | percent
  | intLiteral | longLiteral | floatLiteral | doubleLiteral | charLiteral | stringLiteral
  | unterminatedLiteral
  | ident | lineComment | blockComment | unterminatedBlockComment | whitespace | unknown
deriving DecidableEq, Repr, Inhabited

namespace TokenKind

/-- Every kind, keywords first, in the order that numbers them. -/
def all : List TokenKind :=
  [finalKw, instanceofKw, newKw, thisKw, superKw, extendsKw, classKw, caseKw, defaultKw,
    nullKw, trueKw, falseKw,
    booleanKw, byteKw, charKw, shortKw, intKw, longKw, floatKw, doubleKw, voidKw,
    andAnd, orOr, eqEq, notEq, ltEq, shl, plusPlus, minusMinus, arrow, doubleColon,
    ellipsis,
    comma, dot, semicolon, openParen, closeParen, openBrace, closeBrace, openBracket,
    closeBracket, atSign, question, colon, assign, bang, tilde, lt, gt, ampersand, vbar,
    caret, plus, minus, asterisk, slash, percent,
    intLiteral, longLiteral, floatLiteral, doubleLiteral, charLiteral, stringLiteral,
    unterminatedLiteral,
    ident, lineComment, blockComment, unterminatedBlockComment, whitespace, unknown]

/-- The position of a kind in `all`. -/
def index (kind : TokenKind) : Nat :=
  all.idxOf kind

theorem getElem?_index (kind : TokenKind) : all[kind.index]? = some kind := by
  cases kind <;> decide

theorem mem_all (kind : TokenKind) : kind ∈ all :=
  List.mem_of_getElem? (getElem?_index kind)

/-- The word of a keyword. -/
def word? : TokenKind → Option String
  | finalKw => "final"
  | instanceofKw => "instanceof"
  | newKw => "new"
  | thisKw => "this"
  | superKw => "super"
  | extendsKw => "extends"
  | classKw => "class"
  | caseKw => "case"
  | defaultKw => "default"
  | nullKw => "null"
  | trueKw => "true"
  | falseKw => "false"
  | booleanKw => "boolean"
  | byteKw => "byte"
  | charKw => "char"
  | shortKw => "short"
  | intKw => "int"
  | longKw => "long"
  | floatKw => "float"
  | doubleKw => "double"
  | voidKw => "void"
  | _ => none

/-- The characters of an operator or separator. -/
def symbol? : TokenKind → Option String
  | andAnd => "&&"
  | orOr => "||"
  | eqEq => "=="
  | notEq => "!="
  | ltEq => "<="
  | shl => "<<"
  | plusPlus => "++"
  | minusMinus => "--"
  | arrow => "->"
  | doubleColon => "::"
  | ellipsis => "..."
  | comma => ","
  | dot => "."
  | semicolon => ";"
  | openParen => "("
  | closeParen => ")"
  | openBrace => "\x7b"
  | closeBrace => "\x7d"
  | openBracket => "["
  | closeBracket => "]"
  | atSign => "@"
  | question => "?"
  | colon => ":"
  | assign => "="
  | bang => "!"
  | tilde => "~"
  | lt => "<"
  | gt => ">"
  | ampersand => "&"
  | vbar => "|"
  | caret => "^"
  | plus => "+"
  | minus => "-"
  | asterisk => "*"
  | slash => "/"
  | percent => "%"
  | _ => none

/-- The one spelling of a keyword, operator or separator. The other kinds have many spellings. -/
def spelling? (kind : TokenKind) : Option String :=
  kind.word? <|> kind.symbol?

/-- The keyword that `text` spells, if it spells one. -/
def ofWord? (text : String) : Option TokenKind :=
  all.find? fun kind => kind.word? == some text

/-- What a message calls a kind whose spelling varies. -/
def description : TokenKind → String
  | intLiteral => "integer literal"
  | longLiteral => "long literal"
  | floatLiteral => "float literal"
  | doubleLiteral => "double literal"
  | charLiteral => "character literal"
  | stringLiteral => "string literal"
  | unterminatedLiteral => "unterminated literal"
  | ident => "identifier"
  | lineComment => "line comment"
  | blockComment => "block comment"
  | unterminatedBlockComment => "unterminated block comment"
  | whitespace => "whitespace"
  | _ => "unknown token"

/-- What a message calls a token: its spelling between single quotes, or else a description. -/
def display (kind : TokenKind) : String :=
  match kind.spelling? with
  | some text => "'" ++ text ++ "'"
  | none => kind.description

/-- The name of a kind in listings. A keyword is listed under its capitalised word. -/
def name : TokenKind → String
  | finalKw => "Final"
  | instanceofKw => "Instanceof"
  | newKw => "New"
  | thisKw => "This"
  | superKw => "Super"
  | extendsKw => "Extends"
  | classKw => "Class"
  | caseKw => "Case"
  | defaultKw => "Default"
  | nullKw => "Null"
  | trueKw => "True"
  | falseKw => "False"
  | booleanKw => "Boolean"
  | byteKw => "Byte"
  | charKw => "Char"
  | shortKw => "Short"
  | intKw => "Int"
  | longKw => "Long"
  | floatKw => "Float"
  | doubleKw => "Double"
  | voidKw => "Void"
  | andAnd => "AndAnd"
  | orOr => "OrOr"
  | eqEq => "Eq"
  | notEq => "NotEq"
  | ltEq => "LtEq"
  | shl => "Shl"
  | plusPlus => "PlusPlus"
  | minusMinus => "MinusMinus"
  | arrow => "Arrow"
  | doubleColon => "DoubleColon"
  | ellipsis => "Ellipsis"
  | comma => "Comma"
  | dot => "Dot"
  | semicolon => "Semicolon"
  | openParen => "OpenParen"
  | closeParen => "CloseParen"
  | openBrace => "OpenBrace"
  | closeBrace => "CloseBrace"
  | openBracket => "OpenBracket"
  | closeBracket => "CloseBracket"
  | atSign => "At"
  | question => "Question"
  | colon => "Colon"
  | assign => "Assign"
  | bang => "Bang"
  | tilde => "Tilde"
  | lt => "Lt"
  | gt => "Gt"
  | ampersand => "Ampersand"
  | vbar => "VBar"
  | caret => "Caret"
  | plus => "Plus"
  | minus => "Minus"
  | asterisk => "Asterisk"
  | slash => "Slash"
  | percent => "Percent"
  | intLiteral => "IntLiteral"
  | longLiteral => "LongLiteral"
  | floatLiteral => "FloatLiteral"
  | doubleLiteral => "DoubleLiteral"
  | charLiteral => "CharLiteral"
  | stringLiteral => "StringLiteral"
  | unterminatedLiteral => "UnterminatedLiteral"
  | ident => "Ident"
  | lineComment => "LineComment"
  | blockComment => "BlockComment"
  | unterminatedBlockComment => "UnterminatedBlockComment"
  | whitespace => "Whitespace"
  | unknown => "Unknown"

/-- The kind listed under `text`. -/
def ofName? (text : String) : Option TokenKind :=
  all.find? fun kind => kind.name == text

/-- Blanks and closed comments. The grammar does not see them. -/
def isTrivia : TokenKind → Bool
  | whitespace | lineComment | blockComment => true
  | _ => false

/-- The names of the primitive types, and `void`. -/
def isPrimitiveType : TokenKind → Bool
  | booleanKw | byteKw | charKw | shortKw | intKw | longKw | floatKw | doubleKw | voidKw => true
  | _ => false

/-- The tokens that are an expression by themselves and stand for a value. -/
def isLiteral : TokenKind → Bool
  | intLiteral | longLiteral | floatLiteral | doubleLiteral | charLiteral | stringLiteral
  | trueKw | falseKw | nullKw => true
  | _ => false

end TokenKind

end PatternSyntax
