import PatternSyntax.Proofs.Lookahead
import PatternSyntax.Text.Join

/-!
Tokens survive being spaced out. The text of a token is that token again, and most tokens stay the
same wherever they stand between spaces.
-/

namespace PatternSyntax.Proofs.Respacing

open PatternSyntax.Proofs.Lookahead
open PatternSyntax.Proofs.Spelling
open Text
open Token

/-- The tokens that stay the same wherever they stand between spaces. Blanks and comments on a line
go on with a space, and so does what is not closed. -/
def isLasting : TokenKind → Bool
  | .whitespace | .lineComment | .unterminatedLiteral | .unterminatedBlockComment => false
  | _ => true

/-- The tokens of a text that last. -/
def lasting (text : String) : List Token :=
  (tokenize text).filter fun token => isLasting token.kind

theorem endsBefore_of_isLasting {kind : TokenKind} (h : isLasting kind = true) :
    endsBefore ' ' kind = true := by
  cases kind
  all_goals first | rfl | cases h

theorem isBlank_of_isLasting {first : Char} {word : List Char}
    (h : isLasting (scan first word).1 = true) : isBlank first = false := by
  by_contra hblank
  rw [scan, if_pos (by simpa using hblank)] at h
  cases h

/-- A piece of a text that is scanned when it stands alone and that lasts. -/
def StandsAlone (piece : TokenKind × List Char) : Prop :=
  isLasting piece.1 = true ∧
    ∃ first word, piece.2 = first :: word ∧ scan first word = (piece.1, [])

theorem StandsAlone.head_intercalate {piece : TokenKind × List Char} (h : StandsAlone piece)
    (rest : List (TokenKind × List Char)) :
    ∃ first later, [' '].intercalate ((piece :: rest).map (·.2)) = first :: later ∧
      isBlank first = false := by
  obtain ⟨hlasting, first, word, hword, hscan⟩ := h
  have hblank : isBlank first = false := isBlank_of_isLasting (by rwa [hscan])
  rcases rest with _ | ⟨next, rest⟩
  · exact ⟨first, word, by simp [hword], hblank⟩
  · exact ⟨first, word ++ ' ' :: [' '].intercalate ((next :: rest).map (·.2)),
      by simp [List.intercalate, hword], hblank⟩

/-- What stands alone is scanned between spaces too. The induction is on the row; a space ends the
first piece, and the next piece ends the space. -/
theorem lexemes_intercalate {pieces : List (TokenKind × List Char)}
    (hpieces : ∀ piece ∈ pieces, StandsAlone piece) :
    lexemes ([' '].intercalate (pieces.map (·.2))) =
      pieces.intersperse (.whitespace, [' ']) := by
  induction pieces with
  | nil => simp [List.intercalate, lexemes]
  | cons piece rest ih =>
      obtain ⟨hlasting, first, word, hword, hscan⟩ := hpieces piece (by simp)
      have hpiece : piece = (piece.1, first :: word) := Prod.ext rfl hword
      rcases rest with _ | ⟨next, rest⟩
      · simp only [List.map_cons, List.map_nil, List.intercalate_singleton,
          List.intersperse_singleton]
        rw [hword, lexemes_of_scan hscan, ← hpiece]
      · have hnext : StandsAlone next := hpieces next (by simp)
        obtain ⟨second, later, hrest, hblank⟩ := hnext.head_intercalate rest
        have hspaced := scan_blank (show isBlank ' ' = true by decide) hscan
          (.inr (endsBefore_of_isLasting hlasting)) (second :: later)
        have hrow : [' '].intercalate ((piece :: next :: rest).map (·.2)) =
            first :: (word ++ ' ' :: second :: later) := by
          rw [← hrest]
          simp [List.intercalate, hword]
        rw [hrow, lexemes_eq hspaced rfl, List.nil_append,
          lexemes_eq (scan_space hblank later) (List.nil_append _).symm, ← hrest,
          ih fun other hother => hpieces other (List.mem_cons_of_mem _ hother), ← hpiece,
          List.intersperse_cons_cons]

theorem toList_join (separator : String) (items : List String) :
    (Text.join separator items).toList =
      separator.toList.intercalate (items.map String.toList) := by
  fun_induction Text.join separator items with
  | case1 => rfl
  | case2 item => simp
  | case3 item rest hrest ih =>
      rcases rest with _ | ⟨next, rest⟩
      · exact absurd rfl hrest
      · simp [List.intercalate, ih]

theorem map_intersperse {α β : Type} (f : α → β) (separator : α) (items : List α) :
    (items.intersperse separator).map f = (items.map f).intersperse (f separator) := by
  induction items with
  | nil => rfl
  | cons item rest ih =>
      rcases rest with _ | ⟨next, rest⟩
      · rfl
      · simpa using ih

def pieceOf (token : Token) : TokenKind × List Char :=
  (token.kind, token.text.toList)

theorem map_pieceOf_place (start : Nat) (pieces : List (TokenKind × List Char)) :
    (place start pieces).map pieceOf = pieces := by
  induction pieces generalizing start with
  | nil => rfl
  | cons piece rest ih => simp [place, pieceOf, ih]

theorem map_pieceOf_tokenize (text : String) :
    (tokenize text).map pieceOf = lexemes text.toList :=
  map_pieceOf_place 0 _

theorem standsAlone_of_mem_lasting {text : String} {token : Token} (hmem : token ∈ lasting text) :
    StandsAlone (pieceOf token) ∧ pieceOf token ∈ lexemes text.toList := by
  obtain ⟨hmem, hlasting⟩ := List.mem_filter.1 hmem
  have hpiece : pieceOf token ∈ lexemes text.toList := by
    rw [← map_pieceOf_tokenize]
    exact List.mem_map_of_mem hmem
  exact ⟨⟨hlasting, exists_scan_of_mem_lexemes hpiece⟩, hpiece⟩

/-- The tokens of a text, but for blanks, comments on a line and what is not closed, are read again
if they are written down with single spaces between them, and each of them is read again if it is
written down alone. -/
theorem tokenize_respaced (text : String) :
    (tokenize (Text.join " " ((lasting text).map (·.text)))).map
        (fun token => (token.kind, token.text)) =
      ((lasting text).map fun token => (token.kind, token.text)).intersperse (.whitespace, " ") ∧
    ∀ token ∈ lasting text, tokenize token.text = [⟨token.kind, 0, token.text⟩] := by
  constructor
  · have hpieces : ∀ piece ∈ (lasting text).map pieceOf, StandsAlone piece := by
      simp only [List.mem_map]
      rintro _ ⟨token, hmem, rfl⟩
      exact (standsAlone_of_mem_lasting hmem).1
    have hread : (tokenize (Text.join " " ((lasting text).map (·.text)))).map pieceOf =
        ((lasting text).map pieceOf).intersperse (.whitespace, [' ']) := by
      rw [map_pieceOf_tokenize, toList_join, ← lexemes_intercalate hpieces, List.map_map,
        List.map_map]
      rfl
    have hrestore (tokens : List Token) : tokens.map (fun token => (token.kind, token.text)) =
        (tokens.map pieceOf).map fun piece => (piece.1, String.ofList piece.2) := by
      simp [pieceOf, Function.comp_def]
    rw [hrestore, hread, map_intersperse, ← hrestore]
  · intro token hmem
    exact tokenize_of_lexemes (lexemes_of_mem (standsAlone_of_mem_lasting hmem).2)

/-- A number before a name, a dot before a number, and an empty text before a comment. -/
example : (lasting "1.foo ..5 \"\"//").map (·.text) = ["1", ".", "foo", ".", ".5", "\"\""] := by
  decide +kernel

end PatternSyntax.Proofs.Respacing
