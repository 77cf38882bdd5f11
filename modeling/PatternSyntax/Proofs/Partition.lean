import Mathlib.Data.List.Chain
import PatternSyntax.Proofs.Scanning
import PatternSyntax.Proofs.Terminals

/-!
The tokens of a text are a partition of it: each one is a stretch of the text between two
characters, none is empty, and the next one begins where it ends. Blanks are never cut in two.
-/

namespace PatternSyntax.Proofs.Partition

open PatternSyntax.Proofs.ErrorPlaces
open PatternSyntax.Proofs.Lossless
open PatternSyntax.Proofs.Scanning
open PatternSyntax.Proofs.Terminals
open Text (isBlank)
open Token

/-- A token is the stretch of the text that begins at its offset. -/
def Cuts (text : String) (token : Token) : Prop :=
  ∃ front back, text = front ++ token.text ++ back ∧ front.utf8ByteSize = token.start

theorem cuts_of_mem_place {front : String} {pieces : List (TokenKind × List Char)} {token : Token}
    (hmem : token ∈ place front.utf8ByteSize pieces) :
    Cuts (front ++ String.ofList (pieces.map (·.2)).flatten) token := by
  induction pieces generalizing front with
  | nil => cases hmem
  | cons piece rest ih =>
      obtain ⟨kind, chars⟩ := piece
      rw [List.map_cons, List.flatten_cons, String.ofList_append, ← String.append_assoc]
      rcases List.mem_cons.1 hmem with rfl | hmem
      · exact ⟨front, _, rfl, rfl⟩
      · refine ih ?_
        rw [String.utf8ByteSize_append]
        exact hmem

theorem cuts_of_mem_tokenize {text : String} {token : Token} (hmem : token ∈ tokenize text) :
    Cuts text token := by
  have hcuts : Cuts ("" ++ _) token := cuts_of_mem_place hmem
  rwa [flatten_lexemes, String.ofList_toList, String.empty_append] at hcuts

theorem Cuts.isValid {text : String} {token : Token} (h : Cuts text token) :
    String.Pos.Raw.IsValid text ⟨token.start⟩ ∧ String.Pos.Raw.IsValid text ⟨token.stop⟩ := by
  obtain ⟨front, back, htext, hstart⟩ := h
  constructor
  · refine String.Pos.Raw.isValid_iff_exists_append.2 ⟨front, token.text ++ back, ?_, ?_⟩
    · rw [htext, String.append_assoc]
    · rw [← hstart, String.rawEndPos]
  · refine String.Pos.Raw.isValid_iff_exists_append.2 ⟨front ++ token.text, back, htext, ?_⟩
    rw [Token.stop, ← hstart, String.rawEndPos, String.utf8ByteSize_append]

theorem not_isBlank_of_scan {first next : Char} {cs rest : List Char}
    (h : (scan first cs).1 = .whitespace) (hrest : (scan first cs).2 = next :: rest) :
    ¬isBlank next = true := by
  rw [scan, if_pos (isBlank_of_scan h)] at hrest
  dsimp only at hrest
  have hhead := List.head?_dropWhile_not isBlank cs
  rw [hrest] at hhead
  simpa using hhead

/-- Not both of two tokens, one behind the other, consist of blanks. -/
def Apart (token next : Token) : Prop :=
  ¬(token.kind = .whitespace ∧ next.kind = .whitespace)

theorem isChain_place_lexemes (cs : List Char) (start : Nat) :
    (place start (lexemes cs)).IsChain Apart := by
  fun_induction lexemes cs generalizing start with
  | case1 => exact .nil
  | case2 first rest ih =>
      refine List.isChain_cons.2 ⟨fun next hnext hblanks => ?_, ih _⟩
      obtain ⟨hkind, hkind'⟩ := hblanks
      cases hrest : (scan first rest).2 with
      | nil =>
          rw [hrest, lexemes] at hnext
          cases hnext
      | cons second later =>
          rw [hrest, lexemes] at hnext
          cases hnext
          exact not_isBlank_of_scan hkind hrest (isBlank_of_scan hkind')

/-- The tokens of a text are stretches of it that are not empty and end between characters. The
first one begins at the start of the text, each other one where the one before it ends, and the last
one ends with the text. No two tokens of blanks follow each other. -/
theorem tokenize_partitions (text : String) :
    (∀ token ∈ tokenize text, token.start < token.stop ∧ Cuts text token ∧
      String.Pos.Raw.IsValid text ⟨token.start⟩ ∧ String.Pos.Raw.IsValid text ⟨token.stop⟩) ∧
      Adjoins 0 (tokenize text) ∧ endOf 0 (tokenize text) = text.utf8ByteSize ∧
      (tokenize text).IsChain Apart := by
  refine ⟨fun token hmem => ?_, adjoins_tokenize text, endOf_tokenize text,
    isChain_place_lexemes text.toList 0⟩
  have hcuts := cuts_of_mem_tokenize hmem
  exact ⟨start_lt_stop hmem, hcuts, hcuts.isValid⟩

/-- A text with a null character, blanks, a character of two bytes and literals that are not
closed. -/
example : (tokenize "\x00 \t\u00e9 'a\n\"\\").map (fun token => (token.kind, token.start)) =
    [(.unknown, 0), (.whitespace, 1), (.ident, 3), (.whitespace, 5), (.unterminatedLiteral, 6),
      (.whitespace, 8), (.unterminatedLiteral, 9)] := by
  decide +kernel

end PatternSyntax.Proofs.Partition
