import PatternSyntax.Proofs.Elements

/-!
Errors and the nodes that stand for them. Each error has an empty node, at the place that the error
names, and the nodes come in the order of the errors.
-/

namespace PatternSyntax.Proofs.ErrorPlaces

open PatternSyntax.Proofs.Coverage
open PatternSyntax.Proofs.Elements
open PatternSyntax.Proofs.Lossless
open PatternSyntax.Proofs.Weave

/-- The offset behind tokens that begin at the given one. -/
def endOf (start : Nat) : List Token → Nat
  | [] => start
  | token :: rest => endOf token.stop rest

theorem endOf_place (start : Nat) (pieces : List (TokenKind × List Char)) :
    endOf start (Token.place start pieces) =
      start + (String.ofList (pieces.map (·.2)).flatten).utf8ByteSize := by
  induction pieces generalizing start with
  | nil => simp [Token.place, endOf]
  | cons piece rest ih =>
      rw [Token.place, endOf, ih, Token.stop]
      simp [String.ofList_append, String.utf8ByteSize_append, Nat.add_assoc]

theorem endOf_tokenize (text : String) :
    endOf 0 (Token.tokenize text) = text.utf8ByteSize := by
  rw [Token.tokenize, endOf_place, Token.flatten_lexemes, String.ofList_toList, Nat.zero_add]

/-- The tokens from an offset to the end of a text, where so many significant ones come before. -/
structure Ahead (text : String) (start i : Nat) (tokens : List Token) : Prop where
  adjoins : Adjoins start tokens
  significant : Token.significant tokens = (Token.significant (Token.tokenize text)).drop i
  ends : endOf start tokens = text.utf8ByteSize

theorem ahead_tokenize (text : String) : Ahead text 0 0 (Token.tokenize text) :=
  ⟨adjoins_tokenize text, rfl, endOf_tokenize text⟩

variable {text : String} {start i : Nat} {tokens : List Token}

theorem Ahead.trivia {token : Token} (h : Ahead text start i (token :: tokens))
    (htrivia : token.kind.isTrivia = true) :
    Ahead text (start + token.text.utf8ByteSize) i tokens := by
  obtain ⟨⟨rfl, hadjoins⟩, hsignificant, hends⟩ := h
  refine ⟨hadjoins, ?_, hends⟩
  simpa [Token.significant, htrivia] using hsignificant

theorem Ahead.token {token : Token} (h : Ahead text start i (token :: tokens))
    (hkind : token.kind.isTrivia = false) :
    Ahead text (start + token.text.utf8ByteSize) (i + 1) tokens := by
  obtain ⟨⟨rfl, hadjoins⟩, hsignificant, hends⟩ := h
  refine ⟨hadjoins, ?_, hends⟩
  rw [← List.tail_drop, ← hsignificant]
  simp [Token.significant, hkind]

theorem Ahead.locate_eq (h : Ahead text start i tokens) (hat : AtSignificant tokens) :
    locate text i = start := by
  obtain ⟨hadjoins, hsignificant, hends⟩ := h
  have hget : (Token.significant (Token.tokenize text))[i]? = (Token.significant tokens)[0]? := by
    rw [hsignificant, List.getElem?_drop, Nat.add_zero]
  rw [locate, offsetOf, List.getElem?_toArray, hget]
  cases tokens with
  | nil => exact hends.symm
  | cons token rest =>
      have hkind := hat token rfl
      simpa [Token.significant, hkind] using hadjoins.1

/-- The ends of an empty error node. -/
def errorEnds? : Nat × Tree → Option (Nat × Nat)
  | (offset, .node (.node .error) []) => some (offset, offset)
  | _ => none

def ends (error : SyntaxError) : Nat × Nat :=
  (error.span.start, error.span.stop)

theorem errorEnds?_node {kind : NodeKind} {children : List Tree}
    (h : kind = .error → children ≠ []) (offset : Nat) :
    errorEnds? (offset, .node (.node kind) children) = none := by
  unfold errorEnds?
  split
  · rename_i heq
    cases heq
    exact absurd rfl (h rfl)
  · rfl

theorem errorEnds?_cons (kind : NodeKind) (head : Tree) (children : List Tree) (offset : Nat) :
    errorEnds? (offset, .node (.node kind) (head :: children)) = none :=
  errorEnds?_node (fun _ => List.cons_ne_nil _ _) offset

/-- A row moves on by the length of its elements, and its empty error nodes stand for its errors. -/
theorem errorEnds_of_weaves {j : Nat} {rest : List Token} {parts : List Outline}
    {trees : List Tree} (h : Weaves i tokens parts trees j rest)
    (hahead : Ahead text start i tokens) :
    Ahead text (start + Tree.forestWidth trees) j rest ∧
      (elementsAll start trees).filterMap errorEnds? =
        (errorsAll (locate text) parts).map ends := by
  induction h generalizing start with
  | nil => exact ⟨hahead, rfl⟩
  | trivia htrivia _ _ ih =>
      obtain ⟨hlater, hends⟩ := ih (hahead.trivia htrivia)
      refine ⟨?_, hends⟩
      rwa [Tree.forestWidth, ← Nat.add_assoc]
  | token hkind _ ih =>
      obtain ⟨hlater, hends⟩ := ih (hahead.token hkind)
      refine ⟨?_, hends⟩
      rwa [Tree.forestWidth, ← Nat.add_assoc]
  | error hat _ ih =>
      obtain ⟨hlater, hends⟩ := ih hahead
      refine ⟨by simpa [Tree.forestWidth, Tree.width] using hlater, ?_⟩
      simp only [elementsAll, elements, Tree.width, Tree.forestWidth, Nat.add_zero,
        List.nil_append, List.cons_append, List.filterMap_cons, errorEnds?, hends, errorsAll,
        errors, List.map_cons, ends, Text.Span.empty, hahead.locate_eq hat]
  | node hat hfits hinner _ ihInner ih =>
      obtain ⟨hmid, hends⟩ := ihInner hahead
      obtain ⟨hlater, hends'⟩ := ih hmid
      refine ⟨by rwa [Tree.forestWidth, Tree.width, ← Nat.add_assoc], ?_⟩
      -- An error node that holds something tells of no error.
      have hnone := errorEnds?_node (fun hkind hchildren => hfits.1 hkind
        (hinner.sizeAll_eq_zero hchildren)) start
      rw [elementsAll, elements, List.filterMap_append, List.filterMap_cons, hnone, errorsAll,
        errors, List.map_append, hends, Tree.width, hends']
  | around hat hkind hfirst hhead hinner _ ihFirst ihInner ih =>
      obtain ⟨hmid, hends⟩ := ihFirst hahead
      rw [Tree.forestWidth, Tree.forestWidth, Nat.add_zero] at hmid
      obtain ⟨hlast, hends'⟩ := ihInner hmid
      obtain ⟨hlater, hends''⟩ := ih hlast
      rw [elementsAll, elementsAll, List.append_nil] at hends
      refine ⟨by rwa [Tree.forestWidth, Tree.width, Tree.forestWidth, ← Nat.add_assoc,
        ← Nat.add_assoc], ?_⟩
      rw [elementsAll, elements, List.filterMap_append, List.filterMap_cons, errorEnds?_cons,
        elementsAll, List.filterMap_append, hends, hends', Tree.width, Tree.forestWidth,
        ← Nat.add_assoc, hends'']
      simp [errorsAll, errors]
  | loose _ _ ihInner ih =>
      obtain ⟨hmid, hends⟩ := ihInner hahead
      obtain ⟨hlater, hends'⟩ := ih hmid
      refine ⟨by rwa [forestWidth_append, ← Nat.add_assoc], ?_⟩
      rw [elementsAll_append, List.filterMap_append, hends, hends', errorsAll, errors,
        List.map_append]

mutual

theorem exists_index_of_errors {locate : Nat → Nat} {error : SyntaxError} (outline : Outline)
    (h : error ∈ errors locate outline) : ∃ i, error.span = .empty (locate i) := by
  cases outline with
  | token kind => simp [errors] at h
  | error kind index =>
      rw [errors, List.mem_singleton] at h
      exact ⟨index, h ▸ rfl⟩
  | node kind parts => exact exists_index_of_errorsAll parts h
  | around kind first later =>
      rw [errors, List.mem_append] at h
      exact h.elim (exists_index_of_errors first) (exists_index_of_errorsAll later)
  | loose parts => exact exists_index_of_errorsAll parts h

theorem exists_index_of_errorsAll {locate : Nat → Nat} {error : SyntaxError}
    (parts : List Outline) (h : error ∈ errorsAll locate parts) :
    ∃ i, error.span = .empty (locate i) := by
  cases parts with
  | nil => simp [errorsAll] at h
  | cons part rest =>
      rw [errorsAll, List.mem_append] at h
      exact h.elim (exists_index_of_errors part) (exists_index_of_errorsAll rest)

end

theorem errorEnds_leaves (start : Nat) (tokens : List Token) :
    (elementsAll start (tokens.map leafOf)).filterMap errorEnds? = [] := by
  induction tokens generalizing start with
  | nil => rfl
  | cons token tokens ih => exact ih _

theorem errorEnds_parse {s : Subject} {text : String} (a : Account s text) :
    (elements 0 a.parse.tree).filterMap errorEnds? = a.parse.errors.map ends := by
  obtain ⟨-, hends⟩ := errorEnds_of_weaves a.weaves (ahead_tokenize text)
  have hroot := @errorEnds?_node .root (a.trees ++ a.rest.map leafOf) nofun 0
  rw [Account.parse, elements, List.filterMap_cons, hroot, elementsAll_append,
    List.filterMap_append, hends, errorEnds_leaves, List.append_nil]

theorem fst_of_errorEnds? {element : Nat × Tree} {found : Nat × Nat}
    (h : errorEnds? element = some found) : found.1 = element.1 := by
  unfold errorEnds? at h
  split at h
  · cases h
    rfl
  · cases h

theorem locate_cases (text : String) (i : Nat) :
    (∃ token ∈ Token.tokenize text, token.kind.isTrivia = false ∧ token.start = locate text i) ∨
      locate text i = text.utf8ByteSize := by
  rw [locate, offsetOf, List.getElem?_toArray]
  split
  · rename_i token hget
    have hmem := List.mem_of_getElem? hget
    simp only [Token.significant, List.mem_filter, Bool.not_eq_true'] at hmem
    exact .inl ⟨token, hmem.1, hmem.2, rfl⟩
  · exact .inr rfl

/-- The empty error nodes of a tree, in preorder, have the ends of the errors. The errors are empty
stretches in the order of their offsets, each at a significant token or at the end of the text. -/
theorem errors_eq_emptyErrorNodes (s : Subject) (text : String) :
    ∃ parse, Parse.ofText s text = .ok parse ∧
      (elements 0 parse.tree).filterMap errorEnds? = parse.errors.map ends ∧
      parse.errors.Pairwise (fun before behind => before.span.start ≤ behind.span.start) ∧
      ∀ error ∈ parse.errors, error.span.start = error.span.stop ∧
        ((∃ token ∈ Token.tokenize text,
          token.kind.isTrivia = false ∧ token.start = error.span.start) ∨
        error.span.start = text.utf8ByteSize) := by
  obtain ⟨a, hparse⟩ := exists_account s text
  have hnodes := errorEnds_parse a
  refine ⟨a.parse, hparse, hnodes, ?_, fun error herror => ?_⟩
  · have hsorted : (a.parse.errors.map ends).Pairwise fun before behind =>
        before.1 ≤ behind.1 := by
      rw [← hnodes, List.pairwise_filterMap]
      refine (elements_sorted 0 a.parse.tree).1.imp fun hle before hbefore behind hbehind => ?_
      rwa [fst_of_errorEnds? hbefore, fst_of_errorEnds? hbehind]
    rwa [List.pairwise_map] at hsorted
  · obtain ⟨i, hspan⟩ := exists_index_of_errorsAll a.parts herror
    rw [hspan]
    exact ⟨rfl, locate_cases text i⟩

end PatternSyntax.Proofs.ErrorPlaces
