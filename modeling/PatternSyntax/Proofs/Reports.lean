import PatternSyntax.CommandLine.Run
import PatternSyntax.Proofs.JsonReader

/-!
The document of a parse and its listing describe the same parse. A document is read back to a tree
of elements and a row of errors; the elements of the tree, each before what it holds, are the lines
of the listing.
-/

namespace PatternSyntax.Proofs.Reports

open PatternSyntax.Proofs.JsonReader
open PatternSyntax.Proofs.Listings (decode_join textOf textOf_rows)
open PatternSyntax.Proofs.Lossless (text_parse)
open PatternSyntax.Proofs.Weave
open CommandLine

/-- An element as a document has it. -/
inductive Element where
  | mk (kind : SyntaxKind) (start stop : Nat) (text? : Option String) (children : List Element)

structure Note where
  message : String
  start : Nat
  stop : Nat

structure Report where
  tree : Element
  notes : List Note

mutual

/-- Reads an element. It may have a text, or children, at least one; one without children has no
such field. -/
def elementOf? : Json → Option Element
  | .object [("kind", .string name), ("start", .number start), ("end", .number stop)] => do
    return .mk (← SyntaxKind.ofName? name) start stop none []
  | .object [("kind", .string name), ("start", .number start), ("end", .number stop),
      ("text", .string text)] => do
    return .mk (← SyntaxKind.ofName? name) start stop (some text) []
  | .object [("kind", .string name), ("start", .number start), ("end", .number stop),
      ("children", .array (first :: rest))] => do
    return .mk (← SyntaxKind.ofName? name) start stop none
      ((← elementOf? first) :: (← elementsOf? rest))
  | _ => none

def elementsOf? : List Json → Option (List Element)
  | [] => some []
  | item :: rest => do
    return (← elementOf? item) :: (← elementsOf? rest)

end

def noteOf? : Json → Option Note
  | .object [("message", .string message), ("start", .number start), ("end", .number stop)] =>
    some ⟨message, start, stop⟩
  | _ => none

def reportOf? : Json → Option Report
  | .object [("tree", tree), ("errors", .array errors)] => do
    return ⟨← elementOf? tree, ← errors.mapM noteOf?⟩
  | _ => none

mutual

/-- An element at a depth and all elements below it, each before what it holds. -/
def Element.rowsFrom (depth : Nat) : Element → List Row
  | .mk kind start stop text? children =>
    ⟨depth, kind, start, stop, text?⟩ :: rowsOfAll (depth + 1) children

def rowsOfAll (depth : Nat) : List Element → List Row
  | [] => []
  | element :: rest => element.rowsFrom depth ++ rowsOfAll depth rest

end

/-- What a document says of an error. -/
def noteOf (error : SyntaxError) : Note :=
  ⟨error.kind.message, error.span.start, error.span.stop⟩

mutual

theorem exists_element (start : Nat) (tree : Tree) :
    ∃ element, elementOf? (tree.toJsonFrom start) = some element ∧
      ∀ depth, element.rowsFrom depth = tree.rowsFrom depth start := by
  cases tree with
  | leaf kind text =>
      refine ⟨.mk (.token kind) start (start + text.utf8ByteSize) (some text) [], ?_, ?_⟩
      · simp [Tree.toJsonFrom, Tree.placeFields, elementOf?, SyntaxKind.ofName?_name]
      · intro depth
        rw [Element.rowsFrom, rowsOfAll, Tree.rowsFrom]
  | node kind children =>
      cases children with
      | nil =>
          refine ⟨.mk kind start start none [], ?_, ?_⟩
          · simp [Tree.toJsonFrom, Tree.placeFields, Tree.forestToJsonFrom, Tree.forestWidth,
              elementOf?, SyntaxKind.ofName?_name]
          · intro depth
            rw [Element.rowsFrom, rowsOfAll, Tree.rowsFrom, Tree.forestRowsFrom, Tree.forestWidth,
              Nat.add_zero]
      | cons first rest =>
          obtain ⟨element, helement, hrows⟩ := exists_element start first
          obtain ⟨elements, helements, hrows'⟩ := exists_elements (start + first.width) rest
          refine ⟨.mk kind start (start + Tree.forestWidth (first :: rest)) none
            (element :: elements), ?_, ?_⟩
          · simp [Tree.toJsonFrom, Tree.placeFields, Tree.forestToJsonFrom, elementOf?,
              SyntaxKind.ofName?_name, helement, helements]
          · intro depth
            rw [Element.rowsFrom, rowsOfAll, hrows, hrows', Tree.rowsFrom, Tree.forestRowsFrom]

theorem exists_elements (start : Nat) (trees : List Tree) :
    ∃ elements, elementsOf? (Tree.forestToJsonFrom start trees) = some elements ∧
      ∀ depth, rowsOfAll depth elements = Tree.forestRowsFrom depth start trees := by
  cases trees with
  | nil => exact ⟨[], rfl, fun depth => by rw [rowsOfAll, Tree.forestRowsFrom]⟩
  | cons tree rest =>
      obtain ⟨element, helement, hrows⟩ := exists_element start tree
      obtain ⟨elements, helements, hrows'⟩ := exists_elements (start + tree.width) rest
      refine ⟨element :: elements, ?_, fun depth => ?_⟩
      · rw [Tree.forestToJsonFrom, elementsOf?, helement, helements]
        rfl
      · rw [rowsOfAll, hrows, hrows', Tree.forestRowsFrom]

end

/-- An element has a text if it is a token, and only then. -/
def IsShown (row : Row) : Prop :=
  row.text?.isSome = row.kind.isToken

theorem isShown_leafOf (depth start : Nat) (token : Token) :
    ∀ row ∈ (leafOf token).rowsFrom depth start, IsShown row := by
  rintro row hrow
  obtain rfl := List.mem_singleton.1 hrow
  rfl

theorem forestRowsFrom_append (depth start : Nat) (front back : List Tree) :
    Tree.forestRowsFrom depth start (front ++ back) =
      Tree.forestRowsFrom depth start front ++
        Tree.forestRowsFrom depth (start + Tree.forestWidth front) back := by
  induction front generalizing start with
  | nil => simp [Tree.forestRowsFrom, Tree.forestWidth]
  | cons tree rest ih =>
      rw [List.cons_append, Tree.forestRowsFrom, Tree.forestRowsFrom, ih, List.append_assoc,
        Tree.forestWidth, Nat.add_assoc]

theorem isShown_of_weaves {i j : Nat} {tokens rest : List Token} {parts : List Outline}
    {trees : List Tree} (h : Weaves i tokens parts trees j rest) (depth start : Nat) :
    ∀ row ∈ Tree.forestRowsFrom depth start trees, IsShown row := by
  induction h generalizing depth start with
  | nil => exact List.forall_mem_nil _
  | trivia _ _ _ ih => exact List.forall_mem_append.2 ⟨isShown_leafOf _ _ _, ih _ _⟩
  | token _ _ ih => exact List.forall_mem_append.2 ⟨isShown_leafOf _ _ _, ih _ _⟩
  | error _ _ ih =>
      refine List.forall_mem_append.2 ⟨?_, ih _ _⟩
      exact List.forall_mem_cons.2 ⟨rfl, List.forall_mem_nil _⟩
  | node _ _ _ _ ihInner ih =>
      refine List.forall_mem_append.2 ⟨?_, ih _ _⟩
      exact List.forall_mem_cons.2 ⟨rfl, ihInner _ _⟩
  | around _ _ _ _ _ _ ihFirst ihInner ih =>
      refine List.forall_mem_append.2 ⟨?_, ih _ _⟩
      refine List.forall_mem_cons.2 ⟨rfl, List.forall_mem_append.2 ⟨?_, ihInner _ _⟩⟩
      exact (List.forall_mem_append.1 (ihFirst _ _)).1
  | loose _ _ ihInner ih =>
      rw [forestRowsFrom_append]
      exact List.forall_mem_append.2 ⟨ihInner _ _, ih _ _⟩

theorem isShown_parse {s : Subject} {text : String} (a : Account s text) :
    ∀ row ∈ a.parse.tree.rows, IsShown row := by
  have hleaves (start : Nat) (tokens : List Token) :
      ∀ row ∈ Tree.forestRowsFrom 1 start (tokens.map leafOf), IsShown row := by
    induction tokens generalizing start with
    | nil => exact List.forall_mem_nil _
    | cons token tokens ih => exact List.forall_mem_append.2 ⟨isShown_leafOf _ _ _, ih _⟩
  rw [Account.parse, Tree.rows, Tree.rowsFrom, forestRowsFrom_append]
  exact List.forall_mem_cons.2
    ⟨rfl, List.forall_mem_append.2 ⟨isShown_of_weaves a.weaves _ _, hleaves _ _⟩⟩

theorem mapM_noteOf? (errors : List SyntaxError) :
    (errors.map SyntaxError.toJson).mapM noteOf? = some (errors.map noteOf) := by
  induction errors with
  | nil => rfl
  | cons error errors ih =>
      rw [List.map_cons, List.mapM_cons, ih]
      rfl

theorem exists_report (parse : Parse) :
    ∃ report, reportOf? parse.toJson = some report ∧
      report.tree.rowsFrom 0 = parse.tree.rows ∧ report.notes = parse.errors.map noteOf := by
  obtain ⟨element, helement, hrows⟩ := exists_element 0 parse.tree
  refine ⟨⟨element, parse.errors.map noteOf⟩, ?_, hrows 0, rfl⟩
  rw [Parse.toJson, reportOf?, helement, mapM_noteOf?]
  rfl

theorem run_eq_showTree {command : Command} {readFile : String → Except ReadFailure ByteArray}
    {text : String} {parse : Parse} (haction : command.action = .parse)
    (hread : command.input.read readFile = .ok text)
    (hparse : Parse.ofText command.subject text = .ok parse) :
    command.run readFile = .ok (Command.showTree parse command.asJson) := by
  simp only [Command.run, hread, haction]
  exact congrArg (fun parse => (Except.mapError Failure.fault parse).bind fun parse =>
    .ok (Command.showTree parse command.asJson)) hparse

/-- What `parse` shows of a text as a document, and what it shows as a listing, describe the same
parse. The document is written by the rules, and read back it has the elements of the listing, in
the same order and with the same depths, kinds, ranges and texts, and the errors of the parse. An
element has a text if it is a token, and only then. The texts make up the text that was parsed. -/
theorem run_report (command : Command) (readFile : String → Except ReadFailure ByteArray)
    {text : String} (haction : command.action = .parse)
    (hread : command.input.read readFile = .ok text) :
    ∃ parse document report listing notes,
      Parse.ofText command.subject text = .ok parse ∧
      ({ command with asJson := true } : Command).run readFile = .ok ⟨0, document, ""⟩ ∧
      ({ command with asJson := false } : Command).run readFile = .ok ⟨0, listing, notes⟩ ∧
      document = lineOf parse.toJson.pretty ∧ Spells (.element parse.toJson) document.toList ∧
      (decode document).bind reportOf? = some report ∧
      Listings.decode listing = some (report.tree.rowsFrom 0) ∧
      (∀ row ∈ report.tree.rowsFrom 0, row.text?.isSome = row.kind.isToken) ∧
      report.notes = parse.errors.map noteOf ∧
      textOf (report.tree.rowsFrom 0) = text := by
  obtain ⟨a, hparse⟩ := exists_account command.subject text
  obtain ⟨report, hreport, hrows, hnotes⟩ := exists_report a.parse
  have hspells : Spells (.element a.parse.toJson) (lineOf a.parse.toJson.pretty).toList :=
    spells_pretty a.parse.toJson (by simp [Spaces, isSpace])
  have hrun (asJson : Bool) : ({ command with asJson } : Command).run readFile =
      .ok (Command.showTree a.parse asJson) :=
    run_eq_showTree haction hread hparse
  refine ⟨a.parse, lineOf a.parse.toJson.pretty, report, a.parse.tree.listing, _, hparse,
    hrun true, hrun false, rfl, hspells, ?_, ?_, ?_, hnotes, ?_⟩
  · rw [decode_of_spells hspells]
    exact hreport
  · rw [Tree.listing, Tree.listingBy, decode_join, hrows]
  · rw [hrows]
    exact isShown_parse a
  · rw [hrows, textOf_rows, text_parse]

/-- An expression with a tab, a quote that is not closed and a blank at its end. -/
theorem run_report_unclosed :
    Input.read (.text "f(\t\"a ") (fun _ => .error .missing) = .ok "f(\t\"a " ∧
      ∃ document report,
        Command.run ⟨.parse, .text "f(\t\"a ", .expression, true⟩ (fun _ => .error .missing) =
          .ok ⟨0, document, ""⟩ ∧
        (decode document).bind reportOf? = some report ∧
        textOf (report.tree.rowsFrom 0) = "f(\t\"a " := by
  obtain ⟨-, document, report, -, -, -, hrun, -, -, -, hreport, -, -, -, htext⟩ :=
    run_report ⟨.parse, .text "f(\t\"a ", .expression, true⟩ (fun _ => .error .missing) rfl rfl
  exact ⟨rfl, document, report, hrun, hreport, htext⟩

end PatternSyntax.Proofs.Reports
