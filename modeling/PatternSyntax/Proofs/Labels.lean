import PatternSyntax.Proofs.Blanks
import PatternSyntax.Proofs.RoundTrip

/-!
Labels of a switch as they are meant, and that a label that is written down is read back as it was
meant. An arrow behind an element ends the label, even where it could make a lambda expression of
the element.
-/

namespace PatternSyntax.Proofs.Labels

open Grammar
open PatternSyntax.Proofs.Blanks
open PatternSyntax.Proofs.Contract
open PatternSyntax.Proofs.Coverage
open PatternSyntax.Proofs.Depth
open PatternSyntax.Proofs.Elements
open PatternSyntax.Proofs.Forward
open PatternSyntax.Proofs.Lossless
open PatternSyntax.Proofs.Marks
open PatternSyntax.Proofs.RoundTrip
open PatternSyntax.Proofs.Shapes
open PatternSyntax.Proofs.Sketches
open PatternSyntax.Proofs.Sources
open PatternSyntax.Proofs.Spelling
open PatternSyntax.Proofs.Totality
open PatternSyntax.Proofs.Weave

inductive Element where
  | default
  | constant (expression : Expression)

inductive Terminator where
  | colon
  | arrow
deriving DecidableEq, Repr

structure Label where
  elements : List Element
  terminator : Terminator

namespace Element

def sketch : Element → Sketch
  | .default => .node .defaultCaseLabelElement [mark .defaultKw]
  | .constant expression => expression.sketch

/-- An element that is read back as it is written, unless it is taken for a pattern. -/
def WellFormed : Element → Prop
  | .default => True
  | .constant expression => expression.WellFormed

instance : DecidablePred WellFormed
  | .default => .isTrue trivial
  | .constant expression => inferInstanceAs (Decidable expression.WellFormed)

end Element

def Terminator.kind : Terminator → TokenKind
  | colon => .colon
  | arrow => .arrow

/-- How elements are written around commas. -/
def elementRow : List Element → List Sketch
  | [] => []
  | [last] => [last.sketch]
  | element :: next :: rest => element.sketch :: mark .comma :: elementRow (next :: rest)

/-- The index of the token with which an element begins, if it is an expression. -/
def Element.start (index : Nat) : Element → List Nat
  | .default => []
  | .constant _ => [index]

/-- The indices of the tokens with which expressions begin, if the first element begins at this
one. -/
def starts (index : Nat) : List Element → List Nat
  | [] => []
  | element :: rest =>
    element.start index ++ starts (index + (element.sketch.lexemes.length + 1)) rest

namespace Label

def sketch (label : Label) : Sketch :=
  .node .switchLabel [mark .caseKw, .node .caseLabelElementList (elementRow label.elements),
    mark label.terminator.kind]

/-- A label that is written down, with single blanks between its tokens. -/
def text (label : Label) : String :=
  String.ofList (spell label.sketch.lexemes)

end Label

/-- The significant tokens of a text from this one on. -/
def placeAt (text : String) (index : Nat) : Cursor :=
  ⟨index, (origin text).rest.drop index⟩

def startsPattern? (c : Cursor) : Option Bool :=
  (deepEnough isPattern c).toOption.map (·.value)

/-- A pattern begins at none of these tokens. -/
def Patternless (text : String) (indices : List Nat) : Prop :=
  ∀ index ∈ indices, startsPattern? (placeAt text index) = some false

/-- A label that is read back as it is written. -/
structure Label.WellFormed (label : Label) : Prop where
  ne_nil : label.elements ≠ []
  elements : ∀ element ∈ label.elements, element.WellFormed
  patternless : Patternless label.text (starts 1 label.elements)

theorem Element.fine (element : Element) : Fine element.sketch.lexemes := by
  cases element with
  | default =>
      have hdefault : Fine (mark .defaultKw).lexemes := fine_mark (by decide)
      exact hdefault.single.node
  | constant expression => exact expression.fine

theorem fine_elementRow (elements : List Element) :
    Fine (Sketch.lexemesAll (elementRow elements)) := by
  match elements with
  | [] => exact fine_nil
  | [last] => exact last.fine.single
  | element :: next :: rest =>
      exact element.fine.cons ((fine_mark (by decide)).cons (fine_elementRow (next :: rest)))

theorem Label.fine (label : Label) : Fine label.sketch.lexemes := by
  have hterminator : Fine (mark label.terminator.kind).lexemes := by
    cases label.terminator with
    | _ => exact fine_mark (by decide)
  exact ((fine_mark (by decide)).cons ((fine_elementRow _).node.cons hterminator.single)).node

variable {c mid stop : Cursor}

theorem run_labelElements {r : Rules} {row : List Outline}
    (h : Loops (again (elementTurn r)) () c () row stop) :
    labelElements r c = .ok ⟨.node .caseLabelElementList row, [], stop⟩ := by
  unfold labelElements
  exact run_node h.iterate

theorem run_labelEnd {terminator : Terminator} (h : Passes terminator.kind c stop) :
    labelEnd c = .ok ⟨(), [.token terminator.kind], stop⟩ := by
  cases terminator with
  | colon => exact run_bind h.eat rfl
  | arrow =>
      have hcolon : nextKind c ≠ some .colon := by
        rw [h.nextKind_eq]
        decide
      exact run_look (eat_of_nextKind_ne hcolon) (run_bind h.eat rfl)

theorem isPattern_runs (h : startsPattern? c = some false) :
    Eventually fun r => isPattern r c = .ok ⟨false, [], c⟩ := by
  obtain ⟨answer, stop, hrun, hstop, -⟩ :=
    finds_isPattern (ready_ofDepth (5 * c.rest.length + 5)) (c := c) (by omega)
  have hfalse : answer = false := by
    rw [startsPattern?, deepEnough, hrun] at h
    exact Option.some.inj h
  rw [hfalse, hstop] at hrun
  exact .of_run (fun h => isPattern_refines h) hrun

theorem element_runs (element : Element) (hwf : element.WellFormed) (hc : Calm c)
    (h : Spans [element.sketch] c stop) (hstop : ExpressionEnds .terminator stop)
    (hpattern : c.index ∈ element.start c.index → startsPattern? c = some false) :
    Eventually fun r => labelElement r c = .ok ⟨true, [element.sketch.outline], stop⟩ := by
  cases element with
  | default =>
      have hdefault := h.of_node.passes
      exact .of_forall fun r => run_ifAt_pos hdefault.nextKind_eq
        (run_found_bind (run_node hdefault.bump) rfl)
  | constant expression =>
      obtain ⟨kind, hnext, hkind⟩ := h.begins expression.begins
      have hdefault : nextKind c ≠ some .defaultKw := by
        rw [hnext]
        rintro ⟨⟩
        cases hkind
      have hruns := expression_runs expression .terminator hwf hc h hstop
      exact ((isPattern_runs (hpattern List.mem_cons_self)).and hruns).mono
        fun r ⟨hpattern, hrun⟩ => run_ifAt_neg hdefault
          (run_look hpattern (run_look hrun (run_put_bind rfl)))

theorem eq_placeAt_of_spans {text : String} {parts : List Sketch}
    (hc : c = placeAt text c.index) (h : Spans parts c stop) : stop = placeAt text stop.index := by
  have hrest : c.rest = (origin text).rest.drop c.index := congrArg Cursor.rest hc
  rw [placeAt, h.index_eq, ← List.drop_drop, ← hrest, h.rest_eq, List.drop_left' (by simp),
    ← h.index_eq]

theorem elements_loop {text : String} {terminator : Terminator} (elements : List Element)
    (hne : elements ≠ []) (hwf : ∀ element ∈ elements, element.WellFormed) {c stop : Cursor}
    (hc : Calm c) (hplace : c = placeAt text c.index)
    (hpattern : Patternless text (starts c.index elements)) (h : Spans (elementRow elements) c stop)
    (hstop : nextKind stop = some terminator.kind) :
    Eventually fun r => Loops (again (elementTurn r)) () c ()
      (Sketch.outlineAll (elementRow elements)) stop := by
  have hfirst {element : Element} {rest : List Element} (heq : elements = element :: rest) :
      c.index ∈ element.start c.index → startsPattern? c = some false := by
    intro hmem
    subst heq
    have hanswer := hpattern c.index (List.mem_append_left _ hmem)
    rwa [← hplace] at hanswer
  -- Before the last element, each one ends at a comma and the loop goes on behind it.
  match elements, hne with
  | [last], _ =>
      have hends : ExpressionEnds .terminator stop := by
        intro kind hkind
        cases hstop.symm.trans hkind
        cases terminator with
        | _ => decide
      refine (element_runs last (hwf last List.mem_cons_self) hc h hends (hfirst rfl)).mono
        fun r hrun => .done (run_again_done (run_bind hrun (eat_of_nextKind_ne ?_)))
      rw [hstop]
      cases terminator with
      | _ => decide
  | element :: next :: rest, _ =>
      obtain ⟨hwfFirst, hwfRest⟩ := List.forall_mem_cons.1 hwf
      obtain ⟨behind, hfront, hrow⟩ := SpansBy.append
        (show Spans ([element.sketch, mark .comma] ++ elementRow (next :: rest)) c stop from h)
      obtain ⟨mid, helement, hcomma⟩ := hfront.cons
      replace hcomma := hcomma.passes
      have hpattern' : Patternless text (starts behind.index (next :: rest)) := by
        rw [hfront.index_eq, Sketch.lexemesAll, List.length_append]
        exact fun index hmem => hpattern index (List.mem_append_right _ hmem)
      have hruns := element_runs element hwfFirst hc helement
        (expressionEnds_of_passes hcomma (by decide)) (hfirst rfl)
      have hloop := elements_loop (next :: rest) (List.cons_ne_nil _ _) hwfRest (hfront.calm hc)
        (eq_placeAt_of_spans hplace hfront) hpattern' hrow hstop
      refine (hruns.and hloop).mono fun r ⟨hrun, hloops⟩ => ?_
      exact .yield (run_again (run_bind hrun hcomma.eat))
        (hcomma.length_lt.trans_le helement.length_le) hloops

theorem switchLabel_runs {label : Label} (hwf : label.WellFormed) {c stop : Cursor} (hc : Calm c)
    (hplace : c = placeAt label.text 0) (h : Spans [label.sketch] c stop) :
    Eventually fun r => switchLabel r c = .ok ⟨some label.sketch.outline, [], stop⟩ := by
  obtain ⟨mid, hcase, hlater⟩ := SpansBy.cons h.of_node
  obtain ⟨behind, hrow, hend⟩ := hlater.cons
  have hindex : mid.index = 1 := by
    rw [hcase.index_eq, hplace]
    rfl
  have hloop := elements_loop label.elements hwf.ne_nil hwf.elements (hcase.calm hc)
    (eq_placeAt_of_spans (by rw [hplace]; rfl) hcase) (by rw [hindex]; exact hwf.patternless)
    hrow.of_node hend.passes.nextKind_eq
  refine hloop.mono fun r hloops => run_look (a := nextKind c) rfl ?_
  rw [hcase.passes.nextKind_eq]
  exact run_some (run_node (hcase.passes.bump_bind (run_found_bind (run_labelElements hloops)
    (run_labelEnd hend.passes))))

theorem parts_eq_of_label {label : Label} (hwf : label.WellFormed)
    (a : Account .switchLabel label.text) : a.parts = [label.sketch.outline] := by
  obtain ⟨stop, hstop, hspan, hcalm⟩ := exists_spans_origin label.fine
  have hplace : origin label.text = placeAt label.text 0 := rfl
  exact parts_eq_of_eventually a ((switchLabel_runs hwf hcalm hplace hspan).mono
    fun _ hrun => run_document (run_look hrun rfl) hstop)

/-- Whether an element of a tree is a node. -/
def isNode : Tree → Bool
  | .leaf _ _ => false
  | .node _ _ => true

theorem isNode_primary (primary : Primary) : isNode primary.sketch.tree = true := by
  cases primary with
  | _ => rfl

theorem isNode_stepped (stepped : Stepped) : isNode stepped.sketch.tree = true := by
  cases stepped with
  | primary operand => exact isNode_primary operand
  | step operand step => rfl

theorem isNode_unary (unary : Unary) : isNode unary.sketch.tree = true := by
  cases unary with
  | stepped operand => exact isNode_stepped operand
  | signed sign operand => rfl
  | cast type operand => rfl

theorem isNode_binary (binary : Binary) : isNode binary.sketch.tree = true := by
  cases binary with
  | unary operand => exact isNode_unary operand
  | join operator left right => rfl

theorem isNode_element (element : Element) : isNode element.sketch.tree = true := by
  cases element with
  | default => rfl
  | constant expression =>
      cases expression with
      | binary operand => exact isNode_binary operand
      | conditional condition yes no => rfl

theorem filter_elementRow (elements : List Element) :
    (Sketch.treeAll (elementRow elements)).filter isNode =
      elements.map fun element => element.sketch.tree := by
  match elements with
  | [] => rfl
  | [last] => exact List.filter_cons_of_pos (isNode_element last)
  | element :: next :: rest =>
      exact (List.filter_cons_of_pos (isNode_element element)).trans
        (congrArg _ (filter_elementRow (next :: rest)))

/-- A token that is the last element but for blanks is the last element of a row that does not end
with a blank. -/
theorem getLast?_of_bareAll {children : List Tree} {kind : TokenKind} {text : String}
    (h : (bareAll children).getLast? = some (.leaf kind text)) (hbounded : Bounded children) :
    children.getLast? = some (.leaf kind text) := by
  rcases List.eq_nil_or_concat' children with rfl | ⟨trees, last, rfl⟩
  · cases h
  · have hlast := hbounded.last last List.getLast?_concat
    rw [bareAll_append, bareAll, bareAll, List.append_nil] at h
    rw [List.getLast?_concat]
    cases last with
    | leaf kind' text' =>
        rw [bare, if_neg (by rw [show kind'.isTrivia = false from hlast]; exact nofun),
          List.getLast?_concat] at h
        exact h
    | node kind' inner =>
        rw [bare, List.getLast?_concat] at h
        cases h

theorem mem_subtreesAll {trees children : List Tree} {kind : SyntaxKind}
    (h : .node kind children ∈ trees) : .node kind children ∈ subtreesAll trees := by
  obtain ⟨front, back, rfl⟩ := List.append_of_mem h
  rw [subtreesAll_append]
  exact List.mem_append_right _ List.mem_cons_self

theorem exists_of_mem_bareAll {trees inner : List Tree} {kind : SyntaxKind}
    (h : .node kind inner ∈ bareAll trees) :
    ∃ children, .node kind children ∈ trees ∧ bareAll children = inner := by
  induction trees with
  | nil => cases h
  | cons tree trees ih =>
      rcases List.mem_append.1 h with h | h
      · cases tree with
        | leaf kind' text =>
            rw [bare] at h
            split at h
            · cases h
            · cases List.mem_singleton.1 h
        | node kind' children =>
            cases List.mem_singleton.1 h
            exact ⟨children, List.mem_cons_self, rfl⟩
      · obtain ⟨children, hmem, heq⟩ := ih h
        exact ⟨children, List.mem_cons_of_mem _ hmem, heq⟩

/-- A label that is written down with single blanks between its tokens is read without an error, if
no pattern begins where an expression does. But for the blanks its elements are those that were
written, and its last child is what ends it. -/
theorem label_of_wellFormed (label : Label) (hwf : label.WellFormed) :
    ∃ parse trees children elements, Parse.ofText .switchLabel label.text = .ok parse ∧
      parse.errors = [] ∧ parse.tree = .node (.node .root) trees ∧
      bareAll trees = [.node (.node .switchLabel)
        [(mark .caseKw).tree, .node (.node .caseLabelElementList) elements,
          (mark label.terminator.kind).tree]] ∧
      elements.filter isNode = label.elements.map (fun element => element.sketch.tree) ∧
      .node (.node .switchLabel) children ∈ trees ∧
      children.getLast? = some (mark label.terminator.kind).tree := by
  obtain ⟨a, hparse⟩ := exists_account .switchLabel label.text
  have hparts := parts_eq_of_label hwf a
  have herrors : a.parse.errors = [] := by
    rw [errors_eq_nil_iff a, hparts, Outline.hasErrorAll, Sketch.hasError_outline]
    rfl
  have hbare : bareAll (a.trees ++ a.rest.map leafOf) = [label.sketch.tree] :=
    (Tree.node.inj (List.singleton_inj.1 (bare_parse label.fine.spelled a hparts))).2
  obtain ⟨children, hmem, hchildren⟩ := exists_of_mem_bareAll (hbare ▸ List.mem_cons_self)
  have hbounded : Bounded children := bounded_of_mem a (mem_subtreesAll hmem)
  refine ⟨a.parse, _, children, _, hparse, herrors, rfl, hbare, filter_elementRow label.elements,
    hmem, getLast?_of_bareAll ?_ hbounded⟩
  rw [hchildren]
  rfl

/-- A label whose elements look like lambda expressions up to its arrow. -/
def dispatchLabel : Label :=
  let name (text : String) (h : Token.isIdent text = true) : Primary := .name ⟨text, h⟩
  let operand (primary : Primary) : Binary := .unary (.stepped (.primary primary))
  let x := name "x" (by decide +kernel)
  ⟨[.constant (.conditional (operand x) (.binary (operand (.grouped (.binary (operand x)))))
      (.binary (.unary (.cast (.primitive ⟨.longKw, rfl⟩) (.signed .minus
        (.stepped (.primary x))))))),
    .default, .constant (.binary (operand (.grouped (.binary (operand x)))))], .arrow⟩

theorem label_dispatchLabel :
    dispatchLabel.WellFormed ∧ ∃ parse trees children elements,
      Parse.ofText .switchLabel "case x ? ( x ) : ( long ) - x , default , ( x ) ->" = .ok parse ∧
      parse.errors = [] ∧ parse.tree = .node (.node .root) trees ∧
      bareAll trees = [.node (.node .switchLabel)
        [.leaf .caseKw "case", .node (.node .caseLabelElementList) elements,
          .leaf .arrow "->"]] ∧
      elements.filter isNode = dispatchLabel.elements.map (fun element => element.sketch.tree) ∧
      .node (.node .switchLabel) children ∈ trees ∧
      children.getLast? = some (.leaf .arrow "->") := by
  have hwf : dispatchLabel.WellFormed := by
    refine ⟨by decide, ?_, ?_⟩
    · decide +kernel
    · have hstarts : starts 1 dispatchLabel.elements = [1, 15] := by decide +kernel
      rw [Patternless, hstarts]
      decide +kernel
  have htext : dispatchLabel.text = "case x ? ( x ) : ( long ) - x , default , ( x ) ->" := by
    decide +kernel
  rw [← htext]
  exact ⟨hwf, label_of_wellFormed dispatchLabel hwf⟩

end PatternSyntax.Proofs.Labels
