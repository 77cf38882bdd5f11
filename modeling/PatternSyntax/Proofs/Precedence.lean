import PatternSyntax.Proofs.Marks
import PatternSyntax.Proofs.Nodes
import PatternSyntax.Proofs.Operands

/-!
Operators bind their operands by level, and those of one level from the left. What stands behind
`instanceof` is no expression, so no operator of a higher level is kept from following it.
-/

namespace PatternSyntax.Proofs.Precedence

open Grammar
open PatternSyntax.Proofs.Coverage
open PatternSyntax.Proofs.Elements
open PatternSyntax.Proofs.Forward
open PatternSyntax.Proofs.Marks
open PatternSyntax.Proofs.Nodes
open PatternSyntax.Proofs.Operands
open PatternSyntax.Proofs.Runs
open PatternSyntax.Proofs.Shapes
open PatternSyntax.Proofs.Weave

variable {α β : Type} {r : Rules} {c : Cursor}

def testLevel : Nat :=
  7

def IsTest (shape : Shape) : Prop :=
  (∃ children, shape = .node (.node .instanceofExpression) children) ∧
    level? shape = some testLevel

def IsSimple (shape : Shape) : Prop :=
  (∃ kind, shape = .token kind) ∨ IsOperand shape

/-- Nodes that operators make hold operands of fitting levels. -/
def Ordered : NodeKind → List Shape → Prop
  | .binaryExpression, children =>
    ∃ left kinds right level, children = left :: (kinds.map Shape.token ++ [right]) ∧
      levelOf kinds = some level ∧ (Binds level left ∨ IsTest left) ∧ Binds (level + 1) right
  | .instanceofExpression, children =>
    ∃ left right, children = [left, .token .instanceofKw, right] ∧ Binds testLevel left ∧
      IsOperand right
  | .prefixExpression, children => ∀ child ∈ children, IsSimple child
  | .typeCastExpression, children => ∀ child ∈ children, IsSimple child
  | _, _ => True

/-- The answer of the rule for operators of at least a level. Unless an operand is missing, the
operator behind it is of a lower level. -/
def BinaryAnswer (level : Nat) (found : Option Outline) (stop : Cursor) : Prop :=
  ∀ outline ∈ found, Shows (Binds level) outline ∧ (outline.hasError = false →
    ∀ operator ∈ BinaryOperator.ofTerminals? stop.rest, operator.level < level)

/-- What the rules of a table answer with. -/
structure Answering (r : Rules) : Prop where
  type (flags : TypeFlags) (c : Cursor) : Gives (r.type flags) c (MayShow IsOperand)
  unary (arrow : ArrowRole) (c : Cursor) : Gives (r.unary arrow) c (MayShow IsOperand)
  binary (level : Nat) (arrow : ArrowRole) (c : Cursor) :
    Gives (r.binary level arrow) c (BinaryAnswer level)

theorem outlinedAll_join {left right : Outline} {shape shape' : Shape} {operator : BinaryOperator}
    {rest : List Terminal} (hleft : outlined left = [shape]) (hright : outlined right = [shape']) :
    outlinedAll (left :: (operatorTokens operator rest ++ [right])) =
      shape :: (((rest.take operator.width).map (·.kind)).map Shape.token ++ [shape']) := by
  rw [outlinedAll, outlinedAll_append, outlinedAll_operatorTokens, hleft, outlinedAll, outlinedAll,
    hright]
  rfl

theorem shows_join {left right : Outline} {operator : BinaryOperator} {rest : List Terminal}
    (hoperator : BinaryOperator.ofTerminals? rest = some operator)
    (hleft : Shows (fun shape => token? shape = none) left)
    (hright : Shows (fun shape => token? shape = none) right) :
    Shows (fun shape => level? shape = some operator.level)
      (.around .binaryExpression left (operatorTokens operator rest ++ [right])) := by
  obtain ⟨shape, hshape, hnode⟩ := hleft
  obtain ⟨shape', hshape', hnode'⟩ := hright
  refine ⟨_, rfl, ?_⟩
  change levelOf ((outlinedAll (left :: (operatorTokens operator rest ++ [right]))).filterMap
    token?) = some operator.level
  rw [outlinedAll_join hshape hshape', filterMap_token?_between hnode hnode']
  exact levelOf_tokens hoperator

theorem shows_test {left : Outline} {later : List Outline}
    (hleft : Shows (fun shape => token? shape = none) left)
    (hlater : ∃ right, later = [right] ∧ Shows IsOperand right) :
    Shows IsTest (.around .instanceofExpression left (.token .instanceofKw :: later)) := by
  obtain ⟨shape, hshape, hnode⟩ := hleft
  obtain ⟨right, rfl, shape', hshape', hoperand⟩ := hlater
  refine ⟨_, rfl, ⟨_, rfl⟩, ?_⟩
  change levelOf ((outlined left ++ Shape.token .instanceofKw :: (outlined right ++ [])).filterMap
    token?) = some testLevel
  rw [hshape, hshape']
  exact congrArg levelOf (filterMap_token?_between hnode hoperand.token?_eq_none [.instanceofKw])

theorem isOperand_error : IsOperand (.node (.node .error) []) :=
  ⟨.error, [], rfl, by decide⟩

theorem Answering.instanceofOperand (ha : Answering r) :
    PutsOne IsOperand (instanceofOperand r) c :=
  putsOne_instanceofOperand (K := fun kind => kind ≠ .binaryExpression ∧
    kind ≠ .instanceofExpression ∧ kind ≠ .conditionalExpression) (by decide) ha.type

theorem ofTerminals?_of_passes {c mid : Cursor} (h : Passes .instanceofKw c mid) :
    BinaryOperator.ofTerminals? c.rest = some ⟨testLevel, 1⟩ := by
  cases h
  rfl

theorem gives_binary (ha : Answering r) (level : Nat) (arrow : ArrowRole) (c : Cursor) :
    Gives (Grammar.binary r level arrow) c (BinaryAnswer level) := by
  unfold Grammar.binary
  refine gives_bind (ha.unary arrow c) fun found mid hfound => ?_
  cases found with
  | none => exact gives_pure nofun
  | some first =>
      have hfirst : Shows (Binds level) first := (hfound first rfl).mono fun _ => .inl
      refine gives_bind (gives_iterate (I := fun left _ => Shows (Binds level) left)
        (J := fun last stop => BinaryAnswer level (some last) stop)
        (fun left here hleft done hrun => ?_) hfirst) fun _ _ hanswer => gives_pure hanswer
      have hnode : Shows (fun shape => token? shape = none) left :=
        hleft.mono fun _ => Binds.token?_eq_none
      -- The invariant of the loop is that what has been joined binds at its level.
      cases binaryTurn_cases hrun with
      | stop hlevel =>
          refine ⟨rfl, fun outline heq => ?_⟩
          cases heq
          exact ⟨hleft, fun _ => hlevel⟩
      | test hlevel hpasses htested =>
          refine ⟨rfl, (shows_test hnode (ha.instanceofOperand _ htested)).mono
            fun shape hshape => .inr ⟨_, hshape.2, hlevel _ (ofTerminals?_of_passes hpasses)⟩⟩
      | join hoperator hlevel hbinary hvalue =>
          obtain ⟨hparts, hanswer⟩ := ha.binary _ arrow _ _ hbinary
          refine ⟨rfl, ?_⟩
          rw [hparts]
          refine (shows_join hoperator hnode ((hanswer _ hvalue).1.mono
            fun _ => Binds.token?_eq_none)).mono fun _ hshape => .inr ⟨_, hshape, hlevel⟩
      | lack hoperator hlevel hbinary hvalue =>
          obtain ⟨hparts, -⟩ := ha.binary _ arrow _ _ hbinary
          refine ⟨rfl, fun outline heq => ?_⟩
          cases heq
          rw [hparts]
          refine ⟨(shows_join hoperator hnode ((shows_error isOperand_error _ _).mono
            fun _ => IsOperand.token?_eq_none)).mono fun _ hshape => .inr ⟨_, hshape, hlevel⟩,
              fun hclean => ?_⟩
          simp [Outline.hasError, Outline.hasErrorAll, Neatness.hasErrorAll_append] at hclean

theorem answering_ofDepth (depth : Nat) : Answering (.ofDepth depth) := by
  induction depth with
  | zero => exact ⟨fun _ _ => nofun, fun _ _ => nofun, fun _ _ _ => nofun⟩
  | succ depth ih =>
      rw [Rules.ofDepth_succ]
      exact ⟨gives_type (by decide) _, gives_unary (by decide) _, gives_binary ih⟩

/-- The row of a node is ordered, unless there is an error in it. -/
def OrderedRow (kind : NodeKind) (row : List Outline) : Prop :=
  Outline.hasErrorAll row = false → Ordered kind (outlinedAll row)

/-- The kinds of nodes that operators do not make. -/
def unorderedKinds : List NodeKind :=
  .conditionalExpression :: .lambdaExpression :: (patternKinds ++ plainKinds)

theorem orderedRow_of_mem {kind : NodeKind} (hkind : kind ∈ unorderedKinds) (row : List Outline) :
    OrderedRow kind row := by
  intro _
  unfold Ordered
  split
  · exact absurd hkind (by decide)
  · exact absurd hkind (by decide)
  · exact absurd hkind (by decide)
  · exact absurd hkind (by decide)
  · trivial

theorem hereditary_orderedRow : Hereditary unorderedKinds (Everywhere OrderedRow) :=
  hereditary_everywhere (orderedRow_of_mem (by decide) []) fun _ => orderedRow_of_mem

theorem hereditary_orderedRow_plain : Hereditary plainKinds (Everywhere OrderedRow) :=
  hereditary_orderedRow.mono (by decide)

/-- All that a row holds itself is simple. -/
def AllSimple (row : List Outline) : Prop :=
  ∀ shape ∈ outlinedAll row, IsSimple shape

theorem AllSimple.append {front back : List Outline} (hfront : AllSimple front)
    (hback : AllSimple back) : AllSimple (front ++ back) := by
  unfold AllSimple
  rw [outlinedAll_append]
  exact List.forall_mem_append.2 ⟨hfront, hback⟩

theorem allSimple_singleton {outline : Outline} (h : Shows IsSimple outline) :
    AllSimple [outline] := by
  obtain ⟨shape, hshape, hsimple⟩ := h
  rw [AllSimple, outlinedAll, hshape]
  exact List.forall_mem_singleton.2 hsimple

theorem allSimple_bump {done : Parsed Unit} (hrun : bump c = .ok done) : AllSimple done.parts := by
  unfold bump at hrun
  split at hrun
  · cases hrun
    exact nofun
  · cases hrun
    exact allSimple_singleton ⟨_, rfl, .inl ⟨_, rfl⟩⟩

theorem allSimple_operand {missing : ErrorKind} {g : Grammar (Option Outline)}
    (hg : ∀ c, Gives g c (MayShow IsOperand)) {done : Parsed Unit}
    (hrun : (bump >>= fun _ => orReport missing g) c = .ok done) : AllSimple done.parts := by
  obtain ⟨first, second, hfirst, hsecond, rfl⟩ := exists_of_bind_ok hrun
  obtain ⟨outline, hparts, hshows⟩ := putsOne_orReport isOperand_error (hg _) second hsecond
  refine (allSimple_bump hfirst).append ?_
  rw [hparts]
  exact allSimple_singleton (hshows.mono fun _ => .inr)

theorem builds_simple {kind : NodeKind} {g : Grammar Unit}
    (hkind : kind = .prefixExpression ∨ kind = .typeCastExpression)
    (hsimple : ∀ c done, g c = .ok done → AllSimple done.parts)
    (h : Steady (Everywhere OrderedRow) g) : Builds (Everywhere OrderedRow) (node kind g) := by
  refine keeps_capture_bind fun c inner hinner => keeps_pure (everywhere_node.2 ⟨fun _ => ?_,
    (h c inner hinner).1⟩)
  rcases hkind with rfl | rfl
  · exact hsimple c inner hinner
  · exact hsimple c inner hinner

theorem Answering.operand (ha : Answering r) (arrow : ArrowRole) (c : Cursor) :
    Gives (r.binary BinaryOperator.operandLevel arrow) c (MayShow IsOperand) :=
  (ha.binary _ arrow c).mono fun _ _ hanswer outline heq =>
    (hanswer outline heq).1.mono fun _ => Binds.isOperand

theorem allSimple_castType (ha : Answering r) {done : Parsed Bool}
    (hrun : castType r c = .ok done) : AllSimple done.parts := by
  obtain ⟨first, second, hfirst, hsecond, rfl⟩ := exists_of_bind_ok hrun
  refine (allSimple_bump hfirst).append ?_
  obtain ⟨looked, third, hlooked, hthird, rfl⟩ := exists_of_bind_ok hsecond
  cases hlooked
  obtain ⟨found, fourth, hfound, hfourth, rfl⟩ := exists_of_bind_ok hthird
  obtain ⟨hparts, hshows⟩ := ha.type _ _ found hfound
  dsimp only
  rw [hparts]
  cases hvalue : found.value with
  | none =>
      rw [hvalue] at hfourth
      cases hfourth
      exact nofun
  | some type =>
      rw [hvalue] at hfourth
      cases hfourth
      exact allSimple_singleton ((hshows type hvalue).mono fun _ => .inr)

theorem mayBuild_cast_ordered (ha : Answering r) (hr : Sound (Everywhere OrderedRow) r)
    (arrow : ArrowRole) : MayBuild (Everywhere OrderedRow) (Grammar.cast r arrow) := by
  have hE := hereditary_orderedRow_plain
  unfold Grammar.cast
  refine mayBuild_attempt (keeps_capture_bind fun c inner hinner => keeps_ite (mayBuild_some
    (builds_simple (.inr rfl) (fun here done hrun => ?_) ?_)) (keeps_pure nofun))
  · obtain ⟨first, second, hfirst, hsecond, rfl⟩ := exists_of_bind_ok hrun
    cases hfirst
    exact (allSimple_castType ha hinner).append (allSimple_operand (ha.unary arrow) hsecond)
  · exact keeps_after (keeps_putAll (steady_castType hE hr.toSoundTypes c inner hinner).1)
      fun _ => keeps_bump hE (steady_orReport hE (hr.unary arrow))

theorem mayBuild_unary_ordered (ha : Answering r) (hr : Sound (Everywhere OrderedRow) r)
    (arrow : ArrowRole) : MayBuild (Everywhere OrderedRow) (Grammar.unary r arrow) := by
  have hE := hereditary_orderedRow_plain
  have hlambda : HoldsOfLambdas (Everywhere OrderedRow) r :=
    holdsOfLambdas hE hr (hereditary_orderedRow.mono (by decide))
  exact mayBuild_unary_of hE hr.toSoundTypes (hr.brackets hE) (fun _ => hlambda)
    (builds_simple (.inl rfl) (fun _ _ => allSimple_operand (ha.operand arrow)) (keeps_bump hE
      (steady_orReport hE (hr.binary _ arrow)))) (mayBuild_cast_ordered ha hr arrow)

/-- The operators that may come next bind no tighter than the one that made an operand, unless
that is `instanceof`. -/
def Bound (c : Cursor) (shape : Shape) : Prop :=
  token? shape = none ∧
    ((∀ operator ∈ BinaryOperator.ofTerminals? c.rest, Binds operator.level shape) ∨ IsTest shape)

/-- What the loop over operators keeps: all nodes are ordered, and so are those that the next turn
makes. -/
def LoopInvariant (left : Outline) (c : Cursor) : Prop :=
  Everywhere OrderedRow left ∧ (left.hasError = false → Shows (Bound c) left)

theorem loopInvariant_test (ha : Answering r) (hr : Sound (Everywhere OrderedRow) r)
    {left : Outline} {c mid : Cursor} {tested : Parsed Unit} (hleft : LoopInvariant left c)
    (hpasses : Passes .instanceofKw c mid) (hrun : instanceofOperand r mid = .ok tested) :
    LoopInvariant (.around .instanceofExpression left (.token .instanceofKw :: tested.parts))
      tested.cursor := by
  obtain ⟨right, hparts, shape', hshape', hoperand⟩ := ha.instanceofOperand tested hrun
  have hE := hereditary_orderedRow_plain
  have hprimary := builds_primaryPattern hE hr.toSoundTypes (hereditary_orderedRow.mono (by decide))
  have hnodes := (steady_instanceofOperand hE hr.toSoundTypes hprimary mid tested hrun).1
  refine ⟨everywhere_around.2 ⟨fun hclean => ?_, hleft.1,
    List.forall_mem_cons.2 ⟨hE.token _, hnodes⟩⟩, fun hclean => ?_⟩
  · obtain ⟨shape, hshape, hnode, hbound⟩ := hleft.2 (Bool.or_eq_false_iff.1 hclean).1
    refine ⟨shape, shape', ?_, ?_, hoperand⟩
    · rw [hparts, outlinedAll, hshape, outlinedAll, outlined, outlinedAll, hshape']
      rfl
    · rcases hbound with hbinds | htest
      · exact hbinds _ (ofTerminals?_of_passes hpasses)
      · exact .inr ⟨_, htest.2, Nat.le_refl _⟩
  · obtain ⟨shape, hshape, hnode, -⟩ := hleft.2 (Bool.or_eq_false_iff.1 hclean).1
    rw [hparts]
    refine (shows_test ⟨shape, hshape, hnode⟩ ⟨right, rfl, shape', hshape', hoperand⟩).mono ?_
    rintro _ htest
    obtain ⟨children, rfl⟩ := htest.1
    exact ⟨rfl, .inr htest⟩

/-- What an operator joins is ordered, and the operators that may come next bind no tighter. -/
theorem loopInvariant_join (ha : Answering r) (hr : Sound (Everywhere OrderedRow) r)
    {left right : Outline}
    {c mid : Cursor} {operator : BinaryOperator} {arrow : ArrowRole}
    {found : Parsed (Option Outline)} (hleft : LoopInvariant left c)
    (hoperator : BinaryOperator.ofTerminals? c.rest = some operator)
    (hrun : r.binary (operator.level + 1) arrow mid = .ok found)
    (hvalue : found.value = some right) :
    LoopInvariant (.around .binaryExpression left
      (operatorTokens operator c.rest ++ (found.parts ++ [right]))) found.cursor := by
  obtain ⟨hparts, hanswer⟩ := ha.binary _ arrow mid found hrun
  obtain ⟨⟨shape', hshape', hbinds'⟩, hnext⟩ := hanswer right hvalue
  have hright : Everywhere OrderedRow right := (hr.binary _ arrow mid found hrun).2 right hvalue
  rw [hparts, List.nil_append]
  -- Rows are only asked to be ordered if neither operand has an error.
  have hclean {p : Prop} (h : left.hasError = false → right.hasError = false → p) :
      Outline.hasErrorAll (left :: (operatorTokens operator c.rest ++ [right])) = false → p := by
    intro hrow
    simp only [Outline.hasErrorAll, Neatness.hasErrorAll_append, Bool.or_eq_false_iff] at hrow
    exact h hrow.1 hrow.2.2.1
  refine ⟨everywhere_around.2 ⟨hclean fun hcleft _ => ?_, hleft.1,
    List.forall_mem_append.2 ⟨forall_mem_operatorTokens hereditary_orderedRow _ _,
      List.forall_mem_singleton.2 hright⟩⟩, hclean fun hcleft hcright => ?_⟩
  · obtain ⟨shape, hshape, -, hbound⟩ := hleft.2 hcleft
    exact ⟨shape, _, shape', operator.level, outlinedAll_join hshape hshape',
      levelOf_tokens hoperator, hbound.imp_left fun hbinds => hbinds operator hoperator, hbinds'⟩
  · obtain ⟨shape, hshape, hnode, -⟩ := hleft.2 hcleft
    obtain ⟨joined, hjoined, hlevel⟩ := shows_join hoperator ⟨shape, hshape, hnode⟩
      ⟨shape', hshape', hbinds'.token?_eq_none⟩
    refine ⟨joined, hjoined, ?_, .inl fun next heq => .inr ⟨_, hlevel, ?_⟩⟩
    · exact Binds.token?_eq_none (.inr ⟨_, hlevel, Nat.le_refl _⟩)
    · exact Nat.le_of_lt_succ (hnext hcright next heq)

theorem mayBuild_binary_ordered (ha : Answering r) (hr : Sound (Everywhere OrderedRow) r)
    (level : Nat) (arrow : ArrowRole) :
    MayBuild (Everywhere OrderedRow) (Grammar.binary r level arrow) := by
  unfold Grammar.binary
  refine keeps_bind ((hr.unary arrow).and (keeps_of_gives (ha.unary arrow)))
    fun found hfound => ?_
  cases found with
  | none => exact keeps_pure nofun
  | some first =>
      have hfirst (c : Cursor) : LoopInvariant first c :=
        ⟨hfound.1 first rfl, fun _ => (hfound.2 first rfl).mono fun _ hoperand =>
          ⟨hoperand.token?_eq_none, .inl fun _ _ => .inl hoperand⟩⟩
      refine mayBuild_some (keeps_of_gives fun c => gives_iterate (I := LoopInvariant)
        (J := fun last _ => Everywhere OrderedRow last) (fun left here hleft done hrun => ?_)
          (hfirst c))
      cases binaryTurn_cases hrun with
      | stop => exact ⟨rfl, hleft.1⟩
      | test _ hpasses htested => exact ⟨rfl, loopInvariant_test ha hr hleft hpasses htested⟩
      | join hoperator _ hbinary hvalue =>
          exact ⟨rfl, loopInvariant_join ha hr hleft hoperator hbinary hvalue⟩
      | lack hoperator _ hbinary hvalue =>
          refine ⟨rfl, everywhere_around.2 ⟨fun hclean => ?_, hleft.1, ?_⟩⟩
          · simp [Outline.hasErrorAll, Outline.hasError, Neatness.hasErrorAll_append] at hclean
          · have hE := hereditary_orderedRow
            exact List.forall_mem_append.2 ⟨forall_mem_operatorTokens hE _ _,
              List.forall_mem_append.2 ⟨(hr.binary _ arrow _ _ hbinary).1,
                List.forall_mem_singleton.2 (hE.error _ _)⟩⟩

theorem sound_ofDepth (depth : Nat) : Sound (Everywhere OrderedRow) (.ofDepth depth) := by
  induction depth with
  | zero => exact sound_exhausted
  | succ depth ih =>
      have hE := hereditary_orderedRow_plain
      rw [Rules.ofDepth_succ]
      exact ih.next hE (hereditary_orderedRow.mono (by decide)) (builds_pattern hE ih.toSoundTypes
        (hereditary_orderedRow.mono (by decide)) (ih.binary _ _))
        (mayBuild_unary_ordered (answering_ofDepth depth) ih)
        (mayBuild_binary_ordered (answering_ofDepth depth) ih)

mutual

theorem hasErrorAll_of_mem_rows {node : NodeKind} {row : List Outline} (outline : Outline)
    (hclean : outline.hasError = false) (hmem : (node, row) ∈ rows outline) :
    Outline.hasErrorAll row = false := by
  cases outline with
  | token kind => cases hmem
  | error kind index => cases hclean
  | node kind parts =>
      rcases List.mem_cons.1 hmem with heq | hmem
      · cases heq
        exact hclean
      · exact hasErrorAll_of_mem_rowsAll parts hclean hmem
  | around kind first later =>
      rcases List.mem_cons.1 hmem with heq | hmem
      · cases heq
        exact hclean
      · obtain ⟨hfirst, hlater⟩ := Bool.or_eq_false_iff.1 hclean
        rcases List.mem_append.1 hmem with hmem | hmem
        · exact hasErrorAll_of_mem_rows first hfirst hmem
        · exact hasErrorAll_of_mem_rowsAll later hlater hmem
  | loose parts => exact hasErrorAll_of_mem_rowsAll parts hclean hmem

theorem hasErrorAll_of_mem_rowsAll {node : NodeKind} {row : List Outline} (parts : List Outline)
    (hclean : Outline.hasErrorAll parts = false) (hmem : (node, row) ∈ rowsAll parts) :
    Outline.hasErrorAll row = false := by
  cases parts with
  | nil => cases hmem
  | cons part rest =>
      obtain ⟨hpart, hrest⟩ := Bool.or_eq_false_iff.1 hclean
      rcases List.mem_append.1 hmem with hmem | hmem
      · exact hasErrorAll_of_mem_rows part hpart hmem
      · exact hasErrorAll_of_mem_rowsAll rest hrest hmem

end

theorem exists_row_of_mem {P : NodeKind → List Outline → Prop} {s : Subject} {text : String}
    (a : Account s text)
    (hbuilds : Builds (Everywhere P) (document (.ofDepth (5 * (origin text).rest.length + 5)) s))
    {kind : NodeKind} {children : List Tree}
    (hmem : .node (.node kind) children ∈ subtrees a.parse.tree) :
    kind = .root ∨ ∃ row, shapeAll children = outlinedAll row ∧ P kind row ∧
      (Outline.hasErrorAll a.parts = false → Outline.hasErrorAll row = false) := by
  rcases node_mem_trees a hmem with ⟨heq, -⟩ | hmem
  · cases heq
    exact .inl rfl
  · obtain ⟨node, row, heq, hrow, -, i, tokens, j, rest, -, hweaves⟩ :=
      madeOf_of_weaves a.weaves hmem
    cases heq
    obtain ⟨stop, hrun⟩ := exists_run a
    exact .inr ⟨row, shapeAll_of_weaves hweaves,
      (hbuilds _ _ hrun).2 _ (List.mem_cons_of_mem _ hrow),
      fun hclean => hasErrorAll_of_mem_rowsAll a.parts hclean hrow⟩

theorem ordered_of_mem {s : Subject} {text : String} (a : Account s text)
    (hclean : Outline.hasErrorAll a.parts = false) {kind : NodeKind} {children : List Tree}
    (hmem : .node (.node kind) children ∈ subtrees a.parse.tree) :
    Ordered kind (shapeAll children) := by
  rcases exists_row_of_mem a (builds_document hereditary_orderedRow_plain (sound_ofDepth _) s) hmem
    with rfl | ⟨row, hshapes, hordered, hrow⟩
  · trivial
  · rw [hshapes]
    exact hordered (hrow hclean)

/-- In a text without errors every operator has operands that bind at least as tightly, those on
its right side more tightly. Only what `instanceof` makes may be the left operand of any binary
operator. -/
theorem ordered_of_errors_eq_nil (s : Subject) (text : String) :
    ∃ parse, Parse.ofText s text = .ok parse ∧ (parse.errors = [] →
      ∀ kind children, .node (.node kind) children ∈ subtrees parse.tree →
        Ordered kind (shapeAll children)) := by
  obtain ⟨a, ha⟩ := exists_account s text
  exact ⟨a.parse, ha, fun herrors _ _ => ordered_of_mem a ((errors_eq_nil_iff a).1 herrors)⟩

/-- Whether a tree is a sum whose left operand is a test. -/
def isSumOfTest : Tree → Bool
  | .node (.node .binaryExpression) children =>
    match shapeAll children with
    | [left, .token .plus, _] => level? left == some testLevel
    | _ => false
  | _ => false

theorem exists_of_isSumOfTest {tree : Tree} (h : isSumOfTest tree = true) :
    ∃ children left right, tree = .node (.node .binaryExpression) children ∧
      shapeAll children = [left, .token .plus, right] ∧ level? left = some testLevel := by
  unfold isSumOfTest at h
  split at h
  · split at h
    · exact ⟨_, _, _, rfl, ‹_›, beq_iff_eq.1 h⟩
    · cases h
  · cases h

/-- The exception is needed: a sum whose left operand is a test, which binds less tightly. -/
theorem sum_of_test :
    ∃ parse children left right, Parse.ofText .expression "a instanceof B + c" = .ok parse ∧
      parse.errors = [] ∧ .node (.node .binaryExpression) children ∈ subtrees parse.tree ∧
      shapeAll children = [left, .token .plus, right] ∧ levelOf [.plus] = some 9 ∧
      level? left = some testLevel := by
  obtain ⟨a, hparse⟩ := exists_account .expression "a instanceof B + c"
  have hfound : (Parse.ofText .expression "a instanceof B + c").toOption.map (fun parse =>
      (parse.errors, (subtrees parse.tree).any isSumOfTest)) = some ([], true) := by
    decide +kernel
  rw [hparse] at hfound
  obtain ⟨herrors, hany⟩ := Prod.mk.inj (Option.some.inj hfound)
  obtain ⟨tree, hmem, htree⟩ := List.any_eq_true.1 hany
  obtain ⟨children, left, right, rfl, hshapes, hlevel⟩ := exists_of_isSumOfTest htree
  exact ⟨a.parse, children, left, right, hparse, herrors, hmem, hshapes, rfl, hlevel⟩

end PatternSyntax.Proofs.Precedence
