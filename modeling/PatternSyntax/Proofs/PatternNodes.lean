import PatternSyntax.Proofs.Fences

/-!
What the nodes of patterns hold, in any text and with any errors: patterns stand where patterns
belong, and what is missing is an error in its place. A guard is a single expression that ends
before an arrow, `||` and `?`.
-/

namespace PatternSyntax.Proofs.PatternNodes

open Grammar
open PatternSyntax.Proofs.Contract (Ready)
open PatternSyntax.Proofs.Coverage
open PatternSyntax.Proofs.Elements
open PatternSyntax.Proofs.Fences
open PatternSyntax.Proofs.Forward
open PatternSyntax.Proofs.Lambdas
open PatternSyntax.Proofs.Nodes
open PatternSyntax.Proofs.Operands
open PatternSyntax.Proofs.PatternGrammar
open PatternSyntax.Proofs.Precedence
open PatternSyntax.Proofs.Runs
open PatternSyntax.Proofs.Shapes
open PatternSyntax.Proofs.Totality
open PatternSyntax.Proofs.Weave

variable {α β : Type} {r : Rules} {c : Cursor}

def IsNode (kinds : List NodeKind) (shape : Shape) : Prop :=
  OfKind (· ∈ kinds) shape

def wholePatternKinds : List NodeKind :=
  .guardedPattern :: primaryPatternKinds

/-- The rows of the nodes that patterns are made of, and of `instanceof`. -/
def Shaped : NodeKind → List Shape → Prop
  | .typeTestPattern, children =>
    ∃ declared, children = [declared] ∧ IsNode [.patternVariable] declared
  | .patternVariable, children =>
    ∃ modifiers type, children = [modifiers, type, .token .ident] ∧
      IsNode [.modifierList] modifiers ∧ IsNode [.type] type
  | .recordPattern, children =>
    ∃ modifiers type components name, children = modifiers :: type :: components :: name ∧
      IsNode [.modifierList] modifiers ∧ IsNode [.type] type ∧
      IsNode [.recordStructurePattern] components ∧
      (name = [] ∨ ∃ declared, name = [declared] ∧ IsNode [.recordPatternVariable] declared)
  | .recordPatternVariable, children => children = [.token .ident]
  | .recordStructurePattern, children =>
    ∃ later, children = .token .openParen :: later ∧
      ∀ child ∈ later, (∃ kind, child = .token kind) ∨ IsNode (.error :: wholePatternKinds) child
  | .parenthesizedPattern, children =>
    ∃ pattern close, children = [.token .openParen, pattern, close] ∧
      IsNode wholePatternKinds pattern ∧ (close = .token .closeParen ∨ IsNode [.error] close)
  | .guardedPattern, children =>
    ∃ pattern guard, children = [pattern, .token .andAnd, guard] ∧
      IsNode primaryPatternKinds pattern ∧ IsNode (.error :: expressionKinds) guard
  | .instanceofExpression, children =>
    ∃ left right, children = [left, .token .instanceofKw, right] ∧ IsNode expressionKinds left ∧
      IsNode (.type :: .error :: primaryPatternKinds) right
  | _, _ => True

/-- The guard of a guarded pattern is fenced. -/
def GuardFenced : NodeKind → List Shape → Prop
  | .guardedPattern, children => ∀ guard ∈ children.getLast?, Fenced guard
  | _, _ => True

/-- A node that holds such a row, and whose guard is fenced if it has one. -/
def ShapedRow (kind : NodeKind) (row : List Outline) : Prop :=
  Shaped kind (outlinedAll row) ∧ GuardFenced kind (outlinedAll row)

/-- The kinds of nodes of which nothing is said. -/
def freeKinds : List NodeKind :=
  NodeKind.all.filter fun kind => kind ∉ .instanceofExpression :: patternKinds

theorem shapedRow_of_mem {kind : NodeKind} (hkind : kind ∈ freeKinds) (row : List Outline) :
    ShapedRow kind row := by
  refine ⟨?_, ?_⟩
  · unfold Shaped
    split
    all_goals first | exact absurd hkind (by decide) | trivial
  · unfold GuardFenced
    split
    · exact absurd hkind (by decide)
    · trivial

theorem hereditary_shapedRow : Hereditary freeKinds (Everywhere ShapedRow) :=
  hereditary_everywhere (shapedRow_of_mem (by decide) []) fun _ => shapedRow_of_mem

theorem hereditary_shapedRow_plain : Hereditary plainKinds (Everywhere ShapedRow) :=
  hereditary_shapedRow.mono (by decide)

theorem gives_type_ofDepth {kinds : List NodeKind} (hkinds : .type ∈ kinds) (depth : Nat)
    (flags : TypeFlags) (c : Cursor) :
    Gives ((Rules.ofDepth depth).type flags) c (MayShow (IsNode kinds)) := by
  cases depth with
  | zero => exact nofun
  | succ depth => exact gives_type hkinds _ flags c

theorem gives_primaryPattern_ofDepth (depth : Nat) (c : Cursor) :
    Gives (primaryPattern (.ofDepth depth)) c
      fun outline _ => Shows (IsNode primaryPatternKinds) outline :=
  gives_primaryPattern (fun _ hkind => hkind) fun c =>
    (gives_type_ofDepth (List.mem_singleton_self NodeKind.type) depth .pattern c).mono
      fun _ _ _ => trivial

theorem gives_pattern_ofDepth (depth : Nat) (c : Cursor) :
    Gives (Rules.ofDepth depth).pattern c
      fun outline _ => Shows (IsNode wholePatternKinds) outline := by
  cases depth with
  | zero => exact nofun
  | succ depth =>
      refine gives_bind (gives_primaryPattern_ofDepth depth c) fun primary mid hprimary =>
        gives_look rfl (gives_ite (gives_node List.mem_cons_self) (gives_pure ?_))
      obtain ⟨shape, hshape, kind, children, heq, hkind⟩ := hprimary
      exact ⟨shape, by rw [outlined, outlinedAll, hshape]; rfl, kind, children, heq,
        List.mem_cons_of_mem _ hkind⟩

theorem putsOne_guard (depth : Nat) (c : Cursor) :
    PutsOne (fun shape => IsNode (.error :: expressionKinds) shape ∧ Fenced shape)
      (orReport .expectedExpression ((Rules.ofDepth depth).binary guardLevel .terminator)) c := by
  refine putsOne_orReport ⟨⟨.error, [], rfl, List.mem_cons_self⟩, fenced_node
    (not_loose_of_mem_tightKinds (by decide) []) nofun⟩ ((gives_guard depth c).mono
      fun found _ hfound outline heq => (hfound outline heq).mono ?_)
  rintro _ ⟨⟨kind, children, rfl, hkind⟩, hfenced⟩
  exact ⟨⟨kind, children, rfl, List.mem_cons_of_mem _ hkind⟩, hfenced⟩

/-- A node of one of these kinds, in which all nodes are shaped. -/
def Fine (kinds : List NodeKind) (outline : Outline) : Prop :=
  Everywhere ShapedRow outline ∧ Shows (IsNode kinds) outline

theorem gives_and_keeps {E : Outline → Prop} {g : Grammar α} {V W : α → Prop}
    (hV : Gives g c fun a _ => V a) (hW : Keeps E W g) : Gives g c fun a _ => W a ∧ V a :=
  fun done hrun => ⟨(hV done hrun).1, (hW c done hrun).2, (hV done hrun).2⟩

theorem gives_shaped {kind : NodeKind} {g : Grammar Unit} (h : Yields g c fun _ parts =>
    ShapedRow kind parts ∧ ∀ part ∈ parts, Everywhere ShapedRow part) :
    Gives (node kind g) c fun outline _ => Fine [kind] outline :=
  gives_capture_bind fun inner hinner => gives_pure
    ⟨everywhere_node.2 (h inner hinner), shows_node List.mem_cons_self⟩

section Patterns

variable {depth : Nat} (hr : Sound (Everywhere ShapedRow) (.ofDepth depth))

include hr

theorem gives_fine_type (c : Cursor) :
    Gives ((Rules.ofDepth depth).type .pattern) c fun found _ =>
      ∀ type ∈ found, Fine [.type] type :=
  (gives_and_keeps (V := fun found => ∀ type ∈ found, Shows (IsNode [.type]) type)
    (gives_type_ofDepth List.mem_cons_self depth .pattern c) (hr.type .pattern)).mono
      fun _ _ h type heq => ⟨h.1 type heq, h.2 type heq⟩

theorem gives_fine_modifierList (c : Cursor) (allowed : TokenSet) :
    Gives (modifierList (.ofDepth depth) allowed) c fun modifiers _ =>
      Fine [.modifierList] modifiers :=
  gives_and_keeps (gives_node List.mem_cons_self)
    (builds_modifierList hereditary_shapedRow_plain hr.toSoundTypes allowed)

theorem gives_fine_pattern (c : Cursor) :
    Gives (Rules.ofDepth depth).pattern c fun pattern _ => Fine wholePatternKinds pattern :=
  gives_and_keeps (gives_pattern_ofDepth depth c) hr.pattern

/-- What stands in the row of a record: tokens, patterns and errors. -/
def IsComponent (outline : Outline) : Prop :=
  ∀ shape ∈ outlined outline, (∃ kind, shape = .token kind) ∨
    IsNode (.error :: wholePatternKinds) shape

omit hr in
theorem hereditary_isComponent : Hereditary [] IsComponent where
  token kind := List.forall_mem_singleton.2 (.inl ⟨kind, rfl⟩)
  error _ _ := List.forall_mem_singleton.2 (.inr ⟨.error, [], rfl, List.mem_cons_self⟩)
  loose hparts := forall_mem_outlinedAll.2 hparts
  node hkind := absurd hkind List.not_mem_nil
  around hkind := absurd hkind List.not_mem_nil

omit hr in
theorem isComponent_of_shows {outline : Outline} (h : Shows (IsNode wholePatternKinds) outline) :
    IsComponent outline := by
  obtain ⟨shape, hshape, kind, children, rfl, hkind⟩ := h
  rw [IsComponent, hshape]
  exact List.forall_mem_singleton.2 (.inr ⟨kind, children, rfl, List.mem_cons_of_mem _ hkind⟩)

theorem gives_recordStructure (hopen : nextKind c = some .openParen) :
    Gives (recordStructure (.ofDepth depth)) c fun components _ =>
      Fine [.recordStructurePattern] components := by
  unfold recordStructure
  refine gives_shaped (yields_bump_bind hopen fun mid _ done hrun => ?_)
  have hcomponents := steady_components hereditary_isComponent
    (keeps_of_gives fun c => (gives_pattern_ofDepth depth c).mono fun _ _ => isComponent_of_shows)
    mid done hrun
  have hnodes := steady_components hereditary_shapedRow_plain hr.pattern mid done hrun
  exact ⟨⟨⟨_, rfl, forall_mem_outlinedAll.2 hcomponents.1⟩, trivial⟩,
    List.forall_mem_cons.2 ⟨hereditary_shapedRow_plain.token _, hnodes.1⟩⟩

omit hr in
theorem yields_recordName :
    Yields recordName c fun _ name =>
      name = [] ∨ ∃ declared, name = [declared] ∧ Fine [.recordPatternVariable] declared := by
  refine yields_look (a := nextKind c == some .ident) rfl ?_
  split
  · refine yields_found (gives_shaped (yields_bump (beq_iff_eq.1 ‹_›) ?_))
      fun declared hdeclared => .inr ⟨declared, rfl, hdeclared⟩
    exact ⟨⟨rfl, trivial⟩,
      List.forall_mem_singleton.2 (hereditary_shapedRow_plain.token _)⟩
  · exact yields_pure (.inl rfl)

omit hr in
theorem outlinedAll_cons_of_eq {part : Outline} {shape : Shape} (h : outlined part = [shape])
    (rest : List Outline) : outlinedAll (part :: rest) = shape :: outlinedAll rest := by
  rw [outlinedAll, h]
  rfl

omit hr in
theorem everywhere_recordPattern {modifiers type components : Outline} {name : List Outline}
    (hmodifiers : Fine [.modifierList] modifiers) (htype : Fine [.type] type)
    (hcomponents : Fine [.recordStructurePattern] components)
    (hname : name = [] ∨ ∃ declared, name = [declared] ∧ Fine [.recordPatternVariable] declared) :
    Everywhere ShapedRow
      (.node .recordPattern [.loose (modifiers :: type :: components :: name)]) := by
  obtain ⟨hmodifiers, first, hfirst, hfirst'⟩ := hmodifiers
  obtain ⟨htype, second, hsecond, hsecond'⟩ := htype
  obtain ⟨hcomponents, third, hthird, hthird'⟩ := hcomponents
  have hshapes : outlinedAll [.loose (modifiers :: type :: components :: name)] =
      first :: second :: third :: outlinedAll name := by
    rw [outlinedAll, outlined, outlinedAll, List.append_nil, outlinedAll_cons_of_eq hfirst,
      outlinedAll_cons_of_eq hsecond, outlinedAll_cons_of_eq hthird]
  have hnodes : ∀ part ∈ name, Everywhere ShapedRow part := by
    rcases hname with rfl | ⟨declared, rfl, hdeclared⟩
    · exact nofun
    · exact List.forall_mem_singleton.2 hdeclared.1
  refine everywhere_node.2 ⟨⟨?_, trivial⟩, List.forall_mem_singleton.2
    (hereditary_shapedRow.loose (List.forall_mem_cons.2 ⟨hmodifiers, List.forall_mem_cons.2
      ⟨htype, List.forall_mem_cons.2 ⟨hcomponents, hnodes⟩⟩⟩))⟩
  rw [hshapes]
  refine ⟨first, second, third, outlinedAll name, rfl, hfirst', hsecond', hthird', ?_⟩
  rcases hname with rfl | ⟨declared, rfl, hdeclared⟩
  · exact .inl rfl
  · obtain ⟨-, shape, hshape, hnode⟩ := hdeclared
    exact .inr ⟨shape, outlinedAll_cons_of_eq hshape [], hnode⟩

omit hr in
theorem shapedRow_patternVariable {modifiers type : Outline}
    (hmodifiers : Fine [.modifierList] modifiers) (htype : Fine [.type] type) :
    ShapedRow .patternVariable [modifiers, type, .token .ident] := by
  obtain ⟨-, first, hfirst, hfirst'⟩ := hmodifiers
  obtain ⟨-, second, hsecond, hsecond'⟩ := htype
  refine ⟨⟨first, second, ?_, hfirst', hsecond'⟩, trivial⟩
  rw [outlinedAll_cons_of_eq hfirst, outlinedAll_cons_of_eq hsecond]
  rfl

theorem yields_recordRow {modifiers type : Outline} (hopen : nextKind c = some .openParen) :
    Yields (put modifiers >>= fun _ => put type >>= fun _ => recordStructure (.ofDepth depth) >>=
      fun components => put components >>= fun _ => recordName) c fun _ parts =>
        ∃ components name, parts = modifiers :: type :: components :: name ∧
          Fine [.recordStructurePattern] components ∧
          (name = [] ∨ ∃ declared, name = [declared] ∧ Fine [.recordPatternVariable] declared) :=
  yields_put_bind (yields_put_bind (yields_found_bind (gives_recordStructure hr hopen)
    fun components _ hcomponents done hrun =>
      ⟨components, done.parts, rfl, hcomponents, yields_recordName done hrun⟩))

theorem gives_typeOrRecordPattern (c : Cursor) :
    Gives (typeOrRecordPattern (.ofDepth depth)) c
      fun outline _ => Everywhere ShapedRow outline := by
  refine gives_bind (gives_fine_modifierList hr c _) fun modifiers mid hmodifiers =>
    gives_bind (gives_fine_type hr mid) fun found here hfound => ?_
  cases found with
  | none => exact nofun
  | some type =>
      have htype := hfound type rfl
      refine gives_look (a := nextKind here == some .openParen) rfl ?_
      split
      · refine gives_capture_bind fun inner hinner => gives_pure ?_
        obtain ⟨components, name, hparts, hcomponents, hname⟩ :=
          yields_recordRow hr (beq_iff_eq.1 ‹_›) inner hinner
        rw [hparts]
        exact everywhere_recordPattern hmodifiers htype hcomponents hname
      · refine gives_look (a := nextKind here == some .ident) rfl ?_
        split
        · refine gives_bind (gives_shaped (yields_put_bind (yields_put_bind
            (yields_bump (beq_iff_eq.1 ‹_›) ⟨shapedRow_patternVariable hmodifiers htype, ?_⟩))))
              fun declared _ hdeclared => gives_pure ?_
          · exact List.forall_mem_cons.2 ⟨hmodifiers.1, List.forall_mem_cons.2 ⟨htype.1,
              List.forall_mem_singleton.2 (hereditary_shapedRow_plain.token _)⟩⟩
          · obtain ⟨hnodes, shape, hshape, hnode⟩ := hdeclared
            exact everywhere_node.2 ⟨⟨⟨shape, outlinedAll_cons_of_eq hshape [], hnode⟩, trivial⟩,
              List.forall_mem_singleton.2 hnodes⟩
        · exact nofun

omit hr in
theorem shapedRow_parenthesizedPattern {pattern close : Outline}
    (hpattern : Fine wholePatternKinds pattern)
    (hclose : close = .token .closeParen ∨ ∃ index, close = .error .expectedRParen index) :
    ShapedRow .parenthesizedPattern [.token .openParen, pattern, close] := by
  obtain ⟨-, shape, hshape, hnode⟩ := hpattern
  refine ⟨?_, trivial⟩
  rw [outlinedAll, outlined, outlinedAll_cons_of_eq hshape]
  rcases hclose with rfl | ⟨index, rfl⟩
  · exact ⟨shape, .token .closeParen, rfl, hnode, .inl rfl⟩
  · exact ⟨shape, .node (.node .error) [], rfl, hnode, .inr ⟨.error, [], rfl, List.mem_cons_self⟩⟩

theorem gives_fine_primaryPattern (c : Cursor) :
    Gives (primaryPattern (.ofDepth depth)) c
      fun outline _ => Fine primaryPatternKinds outline := by
  suffices h : Gives (primaryPattern (.ofDepth depth)) c
      fun outline _ => Everywhere ShapedRow outline from fun done hrun =>
    ⟨(h done hrun).1, (h done hrun).2, (gives_primaryPattern_ofDepth depth c done hrun).2⟩
  refine gives_look (a := nextKind c == some .openParen) rfl ?_
  split
  · refine (gives_shaped (yields_bump_bind (beq_iff_eq.1 ‹_›) fun mid _ => yields_found_bind
      (gives_fine_pattern hr mid) fun pattern _ hpattern => ?_)).mono fun _ _ hfine => hfine.1
    have hE := hereditary_shapedRow_plain
    refine yields_expect ⟨shapedRow_parenthesizedPattern hpattern (.inl rfl), ?_⟩
      fun index => ⟨shapedRow_parenthesizedPattern hpattern (.inr ⟨index, rfl⟩), ?_⟩
    · exact List.forall_mem_cons.2 ⟨hE.token _, List.forall_mem_cons.2 ⟨hpattern.1,
        List.forall_mem_singleton.2 (hE.token _)⟩⟩
    · exact List.forall_mem_cons.2 ⟨hE.token _, List.forall_mem_cons.2 ⟨hpattern.1,
        List.forall_mem_singleton.2 (hE.error _ _)⟩⟩
  · exact gives_typeOrRecordPattern hr c

/-- The row of a guarded pattern: it has a guard that is fenced, or an error in its place. -/
theorem yields_guardedPattern {primary : Outline} (hprimary : Fine primaryPatternKinds primary)
    (hand : nextKind c = some .andAnd) :
    Yields (put primary >>= fun _ => bump >>= fun _ => orReport .expectedExpression
      ((Rules.ofDepth depth).binary guardLevel .terminator)) c fun _ parts =>
        ShapedRow .guardedPattern parts ∧ ∀ part ∈ parts, Everywhere ShapedRow part := by
  refine yields_put_bind (yields_bump_bind hand fun mid _ done hrun => ?_)
  have hE := hereditary_shapedRow_plain
  have hnodes := (steady_orReport hE (hr.binary guardLevel .terminator) mid done hrun).1
  obtain ⟨guard, hguard, shape, hshape, hnode, hfenced⟩ := putsOne_guard depth mid done hrun
  obtain ⟨hprimary, first, hfirst, hfirst'⟩ := hprimary
  have hshapes : outlinedAll [primary, .token .andAnd, guard] = [first, .token .andAnd, shape] := by
    rw [outlinedAll_cons_of_eq hfirst, outlinedAll, outlined, outlinedAll_cons_of_eq hshape]
    rfl
  rw [hguard] at hnodes ⊢
  refine ⟨⟨?_, ?_⟩, List.forall_mem_cons.2 ⟨hprimary, List.forall_mem_cons.2
    ⟨hE.token _, hnodes⟩⟩⟩
  · rw [hshapes]
    exact ⟨first, shape, rfl, hfirst', hnode⟩
  · rw [hshapes]
    intro last hlast
    cases hlast
    exact hfenced

theorem builds_pattern_shaped :
    Builds (Everywhere ShapedRow) (Grammar.pattern (.ofDepth depth)) := by
  refine keeps_of_gives fun c => gives_bind (gives_fine_primaryPattern hr c)
    fun primary mid hprimary => gives_look (a := nextKind mid == some .andAnd) rfl ?_
  split
  · exact (gives_shaped (yields_guardedPattern hr hprimary (beq_iff_eq.1 ‹_›))).mono
      fun _ _ hfine => hfine.1
  · exact gives_pure (hereditary_shapedRow.loose (List.forall_mem_singleton.2 hprimary.1))

theorem everywhere_instanceof {left : Outline} {tested : Parsed Unit}
    (hleft : Everywhere ShapedRow left) (hleft' : Shows (IsNode expressionKinds) left)
    (hrun : instanceofOperand (.ofDepth depth) c = .ok tested) :
    Everywhere ShapedRow
      (.around .instanceofExpression left (.token .instanceofKw :: tested.parts)) := by
  have hE := hereditary_shapedRow_plain
  have hprimary : Builds (Everywhere ShapedRow) (primaryPattern (.ofDepth depth)) :=
    keeps_of_gives fun c => (gives_fine_primaryPattern hr c).mono fun _ _ hfine => hfine.1
  have hnodes := (steady_instanceofOperand hE hr.toSoundTypes hprimary c tested hrun).1
  obtain ⟨right, hright, second, hsecond, hsecond'⟩ :=
    putsOne_instanceofOperand (K := (· ∈ NodeKind.type :: .error :: primaryPatternKinds))
      (fun _ hkind => hkind) (gives_type_ofDepth List.mem_cons_self depth) tested hrun
  obtain ⟨first, hfirst, hfirst'⟩ := hleft'
  rw [hright] at hnodes ⊢
  refine everywhere_around.2 ⟨⟨?_, trivial⟩, hleft, List.forall_mem_cons.2 ⟨hE.token _, hnodes⟩⟩
  rw [outlinedAll_cons_of_eq hfirst, outlinedAll, outlined, outlinedAll_cons_of_eq hsecond]
  exact ⟨first, second, rfl, hfirst', hsecond'⟩

theorem mayBuild_binary_shaped (level : Nat) (arrow : ArrowRole) :
    MayBuild (Everywhere ShapedRow) (Grammar.binary (.ofDepth depth) level arrow) := by
  have he := expressing_ofDepth depth
  exact mayBuild_binary (K := (· ∈ expressionKinds)) (by decide) hereditary_shapedRow
    (hr.unary arrow) (fun _ _ => hr.binary _ arrow) (he.unary arrow) (he.binary · arrow)
    (fun left c tested hleft hleft' hrun => everywhere_instanceof hr hleft hleft' hrun)
    fun left right operator rest hleft _ _ _ hright _ =>
      hereditary_shapedRow.join (by decide) hleft hright operator rest

end Patterns

theorem sound_shapedRow (depth : Nat) : Sound (Everywhere ShapedRow) (.ofDepth depth) := by
  induction depth with
  | zero => exact sound_exhausted
  | succ depth ih =>
      have hE := hereditary_shapedRow_plain
      have hlambda := holdsOfLambdas hE ih (hereditary_shapedRow.mono (by decide))
      rw [Rules.ofDepth_succ]
      exact ih.next hE (hereditary_shapedRow.mono (by decide)) (builds_pattern_shaped ih)
        (fun arrow => mayBuild_unary hE ih.toSoundTypes (ih.brackets hE)
          (hereditary_shapedRow.mono (by decide)) (fun _ => hlambda) (ih.unary arrow)
            (ih.binary _ arrow))
        (mayBuild_binary_shaped ih)

theorem shaped_of_mem {s : Subject} {text : String} (a : Account s text) {kind : NodeKind}
    {children : List Tree} (hmem : .node (.node kind) children ∈ subtrees a.parse.tree) :
    Shaped kind (shapeAll children) ∧ GuardFenced kind (shapeAll children) := by
  rcases exists_row_of_mem a (builds_document hereditary_shapedRow_plain (sound_shapedRow _) s) hmem
    with rfl | ⟨row, hshapes, hrow, -⟩
  · exact ⟨trivial, trivial⟩
  · rw [hshapes]
    exact hrow

/-- In any text, with any errors, the nodes of patterns have their shapes, and what stands behind
`instanceof` is no guarded pattern. -/
theorem nodes_shaped (s : Subject) (text : String) :
    ∃ parse, Parse.ofText s text = .ok parse ∧
      ∀ kind children, .node (.node kind) children ∈ subtrees parse.tree →
        Shaped kind (shapeAll children) := by
  obtain ⟨a, hparse⟩ := exists_account s text
  exact ⟨a.parse, hparse, fun _ _ hmem => (shaped_of_mem a hmem).1⟩

/-- What ends a guard is only found in it between brackets: in what the rule for guards answers with
at any place, and in the guard of any pattern of any text. -/
theorem guards_fenced :
    (∀ c, ∃ found stop,
      deepEnough (fun r => r.binary guardLevel .terminator) c = .ok ⟨found, [], stop⟩ ∧
        ∀ outline ∈ found, ∃ guard, outlined outline = [guard] ∧ Fenced guard) ∧
    ∀ s text, ∃ parse, Parse.ofText s text = .ok parse ∧
      ∀ children, .node (.node .guardedPattern) children ∈ subtrees parse.tree →
        ∃ pattern guard, shapeAll children = [pattern, .token .andAnd, guard] ∧ Fenced guard := by
  refine ⟨fun c => ?_, fun s text => ?_⟩
  · obtain ⟨found, stop, hrun, -⟩ := (ready_ofDepth (5 * c.rest.length + 5)).binary guardLevel
      .terminator c (Nat.le_succ _)
    refine ⟨found, stop, hrun, fun outline heq => ?_⟩
    obtain ⟨guard, hguard, -, hfenced⟩ := (gives_guard _ c _ hrun).2 outline heq
    exact ⟨guard, hguard, hfenced⟩
  · obtain ⟨a, hparse⟩ := exists_account s text
    refine ⟨a.parse, hparse, fun children hmem => ?_⟩
    obtain ⟨⟨pattern, guard, hshapes, -, -⟩, hfenced⟩ := shaped_of_mem a hmem
    rw [hshapes] at hfenced
    exact ⟨pattern, guard, hshapes, hfenced guard rfl⟩

end PatternSyntax.Proofs.PatternNodes
