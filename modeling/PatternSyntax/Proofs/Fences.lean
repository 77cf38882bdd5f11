import PatternSyntax.Proofs.Lambdas

/-!
Guards end before an arrow, `||` and `?`. What these make is only found in a guard between brackets,
where any expression may stand. The rules for operands and operators pass this on if arrows make no
lambda expressions and operators bind at least as tightly as `&&`.
-/

namespace PatternSyntax.Proofs.Fences

open Grammar
open PatternSyntax.Proofs.Lambdas
open PatternSyntax.Proofs.Nodes
open PatternSyntax.Proofs.Operands
open PatternSyntax.Proofs.Shapes

variable {r : Rules} {c : Cursor}

/-- There is a way from the first element down to the second one. Its kinds are those of the nodes
above the second element, from the first one on. -/
inductive Below : Shape → List SyntaxKind → Shape → Prop
  | refl (shape : Shape) : Below shape [] shape
  | child {kind : SyntaxKind} {children : List Shape} {child shape : Shape}
      {path : List SyntaxKind} (hchild : child ∈ children) (h : Below child path shape) :
      Below (.node kind children) (kind :: path) shape

/-- A lambda expression, a condition or what `||` has joined. -/
inductive Loose : Shape → Prop
  | lambda (children : List Shape) : Loose (.node (.node .lambdaExpression) children)
  | conditional (children : List Shape) : Loose (.node (.node .conditionalExpression) children)
  | disjunction {children : List Shape} (h : .token .orOr ∈ children) :
      Loose (.node (.node .binaryExpression) children)

/-- The kinds of nodes that hold expressions between brackets. -/
def bracketKinds : List NodeKind :=
  [.parenthesizedExpression, .expressionList, .arrayAccessExpression, .newExpression,
    .arrayInitializerExpression, .annotParameterList]

/-- All lambda expressions, conditions and disjunctions in it are between brackets. -/
def Fenced (shape : Shape) : Prop :=
  ∀ path loose, Below shape path loose → Loose loose → ∃ kind ∈ bracketKinds, .node kind ∈ path

theorem fenced_token (kind : TokenKind) : Fenced (.token kind) := by
  intro path loose hbelow hloose
  cases hbelow
  cases hloose

theorem fenced_of_mem_bracketKinds {kind : NodeKind} (hkind : kind ∈ bracketKinds)
    (children : List Shape) : Fenced (.node (.node kind) children) := by
  intro path loose hbelow hloose
  cases hbelow with
  | refl =>
      cases hloose with
      | lambda => exact absurd hkind (by decide)
      | conditional => exact absurd hkind (by decide)
      | disjunction => exact absurd hkind (by decide)
  | child => exact ⟨kind, hkind, List.mem_cons_self⟩

theorem fenced_node {kind : SyntaxKind} {children : List Shape}
    (hloose : ¬Loose (.node kind children)) (hchildren : ∀ child ∈ children, Fenced child) :
    Fenced (.node kind children) := by
  intro path loose hbelow hloose'
  cases hbelow with
  | refl => exact absurd hloose' hloose
  | child hchild hbelow =>
      obtain ⟨kind, hkind, hmem⟩ := hchildren _ hchild _ _ hbelow hloose'
      exact ⟨kind, hkind, List.mem_cons_of_mem _ hmem⟩

/-- All elements that are made of an outline are fenced. -/
def AllFenced (outline : Outline) : Prop :=
  ∀ shape ∈ outlined outline, Fenced shape

theorem forall_mem_outlined_append {first : Outline} {later : List Outline}
    (hfirst : AllFenced first) (hlater : ∀ part ∈ later, AllFenced part) :
    ∀ shape ∈ outlined first ++ outlinedAll later, Fenced shape :=
  List.forall_mem_append.2 ⟨hfirst, forall_mem_outlinedAll.2 hlater⟩

/-- The kinds of nodes that are not loose, whatever they hold. -/
def tightKinds : List NodeKind :=
  NodeKind.all.filter fun kind =>
    kind ∉ [.lambdaExpression, .conditionalExpression, .binaryExpression]

theorem not_loose_of_mem_tightKinds {kind : NodeKind} (hkind : kind ∈ tightKinds)
    (children : List Shape) : ¬Loose (.node (.node kind) children) := by
  intro hloose
  cases hloose with
  | lambda => exact absurd hkind (by decide)
  | conditional => exact absurd hkind (by decide)
  | disjunction => exact absurd hkind (by decide)

theorem hereditary_allFenced : Hereditary tightKinds AllFenced where
  token _ := List.forall_mem_singleton.2 (fenced_token _)
  error _ _ := List.forall_mem_singleton.2
    (fenced_node (not_loose_of_mem_tightKinds (by decide) []) nofun)
  loose hparts := forall_mem_outlinedAll.2 hparts
  node hkind hparts := List.forall_mem_singleton.2
    (fenced_node (not_loose_of_mem_tightKinds hkind _) (forall_mem_outlinedAll.2 hparts))
  around hkind hfirst hlater := List.forall_mem_singleton.2
    (fenced_node (not_loose_of_mem_tightKinds hkind _) (forall_mem_outlined_append hfirst hlater))

theorem builds_bracketed {kind : NodeKind} (hkind : kind ∈ bracketKinds) (g : Grammar Unit) :
    Builds AllFenced (node kind g) :=
  keeps_capture_bind fun _ _ _ => keeps_pure
    (List.forall_mem_singleton.2 (fenced_of_mem_bracketKinds hkind _))

theorem soundBrackets_allFenced (r : Rules) : SoundBrackets AllFenced r where
  annotParameters := builds_bracketed (by decide) _
  parenthesized := builds_bracketed (by decide) _
  arguments := builds_bracketed (by decide) _
  newExpression := builds_bracketed (by decide) _
  arrayAccess _ := keeps_capture_bind fun _ _ _ => keeps_pure
    (List.forall_mem_singleton.2 (fenced_of_mem_bracketKinds (by decide) _))

theorem orOr_notMem_of_level {rest : List Terminal} {operator : BinaryOperator}
    (h : BinaryOperator.ofTerminals? rest = some operator) (hlevel : guardLevel ≤ operator.level) :
    .orOr ∉ (rest.take operator.width).map (·.kind) := by
  unfold BinaryOperator.ofTerminals? at h
  split at h
  case h_1 => cases h
  case h_5 =>
    split at h
    all_goals cases h
    case h_1 => exact absurd hlevel (by decide)
    all_goals simp
  all_goals
    cases h
    simp

theorem orOr_notMem_of_shows {K : NodeKind → Prop} {outline : Outline}
    (h : Shows (OfKind K) outline) : .token .orOr ∉ outlined outline := by
  obtain ⟨shape, hshape, kind, children, rfl, -⟩ := h
  rw [hshape]
  simp

theorem allFenced_join {K L : NodeKind → Prop} {left right : Outline} {rest : List Terminal}
    {operator : BinaryOperator} (hoperator : BinaryOperator.ofTerminals? rest = some operator)
    (hlevel : guardLevel ≤ operator.level) (hleft : AllFenced left) (hright : AllFenced right)
    (hleft' : Shows (OfKind K) left) (hright' : Shows (OfKind L) right) :
    AllFenced (.around .binaryExpression left (operatorTokens operator rest ++ [right])) := by
  refine List.forall_mem_singleton.2 (fenced_node (fun hloose => ?_) ?_)
  · cases hloose with
    | disjunction hmem =>
        rw [outlinedAll_append, outlinedAll_operatorTokens, outlinedAll, outlinedAll,
          List.append_nil, List.mem_append, List.mem_append] at hmem
        rcases hmem with hmem | hmem | hmem
        · exact orOr_notMem_of_shows hleft' hmem
        · obtain ⟨kind, hkind, heq⟩ := List.mem_map.1 hmem
          cases heq
          exact orOr_notMem_of_level hoperator hlevel hkind
        · exact orOr_notMem_of_shows hright' hmem
  · exact forall_mem_outlined_append hleft (List.forall_mem_append.2
      ⟨forall_mem_operatorTokens hereditary_allFenced _ _, List.forall_mem_singleton.2 hright⟩)

/-- All that a guard is made of is fenced. -/
structure Guarding (r : Rules) : Prop where
  types : SoundTypes AllFenced r
  unary : MayBuild AllFenced (r.unary .terminator)
  binary {level : Nat} (hlevel : guardLevel ≤ level) :
    MayBuild AllFenced (r.binary level .terminator)

theorem mayBuild_binary_fenced (hr : Guarding r) (he : Expressing r) {level : Nat}
    (hlevel : guardLevel ≤ level) : MayBuild AllFenced (Grammar.binary r level .terminator) := by
  have hE : Hereditary plainKinds AllFenced := hereditary_allFenced.mono (by decide)
  refine mayBuild_binary (by decide) hE hr.unary (fun _ hle => hr.binary (hlevel.trans hle))
    (he.unary .terminator) (he.binary · .terminator) (fun left c tested hleft _ hrun => ?_)
    fun left right operator rest hleft hleft' hoperator hle hright hright' =>
      allFenced_join hoperator (hlevel.trans hle) hleft hright hleft' hright'
  have hprimary := builds_primaryPattern hE hr.types (hereditary_allFenced.mono (by decide))
  exact hereditary_allFenced.around (by decide) hleft (List.forall_mem_cons.2 ⟨hE.token _,
    (steady_instanceofOperand hE hr.types hprimary c tested hrun).1⟩)

theorem guarding_ofDepth (depth : Nat) : Guarding (.ofDepth depth) := by
  induction depth with
  | zero => exact ⟨sound_exhausted.toSoundTypes, keeps_fail, fun _ => keeps_fail⟩
  | succ depth ih =>
      have hE : Hereditary plainKinds AllFenced := hereditary_allFenced.mono (by decide)
      have hbrackets := soundBrackets_allFenced (.ofDepth depth)
      rw [Rules.ofDepth_succ]
      refine ⟨⟨builds_annot hE ih.types hbrackets.annotParameters, mayBuild_type hE ih.types,
        builds_pattern hE ih.types (hereditary_allFenced.mono (by decide))
          (ih.binary (Nat.le_refl _))⟩, ?_, mayBuild_binary_fenced ih (expressing_ofDepth depth)⟩
      exact mayBuild_unary hE ih.types hbrackets (hereditary_allFenced.mono (by decide)) nofun
        ih.unary (ih.binary (by decide))

theorem gives_guard (depth : Nat) (c : Cursor) :
    Gives ((Rules.ofDepth depth).binary guardLevel .terminator) c
      (MayShow fun shape => OfKind (· ∈ expressionKinds) shape ∧ Fenced shape) := by
  intro done hrun
  obtain ⟨hparts, hshows⟩ := (expressing_ofDepth depth).binary guardLevel .terminator c done hrun
  refine ⟨hparts, fun outline heq => ?_⟩
  obtain ⟨shape, hshape, hkind⟩ := hshows outline heq
  have hfenced := ((guarding_ofDepth depth).binary (Nat.le_refl _) c done hrun).2 outline heq
  rw [AllFenced, hshape] at hfenced
  exact ⟨shape, hshape, hkind, List.forall_mem_singleton.1 hfenced⟩

end PatternSyntax.Proofs.Fences
