import PatternSyntax.Proofs.Forward
import PatternSyntax.Proofs.Shapes

/-!
What the rules for operands answer with, and what operators make of it. An operand is a node that
no binary operator and no condition joined from others.
-/

namespace PatternSyntax.Proofs.Operands

open Grammar
open PatternSyntax.Proofs.Coverage
open PatternSyntax.Proofs.Forward
open PatternSyntax.Proofs.Runs
open PatternSyntax.Proofs.Shapes

variable {α β σ : Type} {r : Rules} {c mid : Cursor} {K : NodeKind → Prop}

/-- The operator that consists of the given tokens, which touch. -/
def levelOf (kinds : List TokenKind) : Option Nat :=
  (BinaryOperator.ofTerminals? (kinds.map fun kind => ⟨kind, true⟩)).map (·.level)

def token? : Shape → Option TokenKind
  | .token kind => some kind
  | .node _ _ => none

/-- The level of the operator that joined a node from operands. -/
def level? : Shape → Option Nat
  | .node (.node .binaryExpression) children => levelOf (children.filterMap token?)
  | .node (.node .instanceofExpression) children => levelOf (children.filterMap token?)
  | _ => none

/-- A node that neither a binary operator nor `instanceof` nor a condition has made. -/
def IsOperand (shape : Shape) : Prop :=
  ∃ kind children, shape = .node (.node kind) children ∧ kind ≠ .binaryExpression ∧
    kind ≠ .instanceofExpression ∧ kind ≠ .conditionalExpression

/-- An operand, or what an operator of at least this level has joined. -/
def Binds (level : Nat) (shape : Shape) : Prop :=
  IsOperand shape ∨ ∃ found, level? shape = some found ∧ level ≤ found

/-- The outline is that of a single element, of which this holds. -/
def Shows (Q : Shape → Prop) (outline : Outline) : Prop :=
  ∃ shape, outlined outline = [shape] ∧ Q shape

/-- A node of such a kind. An operand is one too. -/
def OfKind (K : NodeKind → Prop) (shape : Shape) : Prop :=
  ∃ kind children, shape = .node (.node kind) children ∧ K kind

theorem shows_node {kind : NodeKind} {parts : List Outline} (hkind : K kind) :
    Shows (OfKind K) (.node kind parts) :=
  ⟨_, rfl, kind, _, rfl, hkind⟩

theorem shows_around {kind : NodeKind} {first : Outline} {later : List Outline}
    (hkind : K kind) : Shows (OfKind K) (.around kind first later) :=
  ⟨_, rfl, kind, _, rfl, hkind⟩

theorem Shows.mono {Q R : Shape → Prop} {outline : Outline} (h : Shows Q outline)
    (hQR : ∀ shape, Q shape → R shape) : Shows R outline := by
  obtain ⟨shape, hshape, hQ⟩ := h
  exact ⟨shape, hshape, hQR shape hQ⟩

theorem levelOf_tokens {rest : List Terminal} {operator : BinaryOperator}
    (h : BinaryOperator.ofTerminals? rest = some operator) :
    levelOf ((rest.take operator.width).map (·.kind)) = some operator.level := by
  unfold BinaryOperator.ofTerminals? at h
  split at h
  case h_1 => cases h
  case h_5 =>
    split at h
    all_goals cases h
    all_goals rfl
  all_goals
    cases h
    rfl

theorem level_lt_operandLevel {rest : List Terminal} {operator : BinaryOperator}
    (h : BinaryOperator.ofTerminals? rest = some operator) :
    operator.level < BinaryOperator.operandLevel := by
  unfold BinaryOperator.ofTerminals? at h
  split at h
  case h_1 => cases h
  case h_5 =>
    split at h
    all_goals cases h
    all_goals decide
  all_goals
    cases h
    decide

theorem IsOperand.token?_eq_none {shape : Shape} (h : IsOperand shape) : token? shape = none := by
  obtain ⟨kind, children, rfl, -⟩ := h
  rfl

theorem Binds.token?_eq_none {level : Nat} {shape : Shape} (h : Binds level shape) :
    token? shape = none := by
  rcases h with hoperand | ⟨found, hfound, -⟩
  · exact hoperand.token?_eq_none
  · cases shape with
    | token kind => cases hfound
    | node kind children => rfl

theorem Binds.isOperand {shape : Shape} (h : Binds BinaryOperator.operandLevel shape) :
    IsOperand shape := by
  rcases h with hoperand | ⟨found, hfound, hlevel⟩
  · exact hoperand
  · have hbound : ∀ kinds, levelOf kinds = some found → found < BinaryOperator.operandLevel := by
      intro kinds hkinds
      obtain ⟨operator, hoperator, rfl⟩ := Option.map_eq_some_iff.1 hkinds
      exact level_lt_operandLevel hoperator
    unfold level? at hfound
    split at hfound
    · exact absurd (hbound _ hfound) (Nat.not_lt.2 hlevel)
    · exact absurd (hbound _ hfound) (Nat.not_lt.2 hlevel)
    · cases hfound

theorem filterMap_token? (kinds : List TokenKind) :
    (kinds.map Shape.token).filterMap token? = kinds := by
  induction kinds with
  | nil => rfl
  | cons kind kinds ih => rw [List.map_cons, List.filterMap_cons, token?, ih]

theorem filterMap_token?_between {left right : Shape} (hleft : token? left = none)
    (hright : token? right = none) (kinds : List TokenKind) :
    (left :: (kinds.map Shape.token ++ [right])).filterMap token? = kinds := by
  rw [List.filterMap_cons, hleft, List.filterMap_append, filterMap_token?, List.filterMap_cons,
    hright, List.filterMap_nil, List.append_nil]

/-- The rule puts nothing down, and this holds of its value and of the place that it reached. -/
def Gives (g : Grammar α) (c : Cursor) (V : α → Cursor → Prop) : Prop :=
  ∀ done, g c = .ok done → done.parts = [] ∧ V done.value done.cursor

/-- What may be answered with is the outline of a single element, of which this holds. -/
def MayShow (Q : Shape → Prop) (found : Option Outline) (_ : Cursor) : Prop :=
  ∀ outline ∈ found, Shows Q outline

theorem Gives.mono {g : Grammar α} {V W : α → Cursor → Prop} (h : Gives g c V)
    (hVW : ∀ a stop, V a stop → W a stop) : Gives g c W :=
  fun done hrun => (h done hrun).imp_right (hVW _ _)

theorem gives_bind {g : Grammar α} {f : α → Grammar β} {V : α → Cursor → Prop}
    {W : β → Cursor → Prop} (hg : Gives g c V) (hf : ∀ a mid, V a mid → Gives (f a) mid W) :
    Gives (g >>= f) c W := by
  intro done hrun
  obtain ⟨first, second, hfirst, hsecond, rfl⟩ := exists_of_bind_ok hrun
  obtain ⟨hparts, hV⟩ := hg first hfirst
  obtain ⟨hparts', hW⟩ := hf _ _ hV second hsecond
  exact ⟨by rw [hparts, hparts']; rfl, hW⟩

theorem gives_look {g : Grammar α} {f : α → Grammar β} {a : α} {W : β → Cursor → Prop}
    (hrun : g c = .ok ⟨a, [], mid⟩) (h : Gives (f a) mid W) : Gives (g >>= f) c W := by
  refine gives_bind (V := fun b stop => b = a ∧ stop = mid) (fun done hdone => ?_) ?_
  · cases hrun.symm.trans hdone
    exact ⟨rfl, rfl, rfl⟩
  · rintro _ _ ⟨rfl, rfl⟩
    exact h

theorem gives_pure {a : α} {V : α → Cursor → Prop} (h : V a c) :
    Gives (pure a : Grammar α) c V := by
  intro done hrun
  cases hrun
  exact ⟨rfl, h⟩

theorem gives_ite {p : Prop} [Decidable p] {yes no : Grammar α} {V : α → Cursor → Prop}
    (hyes : Gives yes c V) (hno : Gives no c V) : Gives (if p then yes else no) c V := by
  split
  · exact hyes
  · exact hno

theorem gives_split {p : Prop} [Decidable p] {yes no : Grammar α} {V : α → Cursor → Prop}
    (hyes : p → Gives yes c V) (hno : ¬p → Gives no c V) : Gives (if p then yes else no) c V := by
  split
  · exact hyes ‹_›
  · exact hno ‹_›

theorem gives_capture_bind {g : Grammar α} {f : α × List Outline → Grammar β}
    {W : β → Cursor → Prop}
    (hf : ∀ inner, g c = .ok inner → Gives (f (inner.value, inner.parts)) inner.cursor W) :
    Gives (capture g >>= f) c W := by
  intro done hrun
  obtain ⟨first, second, hfirst, hsecond, rfl⟩ := exists_of_bind_ok hrun
  obtain ⟨inner, hinner, rfl⟩ := exists_of_capture_ok hfirst
  exact hf inner hinner second hsecond

theorem gives_node {kind : NodeKind} {g : Grammar Unit} (hkind : K kind) :
    Gives (node kind g) c fun outline _ => Shows (OfKind K) outline :=
  gives_capture_bind fun _ _ => gives_pure (shows_node hkind)

theorem gives_someNode {kind : NodeKind} {g : Grammar Unit} :
    Gives (node kind g) c fun _ _ => True :=
  gives_capture_bind fun _ _ => gives_pure trivial

theorem gives_around {kind : NodeKind} {first : Outline} {g : Grammar Unit} (hkind : K kind) :
    Gives (around kind first g) c fun outline _ => Shows (OfKind K) outline :=
  gives_capture_bind fun _ _ => gives_pure (shows_around hkind)

theorem gives_some {g : Grammar Outline} {Q : Shape → Prop}
    (h : Gives g c fun outline _ => Shows Q outline) :
    Gives (do return some (← g)) c (MayShow Q) :=
  gives_bind h fun _ _ hshows => gives_pure fun _ heq => Option.some.inj heq ▸ hshows

theorem gives_attempt_forall {g : Grammar (Option α)} {V : α → Prop}
    (h : Gives g c fun found _ => ∀ a ∈ found, V a) :
    Gives (attempt g) c fun found _ => ∀ a ∈ found, V a := by
  intro done hrun
  obtain ⟨inner, hinner, rfl | ⟨-, rfl⟩⟩ := exists_of_attempt_ok hrun
  · exact h _ hinner
  · exact ⟨rfl, nofun⟩

theorem gives_attempt {g : Grammar (Option Outline)} {Q : Shape → Prop}
    (h : Gives g c (MayShow Q)) : Gives (attempt g) c (MayShow Q) :=
  gives_attempt_forall h

/-- What a turn of a loop leaves behind. -/
def TurnAt (I J : σ → Cursor → Prop) : ForInStep σ → Cursor → Prop
  | .done s, c => J s c
  | .yield s, c => I s c

theorem gives_iterate {step : σ → Grammar (ForInStep σ)} {I J : σ → Cursor → Prop}
    (hstep : ∀ s c, I s c → Gives (step s) c (TurnAt I J)) {s : σ} (hs : I s c) :
    Gives (iterate step s) c J := by
  suffices h : ∀ limit s c, I s c → Gives (iterateWithin step limit s) c J from h _ s c hs
  intro limit
  induction limit with
  | zero => exact fun _ _ _ _ hrun => nomatch hrun
  | succ limit ih =>
      intro s c hs
      refine gives_bind (hstep s c hs) fun next mid hnext => ?_
      cases next with
      | done last => exact gives_pure hnext
      | yield s => exact ih s mid hnext

/-- If the rule ends, this holds of its value and of what it put down. -/
def Yields (g : Grammar α) (c : Cursor) (Q : α → List Outline → Prop) : Prop :=
  ∀ done, g c = .ok done → Q done.value done.parts

theorem yields_bind {g : Grammar α} {f : α → Grammar β} {P : α → List Outline → Prop}
    {Q : β → List Outline → Prop} (hg : Yields g c P)
    (hf : ∀ a front mid, P a front → Yields (f a) mid fun b back => Q b (front ++ back)) :
    Yields (g >>= f) c Q := by
  intro done hrun
  obtain ⟨first, second, hfirst, hsecond, rfl⟩ := exists_of_bind_ok hrun
  exact hf _ _ _ (hg first hfirst) second hsecond

theorem yields_answer_bind {g : Grammar α} {f : α → Grammar β} {V : α → Cursor → Prop}
    {Q : β → List Outline → Prop} (hg : Gives g c V)
    (hf : ∀ a mid, V a mid → Yields (f a) mid Q) : Yields (g >>= f) c Q := by
  intro done hrun
  obtain ⟨first, second, hfirst, hsecond, rfl⟩ := exists_of_bind_ok hrun
  obtain ⟨hparts, hV⟩ := hg first hfirst
  rw [hparts]
  exact hf _ _ hV second hsecond

theorem yields_look {g : Grammar α} {f : α → Grammar β} {a : α} {mid : Cursor}
    {Q : β → List Outline → Prop} (hrun : g c = .ok ⟨a, [], mid⟩) (h : Yields (f a) mid Q) :
    Yields (g >>= f) c Q := by
  refine yields_answer_bind (V := fun b stop => b = a ∧ stop = mid) (fun done hdone => ?_) ?_
  · cases hrun.symm.trans hdone
    exact ⟨rfl, rfl, rfl⟩
  · rintro _ _ ⟨rfl, rfl⟩
    exact h

theorem yields_pure {a : α} {Q : α → List Outline → Prop} (h : Q a []) :
    Yields (pure a : Grammar α) c Q := by
  intro done hrun
  cases hrun
  exact h

theorem yields_bump {kind : TokenKind} {Q : Unit → List Outline → Prop}
    (hnext : nextKind c = some kind) (h : Q () [.token kind]) : Yields bump c Q := by
  obtain ⟨mid, hpasses⟩ := exists_passes hnext
  intro done hrun
  cases hpasses.bump.symm.trans hrun
  exact h

theorem yields_bump_bind {kind : TokenKind} {f : Unit → Grammar α} {Q : α → List Outline → Prop}
    (hnext : nextKind c = some kind)
    (h : ∀ mid, Passes kind c mid → Yields (f ()) mid fun a back => Q a (.token kind :: back)) :
    Yields (bump >>= f) c Q := by
  obtain ⟨mid, hpasses⟩ := exists_passes hnext
  intro done hrun
  obtain ⟨first, second, hfirst, hsecond, rfl⟩ := exists_of_bind_ok hrun
  cases hpasses.bump.symm.trans hfirst
  exact h mid hpasses second hsecond

theorem yields_put_bind {outline : Outline} {f : Unit → Grammar α} {Q : α → List Outline → Prop}
    (h : Yields (f ()) c fun a back => Q a (outline :: back)) :
    Yields (put outline >>= f) c Q := by
  intro done hrun
  obtain ⟨first, second, hfirst, hsecond, rfl⟩ := exists_of_bind_ok hrun
  cases hfirst
  exact h second hsecond

theorem yields_put {outline : Outline} {Q : Unit → List Outline → Prop} (h : Q () [outline]) :
    Yields (put outline) c Q := by
  intro done hrun
  cases hrun
  exact h

theorem yields_found_bind {g : Grammar Outline} {f : Unit → Grammar α} {V : Outline → Prop}
    {Q : α → List Outline → Prop} (hg : Gives g c fun outline _ => V outline)
    (h : ∀ outline mid, V outline → Yields (f ()) mid fun a back => Q a (outline :: back)) :
    Yields (g >>= fun outline => put outline >>= f) c Q :=
  yields_answer_bind hg fun outline mid hV => yields_put_bind (h outline mid hV)

theorem yields_found {g : Grammar Outline} {V : Outline → Prop} {Q : Unit → List Outline → Prop}
    (hg : Gives g c fun outline _ => V outline) (h : ∀ outline, V outline → Q () [outline]) :
    Yields (g >>= put) c Q :=
  yields_answer_bind hg fun outline _ hV => yields_put (h outline hV)

theorem yields_report {kind : ErrorKind} {Q : Unit → List Outline → Prop}
    (h : ∀ index, Q () [.error kind index]) : Yields (report kind) c Q := by
  intro done hrun
  cases hrun
  exact h c.index

theorem yields_eat {kind : TokenKind} {Q : Bool → List Outline → Prop}
    (heaten : Q true [.token kind]) (hleft : Q false []) : Yields (eat kind) c Q := by
  refine yields_look (a := nextKind c == some kind) rfl ?_
  split
  · exact yields_bump_bind (beq_iff_eq.1 ‹_›) fun _ _ => yields_pure heaten
  · exact yields_pure hleft

theorem yields_eat_bind {kind : TokenKind} {f : Bool → Grammar α} {Q : α → List Outline → Prop}
    (heaten : ∀ mid, Yields (f true) mid fun a back => Q a (.token kind :: back))
    (hleft : ∀ mid, Yields (f false) mid Q) : Yields (eat kind >>= f) c Q := by
  refine yields_bind (yields_eat (Q := fun found front =>
    front = if found then [.token kind] else []) rfl rfl) fun found front mid hfront => ?_
  subst hfront
  cases found with
  | true => exact heaten mid
  | false => exact hleft mid

theorem yields_expect {kind : TokenKind} {missing : ErrorKind} {Q : Unit → List Outline → Prop}
    (hmet : Q () [.token kind]) (hmissing : ∀ index, Q () [.error missing index]) :
    Yields (expect kind missing) c Q :=
  yields_eat_bind (fun _ => yields_pure hmet) fun _ => yields_report hmissing

section Types

variable (hK : K .type)

include hK

theorem gives_typeSuffix (flags : TypeFlags) {base : Outline} (hbase : Shows (OfKind K) base) :
    Gives (typeSuffix flags base) c fun outline _ => Shows (OfKind K) outline := by
  refine gives_bind (gives_iterate (I := fun element _ => Shows (OfKind K) element)
    (J := fun array _ => Shows (OfKind K) array) (fun element here helement => ?_) hbase)
      fun array mid harray => ?_
  · refine gives_look rfl (gives_look rfl (gives_ite ?_ (gives_pure helement)))
    exact gives_bind (gives_around hK) fun _ _ hshows => gives_pure hshows
  · exact gives_look rfl (gives_ite (gives_around hK) (gives_pure harray))

theorem gives_type (r : Rules) (flags : TypeFlags) (c : Cursor) :
    Gives (Grammar.type r flags) c (MayShow (OfKind K)) := by
  apply gives_attempt
  refine gives_capture_bind fun inner _ => ?_
  obtain ⟨form, parts, stop⟩ := inner
  have htype : Shows (OfKind K) (.node .type parts) := shows_node hK
  cases form with
  | missing => exact gives_pure nofun
  | wildcard => exact gives_pure fun _ heq => Option.some.inj heq ▸ htype
  | named => exact gives_some (gives_typeSuffix hK flags htype)

end Types

/-- The kinds of patterns without a guard. -/
def primaryPatternKinds : List NodeKind :=
  [.typeTestPattern, .recordPattern, .parenthesizedPattern]

theorem gives_primaryPattern (hK : ∀ kind ∈ primaryPatternKinds, K kind)
    (htype : ∀ c, Gives (r.type .pattern) c fun _ _ => True) :
    Gives (primaryPattern r) c fun outline _ => Shows (OfKind K) outline := by
  refine gives_look rfl (gives_ite (gives_node (hK _ (by decide))) ?_)
  refine gives_bind gives_someNode fun modifiers mid _ =>
    gives_bind (htype mid) fun found here _ => ?_
  cases found with
  | none => exact nofun
  | some type =>
      refine gives_look rfl (gives_ite ?_ (gives_look rfl (gives_ite ?_ nofun)))
      · exact gives_capture_bind fun _ _ => gives_pure (shows_node (hK _ (by decide)))
      · exact gives_bind gives_someNode fun _ _ _ => gives_pure (shows_node (hK _ (by decide)))

/-- The kinds of expressions that need no joining. -/
def operandKinds : List NodeKind :=
  [.literalExpression, .referenceExpression, .thisExpression, .superExpression,
    .parenthesizedExpression, .methodCallExpression, .arrayAccessExpression, .newExpression,
    .classObjectAccessExpression, .prefixExpression, .postfixExpression, .typeCastExpression,
    .lambdaExpression]

section OperandKinds

variable (hK : ∀ kind ∈ operandKinds, K kind)

include hK

theorem gives_operand (r : Rules) (c : Cursor) :
    Gives (operand r) c (MayShow (OfKind K)) := by
  have hsome {kind : NodeKind} {g : Grammar Unit} (hkind : kind ∈ operandKinds) :
      Gives (do return some (← node kind g)) c (MayShow (OfKind K)) :=
    gives_some (gives_node (hK kind hkind))
  refine gives_look rfl ?_
  split
  · exact gives_pure nofun
  · exact gives_ite (hsome (by decide)) (gives_ite (hsome (by decide)) (gives_ite
      (hsome (by decide)) (gives_ite (hsome (by decide)) (gives_ite (hsome (by decide))
        (gives_ite (hsome (by decide)) (gives_ite (hsome (by decide)) (gives_pure nofun)))))))

theorem gives_selectors (r : Rules) {first : Outline} (hfirst : Shows (OfKind K) first) :
    Gives (iterate (selectorTurn r) first) c fun outline _ => Shows (OfKind K) outline := by
  refine gives_iterate (I := fun subject _ => Shows (OfKind K) subject)
    (fun subject here hsubject => ?_) hfirst
  have hyield {kind : NodeKind} {g : Grammar Unit} (hkind : kind ∈ operandKinds) :
      Gives (do return .yield (← around kind subject g)) here
        (TurnAt (fun subject _ => Shows (OfKind K) subject)
          fun outline _ => Shows (OfKind K) outline) :=
    gives_bind (gives_around (hK kind hkind)) fun _ _ hshows => gives_pure hshows
  refine gives_look rfl (gives_ite (gives_look rfl (gives_ite (hyield (by decide))
    (gives_look rfl (gives_ite (hyield (by decide)) ?_)))) (gives_look rfl (gives_ite
      (hyield (by decide)) (gives_look rfl (gives_ite (hyield (by decide))
        (gives_pure hsubject))))))
  exact gives_bind (gives_around (hK .referenceExpression (by decide)))
    fun _ _ hshows => gives_pure hshows

theorem gives_primary (r : Rules) (arrow : ArrowRole) (c : Cursor) :
    Gives (primary r arrow) c (MayShow (OfKind K)) := by
  refine gives_look rfl (gives_ite (gives_some (gives_node (hK .lambdaExpression (by decide))))
    (gives_bind (gives_operand hK r c) fun found mid hfound => ?_))
  cases found with
  | none => exact gives_pure nofun
  | some first => exact gives_some (gives_selectors hK r (hfound first rfl))

theorem gives_postfixOperand (r : Rules) (arrow : ArrowRole) (c : Cursor) :
    Gives (postfixOperand r arrow) c (MayShow (OfKind K)) := by
  refine gives_bind (gives_primary hK r arrow c) fun found mid hfound => ?_
  cases found with
  | none => exact gives_pure nofun
  | some first =>
      refine gives_some (gives_iterate (I := fun subject _ => Shows (OfKind K) subject)
        (fun subject here hsubject => ?_) (hfound first rfl))
      refine gives_look rfl (gives_look rfl (gives_ite ?_ (gives_pure hsubject)))
      exact gives_bind (gives_around (hK .postfixExpression (by decide)))
        fun _ _ hshows => gives_pure hshows

end OperandKinds

theorem gives_cast (hK : ∀ kind ∈ operandKinds, K kind) (r : Rules) (arrow : ArrowRole)
    (c : Cursor) : Gives (cast r arrow) c (MayShow (OfKind K)) := by
  apply gives_attempt
  exact gives_capture_bind fun _ _ =>
    gives_ite (gives_some (gives_node (hK .typeCastExpression (by decide)))) (gives_pure nofun)

theorem gives_unary (hK : ∀ kind ∈ operandKinds, K kind) (r : Rules) (arrow : ArrowRole)
    (c : Cursor) : Gives (Grammar.unary r arrow) c (MayShow (OfKind K)) := by
  refine gives_look rfl ?_
  split
  · exact gives_pure nofun
  · refine gives_ite (gives_some (gives_node (hK .prefixExpression (by decide))))
      (gives_ite (gives_bind (gives_cast hK r arrow c) fun found mid hfound => ?_)
        (gives_postfixOperand hK r arrow c))
    cases found with
    | none => exact gives_postfixOperand hK r arrow mid
    | some outline => exact gives_pure hfound

/-- The tokens of the operator at the front. -/
def operatorTokens (operator : BinaryOperator) (rest : List Terminal) : List Outline :=
  (rest.take operator.width).map fun terminal => .token terminal.kind

theorem outlinedAll_operatorTokens (operator : BinaryOperator) (rest : List Terminal) :
    outlinedAll (operatorTokens operator rest) =
      ((rest.take operator.width).map (·.kind)).map Shape.token := by
  unfold operatorTokens
  induction rest.take operator.width with
  | nil => rfl
  | cons terminal front ih =>
      rw [List.map_cons, List.map_cons, List.map_cons, outlinedAll, outlined, ih]
      rfl

/-- All that a turn of the loop over operators can do. -/
inductive BinaryTurn (r : Rules) (level : Nat) (arrow : ArrowRole) (left : Outline) (c : Cursor) :
    Parsed (ForInStep Outline) → Prop
  /-- No operator of the level comes next. -/
  | stop : (∀ operator ∈ BinaryOperator.ofTerminals? c.rest, operator.level < level) →
      BinaryTurn r level arrow left c ⟨.done left, [], c⟩
  /-- The operator is `instanceof`. -/
  | test {mid : Cursor} {tested : Parsed Unit} :
      (∀ operator ∈ BinaryOperator.ofTerminals? c.rest, level ≤ operator.level) →
      Passes .instanceofKw c mid → instanceofOperand r mid = .ok tested →
      BinaryTurn r level arrow left c
        ⟨.yield (.around .instanceofExpression left (.token .instanceofKw :: tested.parts)), [],
          tested.cursor⟩
  /-- An operand follows the operator. -/
  | join {operator : BinaryOperator} {mid : Cursor} {found : Parsed (Option Outline)}
      {right : Outline} :
      BinaryOperator.ofTerminals? c.rest = some operator → level ≤ operator.level →
      r.binary (operator.level + 1) arrow mid = .ok found → found.value = some right →
      BinaryTurn r level arrow left c
        ⟨.yield (.around .binaryExpression left
          (operatorTokens operator c.rest ++ (found.parts ++ [right]))), [], found.cursor⟩
  /-- No operand follows the operator. -/
  | lack {operator : BinaryOperator} {mid : Cursor} {found : Parsed (Option Outline)} :
      BinaryOperator.ofTerminals? c.rest = some operator → level ≤ operator.level →
      r.binary (operator.level + 1) arrow mid = .ok found → found.value = none →
      BinaryTurn r level arrow left c
        ⟨.done (.around .binaryExpression left (operatorTokens operator c.rest ++
          (found.parts ++ [.error .expectedExpression found.cursor.index]))), [], found.cursor⟩

theorem binaryTurn_cases {level : Nat} {arrow : ArrowRole} {left : Outline}
    {done : Parsed (ForInStep Outline)} (hrun : binaryTurn r level arrow left c = .ok done) :
    BinaryTurn r level arrow left c done := by
  obtain ⟨first, second, hfirst, hsecond, rfl⟩ := exists_of_bind_ok hrun
  cases hfirst
  dsimp only at hsecond
  -- The turn stops unless an operator comes that binds tightly enough.
  cases hoperator : BinaryOperator.ofTerminals? c.rest with
  | none =>
      rw [hoperator] at hsecond
      cases hsecond
      exact .stop fun operator heq => nomatch hoperator ▸ heq
  | some operator =>
      rw [hoperator] at hsecond
      dsimp only at hsecond
      unfold operatorTurn rightOperand at hsecond
      split at hsecond
      · cases hsecond
        exact .stop fun found heq => by cases hoperator.symm.trans heq; assumption
      · rename_i hlevel
        obtain ⟨test, third, htest, hthird, rfl⟩ := exists_of_bind_ok hsecond
        cases htest
        split at hthird
        · rename_i hat
          obtain ⟨mid, hpasses⟩ := exists_passes (beq_iff_eq.1 hat)
          obtain ⟨made, wrapped, hmade, hwrapped, rfl⟩ := exists_of_bind_ok hthird
          obtain ⟨captured, put, hcaptured, hput, rfl⟩ := exists_of_bind_ok hmade
          obtain ⟨inner, hinner, rfl⟩ := exists_of_capture_ok hcaptured
          obtain ⟨passed, tested, hpassed, htested, rfl⟩ := exists_of_bind_ok hinner
          cases hpasses.bump.symm.trans hpassed
          cases hput
          cases hwrapped
          refine .test (fun found heq => ?_) hpasses htested
          cases hoperator.symm.trans heq
          exact Nat.not_lt.1 hlevel
        · obtain ⟨captured, wrapped, hcaptured, hwrapped, rfl⟩ := exists_of_bind_ok hthird
          obtain ⟨inner, hinner, rfl⟩ := exists_of_capture_ok hcaptured
          obtain ⟨passed, later, hpassed, hlater, rfl⟩ := exists_of_bind_ok hinner
          obtain ⟨mid, hbumped, -⟩ := exists_run_bumpMany operator.width c
          cases hbumped.symm.trans hpassed
          obtain ⟨found, answered, hfound, hanswered, rfl⟩ := exists_of_bind_ok hlater
          cases hvalue : found.value with
          | none =>
              rw [hvalue] at hanswered
              cases hanswered
              cases hwrapped
              exact .lack hoperator (Nat.not_lt.1 hlevel) hfound hvalue
          | some right =>
              rw [hvalue] at hanswered
              cases hanswered
              cases hwrapped
              exact .join hoperator (Nat.not_lt.1 hlevel) hfound hvalue

/-- The rule puts down the outline of a single element, of which this holds. -/
def PutsOne (Q : Shape → Prop) (g : Grammar Unit) (c : Cursor) : Prop :=
  ∀ done, g c = .ok done → ∃ outline, done.parts = [outline] ∧ Shows Q outline

theorem shows_error {Q : Shape → Prop} (herror : Q (.node (.node .error) [])) (kind : ErrorKind)
    (index : Nat) : Shows Q (.error kind index) :=
  ⟨_, rfl, herror⟩

theorem putsOne_orReport {Q : Shape → Prop} {missing : ErrorKind} {g : Grammar (Option Outline)}
    (herror : Q (.node (.node .error) [])) (hg : Gives g c (MayShow Q)) :
    PutsOne Q (orReport missing g) c := by
  intro done hrun
  obtain ⟨first, second, hfirst, hsecond, rfl⟩ := exists_of_bind_ok hrun
  obtain ⟨hparts, hshows⟩ := hg first hfirst
  rw [hparts]
  cases hvalue : first.value with
  | none =>
      rw [hvalue] at hsecond
      cases hsecond
      exact ⟨_, rfl, shows_error herror _ _⟩
  | some outline =>
      rw [hvalue] at hsecond
      cases hsecond
      exact ⟨outline, rfl, hshows outline hvalue⟩

theorem putsOne_instanceofOperand (hK : ∀ kind ∈ .type :: .error :: primaryPatternKinds, K kind)
    (htype : ∀ flags c, Gives (r.type flags) c (MayShow (OfKind K))) :
    PutsOne (OfKind K) (instanceofOperand r) c := by
  intro done hrun
  obtain ⟨first, second, hfirst, hsecond, rfl⟩ := exists_of_bind_ok hrun
  have hquiet : first.parts = [] := by
    obtain ⟨inner, -, rfl⟩ := exists_of_lookahead_ok hfirst
    rfl
  rw [hquiet, List.nil_append]
  split at hsecond
  · obtain ⟨found, put, hfound, hput, rfl⟩ := exists_of_bind_ok hsecond
    obtain ⟨hparts, hshows⟩ := gives_primaryPattern (K := K)
      (fun kind hkind => hK kind (List.mem_cons_of_mem _ (List.mem_cons_of_mem _ hkind)))
        (fun c => (htype _ c).mono fun _ _ _ => trivial) found hfound
    cases hput
    exact ⟨_, by rw [hparts]; rfl, hshows⟩
  · exact putsOne_orReport ⟨.error, [], rfl, hK _ (by decide)⟩ (htype _ _) second hsecond

end PatternSyntax.Proofs.Operands
