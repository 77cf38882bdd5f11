import PatternSyntax.Grammar.Document
import PatternSyntax.Proofs.Elements
import PatternSyntax.Proofs.Neatness
import PatternSyntax.Proofs.Operands
import PatternSyntax.Proofs.PatternGrammar

/-!
What holds of all outlines that the rules make. It passes from the parts of a node to the node,
except for some kinds of nodes: those of operators, of lambda expressions, of conditions and of
patterns. One pass over the rules is enough for all that is said about the nodes of these kinds.
-/

namespace PatternSyntax.Proofs.Nodes

open Grammar
open PatternSyntax.Proofs.Elements
open PatternSyntax.Proofs.Operands
open PatternSyntax.Proofs.PatternGrammar
open PatternSyntax.Proofs.Runs

variable {α β σ : Type} {E : Outline → Prop} {kinds : List NodeKind}

/-- The rule only puts down outlines of which it holds, and its value is as it should be. -/
def Keeps (E : Outline → Prop) (V : α → Prop) (g : Grammar α) : Prop :=
  ∀ c done, g c = .ok done → (∀ part ∈ done.parts, E part) ∧ V done.value

/-- The rule only puts down outlines of which it holds. -/
def Steady (E : Outline → Prop) (g : Grammar α) : Prop :=
  Keeps E (fun _ => True) g

/-- The rule answers with an outline, and it holds of all that the rule makes. -/
def Builds (E : Outline → Prop) (g : Grammar Outline) : Prop :=
  Keeps E E g

/-- The rule may answer with an outline, and it holds of all that the rule makes. -/
def MayBuild (E : Outline → Prop) (g : Grammar (Option Outline)) : Prop :=
  Keeps E (fun found => ∀ outline ∈ found, E outline) g

/-- It holds of tokens and errors, and passes from the parts of a node of one of these kinds to the
node. -/
structure Hereditary (kinds : List NodeKind) (E : Outline → Prop) : Prop where
  token (kind : TokenKind) : E (.token kind)
  error (kind : ErrorKind) (index : Nat) : E (.error kind index)
  loose {parts : List Outline} (hparts : ∀ part ∈ parts, E part) : E (.loose parts)
  node {kind : NodeKind} {parts : List Outline} (hkind : kind ∈ kinds)
    (hparts : ∀ part ∈ parts, E part) : E (.node kind parts)
  around {kind : NodeKind} {first : Outline} {later : List Outline} (hkind : kind ∈ kinds)
    (hfirst : E first) (hlater : ∀ part ∈ later, E part) : E (.around kind first later)

theorem Hereditary.mono {fewer : List NodeKind} (hE : Hereditary kinds E) (h : fewer ⊆ kinds) :
    Hereditary fewer E :=
  ⟨hE.token, hE.error, hE.loose, fun hkind => hE.node (h hkind), fun hkind => hE.around (h hkind)⟩

section Everywhere

variable {P : NodeKind → List Outline → Prop}

/-- It holds of all nodes of an outline. -/
def Everywhere (P : NodeKind → List Outline → Prop) (outline : Outline) : Prop :=
  ∀ node ∈ rows outline, P node.1 node.2

theorem forall_mem_rowsAll {parts : List Outline} :
    (∀ node ∈ rowsAll parts, P node.1 node.2) ↔ ∀ part ∈ parts, Everywhere P part := by
  induction parts with
  | nil => exact iff_of_true nofun nofun
  | cons part rest ih => rw [rowsAll, List.forall_mem_append, ih, List.forall_mem_cons, Everywhere]

theorem everywhere_node {kind : NodeKind} {parts : List Outline} :
    Everywhere P (.node kind parts) ↔ P kind parts ∧ ∀ part ∈ parts, Everywhere P part :=
  List.forall_mem_cons.trans (and_congr_right fun _ => forall_mem_rowsAll)

theorem everywhere_around {kind : NodeKind} {first : Outline} {later : List Outline} :
    Everywhere P (.around kind first later) ↔
      P kind (first :: later) ∧ Everywhere P first ∧ ∀ part ∈ later, Everywhere P part :=
  List.forall_mem_cons.trans (and_congr_right fun _ =>
    List.forall_mem_append.trans (and_congr_right fun _ => forall_mem_rowsAll))

/-- What is said about nodes of other kinds only passes from the parts of a node to the node. -/
theorem hereditary_everywhere (herror : P .error []) (hP : ∀ kind ∈ kinds, ∀ row, P kind row) :
    Hereditary kinds (Everywhere P) where
  token _ := nofun
  error _ _ := List.forall_mem_singleton.2 herror
  loose hparts := forall_mem_rowsAll.2 hparts
  node hkind hparts := everywhere_node.2 ⟨hP _ hkind _, hparts⟩
  around hkind hfirst hlater := everywhere_around.2 ⟨hP _ hkind _, hfirst, hlater⟩

end Everywhere

theorem Keeps.mono {g : Grammar α} {V W : α → Prop} (h : Keeps E V g) (hVW : ∀ a, V a → W a) :
    Keeps E W g :=
  fun c done hrun => (h c done hrun).imp_right (hVW _)

theorem Keeps.and {g : Grammar α} {V W : α → Prop} (hV : Keeps E V g) (hW : Keeps E W g) :
    Keeps E (fun a => V a ∧ W a) g :=
  fun c done hrun => ⟨(hV c done hrun).1, (hV c done hrun).2, (hW c done hrun).2⟩

theorem keeps_bind {g : Grammar α} {f : α → Grammar β} {V : α → Prop} {W : β → Prop}
    (hg : Keeps E V g) (hf : ∀ a, V a → Keeps E W (f a)) : Keeps E W (g >>= f) := by
  intro c done hrun
  obtain ⟨first, second, hfirst, hsecond, rfl⟩ := exists_of_bind_ok hrun
  obtain ⟨hfront, hV⟩ := hg c first hfirst
  obtain ⟨hback, hW⟩ := hf _ hV _ second hsecond
  exact ⟨List.forall_mem_append.2 ⟨hfront, hback⟩, hW⟩

theorem keeps_after {g : Grammar α} {f : α → Grammar β} {W : β → Prop} (hg : Steady E g)
    (hf : ∀ a, Keeps E W (f a)) : Keeps E W (g >>= f) :=
  keeps_bind hg fun a _ => hf a

theorem keeps_pure {a : α} {V : α → Prop} (h : V a) : Keeps E V (pure a : Grammar α) := by
  intro c done hrun
  cases hrun
  exact ⟨nofun, h⟩

theorem steady_pure (a : α) : Steady E (pure a : Grammar α) :=
  keeps_pure trivial

theorem keeps_fail {fault : Fault} {V : α → Prop} : Keeps E V (fail fault) :=
  fun _ _ hrun => nomatch hrun

theorem keeps_of_gives {g : Grammar α} {V : α → Prop} (h : ∀ c, Gives g c fun a _ => V a) :
    Keeps E V g := by
  intro c done hrun
  obtain ⟨hparts, hV⟩ := h c done hrun
  rw [hparts]
  exact ⟨nofun, hV⟩

theorem keeps_ite {p : Prop} [Decidable p] {yes no : Grammar α} {V : α → Prop}
    (hyes : Keeps E V yes) (hno : Keeps E V no) : Keeps E V (if p then yes else no) := by
  split
  · exact hyes
  · exact hno

theorem steady_look {read : Cursor → α} :
    Steady E (fun c => .ok ⟨read c, [], c⟩ : Grammar α) := by
  intro c done hrun
  cases hrun
  exact ⟨nofun, trivial⟩

theorem keeps_isAt {kind : TokenKind} {f : Bool → Grammar β} {W : β → Prop}
    (hf : ∀ a, Keeps E W (f a)) : Keeps E W (isAt kind >>= f) :=
  keeps_after steady_look hf

theorem keeps_isAhead {n : Nat} {kind : TokenKind} {f : Bool → Grammar β} {W : β → Prop}
    (hf : ∀ a, Keeps E W (f a)) : Keeps E W (isAhead n kind >>= f) :=
  keeps_after steady_look hf

theorem keeps_lookahead {g : Grammar α} : Steady E (lookahead g) := by
  intro c done hrun
  obtain ⟨inner, -, rfl⟩ := exists_of_lookahead_ok hrun
  exact ⟨nofun, trivial⟩

theorem mayBuild_attempt {g : Grammar (Option Outline)} (h : MayBuild E g) :
    MayBuild E (attempt g) := by
  intro c done hrun
  obtain ⟨inner, hinner, rfl | ⟨-, rfl⟩⟩ := exists_of_attempt_ok hrun
  · exact h c _ hinner
  · exact ⟨nofun, nofun⟩

theorem keeps_put {outline : Outline} (h : E outline) : Steady E (put outline) := by
  intro c done hrun
  cases hrun
  exact ⟨List.forall_mem_singleton.2 h, trivial⟩

theorem keeps_putAll {parts : List Outline} (h : ∀ part ∈ parts, E part) :
    Steady E (putAll parts) := by
  intro c done hrun
  cases hrun
  exact ⟨h, trivial⟩

theorem keeps_found {g : Grammar Outline} (h : Builds E g) :
    Steady E (g >>= fun outline => put outline) :=
  keeps_bind h fun _ => keeps_put

theorem keeps_found_bind {g : Grammar Outline} {f : Unit → Grammar β} {W : β → Prop}
    (h : Builds E g) (hf : Keeps E W (f ())) :
    Keeps E W (g >>= fun outline => put outline >>= f) :=
  keeps_bind h fun _ houtline => keeps_after (keeps_put houtline) fun _ => hf

theorem mayBuild_some {g : Grammar Outline} (h : Builds E g) :
    MayBuild E (do return some (← g)) :=
  keeps_bind h fun _ houtline => keeps_pure fun _ heq => Option.some.inj heq ▸ houtline

theorem keeps_capture_bind {g : Grammar α} {f : α × List Outline → Grammar β} {W : β → Prop}
    (hf : ∀ c inner, g c = .ok inner → Keeps E W (f (inner.value, inner.parts))) :
    Keeps E W (capture g >>= f) := by
  intro c done hrun
  obtain ⟨first, second, hfirst, hsecond, rfl⟩ := exists_of_bind_ok hrun
  obtain ⟨inner, hinner, rfl⟩ := exists_of_capture_ok hfirst
  exact hf c inner hinner _ second hsecond

theorem keeps_capture {g : Grammar α} {V : α → Prop} (h : Keeps E V g) :
    Keeps E (fun captured => V captured.1 ∧ ∀ part ∈ captured.2, E part) (capture g) := by
  intro c done hrun
  obtain ⟨inner, hinner, rfl⟩ := exists_of_capture_ok hrun
  obtain ⟨hparts, hV⟩ := h c inner hinner
  exact ⟨nofun, hV, hparts⟩

def Turn (I J : σ → Prop) : ForInStep σ → Prop
  | .done s => J s
  | .yield s => I s

theorem keeps_iterate {step : σ → Grammar (ForInStep σ)} {I J : σ → Prop}
    (hstep : ∀ s, I s → Keeps E (Turn I J) (step s)) {s : σ} (hs : I s) :
    Keeps E J (iterate step s) := by
  suffices h : ∀ limit s, I s → Keeps E J (iterateWithin step limit s) from
    fun c => h _ s hs c
  intro limit
  induction limit with
  | zero => exact fun _ _ => keeps_fail
  | succ limit ih =>
      intro s hs
      refine keeps_bind (hstep s hs) fun next hnext => ?_
      cases next with
      | done last => exact keeps_pure hnext
      | yield s => exact ih s hnext

theorem steady_repeatWhile {g : Grammar Bool} (h : Steady E g) : Steady E (repeatWhile g) := by
  refine keeps_iterate (I := fun _ => True) (fun _ _ => keeps_after h fun again => ?_) trivial
  cases again with
  | false => exact keeps_pure trivial
  | true => exact keeps_pure trivial

section Steps

variable (hE : Hereditary kinds E)

include hE

theorem steady_bump : Steady E bump := by
  intro c done hrun
  unfold bump at hrun
  split at hrun
  · cases hrun
    exact ⟨nofun, trivial⟩
  · cases hrun
    exact ⟨List.forall_mem_singleton.2 (hE.token _), trivial⟩

theorem keeps_bump {f : Unit → Grammar β} {W : β → Prop} (hf : Keeps E W (f ())) :
    Keeps E W (bump >>= f) :=
  keeps_after (steady_bump hE) fun _ => hf

theorem steady_eat {kind : TokenKind} : Steady E (eat kind) :=
  keeps_isAt fun _ => keeps_ite (keeps_bump hE (steady_pure _)) (steady_pure _)

theorem steady_report {kind : ErrorKind} : Steady E (report kind) := by
  intro c done hrun
  cases hrun
  exact ⟨List.forall_mem_singleton.2 (hE.error _ _), trivial⟩

theorem steady_expect {kind : TokenKind} {missing : ErrorKind} :
    Steady E (expect kind missing) := by
  refine keeps_after (steady_eat hE) fun found => ?_
  cases found with
  | false => exact steady_report hE
  | true => exact steady_pure _

theorem steady_orReport {missing : ErrorKind} {g : Grammar (Option Outline)}
    (h : MayBuild E g) : Steady E (orReport missing g) := by
  refine keeps_bind h fun found hfound => ?_
  cases found with
  | none => exact steady_report hE
  | some outline => exact keeps_put (hfound outline rfl)

theorem builds_node {kind : NodeKind} {g : Grammar Unit} (hkind : kind ∈ kinds)
    (h : Steady E g) : Builds E (node kind g) :=
  keeps_bind (keeps_capture h) fun _ hcaptured => keeps_pure (hE.node hkind hcaptured.2)

theorem builds_around {kind : NodeKind} {first : Outline} {g : Grammar Unit}
    (hkind : kind ∈ kinds) (hfirst : E first) (h : Steady E g) : Builds E (around kind first g) :=
  keeps_bind (keeps_capture h) fun _ hcaptured => keeps_pure (hE.around hkind hfirst hcaptured.2)

end Steps

/-- The kinds of nodes that patterns are made of. -/
def patternKinds : List NodeKind :=
  [.typeTestPattern, .patternVariable, .recordPattern, .recordStructurePattern,
    .recordPatternVariable, .parenthesizedPattern, .guardedPattern]

/-- The nodes that operators, conditions and arrows make of their operands. -/
def composedKinds : List NodeKind :=
  [.binaryExpression, .instanceofExpression, .prefixExpression, .typeCastExpression,
    .conditionalExpression, .lambdaExpression]

def plainKinds : List NodeKind :=
  NodeKind.all.filter fun kind => kind ∉ patternKinds ++ composedKinds

/-- It holds of all that the rules for types and patterns of a table make. -/
structure SoundTypes (E : Outline → Prop) (r : Rules) : Prop where
  annot : Builds E r.annot
  type (flags : TypeFlags) : MayBuild E (r.type flags)
  pattern : Builds E r.pattern

/-- It holds of all that the rules of a table make. -/
structure Sound (E : Outline → Prop) (r : Rules) : Prop extends SoundTypes E r where
  arrayInitializer : Builds E r.arrayInitializer
  unary (arrow : ArrowRole) : MayBuild E (r.unary arrow)
  binary (level : Nat) (arrow : ArrowRole) : MayBuild E (r.binary level arrow)
  conditional (arrow : ArrowRole) : MayBuild E (r.conditional arrow)

variable {r : Rules}

theorem Sound.expression (hr : Sound E r) : MayBuild E r.expression :=
  hr.conditional .lambda

theorem sound_exhausted : Sound E .exhausted :=
  ⟨⟨keeps_fail, fun _ => keeps_fail, keeps_fail⟩, keeps_fail, fun _ => keeps_fail,
    fun _ _ => keeps_fail, fun _ => keeps_fail⟩

/-- It holds of the lambda expressions that the rules of a table make where one begins. -/
def HoldsOfLambdas (E : Outline → Prop) (r : Rules) : Prop :=
  ∀ c row, isLambda c.rest = true → lambdaRow r c = .ok row → E (.node .lambdaExpression row.parts)

section Types

variable (hE : Hereditary plainKinds E) (hr : SoundTypes E r)

include hE hr

theorem builds_typeArguments : Builds E (typeArguments r) := by
  refine builds_node hE (by decide) (keeps_bump hE (keeps_after (steady_eat hE) fun empty =>
    keeps_ite (steady_pure _) (keeps_after (g := iterate _ true) (keeps_iterate
      (I := fun _ => True) (J := fun _ => True) (fun _ _ => ?_) trivial) fun complete => ?_)))
  · refine keeps_bind (hr.type _) fun found hfound => ?_
    cases found with
    | none => exact keeps_after (steady_report hE) fun _ => keeps_pure trivial
    | some argument =>
        refine keeps_after (keeps_put (hfound argument rfl)) fun _ =>
          keeps_after (steady_eat hE) fun again => ?_
        cases again with
        | false => exact keeps_pure trivial
        | true => exact keeps_pure trivial
  · exact keeps_ite (steady_expect hE) (keeps_after (steady_eat hE) fun _ => steady_pure _)

theorem steady_optionalTypeArguments (allowed : Bool) :
    Steady E (optionalTypeArguments r allowed) :=
  keeps_isAt fun _ => keeps_ite (keeps_found (builds_typeArguments hE hr)) (steady_pure _)

theorem builds_codeReference (eatLastDot arguments : Bool) :
    Builds E (codeReference r eatLastDot arguments) := by
  refine keeps_bind (builds_node hE (by decide) (keeps_bump hE
    (steady_optionalTypeArguments hE hr _))) fun first hfirst => ?_
  refine keeps_iterate (I := E) (fun reference hreference => ?_) hfirst
  have hstop : Keeps E (Turn E E) (pure (.done reference) : Grammar (ForInStep Outline)) :=
    keeps_pure hreference
  refine keeps_isAt fun _ => keeps_ite (keeps_isAhead fun _ => ?_) hstop
  refine keeps_ite ?_ (keeps_ite ?_ hstop)
  · exact keeps_bind (builds_around hE (by decide) hreference (keeps_bump hE (keeps_bump hE
      (steady_optionalTypeArguments hE hr _)))) fun _ houtline => keeps_pure houtline
  · exact keeps_bind (builds_around hE (by decide) hreference (keeps_bump hE
      (steady_report hE))) fun _ houtline => keeps_pure houtline

theorem steady_wildcard : Steady E (wildcard r) :=
  keeps_bump hE (keeps_isAt fun _ => keeps_isAt fun _ =>
    keeps_ite (keeps_bump hE (steady_orReport hE (hr.type _))) (steady_pure _))

theorem steady_typeHead (flags : TypeFlags) : Steady E (typeHead r flags) := by
  refine keeps_after steady_look fun kind => ?_
  cases kind with
  | none => exact steady_pure _
  | some kind =>
      refine keeps_ite (keeps_bump hE (steady_pure _)) (keeps_ite ?_ (keeps_ite ?_ (steady_pure _)))
      · exact keeps_found_bind (builds_codeReference hE hr _ _) (steady_pure _)
      · exact keeps_after (steady_wildcard hE hr) fun _ => steady_pure _

omit hr in
theorem builds_typeSuffix (flags : TypeFlags) {base : Outline} (hbase : E base) :
    Builds E (typeSuffix flags base) := by
  refine keeps_bind (keeps_iterate (I := E) (J := E) (fun element helement => ?_) hbase)
    fun array harray => ?_
  · refine keeps_isAt fun _ => keeps_isAhead fun _ => keeps_ite ?_ (keeps_pure helement)
    exact keeps_bind (builds_around hE (by decide) helement (keeps_bump hE (steady_bump hE)))
      fun _ houtline => keeps_pure houtline
  · exact keeps_isAt fun _ => keeps_ite (builds_around hE (by decide) harray (steady_bump hE))
      (keeps_pure harray)

theorem mayBuild_type (flags : TypeFlags) : MayBuild E (Grammar.type r flags) := by
  refine mayBuild_attempt (keeps_bind (keeps_capture (keeps_after (steady_repeatWhile ?_)
    fun _ => steady_typeHead hE hr flags)) fun captured hcaptured => ?_)
  · exact keeps_isAt fun _ => keeps_isAhead fun _ =>
      keeps_ite (keeps_found_bind hr.annot (steady_pure _)) (steady_pure _)
  · obtain ⟨form, parts⟩ := captured
    have htype : E (.node .type parts) := hE.node (by decide) hcaptured.2
    cases form with
    | missing => exact keeps_pure nofun
    | wildcard => exact keeps_pure fun _ heq => Option.some.inj heq ▸ htype
    | named => exact mayBuild_some (builds_typeSuffix hE flags htype)

theorem builds_annot (hparameters : Builds E (annotParameters r)) : Builds E (Grammar.annot r) := by
  have parameters : Steady E (optionalAnnotParameters r) :=
    keeps_isAt fun _ => keeps_ite (keeps_found hparameters) (steady_pure _)
  refine builds_node hE (by decide) (keeps_bump hE (keeps_isAt fun _ => keeps_ite ?_ ?_))
  · exact keeps_found_bind (builds_codeReference hE hr _ _) parameters
  · exact keeps_after (steady_report hE) fun _ => parameters

theorem builds_modifierList (allowed : TokenSet) : Builds E (modifierList r allowed) := by
  refine builds_node hE (by decide) (steady_repeatWhile (keeps_after steady_look fun kind => ?_))
  cases kind with
  | none => exact steady_pure _
  | some kind =>
      refine keeps_ite (keeps_bump hE (steady_pure _)) (keeps_isAhead fun _ => ?_)
      exact keeps_ite (keeps_found_bind hr.annot (steady_pure _)) (steady_pure _)

omit hE hr in
theorem steady_component (hE : Hereditary kinds E) (hpattern : Builds E r.pattern)
    (isFirst : Bool) : Steady E (component r isFirst) := by
  refine keeps_after steady_look fun _ => keeps_ite (steady_pure _)
    (keeps_after keeps_lookahead fun _ => keeps_ite ?_ ?_)
  · exact keeps_found_bind hpattern (steady_pure _)
  · exact keeps_after (steady_report hE) fun _ => keeps_isAt fun _ =>
      keeps_ite (steady_pure _) (keeps_bump hE (steady_pure _))

omit hE hr in
theorem steady_components (hE : Hereditary kinds E) (hpattern : Builds E r.pattern) :
    Steady E (do
      let _ ← iterate (componentTurn r) true
      expect .closeParen .expectedRParen) := by
  refine keeps_after (keeps_iterate (I := fun _ => True) (J := fun _ => True)
    (fun isFirst _ => ?_) trivial) fun _ => steady_expect hE
  have hcomponent : Keeps E (Turn (fun _ => True) (fun _ => True)) (component r isFirst) :=
    (steady_component hE hpattern isFirst).mono fun next _ => by
      cases next with
      | done => trivial
      | yield => trivial
  refine keeps_isAt fun _ => keeps_ite (keeps_pure trivial) ?_
  exact keeps_ite hcomponent (keeps_after (steady_expect hE) fun _ => hcomponent)

section Patterns

variable (hpatterns : Hereditary patternKinds E)

include hpatterns

theorem builds_recordStructure : Builds E (recordStructure r) := by
  unfold recordStructure
  exact builds_node hpatterns (by decide) (keeps_bump hE (steady_components hE hr.pattern))

omit hE hr in
theorem steady_recordName : Steady E recordName :=
  keeps_isAt fun _ => keeps_ite (keeps_found (builds_node hpatterns (by decide)
    (steady_bump hpatterns))) (steady_pure _)

theorem builds_typeOrRecordPattern : Builds E (typeOrRecordPattern r) := by
  refine keeps_bind (builds_modifierList hE hr _) fun modifiers hmodifiers =>
    keeps_bind (hr.type _) fun found hfound => ?_
  cases found with
  | none => exact keeps_fail
  | some type =>
      have htype := hfound type rfl
      refine keeps_isAt fun _ => keeps_ite ?_ (keeps_isAt fun _ => keeps_ite ?_ keeps_fail)
      · refine keeps_bind (keeps_capture (keeps_after (keeps_put hmodifiers) fun _ =>
          keeps_after (keeps_put htype) fun _ => keeps_found_bind
            (builds_recordStructure hE hr hpatterns) (steady_recordName hpatterns)))
              fun captured hcaptured => keeps_pure ?_
        exact hpatterns.node (by decide) (List.forall_mem_singleton.2 (hE.loose hcaptured.2))
      · refine keeps_bind (builds_node hpatterns (by decide) (keeps_after (keeps_put hmodifiers)
          fun _ => keeps_after (keeps_put htype) fun _ => steady_bump hE))
            fun declared hdeclared => keeps_pure ?_
        exact hpatterns.node (by decide) (List.forall_mem_singleton.2 hdeclared)

theorem builds_primaryPattern : Builds E (primaryPattern r) :=
  keeps_isAt fun _ => keeps_ite
    (builds_node hpatterns (by decide) (keeps_bump hE (keeps_found_bind hr.pattern
      (steady_expect hE))))
    (builds_typeOrRecordPattern hE hr hpatterns)

theorem builds_pattern (hguard : MayBuild E (r.binary guardLevel .terminator)) :
    Builds E (Grammar.pattern r) := by
  refine keeps_bind (builds_primaryPattern hE hr hpatterns) fun primary hprimary =>
    keeps_isAt fun _ => keeps_ite (builds_node hpatterns (by decide) ?_) (keeps_pure ?_)
  · exact keeps_after (keeps_put hprimary) fun _ => keeps_bump hE (steady_orReport hE hguard)
  · exact hE.loose (List.forall_mem_singleton.2 hprimary)

end Patterns

end Types

/-- It holds of the nodes that have any expressions between brackets. -/
structure SoundBrackets (E : Outline → Prop) (r : Rules) : Prop where
  annotParameters : Builds E (annotParameters r)
  parenthesized : Builds E (parenthesized r)
  arguments : Builds E (arguments r)
  newExpression : Builds E (newExpression r)
  arrayAccess {subject : Outline} (hsubject : E subject) : Builds E (arrayAccess r subject)

section Brackets

variable (hE : Hereditary plainKinds E) (hr : Sound E r)

include hE hr

theorem steady_annotValue : Steady E (annotValue r) :=
  keeps_isAt fun _ => keeps_ite (keeps_found hr.annot) (keeps_isAt fun _ =>
    keeps_ite (keeps_found hr.arrayInitializer) (steady_orReport hE hr.expression))

theorem steady_annotParameter : Steady E (annotParameter r) :=
  keeps_isAt fun _ => keeps_isAhead fun _ => keeps_ite
    (keeps_found (builds_node hE (by decide) (keeps_bump hE (keeps_bump hE
      (steady_annotValue hE hr))))) (steady_annotValue hE hr)

theorem builds_annotParameters : Builds E (annotParameters r) :=
  builds_node hE (by decide) (keeps_bump hE (keeps_isAt fun _ => keeps_ite (steady_expect hE)
    (keeps_after (steady_repeatWhile (keeps_after (steady_annotParameter hE hr)
      fun _ => steady_eat hE)) fun _ => steady_expect hE)))

omit hr in
theorem builds_codeBlock : Builds E codeBlock := by
  refine builds_node hE (by decide) (keeps_bump hE (keeps_after (g := iterate _ 0) (keeps_iterate
    (I := fun _ => True) (J := fun _ => True) (fun depth _ => ?_) trivial) fun _ => steady_pure _))
  refine keeps_after steady_look fun kind => ?_
  split
  · exact keeps_after (steady_report hE) fun _ => keeps_pure trivial
  · exact keeps_bump hE (keeps_pure trivial)
  · refine keeps_bump hE ?_
    cases depth with
    | zero => exact keeps_pure trivial
    | succ depth => exact keeps_pure trivial
  · exact keeps_bump hE (keeps_pure trivial)

theorem steady_parameterTurn : Steady E (parameterTurn r) := by
  refine keeps_bind hr.expression fun found hfound => ?_
  cases found with
  | none => exact keeps_after (steady_report hE) fun _ => steady_pure _
  | some value => exact keeps_after (keeps_put (hfound value rfl)) fun _ => steady_eat hE

theorem builds_arguments : Builds E (arguments r) :=
  builds_node hE (by decide) (keeps_bump hE (keeps_isAt fun _ => keeps_ite (steady_expect hE)
    (keeps_after (steady_repeatWhile (steady_parameterTurn hE hr)) fun _ => steady_expect hE)))

theorem builds_arrayInitializer : Builds E (Grammar.arrayInitializer r) := by
  refine builds_node hE (by decide) (keeps_bump hE (keeps_after (steady_repeatWhile ?_)
    fun _ => steady_expect hE))
  refine keeps_isAt fun _ => keeps_after steady_look fun _ => keeps_ite (steady_pure _) ?_
  exact keeps_isAt fun _ => keeps_ite (keeps_found_bind hr.arrayInitializer (steady_eat hE))
    (steady_parameterTurn hE hr)

theorem steady_newArray : Steady E (newArray r) := by
  refine keeps_after (steady_repeatWhile (keeps_after (steady_eat hE) fun _ => keeps_ite ?_
    (steady_pure _))) fun _ => ?_
  · have close : Steady E dimensionEnd :=
      keeps_after (steady_expect hE) fun _ => steady_pure _
    exact keeps_isAt fun _ => keeps_ite close
      (keeps_after (steady_orReport hE hr.expression) fun _ => close)
  · exact keeps_isAt fun _ => keeps_ite (keeps_found hr.arrayInitializer) (steady_pure _)

theorem steady_newTail (isPrimitive : Bool) : Steady E (newTail r isPrimitive) := by
  refine keeps_isAt fun _ => keeps_ite (steady_newArray hE hr) (keeps_isAt fun _ =>
    keeps_ite ?_ (steady_report hE))
  exact keeps_found_bind (builds_arguments hE hr) (keeps_isAt fun _ =>
    keeps_ite (keeps_found (builds_codeBlock hE)) (steady_pure _))

theorem builds_newExpression : Builds E (newExpression r) := by
  refine builds_node hE (by decide) (keeps_bump hE (keeps_after steady_look fun kind => ?_))
  cases kind with
  | none => exact steady_report hE
  | some kind =>
      refine keeps_ite ?_ (keeps_ite ?_ (steady_report hE))
      · exact keeps_found_bind (builds_node hE (by decide) (steady_bump hE))
          (steady_newTail hE hr true)
      · exact keeps_found_bind (builds_codeReference hE hr.toSoundTypes _ _)
          (steady_newTail hE hr false)

theorem Sound.brackets : SoundBrackets E r where
  annotParameters := builds_annotParameters hE hr
  parenthesized := builds_node hE (by decide) (keeps_bump hE (keeps_after
    (steady_orReport hE hr.expression) fun _ => steady_expect hE))
  arguments := builds_arguments hE hr
  newExpression := builds_newExpression hE hr
  arrayAccess hsubject := builds_around hE (by decide) hsubject (keeps_bump hE (keeps_after
    (steady_orReport hE hr.expression) fun _ => steady_expect hE))

theorem builds_lambdaParameter : Builds E (lambdaParameter r) := by
  refine builds_node hE (by decide) (keeps_isAt fun _ => keeps_isAhead fun _ =>
    keeps_isAhead fun _ => keeps_ite (steady_bump hE) ?_)
  exact keeps_found_bind (builds_modifierList hE hr.toSoundTypes _)
    (keeps_after (steady_orReport hE (hr.type _)) fun _ => steady_expect hE)

theorem builds_lambdaParameters : Builds E (lambdaParameters r) := by
  refine builds_node hE (by decide) (keeps_isAt fun _ => keeps_ite ?_ ?_)
  · exact keeps_found (builds_node hE (by decide) (steady_bump hE))
  · refine keeps_bump hE (keeps_isAt fun _ => keeps_ite (steady_expect hE) (keeps_after
      (steady_repeatWhile ?_) fun _ => steady_expect hE))
    exact keeps_found_bind (builds_lambdaParameter hE hr) (steady_eat hE)

theorem steady_lambdaRow : Steady E (lambdaRow r) :=
  keeps_found_bind (builds_lambdaParameters hE hr) (keeps_after (steady_eat hE) fun _ =>
    keeps_isAt fun _ => keeps_ite (keeps_found (builds_codeBlock hE))
      (steady_orReport hE hr.expression))

theorem holdsOfLambdas (hlambda : Hereditary [.lambdaExpression] E) : HoldsOfLambdas E r :=
  fun c row _ hrow => hlambda.node List.mem_cons_self (steady_lambdaRow hE hr c row hrow).1

end Brackets

section Operands

variable (hE : Hereditary plainKinds E) (hr : SoundTypes E r) (hbrackets : SoundBrackets E r)

include hE hr hbrackets

theorem mayBuild_operand : MayBuild E (operand r) := by
  have htoken {kind : NodeKind} (hkind : kind ∈ plainKinds) :
      MayBuild E (do return some (← node kind bump)) :=
    mayBuild_some (builds_node hE hkind (steady_bump hE))
  refine keeps_after steady_look fun kind => ?_
  cases kind with
  | none => exact keeps_pure nofun
  | some kind =>
      refine keeps_ite (htoken (by decide)) (keeps_ite (htoken (by decide))
        (keeps_ite (htoken (by decide)) (keeps_ite (htoken (by decide))
          (keeps_ite (mayBuild_some hbrackets.parenthesized)
            (keeps_ite (mayBuild_some hbrackets.newExpression)
              (keeps_ite ?_ (keeps_pure nofun)))))))
      have members : Steady E classSelector :=
        keeps_after (steady_expect hE) fun _ => steady_expect hE
      refine mayBuild_some (builds_node hE (by decide) (keeps_bind (hr.type _)
        fun found hfound => ?_))
      cases found with
      | none => exact members
      | some type => exact keeps_after (keeps_put (hfound type rfl)) fun _ => members

omit hr in
theorem builds_selectors {first : Outline} (hfirst : E first) :
    Builds E (iterate (selectorTurn r) first) := by
  refine keeps_iterate (I := E) (fun subject hsubject => ?_) hfirst
  have hyield {g : Grammar Outline} (h : Builds E g) :
      Keeps E (Turn E E) (do return .yield (← g)) :=
    keeps_bind h fun _ houtline => keeps_pure houtline
  have hmember {kind : NodeKind} (hkind : kind ∈ plainKinds) :
      Builds E (around kind subject (bump >>= fun _ => bump)) :=
    builds_around hE hkind hsubject (keeps_bump hE (steady_bump hE))
  refine keeps_isAt fun _ => keeps_ite (keeps_isAhead fun _ => keeps_ite
    (hyield (hmember (by decide))) (keeps_isAhead fun _ => keeps_ite
      (hyield (hmember (by decide))) ?_)) (keeps_isAt fun _ => keeps_ite
        (hyield (builds_around hE (by decide) hsubject (keeps_found hbrackets.arguments)))
          (keeps_isAt fun _ => keeps_ite (hyield (hbrackets.arrayAccess hsubject))
            (keeps_pure hsubject)))
  exact keeps_bind (builds_around hE (by decide) hsubject (keeps_bump hE (steady_report hE)))
    fun _ houtline => keeps_pure houtline

theorem mayBuild_primary {arrow : ArrowRole} (hlambda : arrow = .lambda → HoldsOfLambdas E r) :
    MayBuild E (primary r arrow) := by
  intro c done hrun
  obtain ⟨first, second, hfirst, hsecond, rfl⟩ := exists_of_bind_ok hrun
  cases hfirst
  split at hsecond
  · obtain ⟨harrow, hbegins⟩ := Bool.and_eq_true_iff.1 ‹_›
    obtain ⟨made, answered, hmade, hanswered, rfl⟩ := exists_of_bind_ok hsecond
    obtain ⟨captured, held, hcaptured, hheld, rfl⟩ := exists_of_bind_ok hmade
    obtain ⟨row, hrow, rfl⟩ := exists_of_capture_ok hcaptured
    cases hheld
    cases hanswered
    exact ⟨nofun, fun outline heq => Option.some.inj heq ▸
      hlambda (beq_iff_eq.1 harrow) _ row hbegins hrow⟩
  · refine keeps_bind (W := fun found => ∀ outline ∈ found, E outline)
      (mayBuild_operand hE hr hbrackets) (fun found hfound => ?_) _ second hsecond
    cases found with
    | none => exact keeps_pure nofun
    | some first => exact mayBuild_some (builds_selectors hE hbrackets (hfound first rfl))

theorem mayBuild_postfixOperand {arrow : ArrowRole}
    (hlambda : arrow = .lambda → HoldsOfLambdas E r) : MayBuild E (postfixOperand r arrow) := by
  refine keeps_bind (mayBuild_primary hE hr hbrackets hlambda) fun found hfound => ?_
  cases found with
  | none => exact keeps_pure nofun
  | some first =>
      refine mayBuild_some (keeps_iterate (I := E) (fun subject hsubject => ?_)
        (hfound first rfl))
      refine keeps_isAt fun _ => keeps_isAt fun _ => keeps_ite ?_ (keeps_pure hsubject)
      exact keeps_bind (builds_around hE (by decide) hsubject (steady_bump hE))
        fun _ houtline => keeps_pure houtline

theorem mayBuild_unary_of {arrow : ArrowRole} (hlambda : arrow = .lambda → HoldsOfLambdas E r)
    (hsign : Builds E (node .prefixExpression (bump >>= fun _ =>
      orReport .expectedExpression (r.binary BinaryOperator.operandLevel arrow))))
    (hcast : MayBuild E (cast r arrow)) : MayBuild E (Grammar.unary r arrow) := by
  have hpostfix := mayBuild_postfixOperand hE hr hbrackets hlambda
  refine keeps_after steady_look fun kind => ?_
  cases kind with
  | none => exact keeps_pure nofun
  | some kind =>
      refine keeps_ite (mayBuild_some hsign)
        (keeps_ite (keeps_bind hcast fun found hfound => ?_) hpostfix)
      cases found with
      | none => exact hpostfix
      | some outline => exact keeps_pure hfound

omit hbrackets in
theorem steady_castType : Steady E (castType r) := by
  refine keeps_bump hE (keeps_after steady_look fun _ => keeps_bind (hr.type _)
    fun found hfound => ?_)
  cases found with
  | none => exact steady_pure _
  | some type =>
      exact keeps_after (keeps_put (hfound type rfl)) fun _ => keeps_isAt fun _ =>
        keeps_after steady_look fun _ => steady_pure _

omit hbrackets in
theorem mayBuild_cast (hcasts : Hereditary [.typeCastExpression] E) {arrow : ArrowRole}
    (hunary : MayBuild E (r.unary arrow)) : MayBuild E (Grammar.cast r arrow) := by
  unfold Grammar.cast
  refine mayBuild_attempt (keeps_capture_bind fun c inner hinner => keeps_ite (mayBuild_some
    (builds_node hcasts List.mem_cons_self ?_)) (keeps_pure nofun))
  exact keeps_after (keeps_putAll (steady_castType hE hr c inner hinner).1) fun _ =>
    keeps_bump hE (steady_orReport hE hunary)

theorem mayBuild_unary (hsigns : Hereditary [.prefixExpression, .typeCastExpression] E)
    {arrow : ArrowRole} (hlambda : arrow = .lambda → HoldsOfLambdas E r)
    (hunary : MayBuild E (r.unary arrow))
    (hoperand : MayBuild E (r.binary BinaryOperator.operandLevel arrow)) :
    MayBuild E (Grammar.unary r arrow) :=
  mayBuild_unary_of hE hr hbrackets hlambda
    (builds_node hsigns (by decide) (keeps_bump hE (steady_orReport hE hoperand)))
    (mayBuild_cast hE hr (hsigns.mono (by decide)) hunary)

omit hbrackets in
theorem steady_instanceofOperand (hprimary : Builds E (primaryPattern r)) :
    Steady E (instanceofOperand r) :=
  keeps_after keeps_lookahead fun _ => keeps_ite (keeps_found hprimary)
    (steady_orReport hE (hr.type _))

end Operands

theorem forall_mem_operatorTokens (hE : Hereditary kinds E) (operator : BinaryOperator)
    (rest : List Terminal) : ∀ part ∈ operatorTokens operator rest, E part :=
  List.forall_mem_map.2 fun _ _ => hE.token _

/-- What a turn of the loop over operators needs to know of the operands that it joins. -/
theorem mayBuild_binary {K : NodeKind → Prop} {level : Nat} {arrow : ArrowRole}
    (hK : ∀ kind ∈ [NodeKind.binaryExpression, .instanceofExpression], K kind)
    (hE : Hereditary kinds E) (hunary : MayBuild E (r.unary arrow))
    (hbinary : ∀ higher, level ≤ higher → MayBuild E (r.binary higher arrow))
    (hunary' : ∀ c, Gives (r.unary arrow) c (MayShow (OfKind K)))
    (hbinary' : ∀ higher c, Gives (r.binary higher arrow) c (MayShow (OfKind K)))
    (htest : ∀ left c tested, E left → Shows (OfKind K) left → instanceofOperand r c = .ok tested →
      E (.around .instanceofExpression left (.token .instanceofKw :: tested.parts)))
    (hjoin : ∀ left right operator rest, E left → Shows (OfKind K) left →
      BinaryOperator.ofTerminals? rest = some operator → level ≤ operator.level → E right →
      Shows (OfKind fun kind => kind = .error ∨ K kind) right →
      E (.around .binaryExpression left (operatorTokens operator rest ++ [right]))) :
    MayBuild E (Grammar.binary r level arrow) := by
  unfold Grammar.binary
  refine keeps_bind (hunary.and (keeps_of_gives hunary')) fun found hfound => ?_
  cases found with
  | none => exact keeps_pure nofun
  | some first =>
      refine mayBuild_some (keeps_iterate (I := fun left => E left ∧ Shows (OfKind K) left)
        (J := E) (fun left hleft c done hrun => ?_) ⟨hfound.1 first rfl, hfound.2 first rfl⟩)
      cases binaryTurn_cases hrun with
      | stop => exact ⟨nofun, hleft.1⟩
      | test _ _ htested =>
          exact ⟨nofun, htest left _ _ hleft.1 hleft.2 htested, shows_around (hK _ (by decide))⟩
      | join hoperator hlevel hanswer hvalue =>
          obtain ⟨hparts, hshows⟩ := hbinary' _ _ _ hanswer
          have hright := (hbinary _ (Nat.le_succ_of_le hlevel) _ _ hanswer).2 _ hvalue
          rw [hparts]
          refine ⟨nofun, hjoin left _ _ _ hleft.1 hleft.2 hoperator hlevel hright
            ((hshows _ hvalue).mono ?_), shows_around (hK _ (by decide))⟩
          rintro _ ⟨kind, children, rfl, hkind⟩
          exact ⟨kind, children, rfl, .inr hkind⟩
      | lack hoperator hlevel hanswer hvalue =>
          obtain ⟨hparts, -⟩ := hbinary' _ _ _ hanswer
          rw [hparts]
          exact ⟨nofun, hjoin left _ _ _ hleft.1 hleft.2 hoperator hlevel (hE.error _ _)
            ⟨_, rfl, .error, [], rfl, .inl rfl⟩⟩

theorem Hereditary.join (hE : Hereditary kinds E) (hkind : .binaryExpression ∈ kinds)
    {left right : Outline} (hleft : E left) (hright : E right) (operator : BinaryOperator)
    (rest : List Terminal) :
    E (.around .binaryExpression left (operatorTokens operator rest ++ [right])) :=
  hE.around hkind hleft (List.forall_mem_append.2
    ⟨forall_mem_operatorTokens hE operator rest, List.forall_mem_singleton.2 hright⟩)

section Document

variable (hE : Hereditary plainKinds E) (hr : Sound E r)

include hE hr

theorem mayBuild_conditional (hconditions : Hereditary [.conditionalExpression] E)
    (arrow : ArrowRole) : MayBuild E (Grammar.conditional r arrow) := by
  refine keeps_bind (hr.binary 0 arrow) fun found hfound => ?_
  cases found with
  | none => exact keeps_pure nofun
  | some condition =>
      refine keeps_isAt fun _ => keeps_ite (mayBuild_some (builds_around hconditions
        List.mem_cons_self (hfound condition rfl) (keeps_bump hE (keeps_after
          (steady_orReport hE hr.expression) fun _ => keeps_after (steady_expect hE) fun _ =>
            steady_orReport hE (hr.conditional arrow))))) (keeps_pure hfound)

theorem Sound.next (hconditions : Hereditary [.conditionalExpression] E)
    (hpattern : Builds E (Grammar.pattern r))
    (hunary : ∀ arrow, MayBuild E (Grammar.unary r arrow))
    (hbinary : ∀ level arrow, MayBuild E (Grammar.binary r level arrow)) : Sound E r.next where
  annot := builds_annot hE hr.toSoundTypes (builds_annotParameters hE hr)
  type := mayBuild_type hE hr.toSoundTypes
  pattern := hpattern
  arrayInitializer := builds_arrayInitializer hE hr
  unary := hunary
  binary := hbinary
  conditional := mayBuild_conditional hE hr hconditions

omit hr in
theorem steady_labelEnd : Steady E labelEnd :=
  keeps_after (steady_eat hE) fun _ => keeps_ite (steady_pure _) (keeps_after (steady_eat hE)
    fun _ => keeps_ite (steady_pure _) (steady_report hE))

theorem steady_labelElement : Steady E (labelElement r) := by
  refine keeps_isAt fun _ => keeps_ite ?_ (keeps_after keeps_lookahead fun _ => keeps_ite ?_ ?_)
  · exact keeps_found_bind (builds_node hE (by decide) (steady_bump hE)) (steady_pure _)
  · exact keeps_found_bind hr.pattern (steady_pure _)
  · refine keeps_bind (hr.conditional _) fun found hfound => ?_
    cases found with
    | none => exact steady_pure _
    | some constant => exact keeps_after (keeps_put (hfound constant rfl)) fun _ => steady_pure _

theorem builds_labelElements : Builds E (labelElements r) :=
  builds_node hE (by decide) (steady_repeatWhile (keeps_after (steady_labelElement hE hr)
    fun _ => keeps_ite (steady_eat hE) (keeps_after (steady_report hE) fun _ => steady_pure _)))

omit hr in
theorem steady_reportUnexpected : Steady E reportUnexpected :=
  keeps_after steady_look fun _ => steady_report hE

theorem mayBuild_switchLabel : MayBuild E (switchLabel r) := by
  refine keeps_after steady_look fun kind => ?_
  split
  · exact mayBuild_some (builds_node hE (by decide) (keeps_bump hE (steady_labelEnd hE)))
  · exact mayBuild_some (builds_node hE (by decide) (keeps_bump hE (keeps_found_bind
      (builds_labelElements hE hr) (steady_labelEnd hE))))
  · exact keeps_after (keeps_put (hE.loose nofun)) fun _ =>
      keeps_after (steady_reportUnexpected hE) fun _ => keeps_pure nofun

omit hr in
theorem steady_bumpAll : Steady E bumpAll :=
  steady_repeatWhile (keeps_after steady_look fun _ =>
    keeps_ite (steady_pure _) (keeps_bump hE (steady_pure _)))

theorem steady_subject (s : Subject) : Steady E (subject r s) := by
  cases s with
  | pattern =>
      refine keeps_after keeps_lookahead fun _ => keeps_ite (keeps_found hr.pattern)
        (keeps_found (builds_node hE (by decide) ?_))
      exact keeps_after (steady_report hE) fun _ => steady_bumpAll hE
  | expression => exact steady_orReport hE hr.expression
  | switchLabel =>
      refine keeps_bind (mayBuild_switchLabel hE hr) fun found hfound => ?_
      cases found with
      | none => exact steady_pure _
      | some label => exact keeps_put (hfound label rfl)

theorem builds_document (s : Subject) : Builds E (document r s) := by
  refine builds_node hE (by decide) (keeps_bind (keeps_capture (steady_subject hE hr s))
    fun captured hcaptured => keeps_after (keeps_putAll hcaptured.2) fun _ =>
      keeps_after steady_look fun _ => keeps_ite (steady_pure _)
        (keeps_found (builds_node hE (by decide) ?_)))
  have rest : Steady E bumpAll := steady_bumpAll hE
  exact keeps_ite rest (keeps_after (steady_reportUnexpected hE) fun _ => rest)

end Document

end PatternSyntax.Proofs.Nodes
