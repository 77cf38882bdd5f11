import PatternSyntax.Proofs.Parentheses
import PatternSyntax.Proofs.Precedence

/-!
Lambda expressions and their arrows. A lambda expression is begun where an arrow comes behind the
parenthesis that matches the first one, token by token. Its parameters end at that parenthesis,
unless parentheses are not balanced in a block among them. Then no arrow needs to follow, and no
error says so.
-/

namespace PatternSyntax.Proofs.Lambdas

open Grammar
open PatternSyntax.Proofs.CleanExpressions
open PatternSyntax.Proofs.CleanRules
open PatternSyntax.Proofs.CleanRuns
open PatternSyntax.Proofs.Contract
open PatternSyntax.Proofs.Coverage
open PatternSyntax.Proofs.Depth
open PatternSyntax.Proofs.Elements
open PatternSyntax.Proofs.Forward
open PatternSyntax.Proofs.Marks
open PatternSyntax.Proofs.Neatness
open PatternSyntax.Proofs.Nodes
open PatternSyntax.Proofs.Operands
open PatternSyntax.Proofs.Parentheses
open PatternSyntax.Proofs.Precedence
open PatternSyntax.Proofs.Runs
open PatternSyntax.Proofs.Shapes
open PatternSyntax.Proofs.Totality
open PatternSyntax.Proofs.Weave

variable {α : Type} {r : Rules} {c : Cursor}

def expressionKinds : List NodeKind :=
  .binaryExpression :: .instanceofExpression :: .conditionalExpression :: operandKinds

def IsBody (shape : Shape) : Prop :=
  OfKind (fun kind => kind ∈ expressionKinds ∨ kind = .codeBlock) shape

/-- A lambda expression has parameters, an arrow and a body. There may only be no arrow if
parentheses are not balanced in a block among the parameters. -/
def Arrowed : NodeKind → List Shape → Prop
  | .lambdaExpression, children =>
    ∃ parameters body, IsBody body ∧
      (children = [.node (.node .parameterList) parameters, .token .arrow, body] ∨
        children = [.node (.node .parameterList) parameters, body] ∧
          evenBlocksAll parameters = false)
  | _, _ => True

/-- What the rules for expressions of a table answer with. -/
structure Expressing (r : Rules) : Prop where
  unary (arrow : ArrowRole) (c : Cursor) :
    Gives (r.unary arrow) c (MayShow (OfKind (· ∈ expressionKinds)))
  binary (level : Nat) (arrow : ArrowRole) (c : Cursor) :
    Gives (r.binary level arrow) c (MayShow (OfKind (· ∈ expressionKinds)))
  conditional (arrow : ArrowRole) (c : Cursor) :
    Gives (r.conditional arrow) c (MayShow (OfKind (· ∈ expressionKinds)))

theorem gives_binary_expression (he : Expressing r) (level : Nat) (arrow : ArrowRole) (c : Cursor) :
    Gives (Grammar.binary r level arrow) c (MayShow (OfKind (· ∈ expressionKinds))) := by
  unfold Grammar.binary
  refine gives_bind (he.unary arrow c) fun found mid hfound => ?_
  cases found with
  | none => exact gives_pure nofun
  | some first =>
      refine gives_some (gives_iterate
        (I := fun left _ => Shows (OfKind (· ∈ expressionKinds)) left)
        (fun left here hleft done hrun => ?_) (hfound first rfl))
      cases binaryTurn_cases hrun with
      | stop => exact ⟨rfl, hleft⟩
      | test => exact ⟨rfl, shows_around (by decide)⟩
      | join => exact ⟨rfl, shows_around (by decide)⟩
      | lack => exact ⟨rfl, shows_around (by decide)⟩

theorem gives_conditional_expression (he : Expressing r) (arrow : ArrowRole) (c : Cursor) :
    Gives (Grammar.conditional r arrow) c (MayShow (OfKind (· ∈ expressionKinds))) := by
  refine gives_bind (he.binary 0 arrow c) fun found mid hfound => ?_
  cases found with
  | none => exact gives_pure nofun
  | some condition =>
      exact gives_look rfl (gives_ite (gives_some (gives_around (by decide))) (gives_pure hfound))

theorem expressing_ofDepth (depth : Nat) : Expressing (.ofDepth depth) := by
  induction depth with
  | zero => exact ⟨fun _ _ => nofun, fun _ _ _ => nofun, fun _ _ => nofun⟩
  | succ depth ih =>
      rw [Rules.ofDepth_succ]
      exact ⟨gives_unary (by decide) _, gives_binary_expression ih,
        gives_conditional_expression ih⟩

theorem after_lambdaParameterRow (hr : Careful r) (hopen : nextKind c = some .openParen) :
    After (lambdaParameterRow r) c fun _ parts _ => ∃ inner,
      parts = .token .openParen :: (inner ++ [.token .closeParen]) ∧ Neat inner ∧
        brackets inner = [] := by
  refine after_look (a := nextKind c == some .ident) rfl ?_
  rw [hopen, if_neg (by decide)]
  refine after_bump_bind hopen fun mid _ => after_look rfl ?_
  split
  · refine after_expect.mono ?_
    rintro _ parts _ rfl
    exact ⟨[], rfl, trivial, rfl⟩
  · refine after_bind (clean_repeatWhile_bare (P := fun _ _ => True) fun here =>
      clean_found_bind (clean_lambdaParameter hr).laid fun _ => clean_eat_bare (by decide))
        fun _ inner _ hinner => after_expect.mono ?_
    rintro _ parts _ rfl
    exact ⟨inner, rfl, hinner.1, hinner.2.1⟩

/-- Behind what is passed from one place to another, a lambda expression has begun if an arrow comes
next. -/
def Encloses (c stop : Cursor) : Prop :=
  ∃ passed, c.rest = passed ++ stop.rest ∧
    ∀ back, isLambda (passed ++ back) = back.head?.any (·.kind == .arrow)

theorem nextKind_of_encloses {stop : Cursor} (hlambda : isLambda c.rest = true)
    (h : Encloses c stop) : nextKind stop = some .arrow := by
  obtain ⟨passed, hrest, hpassed⟩ := h
  rw [hrest, hpassed, Option.any_eq_true] at hlambda
  obtain ⟨terminal, hhead, hkind⟩ := hlambda
  rw [nextKind, ← List.head?_eq_getElem?, hhead, Option.map_some, beq_iff_eq.1 hkind]

theorem encloses_of_passes {stop : Cursor} (h : Passes .ident c stop) : Encloses c stop := by
  obtain ⟨index, glued, rest⟩ := h
  refine ⟨[⟨.ident, glued⟩], rfl, fun back => ?_⟩
  cases back with
  | nil => rfl
  | cons terminal back => rfl

/-- Where parentheses are balanced in the blocks between two parentheses, the search for the arrow
ends at the second one. -/
theorem encloses_of_covers {kind : NodeKind} {inner : List Outline} {stop : Cursor}
    (hcovers : Covers c [.node kind (.token .openParen :: (inner ++ [.token .closeParen]))] stop)
    (hneat : Neat inner) (hbrackets : brackets inner = [])
    (heven : evenBlocksAll (outlinedAll inner) = true) : Encloses c stop := by
  obtain ⟨front, hfront⟩ := hcovers.rest_suffix
  have htokens := hcovers.tokens_append
  rw [← hfront, List.map_append, List.append_cancel_right_eq] at htokens
  have hkinds : front.map (·.kind) = .openParen :: (Outline.tokensAll inner ++ [.closeParen]) := by
    rw [← htokens]
    simp [Outline.tokensAll, Outline.tokens, tokensAll_append]
  have hnest : nest 0 (Outline.tokensAll inner) = some 0 := by
    have hinner := nest_tokensAll inner hneat heven 0 []
    rwa [List.append_nil, level_directAll (by rw [hbrackets]; rfl)] at hinner
  exact ⟨front, hfront.symm, fun back => isLambda_append hkinds hnest⟩

/-- The parameters of a lambda expression are a single node. If parentheses are balanced in its
blocks, the search for the arrow ends where it does. -/
def LeadsToArrow (c : Cursor) (outline : Outline) (stop : Cursor) : Prop :=
  ∃ children, outlined outline = [.node (.node .parameterList) children] ∧
    (evenBlocksAll children = true → Encloses c stop)

theorem leadsToArrow_of_ident {done : Parsed Outline} (hident : nextKind c = some .ident)
    (hrun : lambdaParameters r c = .ok done) : LeadsToArrow c done.value done.cursor := by
  obtain ⟨stop, hpasses⟩ := exists_passes hident
  have hnamed : lambdaParameters r c =
      .ok ⟨.node .parameterList [.node .parameter [.token .ident]], [], stop⟩ :=
    run_node (run_ifAt_pos hident (run_found (run_node hpasses.bump)))
  cases hnamed.symm.trans hrun
  exact ⟨_, rfl, fun _ => encloses_of_passes hpasses⟩

theorem leadsToArrow_of_openParen {depth : Nat} {done : Parsed Outline}
    (hopen : nextKind c = some .openParen)
    (hrun : lambdaParameters (.ofDepth depth) c = .ok done) (hclean : done.value.hasError = false) :
    LeadsToArrow c done.value done.cursor := by
  obtain ⟨outline, stop, hdeep, hbuilds⟩ := finds_lambdaParameters (ready_ofDepth _)
    (length_pos_of_nextKind hopen) (Nat.le_refl _)
  cases ofDepth_agree lambdaParameters_refines hdeep hrun
  obtain ⟨captured, held, hcaptured, hheld, heq⟩ := exists_of_bind_ok hrun
  obtain ⟨row, hrow, rfl⟩ := exists_of_capture_ok hcaptured
  cases hheld
  cases heq
  obtain ⟨inner, hparts, hneat, hbrackets⟩ :=
    after_lambdaParameterRow (careful_ofDepth depth) hopen row hrow hclean
  have hcovers := hbuilds.1.2
  dsimp only at hcovers ⊢
  rw [hparts] at hcovers ⊢
  refine ⟨_, rfl, fun heven => encloses_of_covers hcovers hneat hbrackets ?_⟩
  rw [outlinedAll, outlinedAll_append, evenBlocksAll_append, evenBlocksAll_append,
    Bool.and_eq_true, Bool.and_eq_true] at heven
  exact heven.2.1

theorem leadsToArrow_of_run {depth : Nat} {done : Parsed Outline}
    (hlambda : isLambda c.rest = true)
    (hrun : lambdaParameters (.ofDepth depth) c = .ok done) (hclean : done.value.hasError = false) :
    LeadsToArrow c done.value done.cursor := by
  rcases nextKind_of_isLambda hlambda with hident | hopen
  · exact leadsToArrow_of_ident hident hrun
  · exact leadsToArrow_of_openParen hopen hrun hclean

theorem after_found {g : Grammar Outline} {Q : Shape → Prop}
    (hg : Gives g c fun outline _ => Shows Q outline) :
    After (g >>= put) c fun _ parts _ => ∃ shape, outlinedAll parts = [shape] ∧ Q shape := by
  intro done hrun _
  obtain ⟨first, second, hfirst, hsecond, rfl⟩ := exists_of_bind_ok hrun
  obtain ⟨hparts, shape, hshape, hQ⟩ := hg first hfirst
  cases hsecond
  refine ⟨shape, ?_, hQ⟩
  rw [hparts, List.nil_append, outlinedAll, hshape]
  rfl

theorem after_orReport {missing : ErrorKind} {g : Grammar (Option Outline)} {Q : Shape → Prop}
    (hg : Gives g c (MayShow Q)) :
    After (orReport missing g) c fun _ parts _ =>
      ∃ shape, outlinedAll parts = [shape] ∧ Q shape := by
  refine after_bind (P := fun found parts _ => parts = [] ∧ MayShow Q found c)
    (fun done hrun _ => hg done hrun) fun found front mid hfound => ?_
  obtain ⟨rfl, hshows⟩ := hfound
  cases found with
  | none => exact after_report
  | some outline =>
      intro done hrun _
      obtain ⟨shape, hshape, hQ⟩ := hshows outline rfl
      cases hrun
      refine ⟨shape, ?_, hQ⟩
      rw [List.nil_append, outlinedAll, hshape]
      rfl

theorem after_lambdaBody (he : Expressing r) :
    After (lambdaBody r) c fun _ parts _ => ∃ body, outlinedAll parts = [body] ∧ IsBody body := by
  refine after_look rfl ?_
  split
  · exact after_found (gives_node (.inr rfl))
  · refine (after_orReport (he.conditional .lambda c)).mono fun _ parts _ hbody => ?_
    obtain ⟨body, hparts, kind, children, heq, hkind⟩ := hbody
    exact ⟨body, hparts, kind, children, heq, .inl hkind⟩

theorem after_eatArrow :
    After (eat .arrow) c fun _ parts _ =>
      parts = [.token .arrow] ∨ parts = [] ∧ nextKind c ≠ some .arrow := by
  refine after_look (a := nextKind c == some .arrow) rfl ?_
  split
  · exact after_bump_bind (beq_iff_eq.1 ‹_›) fun mid _ => after_pure (.inl rfl)
  · exact after_pure (.inr ⟨rfl, fun h => ‹¬_› (beq_iff_eq.2 h)⟩)

/-- What stands behind the parameters: an arrow, unless none comes next, and the body. -/
theorem after_lambdaTail (he : Expressing r) :
    After (lambdaTail r) c fun _ parts _ => ∃ body, IsBody body ∧
      (outlinedAll parts = [.token .arrow, body] ∨
        outlinedAll parts = [body] ∧ nextKind c ≠ some .arrow) := by
  refine after_bind after_eatArrow fun _ front mid hfront =>
    (after_lambdaBody he).mono fun _ back _ hback => ?_
  obtain ⟨body, hbody, his⟩ := hback
  refine ⟨body, his, ?_⟩
  rw [outlinedAll_append, hbody]
  rcases hfront with rfl | ⟨rfl, hnext⟩
  · exact .inl rfl
  · exact .inr ⟨rfl, hnext⟩

theorem arrowed_lambdaRow {depth : Nat} {row : Parsed Unit} (hlambda : isLambda c.rest = true)
    (hrun : lambdaRow (.ofDepth depth) c = .ok row)
    (hclean : Outline.hasErrorAll row.parts = false) :
    Arrowed .lambdaExpression (outlinedAll row.parts) := by
  obtain ⟨first, second, hfirst, hsecond, rfl⟩ := exists_of_bind_ok hrun
  obtain ⟨placed, third, hplaced, hthird, rfl⟩ := exists_of_bind_ok hsecond
  cases hplaced
  have hquiet : first.parts = [] := by
    obtain ⟨captured, held, hcaptured, hheld, rfl⟩ := exists_of_bind_ok hfirst
    obtain ⟨row, -, rfl⟩ := exists_of_capture_ok hcaptured
    cases hheld
    rfl
  simp only [hquiet, List.nil_append, List.singleton_append, Outline.hasErrorAll,
    Bool.or_eq_false_iff] at hclean ⊢
  obtain ⟨parameters, hparameters, harrow⟩ := leadsToArrow_of_run hlambda hfirst hclean.1
  obtain ⟨body, hbody, htail⟩ := after_lambdaTail (expressing_ofDepth depth) third hthird hclean.2
  rw [outlinedAll, hparameters]
  refine ⟨parameters, body, hbody, htail.imp (fun h => by rw [h]; rfl) fun h => ?_⟩
  rw [h.1]
  exact ⟨rfl, Bool.eq_false_iff.2 fun heven => h.2 (nextKind_of_encloses hlambda (harrow heven))⟩

/-- The row of a node is that of a lambda expression with an arrow, or of another node, unless there
is an error in it. -/
def ArrowedRow (kind : NodeKind) (row : List Outline) : Prop :=
  Outline.hasErrorAll row = false → Arrowed kind (outlinedAll row)

theorem arrowedRow_of_ne {kind : NodeKind} (hkind : kind ≠ .lambdaExpression)
    (row : List Outline) : ArrowedRow kind row := by
  intro _
  unfold Arrowed
  split
  · exact absurd rfl hkind
  · trivial

def otherKinds : List NodeKind :=
  NodeKind.all.filter (· ≠ .lambdaExpression)

theorem hereditary_arrowedRow : Hereditary otherKinds (Everywhere ArrowedRow) :=
  hereditary_everywhere (arrowedRow_of_ne (by decide) []) fun _ hkind =>
    arrowedRow_of_ne (of_decide_eq_true (List.mem_filter.1 hkind).2)

theorem holdsOfLambdas_arrowedRow {depth : Nat}
    (hr : Sound (Everywhere ArrowedRow) (.ofDepth depth)) :
    HoldsOfLambdas (Everywhere ArrowedRow) (.ofDepth depth) :=
  fun c row hlambda hrun => everywhere_node.2 ⟨arrowed_lambdaRow hlambda hrun,
    (steady_lambdaRow (hereditary_arrowedRow.mono (by decide)) hr c row hrun).1⟩

theorem mayBuild_binary_arrowed (hr : Sound (Everywhere ArrowedRow) r) (he : Expressing r)
    (level : Nat) (arrow : ArrowRole) :
    MayBuild (Everywhere ArrowedRow) (Grammar.binary r level arrow) := by
  have hE : Hereditary plainKinds (Everywhere ArrowedRow) := hereditary_arrowedRow.mono (by decide)
  refine mayBuild_binary (by decide) hE (hr.unary arrow) (fun _ _ => hr.binary _ arrow)
    (he.unary arrow) (he.binary · arrow) (fun left c tested hleft _ hrun => ?_)
    fun left right operator rest hleft _ _ _ hright _ =>
      hereditary_arrowedRow.join (by decide) hleft hright operator rest
  have hprimary := builds_primaryPattern hE hr.toSoundTypes (hereditary_arrowedRow.mono (by decide))
  exact hereditary_arrowedRow.around (by decide) hleft (List.forall_mem_cons.2 ⟨hE.token _,
    (steady_instanceofOperand hE hr.toSoundTypes hprimary c tested hrun).1⟩)

theorem sound_arrowedRow (depth : Nat) : Sound (Everywhere ArrowedRow) (.ofDepth depth) := by
  induction depth with
  | zero => exact sound_exhausted
  | succ depth ih =>
      have hE : Hereditary plainKinds (Everywhere ArrowedRow) :=
        hereditary_arrowedRow.mono (by decide)
      have ht := ih.toSoundTypes
      rw [Rules.ofDepth_succ]
      exact ih.next hE (hereditary_arrowedRow.mono (by decide))
        (builds_pattern hE ht (hereditary_arrowedRow.mono (by decide)) (ih.binary _ _))
        (fun arrow => mayBuild_unary hE ht (ih.brackets hE) (hereditary_arrowedRow.mono (by decide))
          (fun _ => holdsOfLambdas_arrowedRow ih) (ih.unary arrow) (ih.binary _ arrow))
        (mayBuild_binary_arrowed ih (expressing_ofDepth depth))

/-- In a text without errors every lambda expression has its arrow between its parameters and its
body, unless parentheses are not balanced in a block among the parameters. -/
theorem arrowed_of_errors_eq_nil (s : Subject) (text : String) :
    ∃ parse, Parse.ofText s text = .ok parse ∧ (parse.errors = [] →
      ∀ kind children, .node (.node kind) children ∈ subtrees parse.tree →
        Arrowed kind (shapeAll children)) := by
  obtain ⟨a, hparse⟩ := exists_account s text
  refine ⟨a.parse, hparse, fun herrors kind children hmem => ?_⟩
  rcases exists_row_of_mem a (builds_document (hereditary_arrowedRow.mono (by decide))
    (sound_arrowedRow _) s) hmem with rfl | ⟨row, hshapes, harrowed, hrow⟩
  · trivial
  · rw [hshapes]
    exact harrowed (hrow ((errors_eq_nil_iff a).1 herrors))

/-- Whether a tree is a lambda expression without an arrow. -/
def lacksArrow : Tree → Bool
  | .node (.node .lambdaExpression) children =>
    (shapeAll children).all fun shape => token? shape != some .arrow
  | _ => false

theorem exists_of_lacksArrow {tree : Tree} (h : lacksArrow tree = true) :
    ∃ children, tree = .node (.node .lambdaExpression) children ∧
      .token .arrow ∉ shapeAll children := by
  unfold lacksArrow at h
  split at h
  · refine ⟨_, rfl, fun hmem => ?_⟩
    exact absurd (List.all_eq_true.1 h _ hmem) (by decide)
  · cases h

/-- The exception is needed: the block `{ ) ) -> }` among the parameters closes two parentheses,
and the search takes the arrow in it for that of the outer lambda expression, which has none. -/
theorem lambda_without_arrow :
    ∃ parse children,
      Parse.ofText .expression "(@A(() -> \x7b ) ) -> \x7d) int x) y" = .ok parse ∧
        parse.errors = [] ∧
        .node (.node .lambdaExpression) children ∈ subtrees parse.tree ∧
        .token .arrow ∉ shapeAll children := by
  obtain ⟨a, hparse⟩ := exists_account .expression "(@A(() -> \x7b ) ) -> \x7d) int x) y"
  have hfound : (Parse.ofText .expression "(@A(() -> \x7b ) ) -> \x7d) int x) y").toOption.map
      (fun parse => (parse.errors, (subtrees parse.tree).any lacksArrow)) = some ([], true) := by
    decide +kernel
  rw [hparse] at hfound
  obtain ⟨herrors, hany⟩ := Prod.mk.inj (Option.some.inj hfound)
  obtain ⟨tree, hmem, htree⟩ := List.any_eq_true.1 hany
  obtain ⟨children, rfl, harrow⟩ := exists_of_lacksArrow htree
  exact ⟨a.parse, children, hparse, herrors, hmem, harrow⟩

end PatternSyntax.Proofs.Lambdas
