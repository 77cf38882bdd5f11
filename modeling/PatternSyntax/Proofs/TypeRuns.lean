import PatternSyntax.Proofs.Sources

/-!
A type is read back as it is written.
-/

namespace PatternSyntax.Proofs.TypeRuns

open Grammar
open PatternSyntax.Proofs.Coverage
open PatternSyntax.Proofs.Forward
open PatternSyntax.Proofs.Sketches
open PatternSyntax.Proofs.Sources

variable {r : Rules} {c mid stop : Cursor}

theorem run_optionalTypeArguments_none (h : nextKind c ≠ some .lt) :
    optionalTypeArguments r true c = .ok ⟨(), [], c⟩ :=
  run_ifAt_neg h rfl

theorem run_optionalTypeArguments {outline : Outline} (hlt : nextKind c = some .lt)
    (h : typeArguments r c = .ok ⟨outline, [], stop⟩) :
    optionalTypeArguments r true c = .ok ⟨(), [outline], stop⟩ :=
  run_ifAt_pos hlt (run_found h)

theorem isAhead_of_passes {kind next : TokenKind} (h : Passes kind c mid)
    (hnext : nextKind mid = some next) (other : TokenKind) :
    isAhead 1 other c = .ok ⟨some next == some other, [], c⟩ := by
  rw [← hnext, ← h.ahead_eq]
  rfl

theorem run_referenceTurn {eatLastDot : Bool} {reference : Outline} {next : Cursor}
    {parts : List Outline} (hdot : Passes .dot c mid) (hident : Passes .ident mid next)
    (h : optionalTypeArguments r true next = .ok ⟨(), parts, stop⟩) :
    referenceTurn r eatLastDot true reference c =
      .ok ⟨.yield (.around .javaCodeReference reference (.token .dot :: .token .ident :: parts)),
        [], stop⟩ := by
  refine run_ifAt_pos hdot.nextKind_eq (run_look (isAhead_of_passes hdot hident.nextKind_eq _) ?_)
  exact run_look (run_around (hdot.bump_bind (hident.bump_bind h))) rfl

theorem run_referenceTurn_done {eatLastDot : Bool} {reference : Outline}
    (h : nextKind c ≠ some .dot) :
    referenceTurn r eatLastDot true reference c = .ok ⟨.done reference, [], c⟩ :=
  run_ifAt_neg h rfl

theorem run_arrayTurn {element : Outline} (hopen : Passes .openBracket c mid)
    (hclose : Passes .closeBracket mid stop) :
    arrayTurn element c =
      .ok ⟨.yield (.around .type element [.token .openBracket, .token .closeBracket]), [],
        stop⟩ := by
  refine run_look (a := true) (by cases hopen; rfl)
    (run_look (isAhead_of_passes hopen hclose.nextKind_eq _) ?_)
  exact run_look (run_around (hopen.bump_bind hclose.bump)) rfl

theorem run_arrayTurn_done {element : Outline} (h : nextKind c ≠ some .openBracket) :
    arrayTurn element c = .ok ⟨.done element, [], c⟩ := by
  refine run_look (a := nextKind c == some .openBracket) rfl (run_look rfl ?_)
  rw [if_neg]
  · rfl
  · simp [h]

theorem run_typeBase {flags : TypeFlags} {form : TypeForm} {parts : List Outline}
    (hc : nextKind c ≠ some .atSign) (h : typeHead r flags c = .ok ⟨form, parts, stop⟩) :
    typeBase r flags c = .ok ⟨form, parts, stop⟩ := by
  refine run_look (a := ()) (repeatWhile_of_false ?_) h
  refine run_look (a := nextKind c == some .atSign) rfl (run_look rfl ?_)
  rw [if_neg]
  · rfl
  · simp [hc]

/-- The tokens with which a type can go on. -/
def typeTails : List TokenKind :=
  [.lt, .dot, .openBracket, .ellipsis]

/-- No token comes behind a type with which it could go on. -/
def TypeEnds (c : Cursor) : Prop :=
  ∀ kind ∈ typeTails, nextKind c ≠ some kind

theorem typeEnds_of_nextKind {kind : TokenKind} (h : nextKind c = some kind)
    (hkind : kind ∉ typeTails) : TypeEnds c := by
  rintro tail htail heq
  cases h.symm.trans heq
  exact hkind htail

theorem run_typeSuffix {flags : TypeFlags} {base array : Outline}
    (h : Turns arrayTurn base c array stop) (hstop : TypeEnds stop) :
    typeSuffix flags base c = .ok ⟨array, [], stop⟩ := by
  have hellipsis : nextKind stop ≠ some .ellipsis := hstop _ (by decide)
  unfold typeSuffix
  refine run_look (h.iterate (run_arrayTurn_done (hstop _ (by decide)))) ?_
  refine run_look (a := nextKind stop == some .ellipsis) rfl ?_
  rw [if_neg]
  · rfl
  · simp [hellipsis]

theorem run_type {flags : TypeFlags} {parts : List Outline} {array : Outline}
    (hbase : typeBase r flags c = .ok ⟨.named, parts, mid⟩)
    (h : Turns arrayTurn (.node .type parts) mid array stop) (hstop : TypeEnds stop) :
    r.next.type flags c = .ok ⟨some array, [], stop⟩ := by
  change Grammar.type r flags c = _
  unfold Grammar.type
  exact run_attempt (run_look (run_capture hbase) (run_some (run_typeSuffix h hstop)))

/-- From some depth on, all flags let the type be read. -/
def TypeReads (type : TypeTree) (c stop : Cursor) : Prop :=
  Eventually fun r => ∀ flags, ∃ parts mid, typeBase r flags c = .ok ⟨.named, parts, mid⟩ ∧
    Turns arrayTurn (.node .type parts) mid type.sketch.outline stop

theorem TypeReads.run {type : TypeTree} (h : TypeReads type c stop) (hstop : TypeEnds stop) :
    Eventually fun r => ∀ flags, r.type flags c = .ok ⟨some type.sketch.outline, [], stop⟩ := by
  apply Eventually.next
  refine h.mono fun r hreads flags => ?_
  obtain ⟨parts, mid, hbase, hturns⟩ := hreads flags
  exact run_type hbase hturns hstop

theorem run_typeHead_reference {flags : TypeFlags} {outline : Outline}
    (hc : nextKind c = some .ident)
    (h : codeReference r flags.eatLastDot true c = .ok ⟨outline, [], stop⟩) :
    typeHead r flags c = .ok ⟨.named, [outline], stop⟩ := by
  refine run_look (a := nextKind c) rfl ?_
  rw [hc]
  exact run_found_bind h rfl

theorem run_typeHead_primitive {flags : TypeFlags} {kind : TokenKind} (h : Passes kind c stop)
    (hkind : kind.isPrimitiveType = true) :
    typeHead r flags c = .ok ⟨.named, [.token kind], stop⟩ := by
  refine run_look (a := nextKind c) rfl ?_
  rw [h.nextKind_eq]
  dsimp only
  rw [if_pos hkind]
  exact h.bump_bind rfl

theorem run_type_wildcard {parts : List Outline} (hc : nextKind c = some .question)
    (h : wildcard r c = .ok ⟨(), parts, stop⟩) :
    r.next.type .argument c = .ok ⟨some (.node .type parts), [], stop⟩ := by
  have hhead : typeHead r .argument c = .ok ⟨.wildcard, parts, stop⟩ := by
    refine run_look (a := nextKind c) rfl ?_
    rw [hc]
    refine (run_bind h rfl).trans ?_
    rw [List.append_nil]
  change Grammar.type r .argument c = _
  unfold Grammar.type
  exact run_attempt (run_look (run_capture (run_typeBase (by rw [hc]; decide) hhead)) rfl)

theorem run_wildcard_unbounded (hquestion : Passes .question c stop)
    (hstop : nextKind stop = some .comma ∨ nextKind stop = some .gt) :
    wildcard r c = .ok ⟨(), [.token .question], stop⟩ := by
  refine hquestion.bump_bind (run_look (a := nextKind stop == some .extendsKw) rfl
    (run_look (a := nextKind stop == some .superKw) rfl ?_))
  rcases hstop with hstop | hstop <;> rw [hstop] <;> rfl

theorem run_wildcard {kind : TokenKind} (hkind : kind = .extendsKw ∨ kind = .superKw)
    {next : Cursor} {bound : Outline} (hquestion : Passes .question c mid)
    (hbound : Passes kind mid next) (h : r.type .plain next = .ok ⟨some bound, [], stop⟩) :
    wildcard r c = .ok ⟨(), [.token .question, .token kind, bound], stop⟩ := by
  refine hquestion.bump_bind (run_look (a := nextKind mid == some .extendsKw) rfl
    (run_look (a := nextKind mid == some .superKw) rfl ?_))
  rw [hbound.nextKind_eq, if_pos (by rcases hkind with rfl | rfl <;> rfl)]
  exact hbound.bump_bind (run_orReport h)

theorem run_argumentTurn_last {outline : Outline} {state : Bool}
    (h : r.type .argument c = .ok ⟨some outline, [], stop⟩) (hstop : nextKind stop ≠ some .comma) :
    argumentTurn r state c = .ok ⟨.done true, [outline], stop⟩ :=
  run_look h (run_put_bind (run_look (eat_of_nextKind_ne hstop) rfl))

theorem run_argumentTurn {outline : Outline} {state : Bool}
    (h : r.type .argument c = .ok ⟨some outline, [], mid⟩) (hcomma : Passes .comma mid stop) :
    argumentTurn r state c = .ok ⟨.yield true, [outline, .token .comma], stop⟩ :=
  run_look h (run_put_bind (run_bind hcomma.eat rfl))

theorem run_typeArguments {row : List Outline} (hopen : Passes .lt c mid) {behind : Cursor}
    (hmid : nextKind mid ≠ some .gt) (hrow : Loops (argumentTurn r) true mid true row behind)
    (hclose : Passes .gt behind stop) :
    typeArguments r c =
      .ok ⟨.node .referenceParameterList (.token .lt :: (row ++ [.token .gt])), [], stop⟩ := by
  unfold typeArguments
  exact run_node (hopen.bump_bind (run_look (eat_of_nextKind_ne hmid)
    (run_bind hrow.iterate hclose.expect)))

theorem run_typeArguments_none (hopen : Passes .lt c mid) (hclose : Passes .gt mid stop) :
    typeArguments r c = .ok ⟨.node .referenceParameterList [.token .lt, .token .gt], [], stop⟩ := by
  unfold typeArguments
  exact run_node (hopen.bump_bind (run_bind hclose.eat rfl))

theorem exists_argumentRow_eq (argument : Argument) (rest : List Argument) :
    ∃ later, argumentRow (argument :: rest) = argument.sketch :: later := by
  cases rest with
  | nil => exact ⟨[], rfl⟩
  | cons next rest => exact ⟨_, rfl⟩

mutual

theorem reference_reads (reference : Reference) {exact : Bool} {c stop : Cursor}
    (h : SpansBy exact [reference.sketch] c stop) (hstop : nextKind stop ≠ some .lt) :
    Eventually fun r => ∃ first mid, referenceHead r true c = .ok ⟨first, [], mid⟩ ∧
      ∀ eatLastDot, Turns (referenceTurn r eatLastDot true) first mid
        reference.sketch.outline stop := by
  cases reference with
  | name name arguments =>
      obtain ⟨mid, hname, harguments⟩ := h.of_node.token_cons
      refine (arguments_read arguments harguments hstop).mono fun r hrun => ?_
      exact ⟨_, stop, run_node (hname.bump_bind hrun), fun _ => .refl _ _⟩
  | member outer name arguments =>
      obtain ⟨behind, houter, hlater⟩ := h.of_around
      obtain ⟨dotted, hdot, hlater⟩ := hlater.token_cons
      obtain ⟨named, hname, harguments⟩ := hlater.token_cons
      have hne : nextKind behind ≠ some .lt := by rw [hdot.nextKind_eq]; decide
      refine ((reference_reads outer houter hne).and
        (arguments_read arguments harguments hstop)).mono fun r hreads => ?_
      obtain ⟨⟨first, mid, hhead, hturns⟩, hrun⟩ := hreads
      refine ⟨first, mid, hhead, fun eatLastDot =>
        (hturns eatLastDot).snoc (run_referenceTurn hdot hname hrun) ?_⟩
      exact harguments.length_le.trans_lt (hname.length_lt.trans hdot.length_lt)

theorem arguments_read (arguments : Option (List Argument)) {exact : Bool} {c stop : Cursor}
    (h : SpansBy exact (argumentsSketch arguments) c stop) (hstop : nextKind stop ≠ some .lt) :
    Eventually fun r => optionalTypeArguments r true c =
      .ok ⟨(), Sketch.outlineAll (argumentsSketch arguments), stop⟩ := by
  cases arguments with
  | none =>
      cases h.eq_of_nil
      exact .of_forall fun r => run_optionalTypeArguments_none hstop
  | some arguments =>
      obtain ⟨mid, hopen, hrow⟩ := h.of_node.token_cons
      obtain ⟨behind, hrow, hclose⟩ := hrow.append
      cases arguments with
      | nil =>
          cases hrow.eq_of_nil
          exact .of_forall fun r => run_optionalTypeArguments hopen.nextKind_eq
            (run_typeArguments_none hopen hclose.passes)
      | cons argument rest =>
          have hmid : nextKind mid ≠ some .gt := by
            obtain ⟨later, hlater⟩ := exists_argumentRow_eq argument rest
            rw [hlater] at hrow
            obtain ⟨kind, hnext, hkind⟩ := hrow.begins argument.begins
            rw [hnext]
            exact fun heq => hkind (Option.some.inj heq)
          refine (argumentRow_reads (argument :: rest) (List.cons_ne_nil _ _) hrow
            hclose.passes.nextKind_eq).mono fun r hloops => run_optionalTypeArguments
              hopen.nextKind_eq ?_
          rw [run_typeArguments hopen hmid hloops hclose.passes, Sketch.outline, Sketch.outlineAll,
            Sketch.outlineAll_append]
          rfl

theorem argumentRow_reads (arguments : List Argument) (hne : arguments ≠ []) {exact : Bool}
    {c stop : Cursor} (h : SpansBy exact (argumentRow arguments) c stop)
    (hstop : nextKind stop = some .gt) :
    Eventually fun r => Loops (argumentTurn r) true c true
      (Sketch.outlineAll (argumentRow arguments)) stop := by
  match arguments, hne with
  | [argument], _ =>
      refine (argument_reads argument h (.inr hstop)).mono fun r hrun => ?_
      exact .done (run_argumentTurn_last hrun (by rw [hstop]; decide))
  | argument :: next :: rest, _ =>
      obtain ⟨mid, hargument, hlater⟩ := h.cons
      obtain ⟨behind, hcomma, hrow⟩ := hlater.token_cons
      refine ((argument_reads argument hargument (.inl hcomma.nextKind_eq)).and
        (argumentRow_reads (next :: rest) (List.cons_ne_nil _ _) hrow hstop)).mono
          fun r hreads => ?_
      exact .yield (run_argumentTurn hreads.1 hcomma)
        (hcomma.length_lt.trans_le hargument.length_le) hreads.2

theorem argument_reads (argument : Argument) {exact : Bool} {c stop : Cursor}
    (h : SpansBy exact [argument.sketch] c stop)
    (hstop : nextKind stop = some .comma ∨ nextKind stop = some .gt) :
    Eventually fun r => r.type .argument c =
      .ok ⟨some argument.sketch.outline, [], stop⟩ := by
  have hends : TypeEnds stop := by
    rcases hstop with hstop | hstop
    · exact typeEnds_of_nextKind hstop (by decide)
    · exact typeEnds_of_nextKind hstop (by decide)
  cases argument with
  | type type =>
      have hreads := type_reads type h (hends _ (by decide)) (hends _ (by decide))
      exact (hreads.run hends).mono fun r hrun => hrun .argument
  | wildcard =>
      have hquestion := h.of_node.passes
      exact .next (.of_forall fun r => run_type_wildcard hquestion.nextKind_eq
        (run_wildcard_unbounded hquestion hstop))
  | upper bound =>
      obtain ⟨mid, hquestion, hlater⟩ := h.of_node.token_cons
      obtain ⟨next, hextends, hbound⟩ := hlater.token_cons
      have hreads := type_reads bound hbound (hends _ (by decide)) (hends _ (by decide))
      exact .next ((hreads.run hends).mono fun r hrun => run_type_wildcard hquestion.nextKind_eq
        (run_wildcard (.inl rfl) hquestion hextends (hrun .plain)))
  | lower bound =>
      obtain ⟨mid, hquestion, hlater⟩ := h.of_node.token_cons
      obtain ⟨next, hsuper, hbound⟩ := hlater.token_cons
      have hreads := type_reads bound hbound (hends _ (by decide)) (hends _ (by decide))
      exact .next ((hreads.run hends).mono fun r hrun => run_type_wildcard hquestion.nextKind_eq
        (run_wildcard (.inr rfl) hquestion hsuper (hrun .plain)))

theorem type_reads (type : TypeTree) {exact : Bool} {c stop : Cursor}
    (h : SpansBy exact [type.sketch] c stop) (hlt : nextKind stop ≠ some .lt)
    (hdot : nextKind stop ≠ some .dot) :
    TypeReads type c stop := by
  cases type with
  | primitive type =>
      have hpasses := h.of_node.passes
      have hat : nextKind c ≠ some .atSign := by
        rw [hpasses.nextKind_eq]
        exact fun heq => (PrimitiveType.marks type).1 (Option.some.inj heq)
      exact .of_forall fun r flags => ⟨_, stop, run_typeBase hat
        (run_typeHead_primitive hpasses type.isPrimitiveType), .refl _ _⟩
  | reference reference =>
      obtain ⟨kind, hnext, rfl⟩ := h.of_node.begins reference.begins
      refine (reference_reads reference h.of_node hlt).mono fun r hreads flags => ?_
      obtain ⟨first, mid, hhead, hturns⟩ := hreads
      refine ⟨_, stop, run_typeBase (by rw [hnext]; decide) (run_typeHead_reference hnext ?_),
        .refl _ _⟩
      unfold codeReference
      exact run_look hhead ((hturns flags.eatLastDot).iterate (run_referenceTurn_done hdot))
  | array element =>
      obtain ⟨mid, helement, hlater⟩ := h.of_around
      obtain ⟨behind, hopen, hclose⟩ := hlater.token_cons
      have hnext := hopen.nextKind_eq
      refine (type_reads element helement (by rw [hnext]; decide) (by rw [hnext]; decide)).mono
        fun r hreads flags => ?_
      obtain ⟨parts, first, hbase, hturns⟩ := hreads flags
      exact ⟨parts, first, hbase, hturns.snoc (run_arrayTurn hopen hclose.passes)
        (hclose.passes.length_lt.trans hopen.length_lt)⟩

end

end PatternSyntax.Proofs.TypeRuns
