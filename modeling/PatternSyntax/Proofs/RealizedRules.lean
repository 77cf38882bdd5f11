import PatternSyntax.Parser.Depth
import PatternSyntax.Proofs.RealizedSteps

/-!
The procedures for types, modifiers and patterns realize the rules for them.
-/

namespace PatternSyntax.Proofs.Realization

open PatternSyntax.Proofs.Coverage
open PatternSyntax.Proofs.Markers

variable {p s : Recorder} {m : Marker} {parts held : List Outline} {i : Nat}

/-- A binding power and a level stand for each other: the same operators bind too loosely. -/
def Admits (least level : Nat) : Prop :=
  ∀ operator, 1 ≤ operator → (2 * operator - 1 < least ↔ operator < level)

/-- The procedures of a table realize the rules of another one. -/
structure Agree (q : Procedures) (r : Rules) : Prop where
  annot : Realizes .node q.annot r.annot
  arrayInitializer : Realizes .node q.arrayInitializer r.arrayInitializer
  type (flags : TypeFlags) : Realizes View.node.option (q.type flags) (r.type flags)
  pattern : Realizes (.outline fun _ => True) q.pattern r.pattern
  unary (arrow : ArrowRole) : Realizes View.node.option (q.unary arrow) (r.unary arrow)
  binary {least level : Nat} (h : Admits least level) (arrow : ArrowRole) :
    Realizes View.node.option (q.binary least arrow) (r.binary level arrow)
  conditional (arrow : ArrowRole) :
    Realizes View.node.option (q.conditional arrow) (r.conditional arrow)

variable {q : Procedures} {r : Rules} (h : Agree q r)
include h

theorem realizes_argumentTurn (state : Bool) :
    Realizes .plain (Procedure.argumentTurn q) (Grammar.argumentTurn r state) :=
  realizes_of_tracks fun _ => tracks_mayFind (h.type .argument)
    (tracks_plain (realizes_report .expectedType) fun _ => tracks_pure)
    fun _ _ _ _ _ => follows_put <| tracks_plain (realizes_eat .comma)
      (fun _ => tracks_ite (fun _ => tracks_pure) fun _ => tracks_pure) _ _

theorem realizes_typeArguments :
    Realizes .node (Procedure.typeArguments q) (Grammar.typeArguments r) :=
  realizes_node fun _ _ _ hm => tracks_plain realizes_bump fun _ =>
    tracks_plain (realizes_eat .gt) fun _ => tracks_ite (fun _ => tracks_complete hm _) fun _ =>
      tracks_plain (realizes_iterate (realizes_argumentTurn h) true) fun _ =>
        tracks_ite (fun _ => tracks_last (realizes_expect _ _) (tracks_complete hm _)) fun _ =>
          tracks_plain (realizes_eat .gt) fun _ => tracks_complete hm _

theorem realizes_optionalTypeArguments (allowed : Bool) :
    Realizes .plain (Procedure.optionalTypeArguments q allowed)
      (Grammar.optionalTypeArguments r allowed) :=
  realizes_of_tracks fun _ => tracks_plain (realizes_isAt _) fun _ => tracks_ite
    (fun _ => tracks_put_last (realizes_typeArguments h) fun _ => tracks_pure) fun _ => tracks_pure

theorem realizes_referenceHead (arguments : Bool) :
    Realizes .node (Procedure.marked fun m => do
      Procedure.bump
      Procedure.optionalTypeArguments q arguments
      Procedure.complete m .javaCodeReference) (Grammar.referenceHead r arguments) :=
  realizes_node fun _ _ _ hm => tracks_plain realizes_bump fun _ =>
    tracks_last (realizes_optionalTypeArguments h arguments) (tracks_complete hm _)

theorem resumes_referenceTurn (eatLastDot arguments : Bool) :
    Resumes .node (View.step .node) (Procedure.referenceTurn q eatLastDot arguments)
      (Grammar.referenceTurn r eatLastDot arguments) := by
  refine resumes_of_follows fun p i found handle hshows => follows_isAt (follows_ite (fun _ => ?_)
    fun _ => follows_pure_done hshows)
  refine follows_isAhead (follows_ite (fun _ => ?_) fun _ => follows_ite (fun _ => ?_)
    fun _ => follows_pure_done hshows)
  · exact follows_yield (resumes_around fun _ _ _ _ hm => tracks_plain realizes_bump fun _ =>
      tracks_plain realizes_bump fun _ =>
        tracks_last (realizes_optionalTypeArguments h arguments) (tracks_complete hm _)) hshows
  · exact follows_done (resumes_around fun _ _ _ _ hm => tracks_plain realizes_bump fun _ =>
      tracks_last (realizes_report _) (tracks_complete hm _)) hshows

theorem realizes_codeReference (eatLastDot arguments : Bool) :
    Realizes .node (Procedure.codeReference q eatLastDot arguments)
      (Grammar.codeReference r eatLastDot arguments) :=
  realizes_of_follows fun _ _ => follows_bind_held trivial (realizes_referenceHead h arguments)
    fun _ _ _ hshows => follows_resume_last (resumes_iterate (resumes_referenceTurn h _ _))
      (fun _ => rfl) hshows

omit h in
theorem resumes_arrayTurn :
    Resumes .node (View.step .node) Procedure.arrayTurn Grammar.arrayTurn :=
  resumes_of_follows fun _ _ _ _ hshows => follows_isAt <| follows_isAhead <| follows_ite
    (fun _ => follows_yield (resumes_around fun _ _ _ _ hm => tracks_plain realizes_bump fun _ =>
      tracks_last realizes_bump (tracks_complete hm _)) hshows)
    fun _ => follows_pure_done hshows

omit h in
theorem resumes_typeSuffix (flags : TypeFlags) :
    Resumes .node .node (Procedure.typeSuffix flags) (Grammar.typeSuffix flags) := by
  refine resumes_of_follows fun p i found handle hshows =>
    follows_resume (resumes_iterate resumes_arrayTurn) hshows
      fun array handle new j hnew hshows => ?_
  cases hnew trivial
  refine follows_isAt (follows_ite (fun _ => ?_) fun _ => follows_pure (fun _ => rfl) hshows)
  exact follows_resume_last (resumes_around fun _ _ _ _ hm =>
    tracks_last realizes_bump (tracks_complete hm _)) (fun _ => rfl) hshows

theorem realizes_annotTurn : Realizes .plain (Procedure.annotTurn q) (Grammar.annotTurn r) :=
  realizes_of_tracks fun _ => tracks_plain (realizes_isAt _) fun _ =>
    tracks_plain (realizes_isAhead _ _) fun _ =>
      tracks_ite (fun _ => tracks_put h.annot fun _ => tracks_pure) fun _ => tracks_pure

omit h in
theorem tracks_typeSuffix {α : Type} {rest : α × List Outline → Grammar (Option Outline)} {a : α}
    {flags : TypeFlags} (hrest : ∀ parts, rest (a, parts) = do
      return some (← Grammar.typeSuffix flags (.node .type parts))) :
    Tracks p.start.2 ((attempted .node p).before (resumed rest)) (do
      return some (← Procedure.typeSuffix flags (← Procedure.complete p.start.1 .type)))
      (pure a) := by
  refine fun parts i => follows_resumed <| follows_complete (opens_start p) .type fun _ hshows => ?_
  rw [hrest parts]
  refine follows_resume (resumes_typeSuffix flags) hshows fun _ _ new _ hnew hshows => ?_
  cases hnew trivial
  exact follows_some hshows

theorem tracks_wildcard {rest : Grammar.TypeForm × List Outline → Grammar (Option Outline)}
    (hrest : ∀ parts, rest (.wildcard, parts) = pure (some (.node .type parts))) :
    Tracks p.start.2 ((attempted .node p).before (resumed rest)) (do
      return some (← Procedure.wildcard q p.start.1)) (do
      Grammar.wildcard r
      return .wildcard) := by
  simp only [Procedure.wildcard, Grammar.wildcard, bind_assoc]
  refine tracks_plain realizes_bump fun _ => tracks_plain (realizes_isAt _) fun _ =>
    tracks_plain (realizes_isAt _) fun _ => ?_
  split
  · simp only [bind_assoc]
    exact tracks_plain realizes_bump fun _ =>
      tracks_plain (realizes_orReport (h.type .plain)) fun _ => tracks_complete_some hrest
  · exact tracks_complete_some hrest

/-- A type begins with a marker that is finished behind a name or a wildcard, and is given up where
neither lies ahead. -/
theorem realizes_type (flags : TypeFlags) :
    Realizes View.node.option (Procedure.type q flags) (Grammar.type r flags) := by
  refine realizes_attempt fun p => Tracks.follows <|
    tracks_plain (realizes_repeatWhile (realizes_annotTurn h)) fun _ parts i => follows_next ?_
  cases hnext : nextKind (p.start.2.cursorAt i) with
  | none =>
      refine follows_sees ?_
      rw [hnext]
      refine follows_sees ?_
      rw [hnext, show (none == some TokenKind.question) = false from rfl, Bool.and_false]
      exact Tracks.follows <| tracks_undo fun _ => rfl
  | some kind =>
      refine follows_ite (fun _ => ?_) fun _ => ?_
      · exact Tracks.follows <| tracks_plain realizes_bump fun _ => tracks_typeSuffix fun _ => rfl
      · refine follows_sees ?_
        rw [hnext]
        refine follows_ite (fun _ => ?_) fun _ => ?_
        · exact Tracks.follows <| tracks_put (realizes_codeReference h _ _)
            fun _ => tracks_typeSuffix fun _ => rfl
        · refine follows_sees ?_
          rw [hnext]
          exact Tracks.follows <| tracks_ite (fun _ => tracks_wildcard h fun _ => rfl)
            fun _ => tracks_undo fun _ => rfl

theorem realizes_annotValue :
    Realizes .plain (Procedure.annotValue q) (Grammar.annotValue r) :=
  realizes_of_tracks fun _ => tracks_ifAt (tracks_put_last h.annot fun _ => tracks_pure) <|
    tracks_ifAt (tracks_put_last h.arrayInitializer fun _ => tracks_pure) <|
      (realizes_orReport (h.conditional .lambda)).tracks_last

theorem realizes_annotParameterTurn :
    Realizes .plain (Procedure.annotParameterTurn q) (Grammar.annotParameterTurn r) := by
  refine realizes_of_tracks fun _ => ?_
  simp only [Grammar.annotParameterTurn, Grammar.annotParameter, bind_assoc]
  refine tracks_plain (realizes_isAt _) fun _ => tracks_plain (realizes_isAhead _ _) fun _ => ?_
  split
  · simp only [bind_assoc]
    exact tracks_put (realizes_node fun _ _ _ hm => tracks_plain realizes_bump fun _ =>
      tracks_plain realizes_bump fun _ =>
        tracks_last (realizes_annotValue h) (tracks_complete hm _)) fun _ =>
          (realizes_eat .comma).tracks_last
  · exact tracks_plain (realizes_annotValue h) fun _ => (realizes_eat .comma).tracks_last

theorem realizes_annotParameters :
    Realizes .node (Procedure.annotParameters q) (Grammar.annotParameters r) :=
  realizes_node fun _ _ _ hm => tracks_plain realizes_bump fun _ => tracks_ifAt
    (tracks_last (realizes_expect _ _) (tracks_complete hm _))
    (tracks_plain (realizes_repeatWhile (realizes_annotParameterTurn h)) fun _ =>
      tracks_last (realizes_expect _ _) (tracks_complete hm _))

theorem realizes_annot : Realizes .node (Procedure.annot q) (Grammar.annot r) := by
  have hparameters {p s : Recorder} {m : Marker} (hm : Opens p s m .node) :
      Tracks s (finishing (.node .annot) p) (do
        if ← Procedure.isAt .openParen then
          let _ ← Procedure.annotParameters q
        Procedure.complete m .annot) (Grammar.optionalAnnotParameters r) :=
    tracks_ifAt (tracks_put_last (realizes_annotParameters h) fun _ => tracks_complete hm _)
      (tracks_complete hm _)
  exact realizes_node fun _ _ _ hm => tracks_plain realizes_bump fun _ => tracks_ifAt
    (tracks_put (realizes_codeReference h _ _) fun _ => hparameters hm)
    (tracks_plain (realizes_report _) fun _ => hparameters hm)

theorem realizes_modifierTurn (allowed : TokenSet) :
    Realizes .plain (Procedure.modifierTurn q allowed) (Grammar.modifierTurn r allowed) := by
  refine realizes_of_follows fun p i => follows_next ?_
  cases nextKind (p.cursorAt i) with
  | none => exact tracks_pure _ _
  | some kind =>
      exact Tracks.follows <| tracks_ite
        (fun _ => tracks_plain realizes_bump fun _ => tracks_pure)
        fun _ => tracks_plain (realizes_isAhead _ _) fun _ =>
          tracks_ite (fun _ => tracks_put h.annot fun _ => tracks_pure) fun _ => tracks_pure

theorem realizes_modifierList (allowed : TokenSet) :
    Realizes .node (Procedure.modifierList q allowed) (Grammar.modifierList r allowed) :=
  realizes_node fun _ _ _ hm =>
    tracks_last (realizes_repeatWhile (realizes_modifierTurn h allowed)) (tracks_complete hm _)

theorem realizes_isPattern : Realizes .plain (Procedure.isPattern q) (Grammar.isPattern r) := by
  refine realizes_lookahead fun p => tracks_plain (realizes_repeatWhile (realizes_eat _)) fun _ =>
    tracks_put (realizes_modifierList h _) fun _ => tracks_mayFind (h.type .pattern)
      (fun _ _ => follows_sees <| follows_sees <| Tracks.follows tracks_rollback)
      fun _ _ _ _ _ => follows_put <| Tracks.follows <| tracks_plain (realizes_isAt _) fun _ =>
        tracks_plain (realizes_isAt _) fun _ => tracks_rollback

theorem realizes_component (isFirst : Bool) :
    Realizes .plain (Procedure.component q isFirst) (Grammar.component r isFirst) :=
  realizes_of_tracks fun _ => tracks_plain realizes_isAtEnd fun _ =>
    tracks_ite (fun _ => tracks_pure) fun _ => tracks_plain (realizes_isPattern h) fun _ =>
      tracks_ite (fun _ => tracks_put h.pattern fun _ => tracks_pure) fun _ =>
        tracks_plain (realizes_report _) fun _ =>
          tracks_ifAt tracks_pure (tracks_plain realizes_bump fun _ => tracks_pure)

theorem realizes_componentTurn (isFirst : Bool) :
    Realizes .plain (Procedure.componentTurn q isFirst) (Grammar.componentTurn r isFirst) :=
  realizes_of_tracks fun _ => tracks_ifAt tracks_pure <| tracks_ite
    (fun _ => (realizes_component h isFirst).tracks_last)
    fun _ => tracks_plain (realizes_expect _ _) fun _ => (realizes_component h isFirst).tracks_last

theorem outcome_recordStructure (hopen : nextKind p.cursor = some .openParen) :
    Outcome .node p (Grammar.recordStructure r p.cursor) (Procedure.recordStructure q p) :=
  outcome_node <| follows_eat hopen <| Tracks.follows <| tracks_plain realizes_bump fun _ =>
    tracks_plain (realizes_iterate (realizes_componentTurn h) true) fun _ =>
      tracks_last (realizes_expect _ _) (tracks_complete (opens_start p) _)

/-- A node that is begun, and whether it will be a record. -/
def inside : View Outline Bool where
  pending
    | .node _ parts => parts
    | _ => []
  silent := True
  shows _ found isRecord :=
    ∃ parts, found = .node (if isRecord then .recordPattern else .typeTestPattern) parts

omit h in
theorem follows_inside {isRecord : Bool} {parts : List Outline} :
    Follows p (.answer inside p) [] parts i (pure isRecord)
      (pure (.node (if isRecord then .recordPattern else .typeTestPattern) parts)) :=
  follows_pure (v := inside) (fun _ => rfl) ⟨parts, rfl⟩

theorem realizes_typeOrRecord :
    Realizes inside (Procedure.typeOrRecord q) (Grammar.typeOrRecordPattern r) := by
  intro p
  have hm := opens_start p
  refine outcome_marked <| follows_bind_held trivial (realizes_modifierList h _)
    fun modifiers _ _ _ => follows_mayFind (h.type .pattern) (fun _ => follows_fail)
      fun type _ j _ => follows_isAt ?_
  cases hopen : nextKind (p.start.2.cursorAt j) == some .openParen with
  | true =>
      have habandon {parts : List Outline} {i : Nat} : Follows p.start.2 (.answer inside p) []
          parts i (Procedure.abandon p.start.1 >>= fun _ => pure true)
          (pure (.node .recordPattern [.loose parts])) := follows_abandon follows_inside
      refine follows_capture <| follows_put <| follows_put <| follows_bind_here
        (outcome_recordStructure h (beq_iff_eq.1 hopen)) fun _ _ _ _ _ => follows_put ?_
      exact Tracks.follows <| tracks_plain (realizes_isAt _) fun _ => tracks_ite
        (fun _ => tracks_put_last (realizes_node fun _ _ _ hm =>
          tracks_last realizes_bump (tracks_complete hm _))
            fun _ _ _ => follows_resumed habandon)
        fun _ _ _ => follows_resumed habandon
  | false =>
      refine follows_isAt ?_
      cases nextKind (p.start.2.cursorAt j) == some .ident with
      | true =>
          refine follows_node <| follows_put <| follows_put <| Tracks.follows ?_
          exact tracks_last realizes_bump fun _ _ =>
            follows_resumed <| follows_complete hm .patternVariable fun _ _ => follows_inside
      | false => exact follows_fail

theorem realizes_typeOrRecordPattern :
    Realizes .node (Procedure.typeOrRecordPattern q) (Grammar.typeOrRecordPattern r) := by
  refine fun p => outcome_marked ?_
  rw [← bind_pure (Grammar.typeOrRecordPattern r)]
  refine follows_bind_held trivial (realizes_typeOrRecord h) fun found isRecord _ hshows => ?_
  obtain ⟨parts, rfl⟩ := hshows
  exact follows_finish (fun _ => id) (opens_start p) _

theorem realizes_primaryPattern :
    Realizes .node (Procedure.primaryPattern q) (Grammar.primaryPattern r) :=
  realizes_of_follows fun _ _ => follows_isAt <| follows_ite
    (fun _ => Realizes.follows_last <| realizes_node fun _ _ _ hm =>
      tracks_plain realizes_bump fun _ => tracks_put h.pattern fun _ =>
        tracks_last (realizes_expect _ _) (tracks_complete hm _))
    fun _ => (realizes_typeOrRecordPattern h).follows_last

omit h in
theorem admits_guard : Admits Procedure.guardPower Grammar.guardLevel := by
  unfold Admits Procedure.guardPower Grammar.guardLevel
  omega

theorem realizes_pattern :
    Realizes (.outline fun _ => True) (Procedure.pattern q) (Grammar.pattern r) := by
  refine fun p => outcome_marked <| follows_bind_held trivial (realizes_primaryPattern h)
    fun primary handle j hshows => follows_isAt <| follows_ite (fun _ => ?_) fun _ => ?_
  · refine follows_capture <| follows_put <| Tracks.follows <| tracks_plain realizes_bump fun _ =>
      tracks_last (realizes_orReport (h.binary admits_guard .terminator)) fun _ _ => ?_
    exact follows_resumed <| follows_finish (fun _ _ => trivial) (opens_start p) _
  · obtain ⟨-, kind, htop, rfl⟩ := hshows
    refine follows_abandon <| follows_pure (v := .outline fun _ => True) (fun _ => rfl)
      ⟨trivial, kind, htop, ?_⟩
    have hlength : p.start.2.events.length = p.events.length + 1 := List.length_append
    show CompletedNode.mk (p.start.2.events.length + primary.lead) _ =
      ⟨p.events.length + (primary.lead + 1), _⟩
    rw [hlength, Nat.add_assoc, Nat.add_comm 1]

end PatternSyntax.Proofs.Realization
