import PatternSyntax.Grammar.Document
import PatternSyntax.Parse
import PatternSyntax.Proofs.RealizedOperators

/-!
The procedures for labels realize the rules for them, and tables of procedures realize tables of
rules. A whole text is parsed as its outline says.
-/

namespace PatternSyntax.Proofs.Realization

open PatternSyntax.Proofs.Coverage
open PatternSyntax.Proofs.Markers

variable {α β γ δ : Type} {p s : Recorder} {m : Marker} {parts held : List Outline} {i : Nat}

/-- An answer that may be missing, besides which a rule may put something down. -/
def View.found : View (Option Outline) (Option CompletedNode) where
  pending := Option.toList
  silent := False
  shows := (View.outline fun _ => True).option.shows

theorem Realizes.found_of_option {P : Outline → Prop} {f : Procedure (Option CompletedNode)}
    {g : Grammar (Option Outline)} (h : Realizes (View.outline P).option f g) :
    Realizes .found f g := by
  intro p
  have hrun := h p
  generalize g p.cursor = x at hrun
  generalize f p = y at hrun
  cases hrun with
  | fault fault => exact .fault fault
  | @done found handle parts i hsilent hshows =>
      cases found with
      | none =>
          cases handle with
          | none => exact .done (v := .found) (a := none) False.elim trivial
          | some handle => cases hshows
      | some found =>
          cases handle with
          | none => cases hshows
          | some handle =>
              exact .done (v := .found) (a := some found) False.elim ⟨trivial, hshows.2⟩

theorem Outcome.found_some {P : Outline → Prop} {f : Procedure CompletedNode} {g : Grammar Outline}
    (h : Outcome (.outline P) p (g p.cursor) (f p)) :
    Outcome .found p ((do return some (← g)) p.cursor) ((do return some (← f)) p) := by
  rw [bind_eq_behind]
  simp only [bind]
  generalize g p.cursor = x at h
  generalize f p = y at h
  cases h with
  | fault fault => exact .fault fault
  | @done found handle parts i hsilent hshows =>
      cases hsilent trivial
      exact .done (v := .found) (a := some found) False.elim ⟨trivial, hshows.2⟩

theorem Realizes.found_none {f : Procedure α} {g : Grammar α} (h : Realizes .plain f g) :
    Realizes .found (do
      let _ ← f
      return none) (do
      let _ ← g
      return none) :=
  realizes_of_tracks fun _ => tracks_plain h fun _ _ _ =>
    follows_pure (v := .found) (a := none) False.elim trivial

section Rules

variable {q : Procedures} {r : Rules} (h : Agree q r)

theorem realizes_labelEnd : Realizes .plain Procedure.labelEnd Grammar.labelEnd :=
  realizes_of_tracks fun _ => tracks_plain (realizes_eat _) fun _ => tracks_ite
    (fun _ => tracks_pure) fun _ => tracks_plain (realizes_eat _) fun _ => tracks_ite
      (fun _ => tracks_pure) fun _ => (realizes_report _).tracks_last

include h

theorem realizes_labelElement :
    Realizes .plain (Procedure.labelElement q) (Grammar.labelElement r) :=
  realizes_of_tracks fun _ => tracks_ifAt
    (tracks_put (realizes_leaf .defaultCaseLabelElement) fun _ => tracks_pure)
    (tracks_plain (realizes_isPattern h) fun _ => tracks_ite
      (fun _ => tracks_put h.pattern fun _ => tracks_pure)
      fun _ => tracks_mayFind (h.conditional .terminator) tracks_pure
        fun _ _ _ _ _ => follows_put (tracks_pure _ _))

theorem realizes_elementTurn :
    Realizes .plain (Procedure.elementTurn q) (Grammar.elementTurn r) :=
  realizes_of_tracks fun _ => tracks_plain (realizes_labelElement h) fun _ => tracks_ite
    (fun _ => (realizes_eat .comma).tracks_last)
    fun _ => tracks_plain (realizes_report _) fun _ => tracks_pure

/-- Where no label begins, the marker of the label is given up and remains as a placeholder. -/
theorem realizes_switchLabel :
    Realizes .found (Procedure.switchLabel q) (Grammar.switchLabel r) := by
  have hcomplete (p : Recorder) : Tracks p.start.2 ((Aim.answer .found p).before
      (resumed fun captured : Unit × List Outline =>
        pure (some (.node .switchLabel captured.2))))
      (do return some (← Procedure.complete p.start.1 .switchLabel)) (pure ()) :=
    fun _ _ => follows_resumed <| follows_complete (opens_start p) _ fun _ hshows =>
      follows_pure (v := .found) (a := some _) False.elim ⟨trivial, hshows.2⟩
  refine fun p => outcome_marked <| follows_looks_next ?_
  split
  next hdefault =>
      exact follows_eat hdefault <| follows_node <| Tracks.follows <| tracks_plain realizes_bump
        fun _ => tracks_last realizes_labelEnd (hcomplete p)
  next hcase =>
      refine follows_eat_ne (by rw [hcase]; nofun) <| follows_eat hcase <| follows_node <|
        Tracks.follows <| tracks_plain realizes_bump fun _ => ?_
      exact tracks_put (realizes_node fun _ _ _ hm =>
        tracks_last (realizes_repeatWhile (realizes_elementTurn h)) (tracks_complete hm _))
          fun _ => tracks_last realizes_labelEnd (hcomplete p)
  next hdefault hcase =>
      refine follows_eat_ne hdefault <| follows_eat_ne hcase <| follows_abandon <| follows_put <|
        Tracks.follows <| tracks_plain realizes_reportUnexpected fun _ _ _ => ?_
      exact follows_pure (v := .found) (a := none) False.elim trivial

theorem Agree.next : Agree q.next r.next where
  annot := realizes_annot h
  arrayInitializer := realizes_arrayInitializer h
  type := realizes_type h
  pattern := realizes_pattern h
  unary := realizes_unary h
  binary hadmits := realizes_binary h hadmits
  conditional := realizes_conditional h

theorem realizes_subject (s : Subject) :
    Realizes .plain (Procedure.subject q s) (Grammar.subject r s) := by
  refine realizes_of_tracks fun _ => ?_
  cases s with
  | pattern =>
      refine tracks_plain (realizes_isPattern h) fun _ => tracks_ite
        (fun _ => tracks_put_last h.pattern fun _ => tracks_pure)
        fun _ => tracks_put_last (realizes_node fun _ _ _ hm => ?_) fun _ => tracks_pure
      exact tracks_plain (realizes_report _) fun _ =>
        tracks_last realizes_bumpAll (tracks_complete hm _)
  | expression => exact (realizes_orReport (realizes_expression h)).tracks_last
  | switchLabel =>
      refine tracks_bind (realizes_switchLabel h) fun found _ _ _ _ => ?_
      cases found with
      | none => exact tracks_pure _ _
      | some label =>
          show Follows _ _ _ [label] _ _ (Grammar.put label)
          rw [← bind_pure_unit (x := Grammar.put label)]
          exact follows_put (tracks_pure _ _)

end Rules

/-- Tables that go equally deep realize each other. -/
theorem agree_ofDepth (depth : Nat) : Agree (.ofDepth depth) (.ofDepth depth) := by
  induction depth with
  | zero =>
      exact ⟨fun _ => .fault _, fun _ => .fault _, fun _ _ => .fault _, fun _ => .fault _,
        fun _ _ => .fault _, fun _ _ _ => .fault _, fun _ _ => .fault _⟩
  | succ depth ih =>
      rw [Procedures.ofDepth_succ, Rules.ofDepth_succ]
      exact ih.next

/-- What a rule puts down, as an answer. -/
def View.caught : View (α × List Outline) α where
  pending caught := caught.2
  silent := True
  shows _ caught a := caught.1 = a

theorem Realizes.capture {f : Procedure α} {g : Grammar α} (h : Realizes .plain f g) :
    Realizes .caught f (Grammar.capture g) := by
  intro p
  have hrun := h p
  simp only [Grammar.capture]
  generalize g p.cursor = x at hrun
  generalize f p = y at hrun
  cases hrun with
  | fault fault => exact .fault fault
  | @done a b parts i _ hshows =>
      rw [show View.plain.pending a = [] from rfl, List.append_nil]
      have hdone : Outcome .caught p (.ok ⟨(a, parts), [], p.cursorAt i⟩)
          (.ok (b, p.recordAll ([] ++ parts) i)) := .done (fun _ => rfl) hshows
      exact hdone

mutual

theorem map_events {f : Event → α} (hf : ∀ kind span span', f (.error ⟨kind, span⟩) =
      f (.error ⟨kind, span'⟩)) (locate locate' : Nat → Nat) (link : Option Nat)
    (outline : Outline) :
    (outline.events locate link).map f = (outline.events locate' link).map f := by
  cases outline with
  | token kind => rfl
  | error kind index => exact congrArg (fun image => [image]) (hf ..)
  | node kind parts =>
      simp [Outline.events, map_eventsAll hf locate locate' parts]
  | around kind first later =>
      simp [Outline.events, map_events hf locate locate' _ first,
        map_eventsAll hf locate locate' later]
  | loose parts =>
      have hparts := map_eventsAll hf locate locate' parts
      simp only [Outline.events]
      split <;> split <;> simp_all

theorem map_eventsAll {f : Event → α} (hf : ∀ kind span span', f (.error ⟨kind, span⟩) =
      f (.error ⟨kind, span'⟩)) (locate locate' : Nat → Nat) (parts : List Outline) :
    (Outline.eventsAll locate parts).map f = (Outline.eventsAll locate' parts).map f := by
  cases parts with
  | nil => rfl
  | cons part rest =>
      rw [Outline.eventsAll, List.map_append, map_events hf locate locate' none part,
        map_eventsAll hf locate locate' rest, Outline.eventsAll, List.map_append]

end

/-- In a recorder without earlier events, the last error behind the last token was put down. -/
theorem endsInError_start (hevents : p.events = []) (parts : List Outline) (i : Nat) :
    (p.start.2.recordAll parts i).endsInError = Grammar.endsInError parts := by
  have hflags (events : List Event) :
      (events.reverse.takeWhile fun event => !event.isToken).any Event.isError =
        (((events.map fun event => (event.isToken, event.isError)).reverse).takeWhile
          fun flags => !flags.1).any (·.2) := by
    rw [← List.map_reverse, List.takeWhile_map, List.any_map]
    rfl
  have hlocate := map_eventsAll (f := fun event => (event.isToken, event.isError))
    (fun _ _ _ => rfl) (offsetOf p.tokens p.textEnd) id parts
  have hrow : (p.start.2.recordAll parts i).events =
      .placeholder :: Outline.eventsAll (offsetOf p.tokens p.textEnd) parts := by
    simp [Recorder.recordAll, Recorder.start, Recorder.record, hevents]
  rw [Recorder.endsInError, Grammar.endsInError, hflags, hflags, hrow, List.map_cons, hlocate,
    List.reverse_cons, List.takeWhile_append]
  split
  next hlength =>
      rw [List.any_append, List.Sublist.eq_of_length (List.takeWhile_sublist _) hlength]
      exact Bool.or_false _
  next => rfl

theorem outcome_document {q : Procedures} {r : Rules} (h : Agree q r) (s : Subject)
    (hevents : p.events = []) :
    Outcome .node p (Grammar.document r s p.cursor) (Procedure.document q s p) := by
  have hm := opens_start p
  refine outcome_node <| follows_bind_held trivial (realizes_subject h s).capture
    fun caught _ j _ => follows_putAll <| follows_isAtEnd <| follows_ite
      (fun _ => (tracks_complete hm _).follows) fun _ => ?_
  have hview := endsInError_start (i := j) hevents ([] ++ caught.2 ++ [])
  refine follows_views (congrArg (fun seen => Except.ok (seen, _)) hview) ?_
  rw [List.append_nil, List.nil_append]
  exact Tracks.follows <| tracks_put_last (realizes_node fun _ _ _ hm => tracks_ite
    (fun _ => tracks_last realizes_bumpAll (tracks_complete hm _))
    fun _ => tracks_plain realizes_reportUnexpected fun _ =>
      tracks_last realizes_bumpAll (tracks_complete hm _)) fun _ => tracks_complete hm _

/-- Procedures that are run as deep as they need do what rules that are run so deep say. -/
theorem outcome_deepEnough {v : View α β} {f : Procedures → Procedure β} {g : Rules → Grammar α}
    (h : ∀ q r, Agree q r → Outcome v p (g r p.cursor) (f q p)) :
    Outcome v p (Grammar.deepEnough g p.cursor) (Procedure.deepEnough f p) := by
  simp only [Procedure.deepEnough, Grammar.deepEnough, length_rest_cursor]
  exact h _ _ (agree_ofDepth _)

theorem outcome_isPattern (p : Recorder) :
    Outcome .plain p (Grammar.deepEnough Grammar.isPattern p.cursor)
      (Procedure.deepEnough Procedure.isPattern p) :=
  outcome_deepEnough fun _ _ h => realizes_isPattern h p

/-- A text is parsed by recording its outline. -/
theorem ofText_eq (s : Subject) (text : String) :
    Parse.ofText s text = (do
      let outline ← Parse.outline s (Token.tokenize text)
      Parse.ofEvents (Token.tokenize text) (outline.events (offsetOf
        (Token.significant (Token.tokenize text)).toArray text.utf8ByteSize) none)) := by
  have hrun := outcome_deepEnough (p := .ofText text) fun q r h => outcome_document h s rfl
  have houtline : Parse.outline s (Token.tokenize text) =
      (Grammar.deepEnough (fun r => Grammar.document r s) (Recorder.ofText text).cursor).bind
        fun done => .ok done.value := rfl
  have htext : Parse.ofText s text =
      (Procedure.deepEnough (fun q => Procedure.document q s) (Recorder.ofText text)).bind
        fun done => done.2.finish.bind (Parse.ofEvents (Token.tokenize text)) := rfl
  rw [houtline, htext]
  generalize Grammar.deepEnough (fun r => Grammar.document r s) (Recorder.ofText text).cursor = x
    at hrun
  generalize Procedure.deepEnough (fun q => Procedure.document q s) (Recorder.ofText text) = y
    at hrun
  cases hrun with
  | fault fault => rfl
  | @done outline handle parts i hsilent hshows =>
      cases hsilent trivial
      have hfinish : ((Recorder.ofText text).recordAll ([] ++ View.node.pending outline) i).finish =
          .ok (Outline.eventsAll (offsetOf (Recorder.ofText text).tokens text.utf8ByteSize)
            [outline]) := rfl
      rw [Outline.eventsAll, Outline.eventsAll, List.append_nil] at hfinish
      simp only [Except.bind, hfinish]
      rfl

end PatternSyntax.Proofs.Realization
