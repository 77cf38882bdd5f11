import PatternSyntax.Parser.Depth
import PatternSyntax.Proofs.Markers
import PatternSyntax.Proofs.Runs

/-!
Procedures that realize rules. A rule says what a procedure leaves behind: run from the same place,
the procedure records the outlines that the rule puts down and those that it answers with, and
closes every marker that it has opened.
-/

namespace PatternSyntax

theorem Terminal.length_ofTokens (tokens : List Token) :
    (ofTokens tokens).length = tokens.length := by
  simpa using congrArg List.length (map_kind_ofTokens tokens)

theorem Terminal.tail_ofTokens (tokens : List Token) :
    (ofTokens tokens).tail = ofTokens tokens.tail := by
  fun_cases ofTokens tokens <;> rfl

namespace Proofs.Realization

open PatternSyntax.Proofs.Coverage
open PatternSyntax.Proofs.Markers

variable {α β γ δ : Type} {p s : Recorder} {m : Marker} {parts held : List Outline} {i : Nat}

/-- How the answer of a rule and the answer of the procedure for it belong together. -/
structure View (α β : Type) where
  /-- The outlines of an answer, which the procedure has recorded and the rule has not put down. -/
  pending : α → List Outline
  /-- Whether the rule puts nothing down besides. -/
  silent : Prop
  /-- Whether answers belong together, if so many events come before the pending outlines. -/
  shows : Nat → α → β → Prop

namespace View

def plain : View α α where
  pending _ := []
  silent := False
  shows _ a b := a = b

/-- An outline that has a property, and the handle of its topmost node. -/
def outline (P : Outline → Prop) : View Outline CompletedNode where
  pending found := [found]
  silent := True
  shows before found handle :=
    P found ∧ ∃ kind, found.top? = some kind ∧ handle = ⟨before + found.lead, .node kind⟩

abbrev node : View Outline CompletedNode :=
  outline IsNode

def option (v : View α β) : View (Option α) (Option β) where
  pending found := found.elim [] v.pending
  silent := v.silent
  shows before
    | none, none => True
    | some a, some b => v.shows before a b
    | _, _ => False

/-- What a loop carries, and whether it goes on. -/
def step (v : View α β) : View (ForInStep α) (ForInStep β) where
  pending
    | .done a => v.pending a
    | .yield a => v.pending a
  silent := v.silent
  shows before
    | .done a, .done b => v.shows before a b
    | .yield a, .yield b => v.shows before a b
    | _, _ => False

end View

/-- What a rule and the procedure for it come to, run from the same place: both end in the same
fault, or both end at the same place, and the procedure has recorded what the rule has put down and
what it answers with. -/
inductive Outcome (v : View α β) (p : Recorder) :
    Except Fault (Parsed α) → Except Fault (β × Recorder) → Prop
  | fault (fault : Fault) : Outcome v p (.error fault) (.error fault)
  | done {a : α} {b : β} {parts : List Outline} {i : Nat} (hsilent : v.silent → parts = [])
      (hshows : v.shows (p.events.length + Outline.sizeAll parts) a b) :
      Outcome v p (.ok ⟨a, parts, p.cursorAt i⟩) (.ok (b, p.recordAll (parts ++ v.pending a) i))

theorem Outcome.exists_of_ok {v : View α β} {x : Except Fault (Parsed α)} {b : β} {q : Recorder}
    (h : Outcome v p x (.ok (b, q))) :
    ∃ a parts i, x = .ok ⟨a, parts, p.cursorAt i⟩ ∧ (v.silent → parts = []) ∧
      v.shows (p.events.length + Outline.sizeAll parts) a b ∧
      q = p.recordAll (parts ++ v.pending a) i := by
  generalize hrun : Except.ok (b, q) = y at h
  cases h with
  | fault fault => cases hrun
  | done hsilent hshows =>
      cases hrun
      exact ⟨_, _, _, rfl, hsilent, hshows, rfl⟩

theorem Outcome.exists_of_rule_ok {v : View α β} {done : Parsed α}
    {y : Except Fault (β × Recorder)} (h : Outcome v p (.ok done) y) :
    ∃ b i, done.cursor = p.cursorAt i ∧ (v.silent → done.parts = []) ∧
      v.shows (p.events.length + Outline.sizeAll done.parts) done.value b ∧
      y = .ok (b, p.recordAll (done.parts ++ v.pending done.value) i) := by
  cases h with
  | done hsilent hshows => exact ⟨_, _, rfl, hsilent, hshows, rfl⟩

theorem Outcome.eq_error_iff {v : View α β} {x : Except Fault (Parsed α)}
    {y : Except Fault (β × Recorder)} (h : Outcome v p x y) (fault : Fault) :
    y = .error fault ↔ x = .error fault := by
  cases h with
  | fault fault => simp
  | done => exact iff_of_false nofun nofun

/-- The procedure does what the rule says, wherever it is run. -/
def Realizes (v : View α β) (f : Procedure β) (g : Grammar α) : Prop :=
  ∀ p, Outcome v p (g p.cursor) (f p)

/-- The procedure does what the rule says, if it is run where an answer has just been given. -/
def Resumes (w : View α β) (v : View γ δ) (f : β → Procedure δ) (g : α → Grammar γ) : Prop :=
  ∀ p i a b, w.shows p.events.length a b →
    Outcome v p (g a (p.cursorAt i)) (f b (p.recordAll (w.pending a) i))

/-- A rule that has put outlines down before. -/
def behind (parts : List Outline) (run : Except Fault (Parsed α)) : Except Fault (Parsed α) :=
  run.map fun done => ⟨done.value, parts ++ done.parts, done.cursor⟩

theorem bind_eq_behind (g : Grammar α) (f : α → Grammar β) (c : Cursor) :
    (g >>= f) c = (g c).bind fun first => behind first.parts (f first.value first.cursor) := by
  rw [Runs.bind_apply]
  cases g c with
  | error fault => rfl
  | ok first =>
      simp only [Except.bind, behind]
      cases f first.value first.cursor with
      | error fault => rfl
      | ok second => rfl

theorem behind_behind (parts later : List Outline) (run : Except Fault (Parsed α)) :
    behind parts (behind later run) = behind (parts ++ later) run := by
  cases run with
  | error fault => rfl
  | ok done => simp [behind, Except.map]

theorem behind_nil (run : Except Fault (Parsed α)) : behind [] run = run := by
  cases run with
  | error fault => rfl
  | ok done => rfl

theorem Outcome.behind {v : View α β} {x : Except Fault (Parsed α)}
    {y : Except Fault (β × Recorder)} (h : Outcome v (p.recordAll parts i) x y)
    (hsilent : v.silent → parts = []) : Outcome v p (behind parts x) y := by
  cases h with
  | fault fault => exact .fault fault
  | done hmore hshows =>
      rw [recordAll_recordAll, ← List.append_assoc]
      refine .done (fun h => by rw [hsilent h, hmore h, List.nil_append]) ?_
      rwa [Outline.sizeAll_append, ← Nat.add_assoc, ← length_events_recordAll]

instance : LawfulMonad Procedure :=
  .mk' Procedure
    (fun f => by
      funext p
      simp only [Functor.map, Function.comp, id]
      cases f p <;> rfl)
    (fun _ _ => rfl)
    (fun f _ _ => by
      funext p
      simp only [bind]
      cases f p <;> rfl)

instance : LawfulMonad Grammar :=
  .mk' Grammar
    (fun g => by
      funext c
      refine (bind_eq_behind g (pure ∘ id) c).trans ?_
      cases g c with
      | error fault => rfl
      | ok done => simp [Except.bind, behind, Except.map, pure, Function.comp])
    (fun a g => by
      funext c
      rw [bind_eq_behind]
      exact behind_nil _)
    (fun g f h => by
      funext c
      rw [bind_eq_behind, bind_eq_behind, bind_eq_behind]
      cases g c with
      | error fault => rfl
      | ok first =>
          simp only [Except.bind, bind_eq_behind]
          cases f first.value first.cursor with
          | error fault => rfl
          | ok second => exact (behind_behind ..).symm)

/-- What is to be shown of two runs. -/
structure Aim (α β : Type) where
  Meets : Except Fault (Parsed α) → Except Fault (β × Recorder) → Prop
  fault : ∀ fault, Meets (.error fault) (.error fault)

namespace Aim

/-- The outcome is as it should be. -/
def answer (v : View α β) (p : Recorder) : Aim α β :=
  ⟨Outcome v p, .fault⟩

/-- The same, once the rule has gone on. -/
def before (A : Aim γ β) (next : Parsed α → Except Fault (Parsed γ)) : Aim α β :=
  ⟨fun x y => A.Meets (x.bind next) y, fun fault => A.fault fault⟩

end Aim

/-- In the middle of a run: since the recorder was `base`, the rule has put `parts` down; it holds
answers that are recorded as `held`. -/
def Follows (base : Recorder) (A : Aim α β) (parts held : List Outline) (i : Nat)
    (f : Procedure β) (g : Grammar α) : Prop :=
  A.Meets (behind parts (g (base.cursorAt i))) (f (base.recordAll (parts ++ held) i))

/-- The same, whatever has been put down, if nothing is held. -/
def Tracks (base : Recorder) (A : Aim α β) (f : Procedure β) (g : Grammar α) : Prop :=
  ∀ parts i, Follows base A parts [] i f g

theorem Tracks.follows {A : Aim α β} {f : Procedure β} {g : Grammar α} (h : Tracks p A f g) :
    Follows p A parts [] i f g :=
  h parts i

theorem Realizes.outcome {v : View α β} {f : Procedure β} {g : Grammar α} (h : Realizes v f g)
    (parts : List Outline) (i : Nat) :
    Outcome v (p.recordAll parts i) (g (p.cursorAt i)) (f (p.recordAll parts i)) :=
  h _

theorem realizes_of_follows {v : View α β} {f : Procedure β} {g : Grammar α}
    (h : ∀ p i, Follows p (.answer v p) [] [] i f g) : Realizes v f g := by
  intro p
  have hrun := h p p.index
  unfold Follows at hrun
  rwa [behind_nil, List.append_nil, recordAll_nil] at hrun

theorem resumes_of_follows {w : View α β} {v : View γ δ} {f : β → Procedure δ} {g : α → Grammar γ}
    (h : ∀ p i a b, w.shows p.events.length a b →
      Follows p (.answer v p) [] (w.pending a) i (f b) (g a)) : Resumes w v f g := by
  intro p i a b hshows
  have hrun := h p i a b hshows
  unfold Follows at hrun
  rwa [behind_nil, List.nil_append] at hrun

section Steps

variable {A : Aim γ δ} {v : View α β} {f : Procedure β} {g : Grammar α} {F : β → Procedure δ}
  {G : α → Grammar γ}

/-- The procedure for a rule is run while answers are held, of which it takes those that it is given
up. If it is run while others are kept, then the rule has to be silent. -/
theorem follows_bind (kept used : List Outline) (hkept : kept = [] ∨ v.silent)
    (hfirst : Outcome v (p.recordAll (parts ++ kept) i) (g (p.cursorAt i))
      (f (p.recordAll (parts ++ kept ++ used) i)))
    (hrest : ∀ a b new j, (v.silent → new = []) →
      v.shows (p.events.length + Outline.sizeAll (parts ++ kept ++ new)) a b →
      Follows p A (parts ++ new) (kept ++ v.pending a) j (F b) (G a)) :
    Follows p A parts (kept ++ used) i (f >>= F) (g >>= G) := by
  unfold Follows
  rw [bind_eq_behind, ← List.append_assoc]
  simp only [bind]
  generalize g (p.cursorAt i) = x at hfirst
  generalize f (p.recordAll (parts ++ kept ++ used) i) = y at hfirst
  cases hfirst with
  | fault fault => exact A.fault fault
  | @done a b new j hsilent hshows =>
      rw [length_events_recordAll, Nat.add_assoc, ← Outline.sizeAll_append] at hshows
      have hrun := hrest a b new j hsilent hshows
      unfold Follows at hrun
      simp only [Except.bind, behind_behind, recordAll_recordAll, cursorAt_recordAll]
      rcases hkept with rfl | hkept
      · simpa using hrun
      · rw [hsilent hkept] at hrun ⊢
        simpa using hrun

theorem follows_bind_here (hfirst : Outcome v (p.recordAll parts i) (g (p.cursorAt i))
      (f (p.recordAll parts i)))
    (hrest : ∀ a b new j, v.shows (p.events.length + Outline.sizeAll (parts ++ new)) a b →
      Follows p A (parts ++ new) (v.pending a) j (F b) (G a)) :
    Follows p A parts [] i (f >>= F) (g >>= G) := by
  refine follows_bind (v := v) [] [] (.inl rfl) ?_ fun a b new j _ hshows => ?_
  · rwa [List.append_nil, List.append_nil]
  · rw [List.append_nil] at hshows
    exact hrest a b new j hshows

theorem tracks_bind (hfirst : Realizes v f g) (hrest : ∀ a b parts j,
    v.shows (p.events.length + Outline.sizeAll parts) a b →
      Follows p A parts (v.pending a) j (F b) (G a)) : Tracks p A (f >>= F) (g >>= G) :=
  fun _ _ => follows_bind_here (hfirst.outcome _ _) fun a b _ j => hrest a b _ j

theorem follows_bind_held (hsilent : v.silent) (hfirst : Realizes v f g)
    (hrest : ∀ a b j, v.shows (p.events.length + Outline.sizeAll (parts ++ held)) a b →
      Follows p A parts (held ++ v.pending a) j (F b) (G a)) :
    Follows p A parts held i (f >>= F) (g >>= G) := by
  rw [← List.append_nil held]
  refine follows_bind held [] (.inr hsilent) ?_ fun a b new j hnew hshows => ?_
  · rw [List.append_nil]
    exact hfirst.outcome _ _
  · rw [hnew hsilent, List.append_nil] at hshows ⊢
    exact hrest a b j hshows

theorem follows_resume {ε ζ : Type} {w : View ε ζ} {f : ζ → Procedure β} {g : ε → Grammar α} {a : ε}
    {b : ζ} (hfirst : Resumes w v f g)
    (hshows : w.shows (p.events.length + Outline.sizeAll parts) a b)
    (hrest : ∀ a b new j, (v.silent → new = []) →
      v.shows (p.events.length + Outline.sizeAll (parts ++ new)) a b →
      Follows p A (parts ++ new) (v.pending a) j (F b) (G a)) :
    Follows p A parts (w.pending a) i (f b >>= F) (g a >>= G) := by
  refine follows_bind (v := v) [] _ (.inl rfl) ?_ fun a b new j hnew hshows => ?_
  · rw [List.append_nil]
    rw [← length_events_recordAll p parts i] at hshows
    have hrun := hfirst _ i a b hshows
    rwa [recordAll_recordAll] at hrun
  · rw [List.append_nil] at hshows
    exact hrest a b new j hnew hshows

end Steps

section Ends

variable {v : View α β} {f : Procedure β} {g : Grammar α}

theorem follows_pure {a : α} {b : β} (hsilent : v.silent → parts = [])
    (hshows : v.shows (p.events.length + Outline.sizeAll parts) a b) :
    Follows p (.answer v p) parts (v.pending a) i (pure b) (pure a) := by
  have hdone := Outcome.done (v := v) (p := p) (i := i) hsilent hshows
  unfold Follows
  simpa [behind, Except.map, pure, Aim.answer] using hdone

theorem Realizes.tracks (h : Realizes v f g) (hsilent : ¬v.silent) :
    Tracks p (.answer v p) f g := by
  intro parts i
  unfold Follows
  rw [List.append_nil]
  exact (h.outcome parts i).behind fun h => absurd h hsilent

theorem follows_resume_last {w : View γ δ} {f : δ → Procedure β} {g : γ → Grammar α} {a : γ} {b : δ}
    (h : Resumes w v f g) (hsilent : v.silent → parts = [])
    (hshows : w.shows (p.events.length + Outline.sizeAll parts) a b) :
    Follows p (.answer v p) parts (w.pending a) i (f b) (g a) := by
  rw [← length_events_recordAll p parts i] at hshows
  have hrun := h _ i a b hshows
  rw [recordAll_recordAll] at hrun
  exact hrun.behind hsilent

theorem Realizes.follows_last (h : Realizes v f g) : Follows p (.answer v p) [] [] i f g := by
  unfold Follows
  rw [behind_nil]
  have hrun := (h.outcome (p := p) [] i).behind fun _ => rfl
  rwa [behind_nil] at hrun

theorem follows_congr {A : Aim γ δ} {f f' : Procedure β} {F : β → Procedure δ} {g : Grammar γ}
    (heq : f (p.recordAll (parts ++ held) i) = f' (p.recordAll (parts ++ held) i))
    (h : Follows p A parts held i (f' >>= F) g) : Follows p A parts held i (f >>= F) g := by
  have hbind : (f >>= F) (p.recordAll (parts ++ held) i) =
      (f' >>= F) (p.recordAll (parts ++ held) i) := by
    simp only [bind, heq]
  unfold Follows at h ⊢
  rw [hbind]
  exact h

theorem follows_fail {A : Aim α β} {fault : Fault} {F : γ → Procedure β} :
    Follows p A parts held i (Procedure.fail fault >>= F) (Grammar.fail fault) :=
  A.fault fault

theorem follows_ite {A : Aim α β} {q : Prop} [Decidable q] {f f' : Procedure β} {g g' : Grammar α}
    (hyes : q → Follows p A parts held i f g) (hno : ¬q → Follows p A parts held i f' g') :
    Follows p A parts held i (if q then f else f') (if q then g else g') := by
  split
  · exact hyes ‹q›
  · exact hno ‹¬q›

theorem follows_putAll {A : Aim α β} {g : Unit → Grammar α}
    (h : Follows p A (parts ++ held) [] i f (g ())) :
    Follows p A parts held i f (Grammar.putAll held >>= g) := by
  unfold Follows at h ⊢
  rw [bind_eq_behind]
  simp only [Grammar.putAll, Except.bind, behind_behind]
  rwa [List.append_nil] at h

theorem follows_put {A : Aim α β} {found : Outline} {g : Unit → Grammar α}
    (h : Follows p A (parts ++ [found]) held i f (g ())) :
    Follows p A parts (found :: held) i f (Grammar.put found >>= g) := by
  unfold Follows at h ⊢
  rw [bind_eq_behind]
  simp only [Grammar.put, Except.bind, behind_behind]
  simpa using h

end Ends

section Looks

variable {A : Aim α β}

theorem follows_look {γ : Type} {view : Procedure γ} {rule : Grammar γ} {v : γ}
    {f : γ → Procedure β} {g : γ → Grammar α}
    (hview : view (p.recordAll (parts ++ held) i) = .ok (v, p.recordAll (parts ++ held) i))
    (hrule : rule (p.cursorAt i) = .ok ⟨v, [], p.cursorAt i⟩)
    (h : Follows p A parts held i (f v) (g v)) :
    Follows p A parts held i (view >>= f) (rule >>= g) := by
  unfold Follows at h ⊢
  rw [bind_eq_behind, hrule]
  simp only [bind, hview, Except.bind, behind_behind, List.append_nil]
  exact h

theorem length_rest_cursorAt (p : Recorder) (i : Nat) :
    (p.cursorAt i).rest.length = p.tokens.size - i := by
  simp [Recorder.cursorAt, Terminal.length_ofTokens]

theorem length_rest_cursor (p : Recorder) : p.cursor.rest.length = p.tokens.size - p.index :=
  length_rest_cursorAt p p.index

theorem map_kind_rest (n : Nat) :
    (p.cursorAt i).rest[n]?.map (·.kind) = p.tokens[i + n]?.map (·.kind) := by
  have hkinds := congrArg (·[n]?) (Terminal.map_kind_ofTokens (p.tokens.toList.drop i))
  simpa [Recorder.cursorAt] using hkinds

theorem nextKind_cursorAt : nextKind (p.cursorAt i) = p.tokens[i]?.map (·.kind) :=
  map_kind_rest 0

theorem isEmpty_rest : (p.cursorAt i).rest.isEmpty = (nextKind (p.cursorAt i)).isNone := by
  unfold nextKind
  cases (p.cursorAt i).rest with
  | nil => rfl
  | cons terminal rest => rfl

variable {F : Option TokenKind → Procedure β} {G : Option TokenKind → Grammar α}
  {H : Bool → Procedure β} {K : Bool → Grammar α} {n : Nat} {kind : TokenKind}

theorem follows_ahead (h : Follows p A parts held i (F ((p.cursorAt i).rest[n]?.map (·.kind)))
      (G ((p.cursorAt i).rest[n]?.map (·.kind)))) :
    Follows p A parts held i (Procedure.ahead n >>= F) (Grammar.ahead n >>= G) :=
  follows_look (by rw [map_kind_rest]; rfl) rfl h

theorem follows_next (h : Follows p A parts held i (F (nextKind (p.cursorAt i)))
      (G (nextKind (p.cursorAt i)))) :
    Follows p A parts held i (Procedure.next >>= F) (Grammar.next >>= G) :=
  follows_ahead h

theorem follows_isAhead
    (h : Follows p A parts held i (H ((p.cursorAt i).rest[n]?.map (·.kind) == some kind))
      (K ((p.cursorAt i).rest[n]?.map (·.kind) == some kind))) :
    Follows p A parts held i (Procedure.isAhead n kind >>= H) (Grammar.isAhead n kind >>= K) :=
  follows_look (by rw [map_kind_rest]; rfl) rfl h

theorem follows_isAt (h : Follows p A parts held i (H (nextKind (p.cursorAt i) == some kind))
      (K (nextKind (p.cursorAt i) == some kind))) :
    Follows p A parts held i (Procedure.isAt kind >>= H) (Grammar.isAt kind >>= K) :=
  follows_isAhead h

theorem follows_isAtEnd (h : Follows p A parts held i (H (nextKind (p.cursorAt i)).isNone)
      (K (nextKind (p.cursorAt i)).isNone)) :
    Follows p A parts held i (Procedure.isAtEnd >>= H) (Grammar.isAtEnd >>= K) :=
  follows_look (by rw [nextKind_cursorAt]; rfl) (by rw [← isEmpty_rest]; rfl) h

end Looks

/-- A marker of `p` that has been opened, the recorder being `s` since. Finished behind outlines,
its node is what `wrap` makes of them. -/
structure Opens (p s : Recorder) (m : Marker) (wrap : NodeKind → List Outline → Outline) :
    Prop where
  cursorAt_eq : ∀ i, s.cursorAt i = p.cursorAt i
  length_le : p.markers.length ≤ m.id
  complete_eq : ∀ parts i kind, (s.recordAll parts i).complete m (.node kind) =
    .ok (⟨p.events.length + (wrap kind parts).lead, .node kind⟩, p.recordAll [wrap kind parts] i)
  isNode : ∀ kind parts, IsNode (wrap kind parts) ∧ (wrap kind parts).top? = some kind

theorem opens_start (p : Recorder) : Opens p p.start.2 p.start.1 .node where
  cursorAt_eq _ := rfl
  length_le := Nat.le_refl _
  complete_eq parts i kind := by
    have hcomplete := complete_start p
      (Outline.eventsAll (offsetOf p.tokens p.textEnd) parts) (Outline.markerStatesAll parts) i
      (.node kind)
    simpa [Recorder.recordAll, grow, Outline.eventsAll, Outline.events, Outline.markerStatesAll,
      Outline.markerStates, Outline.lead, Recorder.start, Recorder.record] using hcomplete
  isNode _ _ := ⟨trivial, rfl⟩

theorem abandon_recordAll (p : Recorder) (parts : List Outline) (i : Nat) :
    (p.start.2.recordAll parts i).abandon p.start.1 = .ok (p.recordAll [.loose parts] i) := by
  have habandon := abandon_start p
    (Outline.eventsAll (offsetOf p.tokens p.textEnd) parts) (Outline.markerStatesAll parts) i
  simpa [Recorder.recordAll, grow, Outline.eventsAll, Outline.markerStatesAll,
    Outline.markerStates, events_loose, Recorder.start, Recorder.record] using habandon

theorem rollback_recordAll (p : Recorder) (parts : List Outline) (i : Nat) :
    (p.recordAll parts i).rollback p.checkpoint = .ok p :=
  rollback_grow ..

theorem exists_precede {found : Outline} {handle : CompletedNode}
    (hshows : View.node.shows p.events.length found handle) :
    ∃ m s, (p.recordAll [found] i).precede handle = .ok (m, s.recordAll [] i) ∧
      Opens p s m fun kind later => .around kind found later := by
  obtain ⟨hnode, kind, htop, rfl⟩ := hshows
  let q := grow p
    (found.events (offsetOf p.tokens p.textEnd) (some (found.size - found.lead)))
    found.markerStates i
  have hprecede := precede_eq p (offsetOf p.tokens p.textEnd) hnode htop found.markerStates i
  have hq : q.start.2.recordAll [] i = q.start.2 := recordAll_nil q.start.2
  have hstate : p.recordAll [found] i =
      grow p (found.events (offsetOf p.tokens p.textEnd) none) found.markerStates i := by
    simp [Recorder.recordAll, grow, Outline.eventsAll, Outline.markerStatesAll]
  refine ⟨q.start.1, q.start.2, ?_, fun _ => rfl, ?_, fun parts j kind => ?_,
    fun _ _ => ⟨trivial, rfl⟩⟩
  · rw [hq, hstate, hprecede]
  · simp [q, grow, Recorder.start]
  · have hcomplete := complete_start q
      (Outline.eventsAll (offsetOf p.tokens p.textEnd) parts) (Outline.markerStatesAll parts) j
      (.node kind)
    simpa [q, Recorder.recordAll, grow, Outline.eventsAll, Outline.events, Outline.markerStatesAll,
      Outline.markerStates, Outline.lead, Recorder.start, Recorder.record,
      Outline.length_events] using hcomplete

theorem Outcome.owning {v : View α β} {x : Except Fault (Parsed α)} {body : Procedure β}
    (h : Outcome v p x (body s)) (hle : p.markers.length ≤ m.id) :
    Outcome v p x (Procedure.owning m body s) := by
  generalize hrun : body s = y at h
  cases h with
  | fault fault =>
      have howning : Procedure.owning m body s = .error fault := by
        simp only [Procedure.owning, bind, hrun]
      rw [howning]
      exact .fault fault
  | @done a b parts i hsilent hshows =>
      have hclosed : (p.recordAll (parts ++ v.pending a) i).markers[m.id]? ≠ some .pending := by
        intro hpending
        rw [Recorder.recordAll, List.getElem?_append_right hle] at hpending
        exact pending_notMem_markerStatesAll _ (List.mem_of_getElem? hpending)
      have howning : Procedure.owning m body s =
          .ok (b, p.recordAll (parts ++ v.pending a) i) := by
        simp [Procedure.owning, bind, hrun, Procedure.look, hclosed, pure]
      rw [howning]
      exact .done hsilent hshows

theorem Outcome.marked {v : View α β} {x : Except Fault (Parsed α)}
    {body : Marker → Procedure β} (h : Outcome v p x (body p.start.1 p.start.2)) :
    Outcome v p x (Procedure.marked body p) :=
  h.owning (Nat.le_refl _)

theorem outcome_preceding {v : View α β} {x : Except Fault (Parsed α)} {found : Outline}
    {handle : CompletedNode} {body : Marker → Procedure β}
    (hshows : View.node.shows p.events.length found handle)
    (h : ∀ m s, Opens p s m (fun kind later => .around kind found later) →
      Outcome v p x (body m (s.recordAll [] i))) :
    Outcome v p x (Procedure.preceding handle body (p.recordAll [found] i)) := by
  obtain ⟨m, s, hprecede, hopens⟩ := exists_precede (i := i) hshows
  simp only [Procedure.preceding, Procedure.precede, bind, hprecede]
  exact (h m s hopens).owning hopens.length_le

/-- A rule goes on with the outlines that it has caught. -/
def resumed (rest : α × List Outline → Grammar γ) (done : Parsed α) : Except Fault (Parsed γ) :=
  rest (done.value, done.parts) done.cursor

theorem capture_bind_apply (g : Grammar α) (rest : α × List Outline → Grammar γ) (c : Cursor) :
    (Grammar.capture g >>= rest) c = (g c).bind (resumed rest) := by
  rw [bind_eq_behind]
  simp only [Grammar.capture]
  cases g c with
  | error fault => rfl
  | ok done => exact behind_nil _

theorem follows_resumed {base : Recorder} {A : Aim γ δ} {rest : α × List Outline → Grammar γ}
    {a : α} {f : Procedure δ} (h : Follows base A [] parts i f (rest (a, parts))) :
    Follows base (A.before (resumed rest)) parts [] i f (pure a) := by
  unfold Follows at h ⊢
  rw [behind_nil] at h
  simpa [Aim.before, behind, Except.map, pure, Except.bind, resumed] using h

theorem follows_complete {A : Aim γ δ} {wrap : NodeKind → List Outline → Outline}
    (hm : Opens p s m wrap) (kind : NodeKind) {F : CompletedNode → Procedure δ} {g : Grammar γ}
    (h : ∀ handle, View.node.shows p.events.length (wrap kind held) handle →
      Follows p A [] [wrap kind held] i (F handle) g) :
    Follows s A [] held i (Procedure.complete m kind >>= F) g := by
  obtain ⟨hnode, htop⟩ := hm.isNode kind held
  have hrun := h _ ⟨hnode, kind, htop, rfl⟩
  unfold Follows at hrun ⊢
  simp only [bind, Procedure.complete, List.nil_append, hm.complete_eq, hm.cursorAt_eq]
  exact hrun

theorem follows_abandon {A : Aim γ δ} {F : Unit → Procedure δ} {g : Grammar γ}
    (h : Follows p A [] [.loose held] i (F ()) g) :
    Follows p.start.2 A [] held i (Procedure.abandon p.start.1 >>= F) g := by
  unfold Follows at h ⊢
  simp only [bind, Procedure.abandon, List.nil_append, abandon_recordAll, Except.map]
  exact h

theorem follows_finish {P : Outline → Prop} (hP : ∀ found, IsNode found → P found)
    {wrap : NodeKind → List Outline → Outline} (hm : Opens p s m wrap) (kind : NodeKind) :
    Follows s (.answer (.outline P) p) [] held i (Procedure.complete m kind)
      (pure (wrap kind held)) := by
  rw [← bind_pure (Procedure.complete m kind)]
  exact follows_complete hm kind fun _ hshows =>
    follows_pure (v := .outline P) (fun _ => rfl) ⟨hP _ hshows.1, hshows.2⟩

theorem follows_capture {base : Recorder} {A : Aim γ δ} {f : Procedure δ} {g : Grammar α}
    {rest : α × List Outline → Grammar γ}
    (h : Follows base (A.before (resumed rest)) [] held i f g) :
    Follows base A [] held i f (Grammar.capture g >>= rest) := by
  unfold Follows at h ⊢
  rw [behind_nil] at h ⊢
  rw [capture_bind_apply]
  exact h

theorem follows_wrap (wrap : List Outline → Outline) {base : Recorder} {A : Aim γ δ}
    {f : Procedure δ} {g : Grammar Unit} {G : Outline → Grammar γ}
    (h : Follows base (A.before (resumed fun captured => G (wrap captured.2))) [] held i f g) :
    Follows base A [] held i f ((do
      let (_, inner) ← Grammar.capture g
      return wrap inner) >>= G) := by
  rw [bind_assoc]
  simp only [pure_bind]
  exact follows_capture h

theorem follows_around {base : Recorder} {A : Aim γ δ} {f : Procedure δ} {kind : NodeKind}
    {first : Outline} {g : Grammar Unit} {G : Outline → Grammar γ}
    (h : Follows base (A.before (resumed fun captured => G (.around kind first captured.2))) []
      held i f g) : Follows base A [] held i f (Grammar.around kind first g >>= G) :=
  follows_wrap (.around kind first) h

theorem follows_node {base : Recorder} {A : Aim γ δ} {f : Procedure δ} {kind : NodeKind}
    {g : Grammar Unit} {G : Outline → Grammar γ}
    (h : Follows base (A.before (resumed fun captured => G (.node kind captured.2))) [] held i
      f g) : Follows base A [] held i f (Grammar.node kind g >>= G) :=
  follows_wrap (.node kind) h

/-- The node of a marker, as what a rule answers with. -/
abbrev finishing (wrap : List Outline → Outline) (p : Recorder) : Aim Unit CompletedNode :=
  (Aim.answer .node p).before (resumed fun captured => pure (wrap captured.2))

theorem tracks_complete {wrap : NodeKind → List Outline → Outline} (hm : Opens p s m wrap)
    (kind : NodeKind) :
    Tracks s (finishing (wrap kind) p) (Procedure.complete m kind) (pure ()) :=
  fun _ _ => follows_resumed (follows_finish (fun _ => id) hm kind)

theorem outcome_marked {v : View α β} {body : Marker → Procedure β} {g : Grammar α}
    (h : Follows p.start.2 (.answer v p) [] [] p.index (body p.start.1) g) :
    Outcome v p (g p.cursor) (Procedure.marked body p) := by
  have hstate : p.start.2.recordAll [] p.index = p.start.2 := recordAll_nil p.start.2
  unfold Follows at h
  rw [behind_nil, List.append_nil, hstate] at h
  exact Outcome.marked h

theorem outcome_node {kind : NodeKind} {body : Marker → Procedure CompletedNode} {g : Grammar Unit}
    (h : Follows p.start.2 (finishing (.node kind) p) [] [] p.index (body p.start.1) g) :
    Outcome .node p (Grammar.node kind g p.cursor) (Procedure.marked body p) :=
  outcome_marked (follows_capture h)

theorem realizes_node {kind : NodeKind} {body : Marker → Procedure CompletedNode} {g : Grammar Unit}
    (h : ∀ p s m, Opens p s m .node → Tracks s (finishing (.node kind) p) (body m) g) :
    Realizes .node (Procedure.marked body) (Grammar.node kind g) :=
  fun p => outcome_node (h p p.start.2 p.start.1 (opens_start p)).follows

theorem follows_preceding {v : View α β} {found : Outline} {handle : CompletedNode}
    {body : Marker → Procedure β} {g : Grammar α}
    (hshows : View.node.shows p.events.length found handle)
    (h : ∀ m s, Opens p s m (fun kind later => .around kind found later) →
      Follows s (.answer v p) [] [] i (body m) g) :
    Follows p (.answer v p) [] [found] i (Procedure.preceding handle body) g := by
  unfold Follows
  rw [behind_nil]
  refine outcome_preceding hshows fun m s hm => ?_
  have hrun := h m s hm
  unfold Follows at hrun
  rwa [behind_nil, hm.cursorAt_eq] at hrun

theorem resumes_around {kind : NodeKind} {body : Marker → Procedure CompletedNode}
    {g : Grammar Unit}
    (h : ∀ p s m found, Opens p s m (fun kind later => .around kind found later) →
      Tracks s (finishing (.around kind found) p) (body m) g) :
    Resumes .node .node (Procedure.preceding · body) (Grammar.around kind · g) := by
  intro p i found handle hshows
  have hrun := follows_preceding (v := .node) (i := i) hshows fun m s hm =>
    follows_capture (h p s m found hm [] i)
  unfold Follows at hrun
  rwa [behind_nil] at hrun

/-- Where a rule has found nothing, it is as if it had not been run. -/
def settle (c : Cursor) (done : Parsed (Option α)) : Except Fault (Parsed (Option α)) :=
  if done.value.isSome then .ok done else .ok ⟨none, [], c⟩

theorem attempt_apply (g : Grammar (Option α)) (c : Cursor) :
    Grammar.attempt g c = (g c).bind (settle c) := by
  simp only [Grammar.attempt]
  cases g c with
  | error fault => rfl
  | ok done => rfl

/-- What is answered after an attempt. -/
abbrev attempted (v : View α β) (p : Recorder) : Aim (Option α) (Option β) :=
  (Aim.answer v.option p).before (settle p.cursor)

theorem realizes_attempt {v : View γ δ} {body : Checkpoint → Marker → Procedure (Option δ)}
    {g : Grammar α} {rest : α × List Outline → Grammar (Option γ)}
    (h : ∀ p, Follows p.start.2 ((attempted v p).before (resumed rest)) [] [] p.index
      (body p.checkpoint p.start.1) g) :
    Realizes v.option (do
      let before ← Procedure.checkpoint
      Procedure.marked (body before)) (Grammar.attempt (Grammar.capture g >>= rest)) := by
  intro p
  have hrun := h p
  have hstate : p.start.2.recordAll [] p.index = p.start.2 := recordAll_nil p.start.2
  unfold Follows at hrun
  rw [behind_nil, List.append_nil, hstate] at hrun
  rw [attempt_apply, capture_bind_apply]
  exact Outcome.marked hrun

theorem follows_some {v : View α β} {a : α} {b : β} (hshows : v.shows p.events.length a b) :
    Follows p (attempted v p) [] (v.pending a) i (pure (some b)) (pure (some a)) := by
  have hdone : Outcome v.option p (.ok ⟨some a, [], p.cursorAt i⟩)
      (.ok (some b, p.recordAll ([] ++ v.pending a) i)) := .done (fun _ => rfl) hshows
  unfold Follows
  simpa [Aim.before, Aim.answer, behind, Except.map, Except.bind, settle, pure] using hdone

theorem tracks_complete_some {rest : α × List Outline → Grammar (Option Outline)} {a : α}
    {kind : NodeKind} (hrest : ∀ parts, rest (a, parts) = pure (some (.node kind parts))) :
    Tracks p.start.2 ((attempted .node p).before (resumed rest)) (do
      return some (← Procedure.complete p.start.1 kind)) (pure a) :=
  fun parts _ => follows_resumed <| follows_complete (opens_start p) kind fun _ hshows => by
    rw [hrest parts]
    exact follows_some hshows

theorem tracks_undo {v : View γ δ} {rest : α × List Outline → Grammar (Option γ)} {a : α}
    (hrest : ∀ parts, rest (a, parts) = pure none) :
    Tracks p.start.2 ((attempted v p).before (resumed rest)) (do
      Procedure.abandon p.start.1
      Procedure.rollback p.checkpoint
      return none) (pure a) := by
  intro parts i
  have hdone : Outcome v.option p (.ok ⟨none, [], p.cursor⟩)
      (.ok (none, p.recordAll [] p.index)) := .done (fun _ => rfl) trivial
  rw [recordAll_nil] at hdone
  refine follows_resumed (follows_abandon ?_)
  rw [hrest parts]
  unfold Follows
  simp only [bind, Procedure.rollback, List.nil_append, rollback_recordAll, Except.map]
  exact hdone

/-- What is answered after a lookahead. -/
abbrev glanced (p : Recorder) : Aim α α :=
  (Aim.answer .plain p).before fun done => .ok ⟨done.value, [], p.cursor⟩

theorem lookahead_apply (g : Grammar α) (c : Cursor) :
    Grammar.lookahead g c = (g c).bind fun done => .ok ⟨done.value, [], c⟩ := by
  simp only [Grammar.lookahead]
  cases g c with
  | error fault => rfl
  | ok done => rfl

theorem realizes_lookahead {body : Checkpoint → Procedure α} {g : Grammar α}
    (h : ∀ p, Tracks p (glanced p) (body p.checkpoint) g) :
    Realizes .plain (do
      let before ← Procedure.checkpoint
      body before) (Grammar.lookahead g) := by
  intro p
  have hrun := h p [] p.index
  unfold Follows at hrun
  rw [behind_nil, List.append_nil, recordAll_nil] at hrun
  rw [lookahead_apply]
  exact hrun

theorem tracks_rollback {a : α} :
    Tracks p (glanced p) (do
      Procedure.rollback p.checkpoint
      return a) (pure a) := by
  intro parts i
  have hdone : Outcome .plain p (.ok ⟨a, [], p.cursor⟩) (.ok (a, p.recordAll [] p.index)) :=
    .done nofun rfl
  rw [recordAll_nil] at hdone
  unfold Follows
  simp only [bind, Procedure.rollback, List.append_nil, rollback_recordAll, Except.map]
  simpa [Aim.before, Aim.answer, behind, Except.map, Except.bind, pure] using hdone

end Proofs.Realization

end PatternSyntax
