import PatternSyntax.Proofs.Realization

/-!
The steps that rules and procedures are made of, and their loops.
-/

namespace PatternSyntax.Proofs.Realization

open PatternSyntax.Proofs.Coverage
open PatternSyntax.Proofs.Markers

variable {α β γ δ : Type} {p s : Recorder} {m : Marker} {parts held : List Outline} {i : Nat}

theorem outcome_plain {a : α} {q : Recorder} {c : Cursor} (hq : q = p.recordAll parts i)
    (hc : c = p.cursorAt i) : Outcome .plain p (.ok ⟨a, parts, c⟩) (.ok (a, q)) := by
  have hdone : Outcome .plain p (.ok ⟨a, parts, p.cursorAt i⟩)
      (.ok (a, p.recordAll (parts ++ []) i)) := .done nofun rfl
  rw [hq, hc]
  rwa [List.append_nil] at hdone

theorem realizes_isAhead (n : Nat) (kind : TokenKind) :
    Realizes .plain (Procedure.isAhead n kind) (Grammar.isAhead n kind) := by
  intro p
  have hkind : p.cursor.rest[n]?.map (·.kind) = p.nth n := map_kind_rest n
  simp only [Procedure.isAhead, Procedure.look, Recorder.nthAt, Grammar.isAhead, hkind]
  exact outcome_plain (recordAll_nil p).symm rfl

theorem realizes_isAt (kind : TokenKind) :
    Realizes .plain (Procedure.isAt kind) (Grammar.isAt kind) :=
  realizes_isAhead 0 kind

theorem realizes_isAtEnd : Realizes .plain Procedure.isAtEnd Grammar.isAtEnd := by
  intro p
  have hend : p.cursor.rest.isEmpty = p.isAtEnd :=
    isEmpty_rest.trans (congrArg Option.isNone nextKind_cursorAt)
  simp only [Procedure.isAtEnd, Procedure.look, Grammar.isAtEnd, hend]
  exact outcome_plain (recordAll_nil p).symm rfl

theorem bump_recordAll {kind : TokenKind} (hkind : nextKind (p.cursorAt i) = some kind) :
    (p.recordAll parts i).bump = p.recordAll (parts ++ [.token kind]) (i + 1) := by
  have hcurrent : (p.recordAll parts i).current = some kind := nextKind_cursorAt.symm.trans hkind
  unfold Recorder.bump
  simp only [hcurrent]
  simp [Recorder.record, Recorder.recordAll, Outline.eventsAll_append, Outline.eventsAll,
    Outline.events, Outline.markerStatesAll_append, Outline.markerStatesAll, Outline.markerStates]

theorem bump_cursorAt {kind : TokenKind} (hkind : nextKind (p.cursorAt i) = some kind) :
    Grammar.bump (p.cursorAt i) = .ok ⟨(), [.token kind], p.cursorAt (i + 1)⟩ := by
  unfold nextKind at hkind
  simp only [Grammar.bump]
  cases hrest : (p.cursorAt i).rest with
  | nil => simp [hrest] at hkind
  | cons terminal rest =>
      have htail : rest = (p.cursorAt (i + 1)).rest := by
        simp only [Recorder.cursorAt, ← List.tail_drop, ← Terminal.tail_ofTokens]
        exact (congrArg List.tail hrest).symm
      rw [hrest] at hkind
      cases hkind
      rw [htail]
      rfl

theorem realizes_bump : Realizes .plain Procedure.bump Grammar.bump := by
  intro p
  cases hkind : nextKind p.cursor with
  | none =>
      have hrest : p.cursor.rest = [] := by
        rw [← List.isEmpty_iff]
        exact isEmpty_rest.trans (congrArg Option.isNone hkind)
      have hcurrent : p.current = none := nextKind_cursorAt.symm.trans hkind
      simp only [Procedure.bump, Recorder.bump, hcurrent, Grammar.bump, hrest]
      exact outcome_plain (recordAll_nil p).symm rfl
  | some kind =>
      have hrule : Grammar.bump p.cursor = _ := bump_cursorAt hkind
      have hbump : (p.recordAll [] p.index).bump = p.recordAll [.token kind] (p.index + 1) :=
        bump_recordAll hkind
      rw [recordAll_nil] at hbump
      simp only [Procedure.bump, hrule, hbump]
      exact outcome_plain rfl rfl

theorem realizes_report (kind : ErrorKind) :
    Realizes .plain (Procedure.report kind) (Grammar.report kind) := by
  intro p
  refine outcome_plain (i := p.index) ?_ rfl
  simp [Recorder.report, Recorder.record, Recorder.recordAll, Outline.eventsAll, Outline.events,
    Outline.markerStatesAll, Outline.markerStates, Recorder.offset, Recorder.cursor,
    Recorder.cursorAt]

theorem realizes_reportUnexpected :
    Realizes .plain Procedure.reportUnexpected Grammar.reportUnexpected := by
  intro p
  have hreport := realizes_report (.unexpectedToken p.current) p
  have hkind : nextKind p.cursor = p.current := nextKind_cursorAt
  have hrule : Grammar.reportUnexpected p.cursor =
      behind [] (Grammar.report (.unexpectedToken (nextKind p.cursor)) p.cursor) :=
    bind_eq_behind ..
  rw [hrule, behind_nil, hkind]
  exact hreport

section Tracks

variable {A : Aim γ δ} {P : Outline → Prop}

theorem tracks_plain {f : Procedure α} {g : Grammar α} {F : α → Procedure δ} {G : α → Grammar γ}
    (hfirst : Realizes .plain f g) (hrest : ∀ a, Tracks p A (F a) (G a)) :
    Tracks p A (f >>= F) (g >>= G) :=
  tracks_bind hfirst fun a _ parts j h => h ▸ hrest a parts j

theorem tracks_put {f : Procedure CompletedNode} {g : Grammar Outline}
    {F : CompletedNode → Procedure δ} {G : Unit → Grammar γ}
    (hfirst : Realizes (.outline P) f g) (hrest : ∀ handle, Tracks p A (F handle) (G ())) :
    Tracks p A (f >>= F) (g >>= fun found => Grammar.put found >>= G) :=
  tracks_bind hfirst fun _ handle _ j _ => follows_put (hrest handle _ j)

theorem tracks_last {f : Procedure Unit} {g : Grammar Unit} {A : Aim Unit δ}
    {F : Unit → Procedure δ} (hlast : Realizes .plain f g) (hrest : Tracks p A (F ()) (pure ())) :
    Tracks p A (f >>= F) g := by
  rw [← bind_pure_unit (x := g)]
  exact tracks_plain hlast fun _ => hrest

theorem bind_put (g : Grammar Outline) : (g >>= fun found => Grammar.put found) =
    g >>= fun found => Grammar.put found >>= fun _ => pure () :=
  bind_congr fun _ => bind_pure_unit.symm

theorem tracks_put_last {f : Procedure CompletedNode} {g : Grammar Outline} {A : Aim Unit δ}
    {F : CompletedNode → Procedure δ} (hlast : Realizes (.outline P) f g)
    (hrest : ∀ handle, Tracks p A (F handle) (pure ())) :
    Tracks p A (f >>= F) (g >>= fun found => Grammar.put found) := by
  rw [bind_put]
  exact tracks_put hlast hrest

theorem follows_mayFind {f : Procedure (Option CompletedNode)} {g : Grammar (Option Outline)}
    {F : Option CompletedNode → Procedure δ} {G : Option Outline → Grammar γ}
    (hfirst : Realizes (View.outline P).option f g)
    (hnone : ∀ j, Follows p A parts held j (F none) (G none))
    (hsome : ∀ found handle j,
      (View.outline P).shows (p.events.length + Outline.sizeAll (parts ++ held)) found handle →
      Follows p A parts (held ++ [found]) j (F (some handle)) (G (some found))) :
    Follows p A parts held i (f >>= F) (g >>= G) := by
  refine follows_bind_held trivial hfirst fun found handle j hshows => ?_
  cases found with
  | none =>
      cases handle with
      | none =>
          show Follows p A parts (held ++ []) j _ _
          rw [List.append_nil]
          exact hnone j
      | some handle => cases hshows
  | some found =>
      cases handle with
      | none => cases hshows
      | some handle => exact hsome found handle j hshows

theorem tracks_mayFind {f : Procedure (Option CompletedNode)} {g : Grammar (Option Outline)}
    {F : Option CompletedNode → Procedure δ} {G : Option Outline → Grammar γ}
    (hfirst : Realizes (View.outline P).option f g) (hnone : Tracks p A (F none) (G none))
    (hsome : ∀ found handle parts j,
      (View.outline P).shows (p.events.length + Outline.sizeAll parts) found handle →
      Follows p A parts [found] j (F (some handle)) (G (some found))) :
    Tracks p A (f >>= F) (g >>= G) :=
  fun parts _ => follows_mayFind hfirst (hnone parts) fun found handle j hshows =>
    hsome found handle parts j (by rwa [List.append_nil] at hshows)

theorem tracks_ite {q : Prop} [Decidable q] {f f' : Procedure δ} {g g' : Grammar γ}
    (hyes : q → Tracks p A f g) (hno : ¬q → Tracks p A f' g') :
    Tracks p A (if q then f else f') (if q then g else g') :=
  fun parts i => follows_ite (fun h => hyes h parts i) fun h => hno h parts i

theorem tracks_ifAt {kind : TokenKind} {f f' : Procedure δ} {g g' : Grammar γ}
    (hyes : Tracks p A f g) (hno : Tracks p A f' g') :
    Tracks p A (do if ← Procedure.isAt kind then f else f')
      (do if ← Grammar.isAt kind then g else g') :=
  tracks_plain (realizes_isAt kind) fun _ => tracks_ite (fun _ => hyes) fun _ => hno

/-- What a procedure sees decides which way it goes, and the rule has seen it before. -/
theorem follows_views {view : Procedure α} {seen : α} {F : α → Procedure δ} {g : Grammar γ}
    (hview : view (p.recordAll (parts ++ held) i) = .ok (seen, p.recordAll (parts ++ held) i))
    (h : Follows p A parts held i (F seen) g) : Follows p A parts held i (view >>= F) g := by
  unfold Follows at h ⊢
  simp only [bind, hview]
  exact h

theorem follows_sees_ahead {n : Nat} {kind : TokenKind} {F : Bool → Procedure δ} {g : Grammar γ}
    (h : Follows p A parts held i (F ((p.cursorAt i).rest[n]?.map (·.kind) == some kind)) g) :
    Follows p A parts held i (Procedure.isAhead n kind >>= F) g :=
  follows_views (by rw [map_kind_rest]; rfl) h

theorem follows_sees {kind : TokenKind} {F : Bool → Procedure δ} {g : Grammar γ}
    (h : Follows p A parts held i (F (nextKind (p.cursorAt i) == some kind)) g) :
    Follows p A parts held i (Procedure.isAt kind >>= F) g :=
  follows_sees_ahead h

theorem follows_sees_next {F : Option TokenKind → Procedure δ} {g : Grammar γ}
    (h : Follows p A parts held i (F (nextKind (p.cursorAt i))) g) :
    Follows p A parts held i (Procedure.next >>= F) g :=
  follows_views (by rw [nextKind_cursorAt]; rfl) h

theorem follows_looks {rule : Grammar α} {seen : α} {f : Procedure δ} {G : α → Grammar γ}
    (hrule : rule (p.cursorAt i) = .ok ⟨seen, [], p.cursorAt i⟩)
    (h : Follows p A parts held i f (G seen)) : Follows p A parts held i f (rule >>= G) := by
  unfold Follows at h ⊢
  rw [bind_eq_behind, hrule]
  simp only [Except.bind, behind_behind, List.append_nil]
  exact h

theorem follows_looks_next {f : Procedure δ} {G : Option TokenKind → Grammar γ}
    (h : Follows p A parts held i f (G (nextKind (p.cursorAt i)))) :
    Follows p A parts held i f (Grammar.next >>= G) :=
  follows_looks rfl h

theorem follows_looks_isAt {kind : TokenKind} {f : Procedure δ} {G : Bool → Grammar γ}
    (h : Follows p A parts held i f (G (nextKind (p.cursorAt i) == some kind))) :
    Follows p A parts held i f (Grammar.isAt kind >>= G) :=
  follows_looks rfl h

theorem follows_ite_bind {q : Prop} [Decidable q] {f f' : Procedure δ} {g g' : Grammar α}
    {G : α → Grammar γ} (hyes : q → Follows p A parts held i f (g >>= G))
    (hno : ¬q → Follows p A parts held i f' (g' >>= G)) :
    Follows p A parts held i (if q then f else f') ((if q then g else g') >>= G) := by
  split
  · exact hyes ‹q›
  · exact hno ‹¬q›

theorem tracks_pure {a : α} : Tracks p (.answer .plain p) (pure a) (pure a) :=
  fun _ _ => follows_pure nofun rfl

theorem Realizes.tracks_last {f : Procedure α} {g : Grammar α} (h : Realizes .plain f g) :
    Tracks p (.answer .plain p) f g :=
  h.tracks nofun

theorem realizes_of_tracks {v : View α β} {f : Procedure β} {g : Grammar α}
    (h : ∀ p, Tracks p (.answer v p) f g) : Realizes v f g :=
  realizes_of_follows fun p i => h p [] i

end Tracks

theorem eat_eq (kind : TokenKind) :
    Procedure.eat kind = (do
      if ← Procedure.isAt kind then
        Procedure.bump
        return true
      else
        return false) := by
  funext p
  simp only [Procedure.eat, Recorder.eat, bind, Procedure.isAt, Procedure.look]
  cases p.isAt kind <;> rfl

theorem realizes_eat (kind : TokenKind) :
    Realizes .plain (Procedure.eat kind) (Grammar.eat kind) := by
  rw [eat_eq]
  exact realizes_of_tracks fun p =>
    tracks_ifAt (tracks_plain realizes_bump fun _ => tracks_pure) tracks_pure

theorem follows_bump {A : Aim γ δ} {kind : TokenKind} {F : Unit → Procedure δ}
    {G : Unit → Grammar γ} (hkind : nextKind (p.cursorAt i) = some kind)
    (h : Follows p A (parts ++ [.token kind]) [] (i + 1) (F ()) (G ())) :
    Follows p A parts [] i (Procedure.bump >>= F) (Grammar.bump >>= G) := by
  unfold Follows at h ⊢
  rw [bind_eq_behind, bump_cursorAt hkind]
  simp only [bind, Procedure.bump, List.append_nil, bump_recordAll hkind, Except.bind,
    behind_behind] at h ⊢
  exact h

theorem follows_eat {A : Aim γ δ} {kind : TokenKind} {F : Bool → Procedure δ} {g : Grammar γ}
    (hkind : nextKind (p.cursorAt i) = some kind)
    (h : Follows p A parts held i (Procedure.bump >>= fun _ => F true) g) :
    Follows p A parts held i (Procedure.eat kind >>= F) g := by
  rw [eat_eq, bind_assoc]
  refine follows_sees ?_
  rw [hkind, beq_self_eq_true, if_pos rfl, bind_assoc]
  exact h

theorem follows_eat_ne {A : Aim γ δ} {kind : TokenKind} {F : Bool → Procedure δ} {g : Grammar γ}
    (hkind : nextKind (p.cursorAt i) ≠ some kind) (h : Follows p A parts held i (F false) g) :
    Follows p A parts held i (Procedure.eat kind >>= F) g := by
  rw [eat_eq, bind_assoc]
  refine follows_sees ?_
  rw [beq_eq_false_iff_ne.2 hkind, if_neg Bool.false_ne_true]
  exact h

theorem realizes_expect (kind : TokenKind) (missing : ErrorKind) :
    Realizes .plain (Procedure.expect kind missing) (Grammar.expect kind missing) := by
  have hprocedure : Procedure.expect kind missing = (do
      unless ← Procedure.eat kind do
        Procedure.report missing) := by
    funext p
    simp only [Procedure.expect, Recorder.expect, Procedure.eat, Recorder.eat, bind]
    cases p.isAt kind <;> rfl
  rw [hprocedure]
  exact realizes_of_tracks fun p => tracks_plain (realizes_eat kind) fun _ =>
    tracks_ite (fun _ => tracks_pure) fun _ => (realizes_report missing).tracks_last

theorem follows_pure_none {v : View α β} :
    Follows p (.answer v.option p) [] [] i (pure none) (pure none) :=
  follows_pure (v := v.option) (a := none) (fun _ => rfl) trivial

theorem follows_pure_some {v : View α β} {a : α} {b : β} (hshows : v.shows p.events.length a b) :
    Follows p (.answer v.option p) [] (v.pending a) i (pure (some b)) (pure (some a)) :=
  follows_pure (v := v.option) (a := some a) (fun _ => rfl) hshows

theorem follows_found {v : View α β} {w : View γ δ} {f : δ → Procedure β} {g : γ → Grammar α}
    {a : γ} {b : δ} (h : Resumes w v f g) (hshows : w.shows p.events.length a b) :
    Follows p (.answer v.option p) [] (w.pending a) i (do return some (← f b))
      (do return some (← g a)) :=
  follows_resume h hshows fun _ _ _ _ hnew hshows =>
    follows_pure (v := v.option) (a := some _) hnew hshows

theorem Realizes.found {v : View α β} {f : Procedure β} {g : Grammar α} (h : Realizes v f g)
    (hsilent : v.silent) :
    Realizes v.option (do return some (← f)) (do return some (← g)) :=
  realizes_of_follows fun _ _ => follows_bind_held hsilent h fun _ _ _ hshows =>
    follows_pure_some hshows

theorem realizes_orReport {P : Outline → Prop} {missing : ErrorKind}
    {f : Procedure (Option CompletedNode)} {g : Grammar (Option Outline)}
    (h : Realizes (View.outline P).option f g) :
    Realizes .plain (Procedure.orReport missing f) (Grammar.orReport missing g) :=
  realizes_of_tracks fun _ => tracks_mayFind h (realizes_report missing).tracks_last
    fun _ _ _ _ _ => follows_put (tracks_pure _ _)

section Loops

variable {w : View α β} {f : β → Procedure (ForInStep β)} {g : α → Grammar (ForInStep α)}

theorem resumes_iterateWithin (h : Resumes w w.step f g) (limit : Nat) :
    Resumes w w (Procedure.iterateWithin f limit) (Grammar.iterateWithin g limit) := by
  induction limit with
  | zero => exact fun p i a b _ => .fault _
  | succ limit ih =>
      refine resumes_of_follows fun p i a b hshows =>
        follows_resume h hshows fun next next' new j hnew hnext => ?_
      cases next with
      | done a =>
          cases next' with
          | done b => exact follows_pure hnew hnext
          | yield b => cases hnext
      | yield a =>
          cases next' with
          | done b => cases hnext
          | yield b => exact follows_resume_last ih hnew hnext

theorem resumes_iterate (h : Resumes w w.step f g) :
    Resumes w w (Procedure.iterate f) (Grammar.iterate g) := by
  intro p i a b hshows
  simp only [Procedure.iterate, Grammar.iterate, length_rest_cursorAt]
  exact resumes_iterateWithin h _ p i a b hshows

theorem Outcome.step_of_plain {σ : Type} {x : Except Fault (Parsed (ForInStep σ))}
    {y : Except Fault (ForInStep σ × Recorder)} (h : Outcome .plain p x y) :
    Outcome (View.step .plain) p x y := by
  cases h with
  | fault fault => exact .fault fault
  | @done a b parts i hsilent hshows =>
      cases hshows
      cases a with
      | done s => exact .done (v := View.step .plain) (a := .done s) nofun rfl
      | yield s => exact .done (v := View.step .plain) (a := .yield s) nofun rfl

theorem realizes_iterate {σ : Type} {f : σ → Procedure (ForInStep σ)}
    {g : σ → Grammar (ForInStep σ)} (h : ∀ s, Realizes .plain (f s) (g s)) (s : σ) :
    Realizes .plain (Procedure.iterate f s) (Grammar.iterate g s) := by
  have hturn : Resumes .plain (View.step .plain) f g := by
    rintro p i s _ rfl
    have hrun := ((h s).outcome (p := p) [] i).behind nofun
    rw [behind_nil] at hrun
    exact hrun.step_of_plain
  intro p
  have hrun := resumes_iterate hturn p p.index s s rfl
  rwa [show View.plain.pending s = [] from rfl, recordAll_nil] at hrun

theorem realizes_again {f : Procedure Bool} {g : Grammar Bool} (h : Realizes .plain f g)
    (s : Unit) : Realizes .plain (Procedure.again f s) (Grammar.again g s) :=
  realizes_of_tracks fun _ => tracks_plain h fun _ =>
    tracks_ite (fun _ => tracks_pure) fun _ => tracks_pure

theorem realizes_repeatWhile {f : Procedure Bool} {g : Grammar Bool} (h : Realizes .plain f g) :
    Realizes .plain (Procedure.repeatWhile f) (Grammar.repeatWhile g) :=
  realizes_iterate (realizes_again h) ()

theorem follows_yield {v : View α β} {w : View γ δ} {f : δ → Procedure β} {g : γ → Grammar α}
    {a : γ} {b : δ} (h : Resumes w v f g) (hshows : w.shows p.events.length a b) :
    Follows p (.answer v.step p) [] (w.pending a) i (do return .yield (← f b))
      (do return .yield (← g a)) :=
  follows_resume h hshows fun _ _ _ _ hnew hshows =>
    follows_pure (v := v.step) (a := .yield _) hnew hshows

theorem follows_done {v : View α β} {w : View γ δ} {f : δ → Procedure β} {g : γ → Grammar α}
    {a : γ} {b : δ} (h : Resumes w v f g) (hshows : w.shows p.events.length a b) :
    Follows p (.answer v.step p) [] (w.pending a) i (do return .done (← f b))
      (do return .done (← g a)) :=
  follows_resume h hshows fun _ _ _ _ hnew hshows =>
    follows_pure (v := v.step) (a := .done _) hnew hshows

theorem follows_pure_yield {v : View α β} {a : α} {b : β} (hshows : v.shows p.events.length a b) :
    Follows p (.answer v.step p) [] (v.pending a) i (pure (.yield b)) (pure (.yield a)) :=
  follows_pure (v := v.step) (a := .yield a) (fun _ => rfl) hshows

theorem follows_pure_done {v : View α β} {a : α} {b : β} (hshows : v.shows p.events.length a b) :
    Follows p (.answer v.step p) [] (v.pending a) i (pure (.done b)) (pure (.done a)) :=
  follows_pure (v := v.step) (a := .done a) (fun _ => rfl) hshows

theorem tracks_complete_yield {wrap : NodeKind → List Outline → Outline} (hm : Opens p s m wrap)
    (kind : NodeKind) {rest : α × List Outline → Grammar (ForInStep Outline)} {a : α}
    (hrest : ∀ parts, rest (a, parts) = pure (.yield (wrap kind parts))) :
    Tracks s ((Aim.answer (View.step .node) p).before (resumed rest))
      (do return .yield (← Procedure.complete m kind)) (pure a) :=
  fun parts _ => follows_resumed <| follows_complete hm kind fun _ hshows => by
    rw [hrest parts]
    exact follows_pure_yield hshows

theorem tracks_complete_done {wrap : NodeKind → List Outline → Outline} (hm : Opens p s m wrap)
    (kind : NodeKind) {rest : α × List Outline → Grammar (ForInStep Outline)} {a : α}
    (hrest : ∀ parts, rest (a, parts) = pure (.done (wrap kind parts))) :
    Tracks s ((Aim.answer (View.step .node) p).before (resumed rest))
      (do return .done (← Procedure.complete m kind)) (pure a) :=
  fun parts _ => follows_resumed <| follows_complete hm kind fun _ hshows => by
    rw [hrest parts]
    exact follows_pure_done hshows

end Loops

theorem realizes_bumpAll : Realizes .plain Procedure.bumpAll Grammar.bumpAll :=
  realizes_repeatWhile <| realizes_of_tracks fun _ => tracks_plain realizes_isAtEnd fun _ =>
    tracks_ite (fun _ => tracks_pure) fun _ => tracks_plain realizes_bump fun _ => tracks_pure

theorem bumpMany_succ (p : Recorder) (n : Nat) : p.bumpMany (n + 1) = p.bump.bumpMany n := by
  have hrepeat (k : Nat) (q : Recorder) :
      (k + 1).repeat Recorder.bump q = k.repeat Recorder.bump q.bump := by
    induction k generalizing q with
    | zero => rfl
    | succ k ih => exact congrArg Recorder.bump (ih q)
  unfold Recorder.bumpMany
  by_cases hend : p.index < p.tokens.size
  · have hbump : p.bump.tokens = p.tokens ∧ p.bump.index = p.index + 1 := by
      simp [Recorder.bump, Recorder.current, Recorder.nth, hend, Recorder.record]
    rw [hbump.1, hbump.2, ← hrepeat]
    congr 1
    omega
  · have hbump : p.bump = p := by
      simp [Recorder.bump, Recorder.current, Recorder.nth, hend]
    rw [hbump, show p.tokens.size - p.index = 0 by omega, Nat.min_zero, Nat.min_zero]

theorem realizes_bumpMany (n : Nat) :
    Realizes .plain (Procedure.bumpMany n) (Grammar.bumpMany n) := by
  induction n with
  | zero =>
      intro p
      exact outcome_plain (by simp [Recorder.bumpMany, recordAll_nil, Nat.repeat]) rfl
  | succ n ih =>
      have hprocedure : Procedure.bumpMany (n + 1) = (do
          Procedure.bump
          Procedure.bumpMany n) := by
        funext p
        simp only [Procedure.bumpMany, bumpMany_succ, bind, Procedure.bump]
      rw [hprocedure]
      exact realizes_of_tracks fun _ => tracks_plain realizes_bump fun _ => ih.tracks_last

end PatternSyntax.Proofs.Realization
