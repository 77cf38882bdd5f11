import PatternSyntax.Proofs.Weave

/-!
Runs that are known step by step: the rule ends at this place, with this value and these parts. What
rules of a table do from some depth on is put together here too.
-/

namespace PatternSyntax.Proofs.Forward

open Grammar
open PatternSyntax.Proofs.Coverage
open PatternSyntax.Proofs.Depth
open PatternSyntax.Proofs.Document
open PatternSyntax.Proofs.Runs
open PatternSyntax.Proofs.Totality
open PatternSyntax.Proofs.Weave

variable {α β σ : Type} {c mid stop : Cursor}

theorem run_bind {g : Grammar α} {f : α → Grammar β} {a : α} {b : β} {front back : List Outline}
    (hg : g c = .ok ⟨a, front, mid⟩) (hf : f a mid = .ok ⟨b, back, stop⟩) :
    (g >>= f) c = .ok ⟨b, front ++ back, stop⟩ :=
  bind_ok hg hf

theorem run_look {g : Grammar α} {f : α → Grammar β} {a : α} {done : Parsed β}
    (hg : g c = .ok ⟨a, [], mid⟩) (hf : f a mid = .ok done) : (g >>= f) c = .ok done :=
  bind_ok hg hf

theorem run_ifAt_pos {kind : TokenKind} {yes no : Grammar α} {done : Parsed α}
    (h : nextKind c = some kind) (hyes : yes c = .ok done) :
    (isAt kind >>= fun found => if found = true then yes else no) c = .ok done := by
  refine run_look (a := nextKind c == some kind) rfl ?_
  rwa [if_pos (beq_iff_eq.2 h)]

theorem run_ifAt_neg {kind : TokenKind} {yes no : Grammar α} {done : Parsed α}
    (h : nextKind c ≠ some kind) (hno : no c = .ok done) :
    (isAt kind >>= fun found => if found = true then yes else no) c = .ok done := by
  refine run_look (a := nextKind c == some kind) rfl ?_
  rwa [if_neg fun heq => h (beq_iff_eq.1 heq)]

theorem run_put_bind {outline : Outline} {f : Unit → Grammar β} {b : β} {back : List Outline}
    (hf : f () c = .ok ⟨b, back, stop⟩) :
    (put outline >>= f) c = .ok ⟨b, outline :: back, stop⟩ :=
  bind_ok (show put outline c = .ok ⟨(), [outline], c⟩ from rfl) hf

theorem run_found_bind {g : Grammar Outline} {f : Unit → Grammar β} {outline : Outline} {b : β}
    {back : List Outline} (hg : g c = .ok ⟨outline, [], mid⟩)
    (hf : f () mid = .ok ⟨b, back, stop⟩) :
    (g >>= fun outline => put outline >>= f) c = .ok ⟨b, outline :: back, stop⟩ :=
  run_look hg (run_put_bind hf)

theorem run_found {g : Grammar Outline} {outline : Outline}
    (hg : g c = .ok ⟨outline, [], stop⟩) :
    (g >>= fun outline => put outline) c = .ok ⟨(), [outline], stop⟩ :=
  run_look hg rfl

theorem run_some {g : Grammar Outline} {outline : Outline}
    (hg : g c = .ok ⟨outline, [], stop⟩) :
    (do return some (← g) : Grammar (Option Outline)) c = .ok ⟨some outline, [], stop⟩ :=
  run_look hg rfl

theorem run_orReport {missing : ErrorKind} {g : Grammar (Option Outline)} {outline : Outline}
    (hg : g c = .ok ⟨some outline, [], stop⟩) :
    orReport missing g c = .ok ⟨(), [outline], stop⟩ :=
  run_look hg rfl

theorem run_capture {g : Grammar α} {a : α} {parts : List Outline}
    (hg : g c = .ok ⟨a, parts, stop⟩) : capture g c = .ok ⟨(a, parts), [], stop⟩ := by
  simp only [capture, hg]

theorem run_node {kind : NodeKind} {g : Grammar Unit} {parts : List Outline}
    (hg : g c = .ok ⟨(), parts, stop⟩) : node kind g c = .ok ⟨.node kind parts, [], stop⟩ :=
  run_look (run_capture hg) rfl

theorem run_around {kind : NodeKind} {first : Outline} {g : Grammar Unit} {parts : List Outline}
    (hg : g c = .ok ⟨(), parts, stop⟩) :
    around kind first g c = .ok ⟨.around kind first parts, [], stop⟩ :=
  run_look (run_capture hg) rfl

theorem run_attempt {g : Grammar (Option α)} {a : α} {parts : List Outline}
    (hg : g c = .ok ⟨some a, parts, stop⟩) : attempt g c = .ok ⟨some a, parts, stop⟩ := by
  simp only [attempt, hg]
  rfl

/-- From one place to another there is a single token of a kind. -/
inductive Passes (kind : TokenKind) : Cursor → Cursor → Prop
  | intro (index : Nat) (glued : Bool) (rest : List Terminal) :
      Passes kind ⟨index, ⟨kind, glued⟩ :: rest⟩ ⟨index + 1, rest⟩

theorem exists_passes {kind : TokenKind} (h : nextKind c = some kind) :
    ∃ stop, Passes kind c stop := by
  obtain ⟨index, rest⟩ := c
  obtain ⟨glued, later, rfl⟩ := exists_of_nextKind h
  exact ⟨_, .intro index glued later⟩

namespace Passes

variable {kind : TokenKind}

theorem nextKind_eq (h : Passes kind c stop) : nextKind c = some kind := by
  cases h
  rfl

theorem ahead_eq (h : Passes kind c stop) : c.rest[1]?.map (·.kind) = nextKind stop := by
  cases h
  rfl

theorem length_lt (h : Passes kind c stop) : stop.rest.length < c.rest.length := by
  cases h
  exact Nat.lt_succ_self _

theorem bump (h : Passes kind c stop) : bump c = .ok ⟨(), [.token kind], stop⟩ := by
  cases h
  rfl

theorem bump_bind (h : Passes kind c mid) {f : Unit → Grammar β} {b : β} {back : List Outline}
    (hf : f () mid = .ok ⟨b, back, stop⟩) :
    (Grammar.bump >>= f) c = .ok ⟨b, .token kind :: back, stop⟩ :=
  run_bind h.bump hf

theorem eat (h : Passes kind c stop) : eat kind c = .ok ⟨true, [.token kind], stop⟩ :=
  run_ifAt_pos h.nextKind_eq (h.bump_bind rfl)

theorem expect {missing : ErrorKind} (h : Passes kind c stop) :
    expect kind missing c = .ok ⟨(), [.token kind], stop⟩ :=
  run_bind h.eat rfl

theorem expect_bind {missing : ErrorKind} (h : Passes kind c mid) {f : Unit → Grammar β} {b : β}
    {back : List Outline} (hf : f () mid = .ok ⟨b, back, stop⟩) :
    (Grammar.expect kind missing >>= f) c = .ok ⟨b, .token kind :: back, stop⟩ :=
  run_bind h.expect hf

end Passes

theorem exists_run_bumpMany (n : Nat) (c : Cursor) :
    ∃ stop, bumpMany n c =
        .ok ⟨(), (c.rest.take n).map fun terminal => .token terminal.kind, stop⟩ ∧
      stop.rest = c.rest.drop n := by
  induction n generalizing c with
  | zero => exact ⟨c, rfl, rfl⟩
  | succ n ih =>
      obtain ⟨index, rest⟩ := c
      cases rest with
      | nil =>
          obtain ⟨stop, hrun, hstop⟩ := ih ⟨index, []⟩
          rw [List.take_nil] at hrun
          rw [List.drop_nil] at hstop
          exact ⟨stop, run_look (a := ()) rfl hrun, hstop⟩
      | cons terminal rest =>
          obtain ⟨stop, hrun, hstop⟩ := ih ⟨index + 1, rest⟩
          exact ⟨stop, (Passes.intro index terminal.glued rest).bump_bind hrun, hstop⟩

/-- The turns of a loop, from a state to the end. Each but the last one passes a token. -/
inductive Loops (step : σ → Grammar (ForInStep σ)) : σ → Cursor → σ → List Outline → Cursor → Prop
  | done {s last : σ} {c stop : Cursor} {parts : List Outline} :
      step s c = .ok ⟨.done last, parts, stop⟩ → Loops step s c last parts stop
  | yield {s next last : σ} {c mid stop : Cursor} {front back : List Outline} :
      step s c = .ok ⟨.yield next, front, mid⟩ → mid.rest.length < c.rest.length →
      Loops step next mid last back stop → Loops step s c last (front ++ back) stop

theorem Loops.iterateWithin {step : σ → Grammar (ForInStep σ)} {s last : σ}
    {parts : List Outline} (h : Loops step s c last parts stop) {limit : Nat}
    (hlimit : c.rest.length < limit) :
    iterateWithin step limit s c = .ok ⟨last, parts, stop⟩ := by
  induction h generalizing limit with
  | done hstep =>
      obtain ⟨limit, rfl⟩ := Nat.exists_eq_add_one_of_ne_zero (Nat.ne_zero_of_lt hlimit)
      refine (run_bind hstep rfl).trans ?_
      rw [List.append_nil]
  | yield hstep hlt _ ih =>
      obtain ⟨limit, rfl⟩ := Nat.exists_eq_add_one_of_ne_zero (Nat.ne_zero_of_lt hlimit)
      exact run_bind hstep (ih (by omega))

theorem Loops.iterate {step : σ → Grammar (ForInStep σ)} {s last : σ} {parts : List Outline}
    (h : Loops step s c last parts stop) : iterate step s c = .ok ⟨last, parts, stop⟩ :=
  h.iterateWithin (Nat.lt_succ_self _)

/-- Turns of a loop that put nothing down, from one state to another. -/
inductive Turns (step : σ → Grammar (ForInStep σ)) : σ → Cursor → σ → Cursor → Prop
  | refl (s : σ) (c : Cursor) : Turns step s c s c
  | head {s next last : σ} {c mid stop : Cursor} :
      step s c = .ok ⟨.yield next, [], mid⟩ → mid.rest.length < c.rest.length →
      Turns step next mid last stop → Turns step s c last stop

theorem Turns.snoc {step : σ → Grammar (ForInStep σ)} {s next last : σ}
    (h : Turns step s c next mid) (hstep : step next mid = .ok ⟨.yield last, [], stop⟩)
    (hlt : stop.rest.length < mid.rest.length) : Turns step s c last stop := by
  induction h with
  | refl => exact .head hstep hlt (.refl _ _)
  | head hfirst hlt' _ ih => exact .head hfirst hlt' (ih hstep hlt)

theorem Turns.iterate {step : σ → Grammar (ForInStep σ)} {s next last : σ}
    (h : Turns step s c next mid) (hstep : step next mid = .ok ⟨.done last, [], stop⟩) :
    iterate step s c = .ok ⟨last, [], stop⟩ := by
  suffices hloops : Loops step s c last [] stop from hloops.iterate
  induction h with
  | refl => exact .done hstep
  | head hfirst hlt _ ih => exact .yield hfirst hlt (ih hstep)

theorem run_again {g : Grammar Bool} {parts : List Outline}
    (h : g c = .ok ⟨true, parts, stop⟩) : again g () c = .ok ⟨.yield (), parts, stop⟩ := by
  refine (run_bind h rfl).trans ?_
  rw [List.append_nil]

theorem run_again_done {g : Grammar Bool} {parts : List Outline}
    (h : g c = .ok ⟨false, parts, stop⟩) : again g () c = .ok ⟨.done (), parts, stop⟩ := by
  refine (run_bind h rfl).trans ?_
  rw [List.append_nil]

/-- From some depth on this holds of the table of rules. -/
def Eventually (P : Rules → Prop) : Prop :=
  ∃ depth, ∀ larger, depth ≤ larger → P (.ofDepth larger)

namespace Eventually

theorem of_forall {P : Rules → Prop} (h : ∀ r, P r) : Eventually P :=
  ⟨0, fun _ _ => h _⟩

theorem and {P Q : Rules → Prop} (hP : Eventually P) (hQ : Eventually Q) :
    Eventually fun r => P r ∧ Q r := by
  obtain ⟨depth, hP⟩ := hP
  obtain ⟨depth', hQ⟩ := hQ
  exact ⟨max depth depth', fun larger hle => ⟨hP _ (by omega), hQ _ (by omega)⟩⟩

theorem mono {P Q : Rules → Prop} (hP : Eventually P) (hPQ : ∀ r, P r → Q r) : Eventually Q := by
  obtain ⟨depth, hP⟩ := hP
  exact ⟨depth, fun larger hle => hPQ _ (hP larger hle)⟩

theorem next {P : Rules → Prop} (h : Eventually fun r => P r.next) : Eventually P := by
  obtain ⟨depth, h⟩ := h
  refine ⟨depth + 1, fun larger hle => ?_⟩
  obtain ⟨smaller, rfl⟩ : ∃ smaller, larger = smaller + 1 := ⟨larger - 1, by omega⟩
  exact h smaller (by omega)

theorem of_run {rule : Rules → Grammar α}
    (hrule : ∀ {r r'}, RulesRefine r r' → Refines (rule r) (rule r')) {depth : Nat}
    {done : Parsed α} (h : rule (.ofDepth depth) c = .ok done) :
    Eventually fun r => rule r c = .ok done :=
  ⟨depth, fun _ hle => hrule (ofDepth_refines hle) c done h⟩

theorem eq_of_run {rule : Rules → Grammar α}
    (hrule : ∀ {r r'}, RulesRefine r r' → Refines (rule r) (rule r')) {done done' : Parsed α}
    (h : Eventually fun r => rule r c = .ok done) {depth : Nat}
    (h' : rule (.ofDepth depth) c = .ok done') : done' = done := by
  obtain ⟨depth', h⟩ := h
  exact ofDepth_agree hrule h' (h depth' (Nat.le_refl _))

end Eventually

theorem labelElement_refines {r r' : Rules} (h : RulesRefine r r') :
    Refines (labelElement r) (labelElement r') := by
  refine bind_refines_right fun _ => ite_refines (.refl _) (bind_refines (isPattern_refines h)
    fun _ => ite_refines (put_refines h.pattern fun _ => .refl _) ?_)
  exact bind_refines_left (h.conditional _)

theorem switchLabel_refines {r r' : Rules} (h : RulesRefine r r') :
    Refines (switchLabel r) (switchLabel r') := by
  refine bind_refines_right fun kind => ?_
  split
  · exact .refl _
  · exact bind_refines_left (node_refines (bind_refines_right fun _ => put_refines
      (node_refines (repeatWhile_refines (bind_refines_left (labelElement_refines h))))
        fun _ => .refl _))
  · exact .refl _

theorem document_refines {r r' : Rules} (h : RulesRefine r r') (s : Subject) :
    Refines (document r s) (document r' s) := by
  refine node_refines (bind_refines_left (capture_refines ?_))
  cases s with
  | pattern =>
      exact bind_refines (isPattern_refines h) fun _ =>
        ite_refines (bind_refines_left h.pattern) (.refl _)
  | expression => exact orReport_refines h.expression
  | switchLabel => exact bind_refines_left (switchLabel_refines h)

/-- All significant tokens of a text, to be read. -/
def origin (text : String) : Cursor :=
  ⟨0, Terminal.ofTokens (Token.significant (Token.tokenize text))⟩

theorem exists_run {s : Subject} {text : String} (a : Account s text) :
    ∃ stop, document (.ofDepth (5 * (origin text).rest.length + 5)) s (origin text) =
      .ok ⟨.node .root a.parts, [], stop⟩ := by
  obtain ⟨outline, stop, hrun, -⟩ := finds_document
    (c := ⟨0, Terminal.ofTokens (Token.significant (Token.tokenize text))⟩) (ready_ofDepth _) s
    (Nat.le_refl _)
  have houtline := a.outline_eq
  simp only [Parse.outline, deepEnough, hrun] at houtline
  cases Except.ok.inj houtline
  exact ⟨stop, hrun⟩

theorem run_document {r : Rules} {s : Subject} {parts : List Outline}
    (h : Grammar.subject r s c = .ok ⟨(), parts, stop⟩) (hstop : stop.rest = []) :
    document r s c = .ok ⟨.node .root parts, [], stop⟩ := by
  have hput : putAll parts stop = .ok ⟨(), parts, stop⟩ := rfl
  refine run_node (run_look (run_capture h) ((run_bind hput (run_look (a := stop.rest.isEmpty) rfl
    ?_)).trans (by rw [List.append_nil])))
  rw [hstop]
  rfl

theorem parts_eq_of_eventually {s : Subject} {text : String} (a : Account s text)
    {parts : List Outline}
    (h : Eventually fun r => document r s (origin text) = .ok ⟨.node .root parts, [], stop⟩) :
    a.parts = parts := by
  obtain ⟨last, hrun⟩ := exists_run a
  have hrefines {r r' : Rules} (h : RulesRefine r r') :
      Refines (document r s) (document r' s) :=
    document_refines h s
  cases h.eq_of_run hrefines hrun
  rfl

end PatternSyntax.Proofs.Forward
