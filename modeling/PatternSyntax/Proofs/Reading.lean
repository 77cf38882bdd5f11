import PatternSyntax.Proofs.CleanDocument
import PatternSyntax.Proofs.Forward

/-!
Runs that put down no error, by the places that they reach. This tells what a text has to look like
for a rule to end without an error; what the rule puts down does not matter.
-/

namespace PatternSyntax.Proofs.Reading

open Grammar
open PatternSyntax.Proofs.CleanRuns
open PatternSyntax.Proofs.Coverage
open PatternSyntax.Proofs.Forward
open PatternSyntax.Proofs.Neatness
open PatternSyntax.Proofs.Runs

variable {α β σ : Type} {c : Cursor}

/-- If the rule ends without an error, this holds of its value and of the place that it reached. -/
def Leads (g : Grammar α) (c : Cursor) (Q : α → Cursor → Prop) : Prop :=
  After g c fun a _ stop => Q a stop

/-- The rule answers with an outline, and if there is no error in it, this holds of the place that
the rule reached. -/
def Reads (g : Grammar Outline) (c : Cursor) (P : Cursor → Prop) : Prop :=
  ∀ done, g c = .ok done → done.parts = [] ∧ (done.value.hasError = false → P done.cursor)

/-- The rule may answer with an outline. If it does, and there is no error in it, this holds of the
place that the rule reached. -/
def MayRead (g : Grammar (Option Outline)) (c : Cursor) (P : Cursor → Prop) : Prop :=
  ∀ done, g c = .ok done →
    done.parts = [] ∧ ∀ outline ∈ done.value, outline.hasError = false → P done.cursor

theorem leads_bind {g : Grammar α} {f : α → Grammar β} {P : α → Cursor → Prop}
    {Q : β → Cursor → Prop} (hg : Leads g c P) (hf : ∀ a mid, P a mid → Leads (f a) mid Q) :
    Leads (g >>= f) c Q :=
  after_bind hg fun a _ mid hP => hf a mid hP

theorem leads_bump_bind {kind : TokenKind} {f : Unit → Grammar α} {Q : α → Cursor → Prop}
    (hnext : nextKind c = some kind) (h : ∀ mid, Passes kind c mid → Leads (f ()) mid Q) :
    Leads (bump >>= f) c Q := by
  obtain ⟨mid, hpasses⟩ := exists_passes hnext
  refine after_bind (P := fun _ _ stop => stop = mid) ?_ fun _ _ _ heq => heq ▸ h mid hpasses
  intro done hrun _
  cases hrun.symm.trans hpasses.bump
  rfl

theorem leads_bump {kind : TokenKind} (hnext : nextKind c = some kind) :
    Leads bump c fun _ stop => Passes kind c stop := by
  obtain ⟨stop, hpasses⟩ := exists_passes hnext
  intro done hrun _
  cases hrun.symm.trans hpasses.bump
  exact hpasses

theorem leads_ifAt {kind : TokenKind} {yes no : Grammar α} {Q : α → Cursor → Prop}
    (hyes : nextKind c = some kind → Leads yes c Q)
    (hno : nextKind c ≠ some kind → Leads no c Q) :
    Leads (isAt kind >>= fun found => if found = true then yes else no) c Q := by
  refine after_look (a := nextKind c == some kind) rfl ?_
  split
  · exact hyes (beq_iff_eq.1 ‹_›)
  · exact hno fun h => ‹¬_› (beq_iff_eq.2 h)

theorem leads_eat {kind : TokenKind} :
    Leads (eat kind) c fun found stop => found = true → Passes kind c stop := by
  refine leads_ifAt (fun hnext => ?_) fun _ => after_pure nofun
  exact leads_bump_bind hnext fun _ hpasses => after_pure fun _ => hpasses

theorem leads_expect {kind : TokenKind} {missing : ErrorKind} :
    Leads (expect kind missing) c fun _ stop => Passes kind c stop := by
  refine leads_bind leads_eat fun found mid hfound => ?_
  split
  · exact after_pure (hfound ‹_›)
  · exact after_report

/-- What a turn of a loop has to bring about for `Q` to hold of the beginning and the end. -/
def Extends (Q : σ → Cursor → σ → Cursor → Prop) (s : σ) (c : Cursor) :
    ForInStep σ → Cursor → Prop
  | .done last, stop => Q s c last stop
  | .yield next, mid => ∀ last stop, Q next mid last stop → Q s c last stop

theorem leads_iterate {step : σ → Grammar (ForInStep σ)} {Q : σ → Cursor → σ → Cursor → Prop}
    (hstep : ∀ s c, Leads (step s) c (Extends Q s c)) (s : σ) :
    Leads (iterate step s) c fun last stop => Q s c last stop := by
  suffices h : ∀ limit s c, Leads (iterateWithin step limit s) c fun last stop => Q s c last stop
    from h _ s c
  intro limit
  induction limit with
  | zero => exact fun _ _ _ hrun => nomatch hrun
  | succ limit ih =>
      intro s c
      refine leads_bind (hstep s c) fun next mid hnext => ?_
      cases next with
      | done last => exact after_pure hnext
      | yield s' =>
          intro done hrun hclean
          exact hnext _ _ (ih s' mid done hrun hclean)

theorem reads_node {kind : NodeKind} {g : Grammar Unit} {P : Cursor → Prop}
    (h : Leads g c fun _ stop => P stop) : Reads (node kind g) c P := by
  intro done hrun
  obtain ⟨_, _, hcapture, hpure, rfl⟩ := exists_of_bind_ok hrun
  obtain ⟨inner, hinner, rfl⟩ := exists_of_capture_ok hcapture
  cases hpure
  exact ⟨rfl, h inner hinner⟩

theorem leads_put_bind {outline : Outline} {f : Unit → Grammar α} {Q : α → Cursor → Prop}
    (h : outline.hasError = false → Leads (f ()) c Q) : Leads (put outline >>= f) c Q := by
  intro done hrun hclean
  obtain ⟨first, second, hfirst, hsecond, rfl⟩ := exists_of_bind_ok hrun
  cases hfirst
  rw [List.singleton_append, Outline.hasErrorAll, Bool.or_eq_false_iff] at hclean
  exact h hclean.1 second hsecond hclean.2

theorem leads_put {outline : Outline} {Q : Unit → Cursor → Prop}
    (h : outline.hasError = false → Q () c) : Leads (put outline) c Q := by
  intro done hrun hclean
  cases hrun
  rw [Outline.hasErrorAll, Bool.or_eq_false_iff] at hclean
  exact h hclean.1

theorem leads_putAll_bind {parts : List Outline} {f : Unit → Grammar α} {Q : α → Cursor → Prop}
    (h : Outline.hasErrorAll parts = false → Leads (f ()) c Q) :
    Leads (putAll parts >>= f) c Q := by
  intro done hrun hclean
  obtain ⟨first, second, hfirst, hsecond, rfl⟩ := exists_of_bind_ok hrun
  cases hfirst
  rw [hasErrorAll_append, Bool.or_eq_false_iff] at hclean
  exact h hclean.1 second hsecond hclean.2

theorem leads_capture_bind {g : Grammar α} {f : α × List Outline → Grammar β}
    {P : α → Cursor → Prop} {Q : β → Cursor → Prop} (hg : Leads g c P)
    (hf : ∀ a parts mid, (Outline.hasErrorAll parts = false → P a mid) →
      Leads (f (a, parts)) mid Q) : Leads (capture g >>= f) c Q := by
  intro done hrun hclean
  obtain ⟨first, second, hfirst, hsecond, rfl⟩ := exists_of_bind_ok hrun
  obtain ⟨inner, hinner, rfl⟩ := exists_of_capture_ok hfirst
  exact hf inner.value inner.parts inner.cursor (hg inner hinner) second hsecond hclean

theorem leads_found_bind {g : Grammar Outline} {f : Unit → Grammar α} {P : Cursor → Prop}
    {Q : α → Cursor → Prop} (hg : Reads g c P) (hf : ∀ mid, P mid → Leads (f ()) mid Q) :
    Leads (g >>= fun outline => put outline >>= f) c Q := by
  intro done hrun hclean
  obtain ⟨first, second, hfirst, hsecond, rfl⟩ := exists_of_bind_ok hrun
  obtain ⟨hparts, hP⟩ := hg first hfirst
  rw [hparts, List.nil_append] at hclean
  exact leads_put_bind (fun herror => hf _ (hP herror)) second hsecond hclean

theorem leads_found {g : Grammar Outline} {P : Cursor → Prop} (hg : Reads g c P) :
    Leads (g >>= fun outline => put outline) c fun _ stop => P stop := by
  intro done hrun hclean
  obtain ⟨first, second, hfirst, hsecond, rfl⟩ := exists_of_bind_ok hrun
  obtain ⟨hparts, hP⟩ := hg first hfirst
  rw [hparts, List.nil_append] at hclean
  exact leads_put (Q := fun _ stop => P stop) hP second hsecond hclean

theorem leads_orReport {missing : ErrorKind} {g : Grammar (Option Outline)} {P : Cursor → Prop}
    (hg : MayRead g c P) : Leads (orReport missing g) c fun _ stop => P stop := by
  intro done hrun hclean
  obtain ⟨first, second, hfirst, hsecond, rfl⟩ := exists_of_bind_ok hrun
  obtain ⟨hparts, hP⟩ := hg first hfirst
  rw [hparts, List.nil_append] at hclean
  cases hvalue : first.value with
  | none =>
      rw [hvalue] at hsecond
      exact after_report (Q := fun _ _ stop => P stop) second hsecond hclean
  | some outline =>
      rw [hvalue] at hsecond
      exact leads_put (Q := fun _ stop => P stop) (hP outline hvalue) second hsecond hclean

theorem reads_bind {g : Grammar α} {f : α → Grammar Outline} {P : Cursor → Prop}
    (h : ∀ done, g c = .ok done → done.parts = [] ∧ Reads (f done.value) done.cursor P) :
    Reads (g >>= f) c P := by
  intro done hrun
  obtain ⟨first, second, hfirst, hsecond, rfl⟩ := exists_of_bind_ok hrun
  obtain ⟨hparts, hread⟩ := h first hfirst
  obtain ⟨hparts', hP⟩ := hread second hsecond
  exact ⟨by rw [hparts, hparts']; rfl, hP⟩

theorem reads_ifAt {kind : TokenKind} {yes no : Grammar Outline} {P : Cursor → Prop}
    (hyes : nextKind c = some kind → Reads yes c P)
    (hno : nextKind c ≠ some kind → Reads no c P) :
    Reads (isAt kind >>= fun found => if found = true then yes else no) c P := by
  refine reads_bind fun done hrun => ?_
  cases hrun
  refine ⟨rfl, ?_⟩
  dsimp only
  split
  · exact hyes (beq_iff_eq.1 ‹_›)
  · exact hno fun h => ‹¬_› (beq_iff_eq.2 h)

theorem reads_pure {outline : Outline} {P : Cursor → Prop}
    (h : outline.hasError = false → P c) : Reads (pure outline) c P := by
  intro done hrun
  cases hrun
  exact ⟨rfl, h⟩

end PatternSyntax.Proofs.Reading
