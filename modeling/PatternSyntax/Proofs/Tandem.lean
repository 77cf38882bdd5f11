import PatternSyntax.Proofs.Forward
import PatternSyntax.Proofs.Parentheses

/-!
Two runs of a rule side by side, on tokens that differ only in what comes behind them: nothing, or
the colon or the arrow that ends a label. Where the first run puts down no error, the second one
does the same. A rule that may read a lambda expression is the exception, because there an arrow
behind the last token matters: it is only known that the first run gets to the end of the tokens
then.
-/

namespace PatternSyntax.Proofs.Tandem

open Grammar
open PatternSyntax.Proofs.Coverage
open PatternSyntax.Proofs.Neatness
open PatternSyntax.Proofs.Parentheses
open PatternSyntax.Proofs.Runs
open PatternSyntax.Proofs.Shapes

variable {α β σ : Type}

/-- There is no error, and the parentheses in all blocks are balanced. -/
def Fair (outline : Outline) : Prop :=
  outline.hasError = false ∧ evenBlocksAll (outlined outline) = true

/-- There is no error in a row, and the parentheses in all its blocks are balanced. -/
def FairAll (parts : List Outline) : Prop :=
  Outline.hasErrorAll parts = false ∧ evenBlocksAll (outlinedAll parts) = true

theorem fairAll_nil : FairAll [] :=
  ⟨rfl, rfl⟩

theorem fairAll_append {front back : List Outline} :
    FairAll (front ++ back) ↔ FairAll front ∧ FairAll back := by
  rw [FairAll, hasErrorAll_append, outlinedAll_append, evenBlocksAll_append, Bool.or_eq_false_iff,
    Bool.and_eq_true]
  exact and_and_and_comm

theorem fairAll_cons {part : Outline} {rest : List Outline} :
    FairAll (part :: rest) ↔ Fair part ∧ FairAll rest := by
  rw [FairAll, Outline.hasErrorAll, outlinedAll, evenBlocksAll_append, Bool.or_eq_false_iff,
    Bool.and_eq_true]
  exact and_and_and_comm

theorem fairAll_singleton {part : Outline} : FairAll [part] ↔ Fair part :=
  fairAll_cons.trans (and_iff_left fairAll_nil)

theorem fair_token (kind : TokenKind) : Fair (.token kind) :=
  ⟨rfl, rfl⟩

theorem Fair.parts {kind : NodeKind} {parts : List Outline} (h : Fair (.node kind parts)) :
    FairAll parts :=
  ⟨h.1, (evenBlocks_node h.2).2⟩

theorem Fair.around {kind : NodeKind} {first : Outline} {later : List Outline}
    (h : Fair (.around kind first later)) : Fair first ∧ FairAll later := by
  obtain ⟨herror, heven⟩ := h
  rw [Outline.hasError, Bool.or_eq_false_iff] at herror
  have hinner := (evenBlocks_node heven).2
  rw [evenBlocksAll_append, Bool.and_eq_true] at hinner
  exact ⟨⟨herror.1, hinner.1⟩, herror.2, hinner.2⟩

theorem Fair.loose {parts : List Outline} (h : Fair (.loose parts)) : FairAll parts :=
  h

theorem fair_node {kind : NodeKind} {parts : List Outline} (hkind : kind ≠ .codeBlock)
    (h : FairAll parts) : Fair (.node kind parts) := by
  refine ⟨h.1, ?_⟩
  simp [outlined, evenBlocksAll, evenBlocks, h.2, hkind]

/-- What may be answered with is there, and is fair. -/
def MayFair (found : Option Outline) : Prop :=
  ∃ outline, found = some outline ∧ Fair outline

theorem mayFair_some {outline : Outline} : MayFair (some outline) ↔ Fair outline :=
  ⟨fun ⟨_, heq, h⟩ => Option.some.inj heq ▸ h, fun h => ⟨outline, rfl, h⟩⟩

theorem not_mayFair_none : ¬MayFair none :=
  nofun

def Captured (V : α → Prop) (captured : α × List Outline) : Prop :=
  V captured.1 ∧ FairAll captured.2

/-- What a turn of a loop leaves behind. -/
def Turn (I J : σ → Prop) : ForInStep σ → Prop
  | .done s => J s
  | .yield s => I s

/-- A run without an error, whose value is as it should be. -/
structure Sound (V : α → Prop) (done : Parsed α) : Prop where
  parts : FairAll done.parts
  value : V done.value

theorem Sound.later {value : α} {front back : List Outline} {c : Cursor} {V : α → Prop}
    (h : Sound V ⟨value, front ++ back, c⟩) : Sound V ⟨value, back, c⟩ :=
  ⟨(fairAll_append.1 h.parts).2, h.value⟩

/-- No run of the rule from here is sound. -/
def SpoilsAt (V : α → Prop) (g : Grammar α) (c : Cursor) : Prop :=
  ∀ done, g c = .ok done → ¬Sound V done

def Spoils (V : α → Prop) (g : Grammar α) : Prop :=
  ∀ c, SpoilsAt V g c

variable {V : α → Prop} {W : β → Prop} {c : Cursor}

theorem spoils_pure {a : α} (h : ¬V a) : Spoils V (pure a : Grammar α) := by
  intro c done hrun hsound
  cases hrun
  exact h hsound.value

theorem spoils_fail {fault : Fault} : Spoils V (fail fault : Grammar α) :=
  fun _ _ hrun => nomatch hrun

theorem spoils_report {kind : ErrorKind} {V : Unit → Prop} : Spoils V (report kind) := by
  intro c done hrun hsound
  cases hrun
  exact absurd hsound.parts.1.symm Bool.false_ne_true

theorem spoils_put {outline : Outline} {V : Unit → Prop} (h : ¬Fair outline) :
    Spoils V (put outline) := by
  intro c done hrun hsound
  cases hrun
  exact h (fairAll_singleton.1 hsound.parts)

theorem spoils_putAll {parts : List Outline} {V : Unit → Prop} (h : ¬FairAll parts) :
    Spoils V (putAll parts) := by
  intro c done hrun hsound
  cases hrun
  exact h hsound.parts

theorem spoilsAt_bind {g : Grammar α} {f : α → Grammar β}
    (h : ∀ first, g c = .ok first → FairAll first.parts →
      SpoilsAt W (f first.value) first.cursor) : SpoilsAt W (g >>= f) c := by
  intro done hrun hsound
  obtain ⟨first, second, hfirst, hsecond, rfl⟩ := exists_of_bind_ok hrun
  exact h first hfirst (fairAll_append.1 hsound.parts).1 second hsecond hsound.later

theorem spoils_bind {g : Grammar α} {f : α → Grammar β} (hf : ∀ a, Spoils W (f a)) :
    Spoils W (g >>= f) :=
  fun _ => spoilsAt_bind fun _ _ _ => hf _ _

theorem spoils_bind_of {g : Grammar α} {f : α → Grammar β} (hg : Spoils V g)
    (hf : ∀ a, ¬V a → Spoils W (f a)) : Spoils W (g >>= f) :=
  fun c => spoilsAt_bind fun first hfirst hfair => hf _ (fun h => hg c first hfirst ⟨hfair, h⟩) _

theorem spoilsAt_before {g : Grammar α} {f : α → Grammar β}
    (hg : SpoilsAt (fun _ => True) g c) : SpoilsAt W (g >>= f) c :=
  spoilsAt_bind fun first hfirst hfair => absurd ⟨hfair, trivial⟩ (hg first hfirst)

theorem spoils_before {g : Grammar α} {f : α → Grammar β} (hg : Spoils (fun _ => True) g) :
    Spoils W (g >>= f) :=
  fun c => spoilsAt_before (hg c)

theorem spoilsAt_ite {p : Prop} [Decidable p] {yes no : Grammar α} (hyes : p → SpoilsAt V yes c)
    (hno : ¬p → SpoilsAt V no c) : SpoilsAt V (if p then yes else no) c := by
  split
  · exact hyes ‹_›
  · exact hno ‹_›

theorem spoils_ite {p : Prop} [Decidable p] {yes no : Grammar α} (hyes : Spoils V yes)
    (hno : Spoils V no) : Spoils V (if p then yes else no) := by
  split
  · exact hyes
  · exact hno

theorem spoils_around {kind : NodeKind} {first : Outline} {g : Grammar Unit} (h : ¬Fair first) :
    Spoils Fair (around kind first g) :=
  spoils_bind fun _ => spoils_pure fun hfair => h hfair.around.1

theorem spoils_iterateWithin {step : σ → Grammar (ForInStep σ)} {I J : σ → Prop}
    (hstep : ∀ s, ¬I s → Spoils (Turn I J) (step s)) (limit : Nat) {s : σ} (hs : ¬I s) :
    Spoils J (iterateWithin step limit s) := by
  induction limit generalizing s with
  | zero => exact spoils_fail
  | succ limit ih =>
      intro c done hrun hsound
      obtain ⟨first, second, hfirst, hsecond, rfl⟩ := exists_of_bind_ok hrun
      have hfront := (fairAll_append.1 hsound.parts).1
      have hturn : ¬Turn I J first.value := fun h => hstep s hs c first hfirst ⟨hfront, h⟩
      cases hvalue : first.value with
      | done last =>
          rw [hvalue] at hsecond hturn
          cases hsecond
          exact hturn hsound.value
      | yield next =>
          rw [hvalue] at hsecond hturn
          exact ih hturn _ second hsecond hsound.later

theorem spoils_iterate {step : σ → Grammar (ForInStep σ)} {I J : σ → Prop}
    (hstep : ∀ s, ¬I s → Spoils (Turn I J) (step s)) {s : σ} (hs : ¬I s) :
    Spoils J (iterate step s) :=
  fun c => spoils_iterateWithin hstep _ hs c

theorem spoilsAt_look {g : Grammar α} {f : α → Grammar β} {a : α} (hg : g c = .ok ⟨a, [], c⟩)
    (hf : SpoilsAt W (f a) c) : SpoilsAt W (g >>= f) c := by
  refine spoilsAt_bind fun first hfirst _ => ?_
  cases hg.symm.trans hfirst
  exact hf

theorem spoilsAt_found_bind {g : Grammar Outline} {f : Unit → Grammar β}
    (hg : SpoilsAt Fair g c) : SpoilsAt W (g >>= fun outline => put outline >>= f) c := by
  intro done hrun hsound
  obtain ⟨first, second, hfirst, hsecond, rfl⟩ := exists_of_bind_ok hrun
  obtain ⟨placed, third, hplaced, -, rfl⟩ := exists_of_bind_ok hsecond
  cases hplaced
  obtain ⟨hfront, hback⟩ := fairAll_append.1 hsound.parts
  exact hg first hfirst ⟨hfront, (fairAll_cons.1 hback).1⟩

theorem exists_of_orReport {missing : ErrorKind} {g : Grammar (Option Outline)}
    {done : Parsed Unit} (hrun : orReport missing g c = .ok done) (hfair : FairAll done.parts) :
    ∃ found, g c = .ok found ∧ Sound MayFair found := by
  obtain ⟨found, answered, hfound, hanswered, rfl⟩ := exists_of_bind_ok hrun
  obtain ⟨hfront, hback⟩ := fairAll_append.1 hfair
  refine ⟨found, hfound, hfront, ?_⟩
  cases hvalue : found.value with
  | none =>
      rw [hvalue] at hanswered
      cases hanswered
      cases hback.1
  | some outline =>
      rw [hvalue] at hanswered
      cases hanswered
      exact mayFair_some.2 (fairAll_singleton.1 hback)

theorem spoilsAt_orReport {missing : ErrorKind} {g : Grammar (Option Outline)} {V : Unit → Prop}
    (hg : SpoilsAt MayFair g c) : SpoilsAt V (orReport missing g) c := by
  intro done hrun hsound
  obtain ⟨found, hfound, hsound'⟩ := exists_of_orReport hrun hsound.parts
  exact hg found hfound hsound'

theorem spoils_capture {g : Grammar α} (hg : Spoils V g) : Spoils (Captured V) (capture g) := by
  intro c done hrun hsound
  obtain ⟨inner, hinner, rfl⟩ := exists_of_capture_ok hrun
  exact hg c inner hinner ⟨hsound.value.2, hsound.value.1⟩

theorem spoilsAt_node {kind : NodeKind} {g : Grammar Unit} (hg : SpoilsAt (fun _ => True) g c) :
    SpoilsAt Fair (node kind g) c := by
  refine spoilsAt_bind fun captured hcaptured _ => ?_
  obtain ⟨inner, hinner, rfl⟩ := exists_of_capture_ok hcaptured
  exact spoils_pure (fun h => hg inner hinner ⟨h.parts, trivial⟩) _

theorem spoils_node {kind : NodeKind} {g : Grammar Unit} (hg : Spoils (fun _ => True) g) :
    Spoils Fair (node kind g) :=
  fun c => spoilsAt_node (hg c)

theorem spoilsAt_some {g : Grammar Outline} (hg : SpoilsAt Fair g c) :
    SpoilsAt MayFair (do return some (← g)) c :=
  spoilsAt_bind fun first hfirst hfair => spoils_pure
    (fun h => hg first hfirst ⟨hfair, mayFair_some.1 h⟩) _

theorem spoilsAt_of_none {g : Grammar (Option Outline)}
    (h : ∀ done, g c = .ok done → done.value = none) : SpoilsAt MayFair g c :=
  fun done hrun hsound => not_mayFair_none (h done hrun ▸ hsound.value)

/-- What may come behind the tokens of a pattern. -/
inductive Tail : List Terminal → Prop
  | nil : Tail []
  | colon (glued : Bool) : Tail [⟨.colon, glued⟩]
  | arrow (glued : Bool) : Tail [⟨.arrow, glued⟩]

/-- What comes behind in two texts. -/
structure Ends where
  left : List Terminal
  right : List Terminal
  left_tail : Tail left
  right_tail : Tail right

/-- The two texts the other way round. -/
def Ends.swap (b : Ends) : Ends :=
  ⟨b.right, b.left, b.right_tail, b.left_tail⟩

/-- The same tokens come next in two texts, up to what comes behind. -/
structure Twins (b : Ends) (front : List Terminal) (c c' : Cursor) : Prop where
  left : c.rest = front ++ b.left
  right : c'.rest = front ++ b.right

theorem Twins.swap {b : Ends} {front : List Terminal} {c c' : Cursor} (h : Twins b front c c') :
    Twins b.swap front c' c :=
  ⟨h.right, h.left⟩

/-- Two runs do the same, and reach the same place. -/
def Same (b : Ends) (done done' : Parsed α) : Prop :=
  ∃ front, Twins b front done.cursor done'.cursor ∧ done'.value = done.value ∧
    done'.parts = done.parts

/-- If the first of two runs is sound, the second one does the same, unless the first one may get to
the end of the tokens, and does so. A sound run that begins at the end stays there. -/
structure Tracks (b : Ends) (edge : Prop) (V : α → Prop) (g : Grammar α) (front : List Terminal) :
    Prop where
  runs {c c' : Cursor} {done done' : Parsed α} : Twins b front c c' → g c = .ok done →
    g c' = .ok done' → Sound V done → Same b done done' ∨ edge ∧ done.cursor.rest = b.left
  stays {c : Cursor} {done : Parsed α} : front = [] → c.rest = b.left → g c = .ok done →
    Sound V done → done.cursor.rest = b.left

variable {b : Ends} {edge : Prop} {front : List Terminal}

theorem Tracks.same {g : Grammar α} (h : Tracks b False V g front) {c c' : Cursor}
    {done done' : Parsed α} (htwins : Twins b front c c') (hrun : g c = .ok done)
    (hrun' : g c' = .ok done') (hsound : Sound V done) : Same b done done' :=
  (h.runs htwins hrun hrun' hsound).resolve_right fun h => h.1

theorem Tracks.mono {g : Grammar α} {edge' : Prop} (h : Tracks b edge V g front)
    (hedge : edge → edge') : Tracks b edge' V g front :=
  ⟨fun htwins hrun hrun' hsound => (h.runs htwins hrun hrun' hsound).imp_right
    fun hend => ⟨hedge hend.1, hend.2⟩, h.stays⟩

theorem Tracks.closed {g : Grammar α} (h : Tracks b False V g front) : Tracks b edge V g front :=
  h.mono False.elim

theorem Tracks.weaken {g : Grammar α} {V' : α → Prop} (h : Tracks b edge V g front)
    (hV : ∀ c done, g c = .ok done → V' done.value → V done.value) : Tracks b edge V' g front :=
  ⟨fun htwins hrun hrun' hsound => h.runs htwins hrun hrun'
    ⟨hsound.parts, hV _ _ hrun hsound.value⟩, fun hfront hrest hrun hsound =>
      h.stays hfront hrest hrun ⟨hsound.parts, hV _ _ hrun hsound.value⟩⟩

theorem Tracks.strengthen {g : Grammar α} {V' : α → Prop} (h : Tracks b edge V g front)
    (hV : ∀ a, V' a → V a) : Tracks b edge V' g front :=
  h.weaken fun _ _ _ => hV _

theorem tracks_of_spoilsAt {g : Grammar α}
    (h : ∀ c, c.rest = front ++ b.left → SpoilsAt V g c) : Tracks b edge V g front := by
  constructor
  · intro c c' done done' htwins hrun _ hsound
    exact absurd hsound (h c htwins.left done hrun)
  · intro c done hfront hrest hrun hsound
    exact absurd hsound (h c (by rw [hfront, hrest]; rfl) done hrun)

theorem tracks_of_spoils {g : Grammar α} (h : Spoils V g) : Tracks b edge V g front :=
  tracks_of_spoilsAt fun c _ => h c

/-- Ahead of these tokens the rule always does the same, and leaves the same ones. -/
def Steady (g : Grammar α) (front mid : List Terminal) (a : α) (parts : List Outline) : Prop :=
  (front = [] → mid = []) ∧ ∀ c back, c.rest = front ++ back →
    ∃ next, g c = .ok ⟨a, parts, next⟩ ∧ next.rest = mid ++ back

theorem steady_pure (a : α) : Steady (pure a) front front a [] :=
  ⟨id, fun c _ hrest => ⟨c, rfl, hrest⟩⟩

theorem steady_putAll (parts : List Outline) : Steady (putAll parts) front front () parts :=
  ⟨id, fun c _ hrest => ⟨c, rfl, hrest⟩⟩

theorem steady_bump (terminal : Terminal) (mid : List Terminal) :
    Steady bump (terminal :: mid) mid () [.token terminal.kind] := by
  refine ⟨nofun, ?_⟩
  rintro ⟨i, rest⟩ back hrest
  cases hrest
  exact ⟨_, rfl, rfl⟩

theorem Steady.tracks {g : Grammar α} {mid : List Terminal} {a : α} {parts : List Outline}
    (h : Steady g front mid a parts) : Tracks b edge V g front := by
  obtain ⟨hmid, hruns⟩ := h
  constructor
  · intro c c' done done' htwins hrun hrun' _
    obtain ⟨next, hnext, hleft⟩ := hruns c _ htwins.left
    obtain ⟨next', hnext', hright⟩ := hruns c' _ htwins.right
    cases hnext.symm.trans hrun
    cases hnext'.symm.trans hrun'
    exact .inl ⟨mid, ⟨hleft, hright⟩, rfl, rfl⟩
  · intro c done hfront hrest hrun _
    obtain ⟨next, hnext, hleft⟩ := hruns c b.left (by rw [hfront, hrest]; rfl)
    cases hnext.symm.trans hrun
    rw [hleft, hmid hfront]
    rfl

theorem Steady.tracks_bind {g : Grammar α} {f : α → Grammar β} {mid : List Terminal} {a : α}
    {parts : List Outline} (h : Steady g front mid a parts) (hf : Tracks b edge W (f a) mid) :
    Tracks b edge W (g >>= f) front := by
  obtain ⟨hmid, hruns⟩ := h
  constructor
  · intro c c' done done' htwins hrun hrun' hsound
    obtain ⟨next, hnext, hleft⟩ := hruns c _ htwins.left
    obtain ⟨next', hnext', hright⟩ := hruns c' _ htwins.right
    obtain ⟨first, second, hg₁, hf₁, rfl⟩ := exists_of_bind_ok hrun
    obtain ⟨first', second', hg₂, hf₂, rfl⟩ := exists_of_bind_ok hrun'
    cases hnext.symm.trans hg₁
    cases hnext'.symm.trans hg₂
    refine (hf.runs ⟨hleft, hright⟩ hf₁ hf₂ hsound.later).imp_left ?_
    rintro ⟨last, hlast, hvalue, hparts⟩
    exact ⟨last, hlast, hvalue, by simp only [hparts]⟩
  · intro c done hfront hrest hrun hsound
    obtain ⟨next, hnext, hleft⟩ := hruns c b.left (by rw [hfront, hrest]; rfl)
    obtain ⟨first, second, hg₁, hf₁, rfl⟩ := exists_of_bind_ok hrun
    cases hnext.symm.trans hg₁
    rw [hmid hfront, List.nil_append] at hleft
    have hstays := hf.stays (hmid hfront) hleft hf₁ hsound.later
    exact hstays

theorem tracks_pure (a : α) : Tracks b edge V (pure a : Grammar α) front :=
  (steady_pure a).tracks

/-- Both parts of a sound run are sound, where the second one tells about the value of the first. -/
theorem sound_of_bind {f : α → Grammar β} {first : Parsed α} {second : Parsed β}
    (hspoils : ¬V first.value → Spoils W (f first.value))
    (hsecond : f first.value first.cursor = .ok second)
    (hsound : Sound W ⟨second.value, first.parts ++ second.parts, second.cursor⟩) :
    Sound V first ∧ Sound W second := by
  have hfront := (fairAll_append.1 hsound.parts).1
  exact ⟨⟨hfront, by_contra fun h => hspoils h _ second hsecond hsound.later⟩, hsound.later⟩

/-- One rule after another. If the first one may get to the end of the tokens, then either so may
the second one, or it cannot go on there. -/
theorem tracks_bind_at {g : Grammar α} {f : α → Grammar β} {edge' : Prop}
    (hg : Tracks b edge V g front)
    (hspoils : ∀ c first, c.rest = front ++ b.left → g c = .ok first → ¬V first.value →
      Spoils W (f first.value))
    (hf : ∀ a mid, V a → Tracks b edge' W (f a) mid)
    (hend : edge → edge' ∨ ∀ a c, V a → c.rest = b.left → SpoilsAt W (f a) c) :
    Tracks b edge' W (g >>= f) front := by
  constructor
  · intro c c' done done' htwins hrun hrun' hsound
    obtain ⟨first, second, hg₁, hf₁, rfl⟩ := exists_of_bind_ok hrun
    obtain ⟨first', second', hg₂, hf₂, rfl⟩ := exists_of_bind_ok hrun'
    obtain ⟨hsound₁, hsound₂⟩ := sound_of_bind (hspoils c first htwins.left hg₁) hf₁ hsound
    rcases hg.runs htwins hg₁ hg₂ hsound₁ with ⟨mid, htwins', hvalue, hparts⟩ | ⟨hedge, hrest⟩
    · rw [hvalue] at hf₂
      refine ((hf _ mid hsound₁.value).runs htwins' hf₁ hf₂ hsound₂).imp_left ?_
      rintro ⟨last, hlast, hvalue', hparts'⟩
      exact ⟨last, hlast, hvalue', by simp only [hparts, hparts']⟩
    -- The first rule got to the end of the tokens.
    · rcases hend hedge with hedge' | hspoils'
      · have hstays := (hf _ [] hsound₁.value).stays rfl hrest hf₁ hsound₂
        exact .inr ⟨hedge', hstays⟩
      · exact absurd hsound₂ (hspoils' _ _ hsound₁.value hrest second hf₁)
  · intro c done hfront hrest hrun hsound
    obtain ⟨first, second, hg₁, hf₁, rfl⟩ := exists_of_bind_ok hrun
    have hleft : c.rest = front ++ b.left := by
      rw [hfront, hrest]
      rfl
    obtain ⟨hsound₁, hsound₂⟩ := sound_of_bind (hspoils c first hleft hg₁) hf₁ hsound
    have hmid := hg.stays hfront hrest hg₁ hsound₁
    have hstays := (hf _ [] hsound₁.value).stays rfl hmid hf₁ hsound₂
    exact hstays

theorem tracks_bind_of {g : Grammar α} {f : α → Grammar β} {edge' : Prop}
    (hg : Tracks b edge V g front) (hspoils : ∀ a, ¬V a → Spoils W (f a))
    (hf : ∀ a mid, V a → Tracks b edge' W (f a) mid)
    (hend : edge → edge' ∨ ∀ a c, V a → c.rest = b.left → SpoilsAt W (f a) c) :
    Tracks b edge' W (g >>= f) front :=
  tracks_bind_at hg (fun _ first _ _ => hspoils first.value) hf hend

theorem tracks_bind {g : Grammar α} {f : α → Grammar β} (hg : Tracks b edge V g front)
    (hspoils : ∀ a, ¬V a → Spoils W (f a)) (hf : ∀ a mid, V a → Tracks b edge W (f a) mid) :
    Tracks b edge W (g >>= f) front :=
  tracks_bind_of hg hspoils hf .inl

theorem tracks_seq {g : Grammar α} {f : α → Grammar β}
    (hg : Tracks b edge (fun _ => True) g front) (hf : ∀ a mid, Tracks b edge W (f a) mid) :
    Tracks b edge W (g >>= f) front :=
  tracks_bind hg (fun _ h => absurd trivial h) fun a mid _ => hf a mid

theorem look_bind {γ : Type} {g : Grammar γ} {f : γ → Grammar β} {a : γ}
    (h : g c = .ok ⟨a, [], c⟩) : (g >>= f) c = f a c := by
  rw [bind_apply, h]
  dsimp only
  cases f a c with
  | error fault => rfl
  | ok done => rfl

theorem tracks_look_of {γ : Type} {g : Grammar γ} {f : γ → Grammar β} {g' : Grammar β}
    (hg : ∀ c, c.rest = front ++ b.left ∨ c.rest = front ++ b.right →
      ∃ a, g c = .ok ⟨a, [], c⟩ ∧ f a = g')
    (hf : Tracks b edge W g' front) : Tracks b edge W (g >>= f) front := by
  have hlook {c : Cursor} (hc : c.rest = front ++ b.left ∨ c.rest = front ++ b.right) :
      (g >>= f) c = g' c := by
    obtain ⟨a, ha, rfl⟩ := hg c hc
    exact look_bind ha
  constructor
  · intro c c' done done' htwins hrun hrun' hsound
    rw [hlook (.inl htwins.left)] at hrun
    rw [hlook (.inr htwins.right)] at hrun'
    exact hf.runs htwins hrun hrun' hsound
  · intro c done hfront hrest hrun hsound
    rw [hlook (.inl (by rw [hfront, hrest]; rfl))] at hrun
    exact hf.stays hfront hrest hrun hsound

theorem tracks_look {γ : Type} {g : Grammar γ} {f : γ → Grammar β} {a : γ}
    (hg : ∀ c, c.rest = front ++ b.left ∨ c.rest = front ++ b.right → g c = .ok ⟨a, [], c⟩)
    (hf : Tracks b edge W (f a) front) : Tracks b edge W (g >>= f) front :=
  tracks_look_of (fun c hc => ⟨a, hg c hc, rfl⟩) hf

theorem tracks_ite {p : Prop} [Decidable p] {yes no : Grammar α}
    (hyes : p → Tracks b edge V yes front) (hno : ¬p → Tracks b edge V no front) :
    Tracks b edge V (if p then yes else no) front := by
  split
  · exact hyes ‹_›
  · exact hno ‹_›

/-- The tokens that do not end a label. -/
def Inner (kind : TokenKind) : Prop :=
  kind ≠ .colon ∧ kind ≠ .arrow

instance : DecidablePred Inner :=
  fun kind => inferInstanceAs (Decidable (kind ≠ .colon ∧ kind ≠ .arrow))

theorem Ends.tail_of_or {b : Ends} {rest : List Terminal}
    (h : rest = front ++ b.left ∨ rest = front ++ b.right) :
    ∃ back, Tail back ∧ rest = front ++ back := by
  rcases h with h | h
  · exact ⟨b.left, b.left_tail, h⟩
  · exact ⟨b.right, b.right_tail, h⟩

/-- The kind of the token at some place ahead. -/
def kindAt (n : Nat) (front : List Terminal) : Option TokenKind :=
  front[n]?.map (·.kind)

theorem any_kindAt_append {back : List Terminal} (hback : Tail back) {p : TokenKind → Bool}
    (hp : p .colon = false ∧ p .arrow = false) (n : Nat) (front : List Terminal) :
    (kindAt n (front ++ back)).any p = (kindAt n front).any p := by
  unfold kindAt
  rcases Nat.lt_or_ge n front.length with hlt | hge
  · rw [List.getElem?_append_left hlt]
  · rw [List.getElem?_append_right hge, List.getElem?_eq_none hge]
    cases hback with
    | nil => rfl
    | colon =>
        cases n - front.length with
        | zero => exact hp.1
        | succ _ => rfl
    | arrow =>
        cases n - front.length with
        | zero => exact hp.2
        | succ _ => rfl

theorem beq_kindAt_append {back : List Terminal} (hback : Tail back) {kind : TokenKind}
    (hkind : Inner kind) (n : Nat) (front : List Terminal) :
    (kindAt n (front ++ back) == some kind) = (kindAt n front == some kind) := by
  have hany (found : Option TokenKind) : (found == some kind) = found.any (· == kind) := by
    cases found with
    | none => rfl
    | some other => rfl
  rw [hany, hany]
  exact any_kindAt_append (p := (· == kind)) hback ⟨beq_eq_false_iff_ne.2 hkind.1.symm,
    beq_eq_false_iff_ne.2 hkind.2.symm⟩ n front

theorem tracks_isAhead {n : Nat} {kind : TokenKind} {f : Bool → Grammar α} (hkind : Inner kind)
    (hf : Tracks b edge V (f (kindAt n front == some kind)) front) :
    Tracks b edge V (isAhead n kind >>= f) front := by
  refine tracks_look (fun c hc => ?_) hf
  obtain ⟨back, hback, hrest⟩ := Ends.tail_of_or hc
  rw [← beq_kindAt_append hback hkind, kindAt, ← hrest]
  rfl

theorem exists_of_kindAt {kind : TokenKind} (h : kindAt 0 front = some kind) :
    ∃ glued mid, front = ⟨kind, glued⟩ :: mid := by
  cases front with
  | nil => cases h
  | cons terminal mid =>
      obtain ⟨kind', glued⟩ := terminal
      cases h
      exact ⟨glued, mid, rfl⟩

theorem tracks_ifAt {kind : TokenKind} {yes no : Grammar α} (hkind : Inner kind)
    (hyes : ∀ glued mid, front = ⟨kind, glued⟩ :: mid → Tracks b edge V yes front)
    (hno : kindAt 0 front ≠ some kind → Tracks b edge V no front) :
    Tracks b edge V (isAt kind >>= fun found => if found = true then yes else no) front := by
  refine tracks_isAhead hkind (tracks_ite (fun h => ?_) fun h => hno fun heq => h ?_)
  · obtain ⟨glued, mid, heq⟩ := exists_of_kindAt (beq_iff_eq.1 h)
    exact hyes glued mid heq
  · exact beq_iff_eq.2 heq

/-- Behind all tokens it makes no difference whether nothing or the end of a label comes next. -/
theorem tracks_next {f : Option TokenKind → Grammar α}
    (hsome : ∀ kind glued mid, front = ⟨kind, glued⟩ :: mid → Tracks b edge V (f (some kind)) front)
    (hend : front = [] → Tracks b edge V (f none) front ∧ f (some .colon) = f none ∧
      f (some .arrow) = f none) : Tracks b edge V (next >>= f) front := by
  cases front with
  | nil =>
      obtain ⟨hnone, hcolon, harrow⟩ := hend rfl
      refine tracks_look_of (fun c hc => ⟨nextKind c, rfl, ?_⟩) hnone
      obtain ⟨back, hback, hrest⟩ := Ends.tail_of_or hc
      rw [nextKind, hrest]
      cases hback with
      | nil => rfl
      | colon => exact hcolon
      | arrow => exact harrow
  | cons terminal mid =>
      obtain ⟨kind, glued⟩ := terminal
      refine tracks_look (a := some kind) (fun c hc => ?_) (hsome kind glued mid rfl)
      obtain ⟨back, -, hrest⟩ := Ends.tail_of_or hc
      simp only [next, ahead, hrest]
      rfl

theorem tracks_isAtEnd {f : Bool → Grammar β} (hf : ∀ atEnd, Tracks b True W (f atEnd) front) :
    Tracks b True W (isAtEnd >>= f) front := by
  cases front with
  | cons terminal mid =>
      refine tracks_look (a := false) (fun c hc => ?_) (hf false)
      obtain ⟨back, -, hrest⟩ := Ends.tail_of_or hc
      rw [isAtEnd, hrest]
      rfl
  | nil =>
      have hstays {c : Cursor} {done : Parsed β} (hrest : c.rest = b.left)
          (hrun : (isAtEnd >>= f) c = .ok done) (hsound : Sound W done) :
          done.cursor.rest = b.left := by
        obtain ⟨first, second, hfirst, hsecond, rfl⟩ := exists_of_bind_ok hrun
        cases hfirst
        exact (hf _).stays rfl hrest hsecond hsound
      exact ⟨fun htwins hrun _ hsound => .inr ⟨trivial, hstays htwins.left hrun hsound⟩,
        fun _ => hstays⟩

theorem tracks_bump_bind {terminal : Terminal} {mid : List Terminal} {f : Unit → Grammar β}
    (hf : Tracks b edge W (f ()) mid) : Tracks b edge W (bump >>= f) (terminal :: mid) :=
  (steady_bump terminal mid).tracks_bind hf

theorem tracks_bump {terminal : Terminal} {mid : List Terminal} {V : Unit → Prop} :
    Tracks b edge V bump (terminal :: mid) :=
  (steady_bump terminal mid).tracks

/-- A token that comes before the end is passed in both texts or in none, of whatever kind. -/
theorem tracks_eat_cons {kind : TokenKind} {terminal : Terminal} {mid : List Terminal}
    {V : Bool → Prop} : Tracks b edge V (eat kind) (terminal :: mid) := by
  refine tracks_look (a := some terminal.kind == some kind) (fun c hc => ?_) (tracks_ite
    (fun _ => tracks_bump_bind (tracks_pure true)) fun _ => tracks_pure false)
  obtain ⟨back, -, hrest⟩ := Ends.tail_of_or hc
  rw [isAt, isAhead, hrest]
  rfl

theorem tracks_expect_cons {kind : TokenKind} {missing : ErrorKind} {terminal : Terminal}
    {mid : List Terminal} {V : Unit → Prop} :
    Tracks b edge V (expect kind missing) (terminal :: mid) := by
  refine tracks_seq tracks_eat_cons fun found mid => ?_
  cases found with
  | false => exact tracks_of_spoils spoils_report
  | true => exact tracks_pure ()

theorem tracks_eat {kind : TokenKind} {V : Bool → Prop} (hkind : Inner kind) :
    Tracks b edge V (eat kind) front := by
  refine tracks_ifAt hkind (fun glued mid hfront => ?_) fun _ => tracks_pure false
  rw [hfront]
  exact tracks_bump_bind (tracks_pure true)

theorem tracks_expect {kind : TokenKind} {missing : ErrorKind} {V : Unit → Prop}
    (hkind : Inner kind) : Tracks b edge V (expect kind missing) front := by
  refine tracks_bind (V := (· = true)) (tracks_eat hkind) (fun found hfound => ?_)
    fun found mid hfound => ?_
  · rw [Bool.not_eq_true] at hfound
    rw [hfound]
    exact spoils_report
  · rw [hfound]
    exact tracks_pure ()

theorem nextKind_ne_of_tail {kind : TokenKind} (hkind : Inner kind) (htail : Tail c.rest) :
    nextKind c ≠ some kind := by
  intro h
  have hsame := beq_kindAt_append htail hkind 0 []
  rw [List.nil_append] at hsame
  exact absurd (hsame.symm.trans (beq_iff_eq.2 h)) Bool.false_ne_true

theorem spoilsAt_expect {kind : TokenKind} {missing : ErrorKind} {V : Unit → Prop}
    (hkind : Inner kind) (htail : Tail c.rest) : SpoilsAt V (expect kind missing) c := by
  have heat : eat kind c = .ok ⟨false, [], c⟩ :=
    Forward.run_ifAt_neg (nextKind_ne_of_tail hkind htail) rfl
  intro done hrun
  rw [expect, look_bind heat] at hrun
  exact spoils_report c done hrun

theorem tracks_closed_bind {g : Grammar α} {f : Unit → Grammar β} {kind : TokenKind}
    {missing : ErrorKind} (hkind : Inner kind) (hg : Tracks b True (fun _ => True) g front)
    (hf : ∀ mid, Tracks b edge W (f ()) mid) :
    Tracks b edge W (g >>= fun _ => expect kind missing >>= f) front :=
  tracks_bind_of hg (fun _ h => absurd trivial h)
    (fun _ _ _ => tracks_seq (tracks_expect hkind) fun _ mid => hf mid)
    fun _ => .inr fun _ _ _ hrest => spoilsAt_before (spoilsAt_expect hkind (hrest ▸ b.left_tail))

theorem tracks_closed {g : Grammar α} {kind : TokenKind} {missing : ErrorKind}
    {V : Unit → Prop} (hkind : Inner kind) (hg : Tracks b True (fun _ => True) g front) :
    Tracks b edge V (g >>= fun _ => expect kind missing) front :=
  tracks_bind_of hg (fun _ h => absurd trivial h) (fun _ _ _ => tracks_expect hkind)
    fun _ => .inr fun _ _ _ hrest => spoilsAt_expect hkind (hrest ▸ b.left_tail)

theorem tracks_putAll {parts : List Outline} {V : Unit → Prop} :
    Tracks b edge V (putAll parts) front :=
  (steady_putAll parts).tracks

theorem tracks_putAll_bind {parts : List Outline} {f : Unit → Grammar β}
    (hf : Tracks b edge W (f ()) front) : Tracks b edge W (putAll parts >>= f) front :=
  (steady_putAll parts).tracks_bind hf

theorem tracks_put {outline : Outline} {V : Unit → Prop} :
    Tracks b edge V (put outline) front :=
  tracks_putAll

theorem tracks_put_bind {outline : Outline} {f : Unit → Grammar β}
    (hf : Tracks b edge W (f ()) front) : Tracks b edge W (put outline >>= f) front :=
  show Tracks b edge W (putAll [outline] >>= f) front from tracks_putAll_bind hf

theorem tracks_found {g : Grammar Outline} {V : Unit → Prop} (hg : Tracks b edge Fair g front) :
    Tracks b edge V (g >>= fun outline => put outline) front :=
  tracks_bind hg (fun _ => spoils_put) fun _ _ _ => tracks_put

theorem tracks_found_bind {g : Grammar Outline} {f : Unit → Grammar β}
    (hg : Tracks b edge Fair g front) (hf : ∀ mid, Tracks b edge W (f ()) mid) :
    Tracks b edge W (g >>= fun outline => put outline >>= f) front :=
  tracks_bind hg (fun _ h => spoils_before (spoils_put h)) fun _ _ _ =>
    tracks_seq tracks_put fun _ => hf

theorem tracks_some {g : Grammar Outline} (hg : Tracks b edge Fair g front) :
    Tracks b edge MayFair (do return some (← g)) front :=
  tracks_bind hg (fun _ h => spoils_pure (mt mayFair_some.1 h)) fun _ _ _ => tracks_pure _

theorem tracks_orReport {missing : ErrorKind} {g : Grammar (Option Outline)} {V : Unit → Prop}
    (hg : Tracks b edge MayFair g front) : Tracks b edge V (orReport missing g) front := by
  refine tracks_bind hg (fun found hfound => ?_) fun found mid hfound => ?_
  · cases found with
    | none => exact spoils_report
    | some outline => exact spoils_put (mt mayFair_some.2 hfound)
  · obtain ⟨outline, rfl, -⟩ := hfound
    exact tracks_put

theorem tracks_capture {g : Grammar α} (hg : Tracks b edge V g front) :
    Tracks b edge (Captured V) (capture g) front := by
  constructor
  · intro c c' done done' htwins hrun hrun' hsound
    obtain ⟨inner, hinner, rfl⟩ := exists_of_capture_ok hrun
    obtain ⟨inner', hinner', rfl⟩ := exists_of_capture_ok hrun'
    refine (hg.runs htwins hinner hinner' ⟨hsound.value.2, hsound.value.1⟩).imp_left ?_
    rintro ⟨mid, hmid, hvalue, hparts⟩
    exact ⟨mid, hmid, by simp only [hvalue, hparts], rfl⟩
  · intro c done hfront hrest hrun hsound
    obtain ⟨inner, hinner, rfl⟩ := exists_of_capture_ok hrun
    exact hg.stays hfront hrest hinner ⟨hsound.value.2, hsound.value.1⟩

theorem tracks_node {kind : NodeKind} {g : Grammar Unit}
    (hg : Tracks b edge (fun _ => True) g front) : Tracks b edge Fair (node kind g) front :=
  tracks_bind (tracks_capture hg) (fun _ h => spoils_pure fun hfair => h ⟨trivial, hfair.parts⟩)
    fun _ _ _ => tracks_pure _

theorem tracks_around {kind : NodeKind} {first : Outline} {g : Grammar Unit}
    (hg : Tracks b edge (fun _ => True) g front) :
    Tracks b edge Fair (around kind first g) front :=
  tracks_bind (tracks_capture hg)
    (fun _ h => spoils_pure fun hfair => h ⟨trivial, hfair.around.2⟩) fun _ _ _ => tracks_pure _

theorem tracks_attempt {g : Grammar (Option Outline)} (hg : Tracks b edge MayFair g front) :
    Tracks b edge MayFair (attempt g) front := by
  have hsome {c : Cursor} {done : Parsed (Option Outline)} (hrun : attempt g c = .ok done)
      (hsound : Sound MayFair done) : g c = .ok done := by
    obtain ⟨inner, hinner, rfl | ⟨-, rfl⟩⟩ := exists_of_attempt_ok hrun
    · exact hinner
    · exact absurd hsound.value not_mayFair_none
  constructor
  · intro c c' done done' htwins hrun hrun' hsound
    have hinner := hsome hrun hsound
    obtain ⟨outline, houtline, -⟩ := hsound.value
    obtain ⟨inner', hinner', rfl | ⟨hnone, rfl⟩⟩ := exists_of_attempt_ok hrun'
    · exact hg.runs htwins hinner hinner' hsound
    · refine (hg.runs htwins hinner hinner' hsound).imp_left ?_
      rintro ⟨mid, -, hvalue, -⟩
      cases hvalue.symm.trans hnone ▸ houtline
  · intro c done hfront hrest hrun hsound
    exact hg.stays hfront hrest (hsome hrun hsound) hsound

theorem iterateWithin_refines_of_le {step : σ → Grammar (ForInStep σ)} {limit limit' : Nat}
    (hle : limit ≤ limit') (s : σ) :
    Refines (iterateWithin step limit s) (iterateWithin step limit' s) := by
  induction limit generalizing limit' s with
  | zero => exact fail_refines _ _
  | succ limit ih =>
      obtain ⟨limit', rfl⟩ := Nat.exists_eq_add_one_of_ne_zero (Nat.ne_zero_of_lt hle)
      refine bind_refines_right fun next => ?_
      cases next with
      | done last => exact .refl _
      | yield s => exact ih (Nat.le_of_succ_le_succ hle) s

theorem tracks_iterateWithin {step : σ → Grammar (ForInStep σ)} {I J : σ → Prop}
    (hspoils : ∀ s, ¬I s → Spoils (Turn I J) (step s))
    (hstep : ∀ s mid, I s → Tracks b edge (Turn I J) (step s) mid) (limit : Nat) {s : σ}
    (hs : I s) : Tracks b edge J (iterateWithin step limit s) front := by
  induction limit generalizing s front with
  | zero => exact tracks_of_spoils spoils_fail
  | succ limit ih =>
      refine tracks_bind (hstep s front hs) (fun next hnext => ?_) fun next mid hnext => ?_
      · cases next with
        | done last => exact spoils_pure hnext
        | yield s => exact spoils_iterateWithin hspoils limit hnext
      · cases next with
        | done last => exact tracks_pure last
        | yield s => exact ih hnext

/-- How many turns a loop may take depends on what comes behind, but both runs may take enough. -/
theorem tracks_iterate_of {step : σ → Grammar (ForInStep σ)} {J : σ → Prop} {s : σ}
    (h : ∀ limit, Tracks b edge J (iterateWithin step limit s) front) :
    Tracks b edge J (iterate step s) front := by
  constructor
  · intro c c' done done' htwins hrun hrun' hsound
    let limit := max (c.rest.length + 1) (c'.rest.length + 1)
    exact (h limit).runs htwins
      (iterateWithin_refines_of_le (Nat.le_max_left _ _) s c done hrun)
      (iterateWithin_refines_of_le (Nat.le_max_right _ _) s c' done' hrun') hsound
  · exact fun hfront hrest hrun => (h _).stays hfront hrest hrun

theorem tracks_iterate {step : σ → Grammar (ForInStep σ)} {I J : σ → Prop}
    (hspoils : ∀ s, ¬I s → Spoils (Turn I J) (step s))
    (hstep : ∀ s mid, I s → Tracks b edge (Turn I J) (step s) mid) {s : σ} (hs : I s) :
    Tracks b edge J (iterate step s) front :=
  tracks_iterate_of fun limit => tracks_iterateWithin hspoils hstep limit hs

theorem tracks_iterate_seq {step : σ → Grammar (ForInStep σ)}
    (hstep : ∀ s mid, Tracks b edge (fun _ => True) (step s) mid) {s : σ} :
    Tracks b edge (fun _ => True) (iterate step s) front :=
  tracks_iterate (I := fun _ => True) (fun _ h => absurd trivial h)
    (fun s mid _ => (hstep s mid).strengthen fun _ _ => trivial) trivial

theorem tracks_repeatWhile {g : Grammar Bool}
    (hg : ∀ mid, Tracks b edge (fun _ => True) g mid) :
    Tracks b edge (fun _ => True) (repeatWhile g) front := by
  refine tracks_iterate_seq fun _ mid => tracks_seq (hg mid) fun again _ => ?_
  cases again with
  | false => exact tracks_pure _
  | true => exact tracks_pure _

end PatternSyntax.Proofs.Tandem
