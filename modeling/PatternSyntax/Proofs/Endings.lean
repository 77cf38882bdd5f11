import PatternSyntax.Proofs.Marks
import PatternSyntax.Proofs.PatternGrammar

/-!
How the rules end what they put down. The last thing in a node is a token or an error, unless it is
a list of modifiers, which may be empty; and no rule but that for labels finds a token unexpected.
-/

namespace PatternSyntax.Proofs.Endings

open Grammar
open PatternSyntax.Proofs.Coverage
open PatternSyntax.Proofs.Marks
open PatternSyntax.Proofs.PatternGrammar
open PatternSyntax.Proofs.Runs

/-- Whether an error finds a token unexpected. -/
def isUnexpected : ErrorKind → Bool
  | .unexpectedToken _ => true
  | _ => false

/-- The errors say what was missed, and none of them finds a token unexpected. -/
def Named (parts : List Outline) : Prop :=
  ∀ mark ∈ marksAll parts, isUnexpected mark.1 = false

mutual

/-- Whether the last thing in an outline is a token or an error. -/
def ended : Outline → Bool
  | .token _ => true
  | .error _ _ => true
  | .node _ parts => endedAll parts
  | .around _ first later => if later.isEmpty then ended first else endedAll later
  | .loose parts => endedAll parts

/-- Whether the last thing in a row of outlines is a token or an error. -/
def endedAll : List Outline → Bool
  | [] => false
  | part :: rest => if rest.isEmpty then ended part else endedAll rest

end

theorem marksAll_append (front back : List Outline) :
    marksAll (front ++ back) = marksAll front ++ marksAll back := by
  induction front with
  | nil => rfl
  | cons part front ih => rw [List.cons_append, marksAll, marksAll, ih, List.append_assoc]

theorem endedAll_append (front : List Outline) {back : List Outline} (hback : back ≠ []) :
    endedAll (front ++ back) = endedAll back := by
  induction front with
  | nil => rfl
  | cons part front ih =>
      have hne : front ++ back ≠ [] := List.append_ne_nil_of_right_ne_nil _ hback
      rw [List.cons_append, endedAll, if_neg (by simpa using hne), ih]

theorem named_nil : Named [] :=
  nofun

theorem Named.append {front back : List Outline} (hfront : Named front) (hback : Named back) :
    Named (front ++ back) := by
  rw [Named, marksAll_append]
  exact List.forall_mem_append.2 ⟨hfront, hback⟩

theorem named_token (kind : TokenKind) : Named [.token kind] :=
  nofun

theorem named_node {kind : NodeKind} {parts : List Outline} (h : Named parts) :
    Named [.node kind parts] := by
  simpa only [Named, marksAll, marks, List.append_nil] using h

theorem named_around {kind : NodeKind} {first : Outline} {later : List Outline}
    (hfirst : Named [first]) (hlater : Named later) : Named [.around kind first later] := by
  have h := hfirst.append hlater
  simpa only [Named, marksAll_append, marksAll, marks, List.append_nil] using h

theorem named_loose {parts : List Outline} (h : Named parts) : Named [.loose parts] := by
  simpa only [Named, marksAll, marks, List.append_nil] using h

/-- There is nothing, or the last thing is a token or an error. -/
def Tame (parts : List Outline) : Prop :=
  parts = [] ∨ endedAll parts = true

theorem Tame.append {front back : List Outline} (hfront : Tame front) (hback : Tame back) :
    Tame (front ++ back) := by
  by_cases hnil : back = []
  · rwa [hnil, List.append_nil]
  · exact .inr ((endedAll_append front hnil).trans (hback.resolve_left hnil))

theorem ended_append_tame {front back : List Outline} (hfront : endedAll front = true)
    (hback : Tame back) : endedAll (front ++ back) = true := by
  by_cases hnil : back = []
  · rwa [hnil, List.append_nil]
  · exact (endedAll_append front hnil).trans (hback.resolve_left hnil)

theorem ended_append {front back : List Outline} (hback : endedAll back = true) :
    endedAll (front ++ back) = true := by
  have hne : back ≠ [] := by
    rintro rfl
    cases hback
  rwa [endedAll_append front hne]

/-- Its errors are named, and it ends in a token or an error. -/
structure Whole (outline : Outline) : Prop where
  named : Named [outline]
  ended : ended outline = true

theorem whole_node {kind : NodeKind} {parts : List Outline} (hnamed : Named parts)
    (hended : endedAll parts = true) : Whole (.node kind parts) :=
  ⟨named_node hnamed, hended⟩

theorem whole_loose {parts : List Outline} (hnamed : Named parts)
    (hended : Endings.endedAll parts = true) : Whole (.loose parts) :=
  ⟨named_loose hnamed, hended⟩

theorem whole_around {kind : NodeKind} {first : Outline} {later : List Outline}
    (hfirst : Whole first) (hnamed : Named later) (htame : Tame later) :
    Whole (.around kind first later) := by
  refine ⟨named_around hfirst.named hnamed, ?_⟩
  rw [Endings.ended]
  split
  · exact hfirst.ended
  · exact htame.resolve_left fun hnil => ‹¬_› (List.isEmpty_iff.2 hnil)

variable {α β σ : Type} {c : Cursor}

/-- The errors that the rule puts down are named, and this holds of its value and of what it put
down. -/
def Puts (g : Grammar α) (c : Cursor) (Q : α → List Outline → Prop) : Prop :=
  ∀ done, g c = .ok done → Named done.parts ∧ Q done.value done.parts

/-- The rule ends what it puts down. -/
def Closes (g : Grammar α) (c : Cursor) : Prop :=
  Puts g c fun _ parts => endedAll parts = true

/-- The rule puts nothing down, or ends it. -/
def Tames (g : Grammar α) (c : Cursor) : Prop :=
  Puts g c fun _ parts => Tame parts

/-- The rule answers with an outline that is whole. -/
def Makes (g : Grammar Outline) (c : Cursor) : Prop :=
  Puts g c fun outline parts => parts = [] ∧ Whole outline

/-- If the rule answers with an outline, that is whole. -/
def MayMake (g : Grammar (Option Outline)) (c : Cursor) : Prop :=
  Puts g c fun found parts => parts = [] ∧ ∀ outline ∈ found, Whole outline

theorem Puts.mono {g : Grammar α} {P Q : α → List Outline → Prop} (h : Puts g c P)
    (hPQ : ∀ a parts, P a parts → Q a parts) : Puts g c Q :=
  fun done hrun => (h done hrun).imp_right (hPQ _ _)

theorem Closes.tames {g : Grammar α} (h : Closes g c) : Tames g c :=
  Puts.mono h fun _ _ => .inr

theorem puts_bind {g : Grammar α} {f : α → Grammar β} {P : α → List Outline → Prop}
    {Q : β → List Outline → Prop} (hg : Puts g c P)
    (hf : ∀ a front mid, P a front → Puts (f a) mid fun b back => Q b (front ++ back)) :
    Puts (g >>= f) c Q := by
  intro done hrun
  obtain ⟨first, second, hfirst, hsecond, rfl⟩ := exists_of_bind_ok hrun
  obtain ⟨hnamed, hP⟩ := hg first hfirst
  obtain ⟨hnamed', hQ⟩ := hf _ _ _ hP second hsecond
  exact ⟨hnamed.append hnamed', hQ⟩

theorem puts_look {g : Grammar α} {f : α → Grammar β} {a : α} {mid : Cursor}
    {Q : β → List Outline → Prop} (hrun : g c = .ok ⟨a, [], mid⟩) (h : Puts (f a) mid Q) :
    Puts (g >>= f) c Q := by
  intro done hdone
  obtain ⟨first, second, hfirst, hsecond, rfl⟩ := exists_of_bind_ok hdone
  cases hrun.symm.trans hfirst
  exact h second hsecond

theorem puts_pure {a : α} {Q : α → List Outline → Prop} (h : Q a []) :
    Puts (pure a : Grammar α) c Q := by
  intro done hrun
  cases hrun
  exact ⟨named_nil, h⟩

theorem tames_pure (a : α) : Tames (pure a : Grammar α) c :=
  puts_pure (.inl rfl)

theorem puts_fail {fault : Fault} {Q : α → List Outline → Prop} : Puts (fail fault) c Q :=
  fun _ hrun => nomatch hrun

theorem puts_ite {p : Prop} [Decidable p] {yes no : Grammar α} {Q : α → List Outline → Prop}
    (hyes : p → Puts yes c Q) (hno : ¬p → Puts no c Q) : Puts (if p then yes else no) c Q := by
  split
  · exact hyes ‹_›
  · exact hno ‹_›

theorem puts_ifAt {kind : TokenKind} {yes no : Grammar α} {Q : α → List Outline → Prop}
    (hyes : nextKind c = some kind → Puts yes c Q) (hno : Puts no c Q) :
    Puts (isAt kind >>= fun found => if found = true then yes else no) c Q :=
  puts_look (a := nextKind c == some kind) rfl
    (puts_ite (fun h => hyes (beq_iff_eq.1 h)) fun _ => hno)

theorem closes_bind {g : Grammar α} {f : α → Grammar β} {P : α → List Outline → Prop}
    (hg : Puts g c P) (hf : ∀ a front mid, P a front → Closes (f a) mid) : Closes (g >>= f) c :=
  puts_bind hg fun a front mid hP => Puts.mono (hf a front mid hP) fun _ _ => ended_append

theorem closes_bind_tames {g : Grammar α} {f : α → Grammar β} (hg : Closes g c)
    (hf : ∀ a mid, Tames (f a) mid) : Closes (g >>= f) c :=
  puts_bind hg fun a _ mid hended => Puts.mono (hf a mid) fun _ _ => ended_append_tame hended

theorem tames_bind {g : Grammar α} {f : α → Grammar β} (hg : Tames g c)
    (hf : ∀ a mid, Tames (f a) mid) : Tames (g >>= f) c :=
  puts_bind hg fun a _ mid htame => Puts.mono (hf a mid) fun _ _ => htame.append

theorem tames_bump : Tames bump c := by
  intro done hrun
  unfold bump at hrun
  split at hrun
  · cases hrun
    exact ⟨named_nil, .inl rfl⟩
  · cases hrun
    exact ⟨named_token _, .inr rfl⟩

theorem tames_bumpMany (n : Nat) : Tames (bumpMany n) c := by
  induction n generalizing c with
  | zero => exact tames_pure _
  | succ n ih => exact tames_bind tames_bump fun _ _ => ih

theorem closes_bump (hpos : 0 < c.rest.length) : Closes bump c := by
  obtain ⟨index, rest⟩ := c
  cases rest with
  | nil => simp at hpos
  | cons terminal rest =>
      intro done hrun
      cases hrun
      exact ⟨named_token _, rfl⟩

theorem closes_bump_bind {f : Unit → Grammar α} (hpos : 0 < c.rest.length)
    (hf : ∀ mid, Tames (f ()) mid) : Closes (bump >>= f) c :=
  closes_bind_tames (closes_bump hpos) fun _ => hf

theorem closes_after_bump {f : Unit → Grammar α} (hf : ∀ mid, Closes (f ()) mid) :
    Closes (bump >>= f) c :=
  closes_bind tames_bump fun _ _ mid _ => hf mid

theorem closes_report {kind : ErrorKind}
    (hkind : isUnexpected kind = false) : Closes (report kind) c := by
  intro done hrun
  cases hrun
  exact ⟨by simpa [Named, marksAll, marks] using hkind, rfl⟩

theorem puts_eat {kind : TokenKind} :
    Puts (eat kind) c fun found parts => parts = if found then [.token kind] else [] := by
  refine puts_ifAt (fun hnext => ?_) (puts_pure rfl)
  obtain ⟨index, rest⟩ := c
  obtain ⟨glued, later, rfl⟩ := exists_of_nextKind hnext
  intro done hrun
  cases hrun
  exact ⟨named_token _, rfl⟩

theorem tames_eat {kind : TokenKind} : Tames (eat kind) c := by
  apply puts_eat.mono
  rintro found _ rfl
  cases found with
  | false => exact .inl rfl
  | true => exact .inr rfl

theorem closes_expect {kind : TokenKind} {missing : ErrorKind}
    (hmissing : isUnexpected missing = false) :
    Closes (expect kind missing) c := by
  refine puts_bind puts_eat fun found front mid hfront => ?_
  subst hfront
  cases found with
  | false => exact closes_report hmissing
  | true => exact puts_pure rfl

theorem tames_expect {kind : TokenKind} {missing : ErrorKind}
    (hmissing : isUnexpected missing = false) :
    Tames (expect kind missing) c :=
  (closes_expect hmissing).tames

theorem closes_put {outline : Outline} (h : Whole outline) : Closes (put outline) c := by
  intro done hrun
  cases hrun
  exact ⟨h.named, h.ended⟩

theorem tames_put {outline : Outline} (h : Whole outline) : Tames (put outline) c :=
  (closes_put h).tames

theorem puts_put {outline : Outline} (h : Named [outline]) :
    Puts (put outline) c fun _ parts => parts = [outline] := by
  intro done hrun
  cases hrun
  exact ⟨h, rfl⟩

theorem closes_found {g : Grammar Outline} (h : Makes g c) :
    Closes (g >>= fun outline => put outline) c :=
  closes_bind h fun _ _ _ hmade => closes_put hmade.2

theorem closes_found_bind {g : Grammar Outline} {f : Unit → Grammar β} (h : Makes g c)
    (hf : ∀ mid, Tames (f ()) mid) :
    Closes (g >>= fun outline => put outline >>= f) c :=
  closes_bind h fun _ _ _ hmade => closes_bind_tames (closes_put hmade.2) fun _ => hf

theorem closes_orReport {missing : ErrorKind} {g : Grammar (Option Outline)} (h : MayMake g c)
    (hmissing : isUnexpected missing = false) :
    Closes (orReport missing g) c := by
  refine closes_bind h fun found _ mid hmade => ?_
  cases found with
  | none => exact closes_report hmissing
  | some outline => exact closes_put (hmade.2 outline rfl)

theorem puts_capture {g : Grammar α} {P : α → List Outline → Prop} (h : Puts g c P) :
    Puts (capture g) c fun captured parts =>
      parts = [] ∧ Named captured.2 ∧ P captured.1 captured.2 := by
  intro done hrun
  obtain ⟨inner, hinner, rfl⟩ := exists_of_capture_ok hrun
  exact ⟨named_nil, rfl, h inner hinner⟩

theorem makes_node {kind : NodeKind} {g : Grammar Unit} (h : Closes g c) :
    Makes (node kind g) c := by
  refine puts_bind (puts_capture h) fun _ _ mid ⟨hparts, hnamed, hended⟩ => ?_
  subst hparts
  exact puts_pure ⟨rfl, whole_node hnamed hended⟩

theorem makes_around {kind : NodeKind} {first : Outline} {g : Grammar Unit}
    (hfirst : Whole first) (h : Tames g c) : Makes (around kind first g) c := by
  refine puts_bind (puts_capture h) fun _ _ mid ⟨hparts, hnamed, htame⟩ => ?_
  subst hparts
  exact puts_pure ⟨rfl, whole_around hfirst hnamed htame⟩

theorem puts_value_bind {g : Grammar α} {f : α → Grammar β} {P : α → Prop}
    {Q : β → List Outline → Prop} (hg : Puts g c fun a parts => parts = [] ∧ P a)
    (hf : ∀ a mid, P a → Puts (f a) mid Q) : Puts (g >>= f) c Q := by
  refine puts_bind hg fun a front mid ⟨hfront, hP⟩ => ?_
  subst hfront
  exact hf a mid hP

theorem mayMake_some {g : Grammar Outline} (h : Makes g c) :
    MayMake (do return some (← g)) c :=
  puts_value_bind h fun _ _ hwhole =>
    puts_pure ⟨rfl, fun _ heq => Option.some.inj heq ▸ hwhole⟩

theorem mayMake_none : MayMake (pure none) c :=
  puts_pure ⟨rfl, nofun⟩

theorem puts_lookahead {g : Grammar α} : Puts (lookahead g) c fun _ parts => parts = [] := by
  intro done hrun
  obtain ⟨inner, -, rfl⟩ := exists_of_lookahead_ok hrun
  exact ⟨named_nil, rfl⟩

theorem mayMake_attempt {g : Grammar (Option Outline)} (h : MayMake g c) :
    MayMake (attempt g) c := by
  intro done hrun
  obtain ⟨inner, hinner, rfl | ⟨-, rfl⟩⟩ := exists_of_attempt_ok hrun
  · exact h _ hinner
  · exact ⟨named_nil, rfl, nofun⟩

/-- A turn that is done establishes the outcome; one that is not keeps the invariant, and what it
put down does not spoil the outcome. -/
theorem puts_iterate {step : σ → Grammar (ForInStep σ)} {I : σ → Prop}
    {Q : σ → List Outline → Prop}
    (hstep : ∀ s c, I s → Puts (step s) c fun next front =>
      match next with
      | .done last => Q last front
      | .yield mid => I mid ∧ ∀ last back, Q last back → Q last (front ++ back))
    {s : σ} (hs : I s) : Puts (iterate step s) c Q := by
  suffices h : ∀ limit s c, I s → Puts (iterateWithin step limit s) c Q from h _ s c hs
  intro limit
  induction limit with
  | zero => exact fun _ _ _ => puts_fail
  | succ limit ih =>
      intro s c hs
      refine puts_bind (hstep s c hs) fun next front mid hnext => ?_
      cases next with
      | done last =>
          apply puts_pure
          rwa [List.append_nil]
      | yield s => exact (ih s mid hnext.1).mono hnext.2

theorem tames_iterate {step : σ → Grammar (ForInStep σ)} (hstep : ∀ s c, Tames (step s) c)
    (s : σ) : Tames (iterate step s) c := by
  refine puts_iterate (I := fun _ => True) (fun s c _ => Puts.mono (hstep s c) ?_) trivial
  intro next front hfront
  cases next with
  | done last => exact hfront
  | yield mid => exact ⟨trivial, fun _ _ => hfront.append⟩

theorem tames_repeatWhile {g : Grammar Bool} (h : ∀ c, Tames g c) : Tames (repeatWhile g) c := by
  refine tames_iterate (fun _ c => tames_bind (h c) fun again mid => ?_) ()
  exact puts_ite (fun _ => tames_pure _) fun _ => tames_pure _

theorem closes_iterate {step : σ → Grammar (ForInStep σ)} (hstep : ∀ s c, Closes (step s) c)
    (s : σ) : Closes (iterate step s) c := by
  refine puts_iterate (I := fun _ => True) (fun s c _ => Puts.mono (hstep s c) ?_) trivial
  intro next front hfront
  cases next with
  | done last => exact hfront
  | yield mid => exact ⟨trivial, fun _ _ => ended_append⟩

theorem closes_repeatWhile {g : Grammar Bool} (h : ∀ c, Closes g c) :
    Closes (repeatWhile g) c := by
  refine closes_iterate (fun _ c => closes_bind_tames (h c) fun again mid => ?_) ()
  exact puts_ite (fun _ => tames_pure _) fun _ => tames_pure _

/-- The outline that a turn of a loop goes on with, or ends with, is whole. -/
def Turns (g : Grammar (ForInStep Outline)) (c : Cursor) : Prop :=
  Puts g c fun next parts => parts = [] ∧
    match next with
    | .done last => Whole last
    | .yield mid => Whole mid

theorem makes_iterate {step : Outline → Grammar (ForInStep Outline)}
    (hstep : ∀ subject c, Whole subject → Turns (step subject) c) {subject : Outline}
    (hsubject : Whole subject) : Makes (iterate step subject) c := by
  refine puts_iterate (I := Whole) (fun subject c h => Puts.mono (hstep subject c h) ?_) hsubject
  rintro next _ ⟨rfl, hwhole⟩
  cases next with
  | done last => exact ⟨rfl, hwhole⟩
  | yield mid => exact ⟨hwhole, fun _ _ => id⟩

theorem turns_yield {g : Grammar Outline} (h : Makes g c) :
    Turns (do return .yield (← g)) c :=
  puts_value_bind h fun _ _ hwhole => puts_pure ⟨rfl, hwhole⟩

theorem turns_done {g : Grammar Outline} (h : Makes g c) :
    Turns (do return .done (← g)) c :=
  puts_value_bind h fun _ _ hwhole => puts_pure ⟨rfl, hwhole⟩

theorem turns_pure {subject : Outline} (h : Whole subject) :
    Turns (pure (.done subject)) c :=
  puts_pure ⟨rfl, h⟩

end PatternSyntax.Proofs.Endings
