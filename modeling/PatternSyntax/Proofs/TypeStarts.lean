import PatternSyntax.Proofs.TandemRules

/-!
How a type begins. The annotations before a type are modifiers as well, and a type of a pattern is
read as a plain type is, but for the dot that it takes behind a name.
-/

namespace PatternSyntax.Proofs.Tandem

open Grammar
open PatternSyntax.Proofs.Contract
open PatternSyntax.Proofs.Coverage
open PatternSyntax.Proofs.Depth
open PatternSyntax.Proofs.Forward
open PatternSyntax.Proofs.Operands
open PatternSyntax.Proofs.Parentheses
open PatternSyntax.Proofs.Runs
open PatternSyntax.Proofs.Shapes
open PatternSyntax.Proofs.Speculation
open PatternSyntax.Proofs.TypeRuns

variable {α β γ δ : Type} {r r' : Rules} {c : Cursor} {flags : TypeFlags}
  {b : Ends} {front : List Terminal}

theorem isAhead_bind (n : Nat) (kind : TokenKind) (f : Bool → Grammar α) (c : Cursor) :
    (isAhead n kind >>= f) c = f (c.rest[n]?.map (·.kind) == some kind) c :=
  look_bind rfl

/-- How a type that is no wildcard begins, behind its annotations. -/
def NameAhead (c : Cursor) : Prop :=
  ∃ kind, nextKind c = some kind ∧ (kind = .ident ∨ kind.isPrimitiveType = true)

theorem NameAhead.not_mem {kind : TokenKind} (h : nextKind c = some kind) (hc : NameAhead c) :
    kind ≠ .atSign ∧ TokenSet.variableModifiers.contains kind = false := by
  obtain ⟨kind', hnext, hkind⟩ := hc
  cases hnext.symm.trans h
  have hall : ∀ kind ∈ TokenKind.all, kind.isPrimitiveType = true →
      kind ≠ .atSign ∧ TokenSet.variableModifiers.contains kind = false := by decide
  rcases hkind with rfl | hkind
  · decide
  · exact hall _ (TokenKind.mem_all _) hkind

theorem annotTurn_cases {done : Parsed Bool} (hrun : annotTurn r c = .ok done) :
    (nextKind c = some .atSign ∧ c.rest[1]?.map (·.kind) = some .ident ∧
      ∃ annot, r.annot c = .ok annot ∧
        done = ⟨true, annot.parts ++ [annot.value], annot.cursor⟩) ∨ done = ⟨false, [], c⟩ := by
  obtain ⟨first, second, hfirst, hsecond, rfl⟩ := exists_of_bind_ok hrun
  cases hfirst
  obtain ⟨ahead, third, hahead, hthird, rfl⟩ := exists_of_bind_ok hsecond
  cases hahead
  split at hthird
  · obtain ⟨hat, hident⟩ := Bool.and_eq_true_iff.1 ‹_›
    obtain ⟨annot, fourth, hannot, hfourth, rfl⟩ := exists_of_bind_ok hthird
    cases hfourth
    exact .inl ⟨beq_iff_eq.1 hat, beq_iff_eq.1 hident, annot, hannot, rfl⟩
  · cases hthird
    exact .inr rfl

theorem run_modifierTurn_annot {allowed : TokenSet} {annot : Parsed Outline}
    (hat : nextKind c = some .atSign) (hident : c.rest[1]?.map (·.kind) = some .ident)
    (hallowed : allowed.contains .atSign = false) (hannot : r.annot c = .ok annot) :
    modifierTurn r allowed c = .ok ⟨true, annot.parts ++ [annot.value], annot.cursor⟩ := by
  refine run_look (a := nextKind c) rfl ?_
  rw [hat]
  dsimp only
  rw [hallowed, if_neg Bool.false_ne_true]
  have hahead : isAhead 1 .ident c = .ok ⟨true, [], c⟩ := by
    rw [isAhead, hident]
    rfl
  exact run_look hahead <| bind_ok (f := fun annot => put annot >>= fun _ => pure true) hannot rfl

theorem run_modifierTurn_done {allowed : TokenSet} {kind : TokenKind}
    (hnext : nextKind c = some kind) (hat : kind ≠ .atSign)
    (hallowed : allowed.contains kind = false) :
    modifierTurn r allowed c = .ok ⟨false, [], c⟩ := by
  refine run_look (a := nextKind c) rfl ?_
  rw [hnext]
  dsimp only
  rw [hallowed, if_neg Bool.false_ne_true, beq_eq_false_iff_ne.2 hat]
  rfl

/-- The loop over modifiers goes as the loop over annotations does, if a name comes then. -/
theorem run_modifierTurns (hr : RulesRefine r r') {limit : Nat} {done : Parsed Unit}
    (hrun : iterateWithin (again (annotTurn r)) limit () c = .ok done)
    (hname : NameAhead done.cursor) :
    iterateWithin (again (modifierTurn r' .variableModifiers)) limit () c = .ok done := by
  induction limit generalizing c done with
  | zero => cases hrun
  | succ limit ih =>
      obtain ⟨first, second, hfirst, hsecond, rfl⟩ := exists_of_bind_ok hrun
      obtain ⟨turned, answered, hturned, hanswered, rfl⟩ := exists_of_bind_ok hfirst
      rcases annotTurn_cases hturned with ⟨hat, hident, annot, hannot, rfl⟩ | rfl
      · cases hanswered
        exact bind_ok (bind_ok (run_modifierTurn_annot hat hident rfl (hr.annot _ _ hannot)) rfl)
          (ih hsecond hname)
      · cases hanswered
        cases hsecond
        obtain ⟨kind, hnext, -⟩ := id hname
        obtain ⟨hat, hallowed⟩ := hname.not_mem hnext
        exact bind_ok (run_again_done (run_modifierTurn_done hnext hat hallowed)) rfl

theorem run_annotTurns_none (hname : NameAhead c) :
    repeatWhile (annotTurn r) c = .ok ⟨(), [], c⟩ := by
  obtain ⟨kind, hnext, -⟩ := id hname
  refine repeatWhile_of_false ((isAhead_bind ..).trans ((isAhead_bind ..).trans ?_))
  rw [nextKind] at hnext
  rw [hnext, beq_eq_false_iff_ne.2 fun h => (hname.not_mem hnext).1 (Option.some.inj h)]
  rfl

theorem nameAhead_of_typeHead {head : Parsed TypeForm} (hrun : typeHead r .plain c = .ok head)
    (hform : head.value ≠ .missing) : NameAhead c := by
  have hlook : typeHead r .plain c = _ := look_bind (a := nextKind c) rfl
  rw [hlook] at hrun
  cases hnext : nextKind c with
  | none =>
      rw [hnext] at hrun
      cases hrun
      exact absurd rfl hform
  | some kind =>
      refine ⟨kind, hnext, ?_⟩
      rw [hnext] at hrun
      dsimp only at hrun
      split at hrun
      · exact .inr ‹_›
      · split at hrun
        · exact .inl (beq_iff_eq.1 ‹_›)
        · cases hrun
          exact absurd rfl hform

theorem exists_modifiers_of_typeBase (hr : RulesRefine r r') {base : Parsed TypeForm}
    (hrun : typeBase r .plain c = .ok base) (hform : base.value ≠ .missing) :
    ∃ annots mid head, modifierList r' .variableModifiers c =
        .ok ⟨.node .modifierList annots, [], mid⟩ ∧ NameAhead mid ∧
      typeHead r .plain mid = .ok head ∧ base.value = head.value ∧
      base.parts = annots ++ head.parts ∧ base.cursor = head.cursor := by
  obtain ⟨turned, head, hturned, hhead, rfl⟩ := exists_of_bind_ok hrun
  have hname := nameAhead_of_typeHead hhead hform
  exact ⟨turned.parts, turned.cursor, head, run_node (run_modifierTurns hr hturned hname), hname,
    hhead, rfl, rfl, rfl⟩

theorem fair_around {kind : NodeKind} {first : Outline} {later : List Outline}
    (hkind : kind ≠ .codeBlock) : Fair (.around kind first later) ↔ Fair first ∧ FairAll later := by
  refine ⟨Fair.around, fun ⟨hfirst, hlater⟩ => ⟨?_, ?_⟩⟩
  · rw [Outline.hasError, hfirst.1, hlater.1]
    rfl
  · simp [outlined, evenBlocksAll, evenBlocks, evenBlocksAll_append, hfirst.2, hlater.2, hkind]

/-- What the rule puts down is fair. -/
def Light (g : Grammar α) : Prop :=
  ∀ c done, g c = .ok done → FairAll done.parts

theorem light_bump : Light bump := by
  rintro ⟨index, rest⟩ done hrun
  cases rest with
  | nil =>
      cases hrun
      exact fairAll_nil
  | cons terminal rest =>
      cases hrun
      exact fairAll_singleton.2 (fair_token _)

theorem light_pure (a : α) : Light (pure a : Grammar α) := by
  intro c done hrun
  cases hrun
  exact fairAll_nil

theorem light_isAhead {n : Nat} {kind : TokenKind} : Light (isAhead n kind) := by
  intro c done hrun
  cases hrun
  exact fairAll_nil

theorem light_isAt {kind : TokenKind} : Light (isAt kind) :=
  light_isAhead

theorem light_ite {p : Prop} [Decidable p] {yes no : Grammar α} (hyes : Light yes)
    (hno : Light no) : Light (if p then yes else no) := by
  split
  · exact hyes
  · exact hno

theorem light_bind {g : Grammar α} {f : α → Grammar β} (hg : Light g) (hf : ∀ a, Light (f a)) :
    Light (g >>= f) := by
  intro c done hrun
  obtain ⟨first, second, hfirst, hsecond, rfl⟩ := exists_of_bind_ok hrun
  exact fairAll_append.2 ⟨hg c first hfirst, hf _ _ second hsecond⟩

theorem gives_fair_typeSuffix {base : Outline} :
    Gives (typeSuffix flags base) c fun array _ => Fair array ↔ Fair base := by
  have hmore {outline : Outline} {g : Grammar Unit} {here : Cursor} (h : Fair outline ↔ Fair base)
      (hg : Light g) :
      Gives (around .type outline g) here fun larger _ => Fair larger ↔ Fair base :=
    gives_capture_bind fun inner hinner => gives_pure
      ((fair_around (by decide)).trans ((and_iff_left (hg _ inner hinner)).trans h))
  unfold typeSuffix
  refine gives_bind (V := fun array _ => Fair array ↔ Fair base) (gives_iterate
    (I := fun element _ => Fair element ↔ Fair base) (fun element here helement => ?_) .rfl)
      fun array mid harray => ?_
  · exact gives_look rfl (gives_look rfl (gives_ite (gives_bind
      (hmore helement (light_bind light_bump fun _ => light_bump))
        fun _ _ hlarger => gives_pure hlarger) (gives_pure helement)))
  · exact gives_look rfl (gives_ite (hmore harray light_bump) (gives_pure harray))

theorem exists_base_of_type {found : Parsed (Option Outline)}
    (hrun : Grammar.type r flags c = .ok found) : ∃ base, typeBase r flags c = .ok base ∧
      (base.value = .missing ∧ found.value = none ∨
        base.value = .wildcard ∧ found.value = some (.node .type base.parts) ∨
        base.value = .named ∧ ∃ suffixed, typeSuffix flags (.node .type base.parts) base.cursor =
          .ok suffixed ∧ found.value = some suffixed.value ∧ found.cursor = suffixed.cursor) := by
  obtain ⟨inner, hinner, hcases⟩ := exists_of_attempt_ok hrun
  obtain ⟨captured, later, hcaptured, hlater, rfl⟩ := exists_of_bind_ok hinner
  obtain ⟨base, hbase, rfl⟩ := exists_of_capture_ok hcaptured
  obtain ⟨form, parts, mid⟩ := base
  refine ⟨_, hbase, ?_⟩
  cases form with
  | missing =>
      cases hlater
      rcases hcases with rfl | ⟨-, rfl⟩
      · exact .inl ⟨rfl, rfl⟩
      · exact .inl ⟨rfl, rfl⟩
  | wildcard =>
      cases hlater
      rcases hcases with rfl | ⟨hnone, -⟩
      · exact .inr (.inl ⟨rfl, rfl⟩)
      · cases hnone
  | named =>
      obtain ⟨suffixed, answered, hsuffixed, hanswered, rfl⟩ := exists_of_bind_ok hlater
      cases hanswered
      rcases hcases with rfl | ⟨hnone, -⟩
      · exact .inr (.inr ⟨rfl, suffixed, hsuffixed, rfl, rfl⟩)
      · cases hnone

theorem exists_fair_base_of_type {found : Parsed (Option Outline)} {type : Outline}
    (hrun : Grammar.type r flags c = .ok found) (hvalue : found.value = some type) :
    ∃ base, typeBase r flags c = .ok base ∧ base.value ≠ .missing ∧
      (Fair type ↔ FairAll base.parts) := by
  obtain ⟨base, hbase, ⟨-, hnone⟩ | ⟨hform, hsome⟩ | ⟨hform, suffixed, hsuffixed, hsome, -⟩⟩ :=
    exists_base_of_type hrun
  · cases hnone.symm.trans hvalue
  · cases hsome.symm.trans hvalue
    exact ⟨base, hbase, by rw [hform]; nofun, fair_type⟩
  · cases hsome.symm.trans hvalue
    exact ⟨base, hbase, by rw [hform]; nofun, (gives_fair_typeSuffix _ hsuffixed).2.trans fair_type⟩

/-- Passes a dot that no name follows. -/
def skipDot : Grammar Unit := do
  if (← isAt .dot) && !(← isAhead 1 .ident) then
    bump

/-- A turn over the name of a pattern's type is one over a plain name, or takes such a dot. -/
theorem referenceTurn_cases {arguments : Bool} {reference : Outline}
    {done : Parsed (ForInStep Outline)}
    (hrun : referenceTurn r true arguments reference c = .ok done) :
    (∃ larger, done.value = .yield larger ∧
      referenceTurn r false arguments reference c = .ok done) ∨
    (∃ last, done.value = .done last) ∧
      referenceTurn r false arguments reference c = .ok ⟨.done reference, [], c⟩ ∧
        ∃ skipped, skipDot c = .ok skipped ∧ skipped.cursor = done.cursor := by
  unfold referenceTurn skipDot at *
  rw [isAt, isAhead_bind] at *
  rw [isAhead_bind]
  cases hdot : c.rest[0]?.map (·.kind) == some .dot with
  | false =>
      rw [hdot] at hrun
      cases hrun
      exact .inr ⟨⟨_, rfl⟩, rfl, _, rfl, rfl⟩
  | true =>
      rw [hdot, if_pos rfl, isAhead_bind] at hrun
      rw [if_pos rfl, isAhead_bind, isAhead_bind]
      cases hident : c.rest[1]?.map (·.kind) == some .ident with
      | true =>
          rw [hident] at hrun
          obtain ⟨larger, answered, hlarger, hanswered, rfl⟩ := exists_of_bind_ok hrun
          cases hanswered
          exact .inl ⟨_, rfl, hrun⟩
      | false =>
          rw [hident] at hrun
          obtain ⟨wrapped, answered, hwrapped, hanswered, rfl⟩ := exists_of_bind_ok hrun
          cases hanswered
          obtain ⟨captured, held, hcaptured, hheld, rfl⟩ := exists_of_bind_ok hwrapped
          cases hheld
          obtain ⟨inner, hinner, rfl⟩ := exists_of_capture_ok hcaptured
          obtain ⟨passed, reported, hpassed, hreported, rfl⟩ := exists_of_bind_ok hinner
          cases hreported
          exact .inr ⟨⟨_, rfl⟩, rfl, passed, hpassed, rfl⟩

theorem exists_plain_turns {arguments : Bool} {limit : Nat} {reference : Outline}
    {done : Parsed Outline}
    (hrun : iterateWithin (referenceTurn r true arguments) limit reference c = .ok done) :
    ∃ plain skipped, iterateWithin (referenceTurn r false arguments) limit reference c =
      .ok plain ∧ skipDot plain.cursor = .ok skipped ∧ skipped.cursor = done.cursor := by
  induction limit generalizing reference c done with
  | zero => cases hrun
  | succ limit ih =>
      obtain ⟨first, second, hfirst, hsecond, rfl⟩ := exists_of_bind_ok hrun
      rcases referenceTurn_cases hfirst with
        ⟨larger, hvalue, hplain⟩ | ⟨⟨last, hvalue⟩, hplain, hskip⟩
      · rw [hvalue] at hsecond
        obtain ⟨plain, skipped, hplain', hskipped, hcursor⟩ := ih hsecond
        refine ⟨_, skipped, bind_ok hplain ?_, hskipped, hcursor⟩
        rw [hvalue]
        exact hplain'
      · rw [hvalue] at hsecond
        cases hsecond
        obtain ⟨skipped, hskipped, hcursor⟩ := hskip
        exact ⟨_, skipped, bind_ok hplain rfl, hskipped, hcursor⟩

/-- Wherever the first rule gets, the second one gets as well. -/
def Follows (g : Grammar α) (g' : Grammar β) (R : α → β → Prop) : Prop :=
  ∀ c done, g c = .ok done → ∃ done', g' c = .ok done' ∧ done'.cursor = done.cursor ∧
    R done.value done'.value

theorem follows_refl (g : Grammar α) : Follows g g (· = ·) :=
  fun _ done hrun => ⟨done, hrun, rfl, rfl⟩

theorem follows_pure {R : α → β → Prop} {a : α} {a' : β} (h : R a a') :
    Follows (pure a) (pure a') R := by
  intro c done hrun
  cases hrun
  exact ⟨_, rfl, rfl, h⟩

theorem follows_bind {g : Grammar α} {g' : Grammar β} {f : α → Grammar γ} {f' : β → Grammar δ}
    {R : α → β → Prop} {S : γ → δ → Prop} (hg : Follows g g' R)
    (hf : ∀ a a', R a a' → Follows (f a) (f' a') S) : Follows (g >>= f) (g' >>= f') S := by
  intro c done hrun
  obtain ⟨first, second, hfirst, hsecond, rfl⟩ := exists_of_bind_ok hrun
  obtain ⟨⟨value, parts, _⟩, hfirst', rfl, hR⟩ := hg c first hfirst
  obtain ⟨second', hsecond', hcursor, hS⟩ := hf _ _ hR _ second hsecond
  exact ⟨_, bind_ok hfirst' hsecond', hcursor, hS⟩

theorem follows_bind_refl {g : Grammar α} {f : α → Grammar γ} {f' : α → Grammar δ}
    {S : γ → δ → Prop} (hf : ∀ a, Follows (f a) (f' a) S) : Follows (g >>= f) (g >>= f') S :=
  follows_bind (follows_refl g) fun a _ heq => heq ▸ hf a

theorem follows_ite {p : Prop} [Decidable p] {yes no : Grammar α} {yes' no' : Grammar β}
    {R : α → β → Prop} (hyes : Follows yes yes' R) (hno : Follows no no' R) :
    Follows (if p then yes else no) (if p then yes' else no') R := by
  split
  · exact hyes
  · exact hno

/-- After a turn, both loops go on, or both end. -/
def Together : ForInStep α → ForInStep β → Prop
  | .done _, .done _ => True
  | .yield _, .yield _ => True
  | _, _ => False

theorem follows_iterate {step : α → Grammar (ForInStep α)} {step' : β → Grammar (ForInStep β)}
    (hstep : ∀ s s', Follows (step s) (step' s') Together) (s : α) (s' : β) :
    Follows (iterate step s) (iterate step' s') fun _ _ => True := by
  suffices h : ∀ limit s s', Follows (iterateWithin step limit s) (iterateWithin step' limit s')
      fun _ _ => True from fun c => h _ s s' c
  intro limit
  induction limit with
  | zero => exact fun _ _ _ _ hrun => nomatch hrun
  | succ limit ih =>
      refine fun s s' => follows_bind (hstep s s') fun next next' h => ?_
      cases next with
      | done last =>
          cases next' with
          | done last' => exact follows_pure trivial
          | yield => cases h
      | yield s =>
          cases next' with
          | done => cases h
          | yield s' => exact ih s s'

/-- Where the dimensions of an array end does not depend on what they are put around. -/
theorem follows_typeSuffix (base other : Outline) :
    Follows (typeSuffix flags base) (typeSuffix flags other) fun _ _ => True := by
  unfold typeSuffix
  have haround {kind : NodeKind} {first first' : Outline} {g : Grammar Unit} :
      Follows (around kind first g) (around kind first' g) fun _ _ => True :=
    follows_bind_refl fun _ => follows_pure trivial
  refine follows_bind (follows_iterate (fun _ _ => ?_) base other) fun _ _ _ =>
    follows_bind_refl fun _ => follows_ite haround (follows_pure trivial)
  exact follows_bind_refl fun _ => follows_bind_refl fun _ => follows_ite
    (follows_bind haround fun _ _ _ => follows_pure trivial) (follows_pure trivial)

/-- Whether a name or the components of a record come behind the first part of a type. -/
def behindType (isReference : Bool) : Grammar Bool := do
  (if isReference then skipDot else pure ())
  let _ ← typeSuffix .pattern (.node .type [])
  return (← isAt .ident) || (← isAt .openParen)

theorem typeHead_ident (hnext : nextKind c = some .ident) :
    typeHead r flags c = (do
      put (← codeReference r flags.eatLastDot true)
      return .named : Grammar TypeForm) c := by
  have hlook : typeHead r flags c = _ := look_bind (a := nextKind c) rfl
  rw [hlook, hnext]
  rfl

theorem exists_plain_head {head : Parsed TypeForm} (hrun : typeHead r .pattern c = .ok head)
    (hname : NameAhead c) : head.value = .named ∧ ∃ plain skipped,
      typeHead r .plain c = .ok plain ∧
        (if nextKind c == some .ident then skipDot else pure ()) plain.cursor = .ok skipped ∧
          skipped.cursor = head.cursor := by
  by_cases hident : nextKind c = some .ident
  · rw [typeHead_ident hident] at hrun
    obtain ⟨reference, named, hreference, hnamed, rfl⟩ := exists_of_bind_ok hrun
    cases hnamed
    obtain ⟨first, turned, hfirst, hturned, rfl⟩ := exists_of_bind_ok hreference
    obtain ⟨plain, skipped, hplain, hskipped, hcursor⟩ := exists_plain_turns hturned
    refine ⟨rfl, ?_⟩
    rw [typeHead_ident hident, if_pos (beq_iff_eq.2 hident)]
    exact ⟨_, skipped, bind_ok (bind_ok hfirst hplain) rfl, hskipped, hcursor⟩
  · obtain ⟨kind, hnext, hkind⟩ := hname
    obtain ⟨stop, hpasses⟩ := exists_passes hnext
    have hprimitive := hkind.resolve_left fun h => hident (h ▸ hnext)
    cases (run_typeHead_primitive hpasses hprimitive).symm.trans hrun
    rw [if_neg (mt beq_iff_eq.1 hident)]
    exact ⟨rfl, _, _, run_typeHead_primitive hpasses hprimitive, rfl, rfl⟩

/-- What the lookahead for patterns answers is read off the tokens behind how a plain type
begins. -/
theorem exists_behindType (htype : Refines (r'.type .pattern) (Grammar.type r .pattern))
    {seen : Parsed Bool} (hopen : nextKind c ≠ some .openParen) (hseen : probe r' c = .ok seen) :
    ∃ modifiers, modifierList r' .variableModifiers c = .ok modifiers ∧
      (NameAhead modifiers.cursor → ∃ head behind,
        typeHead r .plain modifiers.cursor = .ok head ∧
          behindType (nextKind modifiers.cursor == some .ident) head.cursor = .ok behind ∧
            behind.value = seen.value) := by
  obtain ⟨parens, afterParens, hparens, hafterParens, rfl⟩ := exists_of_bind_ok hseen
  cases (repeatWhile_of_false (eat_of_nextKind_ne hopen)).symm.trans hparens
  obtain ⟨modifiers, afterModifiers, hmodifiers, hafterModifiers, rfl⟩ :=
    exists_of_bind_ok hafterParens
  refine ⟨modifiers, hmodifiers, fun hname => ?_⟩
  obtain ⟨placed, afterPut, hplaced, hafterPut, rfl⟩ := exists_of_bind_ok hafterModifiers
  cases hplaced
  obtain ⟨found, last, hfound, hlast, rfl⟩ := exists_of_bind_ok hafterPut
  obtain ⟨base, hbase, hcases⟩ := exists_base_of_type (htype _ _ hfound)
  obtain ⟨turned, head, hturned, hhead, rfl⟩ := exists_of_bind_ok hbase
  cases (run_annotTurns_none hname).symm.trans hturned
  obtain ⟨hform, plain, skipped, hplain, hskipped, hcursor⟩ := exists_plain_head hhead hname
  dsimp only at hcases hform
  rw [hform] at hcases
  obtain ⟨hmissing, -⟩ | ⟨hwildcard, -⟩ | ⟨-, suffixed, hsuffixed, hsome, hstop⟩ := hcases
  · cases hmissing
  · cases hwildcard
  obtain ⟨other, hother, hother', -⟩ := follows_typeSuffix _ (.node .type []) _ _ hsuffixed
  obtain ⟨found, parts, stop⟩ := found
  cases hsome
  cases hlast
  rw [← hcursor] at hother
  refine ⟨plain, _, hplain, bind_ok hskipped (bind_ok hother rfl), ?_⟩
  rw [hother', ← hstop]

theorem light_behindType (isReference : Bool) : Light (behindType isReference) := by
  have hlast : Light (do return (← isAt .ident) || (← isAt .openParen)) :=
    light_bind light_isAt fun _ => light_bind light_isAt fun _ => light_pure _
  have hsuffix : Light (typeSuffix .pattern (.node .type [])) := by
    intro c done hrun
    rw [(gives_fair_typeSuffix done hrun).1]
    exact fairAll_nil
  refine light_bind (light_ite (light_bind light_isAt fun _ => light_bind light_isAhead fun _ =>
    light_ite light_bump (light_pure _)) (light_pure _)) fun _ => light_bind hsuffix fun _ => hlast

theorem tracks_behindType (isReference : Bool) :
    Tracks b False (fun _ => True) (behindType isReference) front := by
  have hfair : Fair (.node .type []) := fair_type.2 fairAll_nil
  have hsuffix (mid : List Terminal) :
      Tracks b False (fun _ => True) (typeSuffix .pattern (.node .type [])) mid :=
    (tracks_typeSuffix .pattern hfair).weaken fun _ done hrun _ =>
      (gives_fair_typeSuffix done hrun).2.2 hfair
  have hskip : Tracks b False (fun _ => True) (if isReference then skipDot else pure ()) front := by
    refine tracks_ite (fun _ => tracks_isAhead (by decide) (tracks_isAhead (by decide)
      (tracks_ite (fun hat => ?_) fun _ => tracks_pure _))) fun _ => tracks_pure _
    cases front with
    | nil => cases (Bool.and_eq_true_iff.1 hat).1
    | cons terminal mid => exact tracks_bump
  exact tracks_seq hskip fun _ mid => tracks_seq (hsuffix mid) fun _ _ =>
    tracks_isAhead (by decide) (tracks_isAhead (by decide) (tracks_pure _))

theorem value_behindType {isReference : Bool} {c' : Cursor} {done done' : Parsed Bool}
    (htwins : Twins b front c c') (hrun : behindType isReference c = .ok done)
    (hrun' : behindType isReference c' = .ok done') : done'.value = done.value := by
  obtain ⟨-, -, hvalue, -⟩ := (tracks_behindType isReference).same htwins hrun hrun'
    ⟨light_behindType _ _ _ hrun, trivial⟩
  exact hvalue

end PatternSyntax.Proofs.Tandem
