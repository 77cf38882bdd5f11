import PatternSyntax.Proofs.Operands
import PatternSyntax.Proofs.TypeRuns

/-!
An expression in parentheses is not taken for a cast. A type is read without passing a parenthesis,
so that the parenthesis that would close the cast is the one behind the expression, and what comes
behind that one is not the beginning of an operand. Only behind an at sign is there a parenthesis in
a type.
-/

namespace PatternSyntax.Proofs.Casts

open Grammar
open PatternSyntax.Proofs.Contract
open PatternSyntax.Proofs.Coverage
open PatternSyntax.Proofs.Forward
open PatternSyntax.Proofs.Operands
open PatternSyntax.Proofs.Runs
open PatternSyntax.Proofs.Sketches
open PatternSyntax.Proofs.Sources
open PatternSyntax.Proofs.Spelling
open PatternSyntax.Proofs.Totality
open PatternSyntax.Proofs.TypeRuns

variable {α β σ : Type} {r : Rules} {c mid stop : Cursor}

/-- A token that is in no type, unless it is behind an at sign. -/
def isScreen (kind : TokenKind) : Bool :=
  isParenthesis kind || kind == .openBrace || kind == .newKw || kind == .instanceofKw

/-- Whether each at sign is behind such a token. -/
def screened : List TokenKind → Bool
  | [] => true
  | kind :: rest => isScreen kind || kind != .atSign && screened rest

theorem screened_of_forall {kinds : List TokenKind} (h : ∀ kind ∈ kinds, kind ≠ .atSign) :
    screened kinds = true := by
  induction kinds with
  | nil => rfl
  | cons kind kinds ih =>
      obtain ⟨hkind, hkinds⟩ := List.forall_mem_cons.1 h
      rw [screened, bne_iff_ne.2 hkind, ih hkinds]
      exact Bool.or_true _

theorem screened_append_iff {front back : List TokenKind}
    (hfront : ∀ kind ∈ front, isScreen kind = false) :
    screened (front ++ back) = true ↔ .atSign ∉ front ∧ screened back = true := by
  induction front with
  | nil => exact (and_iff_right List.not_mem_nil).symm
  | cons kind front ih =>
      obtain ⟨hkind, hrest⟩ := List.forall_mem_cons.1 hfront
      rw [List.cons_append, screened, hkind, Bool.false_or, Bool.and_eq_true, bne_iff_ne,
        ih hrest, List.mem_cons, not_or, and_assoc, ne_comm]

theorem screened_append {front back : List TokenKind} (hfront : screened front = true)
    (hback : screened back = true) : screened (front ++ back) = true := by
  induction front with
  | nil => exact hback
  | cons kind front ih =>
      rw [screened, Bool.or_eq_true, Bool.and_eq_true] at hfront
      rw [List.cons_append, screened, Bool.or_eq_true, Bool.and_eq_true]
      exact hfront.imp_right fun ⟨hkind, hrest⟩ => ⟨hkind, ih hrest⟩

theorem screened_cons {kind : TokenKind} {rest : List TokenKind} (hkind : isScreen kind = true) :
    screened (kind :: rest) = true := by
  rw [screened, hkind, Bool.true_or]

theorem isParenthesis_of_not_isScreen {kind : TokenKind} (h : isScreen kind = false) :
    isParenthesis kind = false := by
  simp only [isScreen, Bool.or_eq_false_iff] at h
  exact h.1.1.1

theorem isScreen_of_isPrimitiveType {kind : TokenKind} (h : kind.isPrimitiveType = true) :
    isScreen kind = false := by
  have hall : ∀ kind ∈ TokenKind.all, kind.isPrimitiveType = true → isScreen kind = false := by
    decide
  exact hall kind (TokenKind.mem_all kind) h

/-- Each at sign ahead is behind a screen. -/
def Clear (c : Cursor) : Prop :=
  screened (c.rest.map (·.kind)) = true

theorem clear_of_calm (h : Calm c) : Clear c :=
  screened_of_forall (List.forall_mem_map.2 h)

theorem Clear.ne_atSign (hc : Clear c) : nextKind c ≠ some .atSign := by
  intro h
  obtain ⟨glued, rest, hrest⟩ := exists_of_nextKind h
  rw [Clear, hrest] at hc
  cases hc

/-- From one place to another there are tokens none of which is a screen. -/
def Flat (c stop : Cursor) : Prop :=
  ∃ front, c.rest = front ++ stop.rest ∧ ∀ terminal ∈ front, isScreen terminal.kind = false

theorem Flat.refl (c : Cursor) : Flat c c :=
  ⟨[], rfl, nofun⟩

theorem Flat.trans (h : Flat c mid) (h' : Flat mid stop) : Flat c stop := by
  obtain ⟨front, hrest, hfront⟩ := h
  obtain ⟨back, hrest', hback⟩ := h'
  exact ⟨front ++ back, by rw [hrest, hrest', List.append_assoc],
    List.forall_mem_append.2 ⟨hfront, hback⟩⟩

theorem Flat.clear (h : Flat c stop) (hc : Clear c) : Clear stop := by
  obtain ⟨front, hrest, hfront⟩ := h
  rw [Clear, hrest, List.map_append, screened_append_iff (List.forall_mem_map.2 hfront)] at hc
  exact hc.2

theorem flat_of_passes {kind : TokenKind} (h : Passes kind c stop)
    (hkind : isScreen kind = false) : Flat c stop := by
  cases h
  exact ⟨[⟨kind, _⟩], rfl, List.forall_mem_singleton.2 hkind⟩

theorem Clear.passes {kind : TokenKind} (hc : Clear c) (h : Passes kind c stop)
    (hkind : isScreen kind = false) : Clear stop :=
  (flat_of_passes h hkind).clear hc

/-- Wherever the rule ends, it has passed no screen. -/
def Avoids (g : Grammar α) (c : Cursor) : Prop :=
  ∀ done, g c = .ok done → Flat c done.cursor

theorem avoids_bind {g : Grammar α} {f : α → Grammar β} (hg : Avoids g c)
    (hf : ∀ a mid, Flat c mid → Avoids (f a) mid) : Avoids (g >>= f) c := by
  intro done hrun
  obtain ⟨first, second, hfirst, hsecond, rfl⟩ := exists_of_bind_ok hrun
  have hflat := hg first hfirst
  exact hflat.trans (hf _ _ hflat second hsecond)

theorem avoids_look {g : Grammar α} {f : α → Grammar β} {a : α}
    (hrun : g c = .ok ⟨a, [], c⟩) (h : Avoids (f a) c) : Avoids (g >>= f) c := by
  intro done hdone
  obtain ⟨first, second, hfirst, hsecond, rfl⟩ := exists_of_bind_ok hdone
  cases hrun.symm.trans hfirst
  exact h second hsecond

theorem avoids_pure (a : α) : Avoids (pure a) c := by
  intro done hrun
  cases hrun
  exact .refl c

theorem avoids_put (outline : Outline) : Avoids (put outline) c := by
  intro done hrun
  cases hrun
  exact .refl c

theorem avoids_report (kind : ErrorKind) : Avoids (report kind) c := by
  intro done hrun
  cases hrun
  exact .refl c

theorem avoids_ite {p : Prop} [Decidable p] {yes no : Grammar α} (hyes : p → Avoids yes c)
    (hno : Avoids no c) : Avoids (if p then yes else no) c := by
  split
  · exact hyes ‹_›
  · exact hno

theorem avoids_ifAt {kind : TokenKind} {yes no : Grammar α}
    (hyes : nextKind c = some kind → Avoids yes c) (hno : Avoids no c) :
    Avoids (isAt kind >>= fun found => if found = true then yes else no) c :=
  avoids_look (a := nextKind c == some kind) rfl
    (avoids_ite (fun hat => hyes (beq_iff_eq.1 hat)) hno)

theorem avoids_bump {kind : TokenKind} (hnext : nextKind c = some kind)
    (hkind : isScreen kind = false) : Avoids bump c := by
  obtain ⟨stop, hpasses⟩ := exists_passes hnext
  intro done hrun
  cases hpasses.bump.symm.trans hrun
  exact flat_of_passes hpasses hkind

theorem avoids_bump_bind {kind : TokenKind} {f : Unit → Grammar β}
    (hnext : nextKind c = some kind) (hkind : isScreen kind = false)
    (h : ∀ mid, Passes kind c mid → Avoids (f ()) mid) : Avoids (bump >>= f) c := by
  obtain ⟨mid, hpasses⟩ := exists_passes hnext
  intro done hrun
  obtain ⟨first, second, hfirst, hsecond, rfl⟩ := exists_of_bind_ok hrun
  cases hpasses.bump.symm.trans hfirst
  exact (flat_of_passes hpasses hkind).trans (h mid hpasses second hsecond)

theorem avoids_eat {kind : TokenKind} (hkind : isScreen kind = false) :
    Avoids (eat kind) c :=
  avoids_ifAt (fun hnext => avoids_bump_bind hnext hkind fun _ _ => avoids_pure true)
    (avoids_pure false)

theorem avoids_expect {kind : TokenKind} {missing : ErrorKind}
    (hkind : isScreen kind = false) : Avoids (expect kind missing) c :=
  avoids_bind (avoids_eat hkind) fun _ _ _ =>
    avoids_ite (fun _ => avoids_pure ()) (avoids_report missing)

theorem avoids_orReport {missing : ErrorKind} {g : Grammar (Option Outline)} (h : Avoids g c) :
    Avoids (orReport missing g) c := by
  refine avoids_bind h fun found mid _ => ?_
  cases found with
  | none => exact avoids_report missing
  | some outline => exact avoids_put outline

theorem avoids_capture {g : Grammar α} (h : Avoids g c) : Avoids (capture g) c := by
  intro done hrun
  obtain ⟨inner, hinner, rfl⟩ := exists_of_capture_ok hrun
  exact h inner hinner

theorem avoids_node {kind : NodeKind} {g : Grammar Unit} (h : Avoids g c) :
    Avoids (node kind g) c :=
  avoids_bind (avoids_capture h) fun _ _ _ => avoids_pure _

theorem avoids_around {kind : NodeKind} {first : Outline} {g : Grammar Unit} (h : Avoids g c) :
    Avoids (around kind first g) c :=
  avoids_bind (avoids_capture h) fun _ _ _ => avoids_pure _

theorem avoids_attempt {g : Grammar (Option α)} (h : Avoids g c) : Avoids (attempt g) c := by
  intro done hrun
  obtain ⟨inner, hinner, rfl | ⟨-, rfl⟩⟩ := exists_of_attempt_ok hrun
  · exact h _ hinner
  · exact .refl c

theorem avoids_iterate {step : σ → Grammar (ForInStep σ)}
    (hstep : ∀ s here, Flat c here → Avoids (step s) here) (s : σ) :
    Avoids (iterate step s) c := by
  suffices h : ∀ limit s here, Flat c here → Avoids (iterateWithin step limit s) here from
    h _ s c (.refl c)
  intro limit
  induction limit with
  | zero => exact fun _ _ _ _ hrun => nomatch hrun
  | succ limit ih =>
      intro s here hhere
      refine avoids_bind (hstep s here hhere) fun next mid hmid => ?_
      cases next with
      | done last => exact avoids_pure last
      | yield s => exact ih s mid (hhere.trans hmid)

/-- The types of a table are read without passing a screen. -/
def TypesAvoid (r : Rules) : Prop :=
  ∀ flags c, Clear c → Avoids (r.type flags) c

theorem avoids_typeArguments (hr : TypesAvoid r) (hc : Clear c) (hnext : nextKind c = some .lt) :
    Avoids (typeArguments r) c := by
  unfold typeArguments
  refine avoids_node (avoids_bump_bind hnext rfl fun mid hmid =>
    avoids_bind (avoids_eat rfl) fun _ here hhere => avoids_ite (fun _ => avoids_pure ()) ?_)
  have hclear := hhere.clear (hc.passes hmid rfl)
  refine avoids_bind (avoids_iterate (fun _ next hflat => ?_) true) fun complete _ _ =>
    avoids_ite (fun _ => avoids_expect rfl)
      (avoids_bind (avoids_eat rfl) fun _ _ _ => avoids_pure ())
  refine avoids_bind (hr .argument next (hflat.clear hclear)) fun found _ _ => ?_
  cases found with
  | none => exact avoids_bind (avoids_report _) fun _ _ _ => avoids_pure _
  | some argument =>
      exact avoids_bind (avoids_put _) fun _ _ _ => avoids_bind (avoids_eat rfl) fun _ _ _ =>
        avoids_ite (fun _ => avoids_pure _) (avoids_pure _)

theorem avoids_optionalTypeArguments (hr : TypesAvoid r) (hc : Clear c) :
    Avoids (optionalTypeArguments r true) c :=
  avoids_ifAt (fun hnext => avoids_bind (avoids_typeArguments hr hc hnext) fun _ _ _ =>
    avoids_put _) (avoids_pure ())

theorem avoids_codeReference (hr : TypesAvoid r) (hc : Clear c) (hnext : nextKind c = some .ident)
    (eatLastDot : Bool) : Avoids (codeReference r eatLastDot true) c := by
  unfold codeReference
  refine avoids_bind (avoids_node (avoids_bump_bind hnext rfl fun mid hmid =>
    avoids_optionalTypeArguments hr (hc.passes hmid rfl))) fun first mid hmid =>
      avoids_iterate (fun reference here hhere => ?_) first
  have hclear := hhere.clear (hmid.clear hc)
  refine avoids_ifAt (fun hdot => ?_) (avoids_pure _)
  refine avoids_look rfl (avoids_ite (fun hident => ?_) (avoids_ite (fun _ => ?_) (avoids_pure _)))
  · refine avoids_bind (avoids_around (avoids_bump_bind hdot rfl fun next hpasses => ?_))
      fun _ _ _ => avoids_pure _
    exact avoids_bump_bind (hpasses.ahead_eq.symm.trans (beq_iff_eq.1 hident)) rfl fun last hlast =>
      avoids_optionalTypeArguments hr ((hclear.passes hpasses rfl).passes hlast rfl)
  · exact avoids_bind (avoids_around (avoids_bump_bind hdot rfl fun _ _ => avoids_report _))
      fun _ _ _ => avoids_pure _

theorem avoids_wildcard (hr : TypesAvoid r) (hc : Clear c) (hnext : nextKind c = some .question) :
    Avoids (wildcard r) c := by
  refine avoids_bump_bind hnext rfl fun mid hmid =>
    avoids_look (a := nextKind mid == some .extendsKw) rfl
      (avoids_look (a := nextKind mid == some .superKw) rfl
        (avoids_ite (fun hat => ?_) (avoids_pure ())))
  have hclear := hc.passes hmid rfl
  rcases Bool.or_eq_true_iff.1 hat with hextends | hsuper
  · exact avoids_bump_bind (beq_iff_eq.1 hextends) rfl fun here hhere =>
      avoids_orReport (hr .plain here (hclear.passes hhere rfl))
  · exact avoids_bump_bind (beq_iff_eq.1 hsuper) rfl fun here hhere =>
      avoids_orReport (hr .plain here (hclear.passes hhere rfl))

theorem avoids_typeHead (hr : TypesAvoid r) (hc : Clear c) (flags : TypeFlags) :
    Avoids (typeHead r flags) c := by
  apply avoids_look (a := nextKind c) rfl
  cases hnext : nextKind c with
  | none => exact avoids_pure _
  | some kind =>
      refine avoids_ite (fun hprimitive => ?_) (avoids_ite (fun hident => ?_)
        (avoids_ite (fun hquestion => ?_) (avoids_pure _)))
      · exact avoids_bump_bind hnext (isScreen_of_isPrimitiveType hprimitive)
          fun _ _ => avoids_pure _
      · rw [beq_iff_eq.1 hident] at hnext
        exact avoids_bind (avoids_codeReference hr hc hnext _) fun _ _ _ =>
          avoids_bind (avoids_put _) fun _ _ _ => avoids_pure _
      · rw [beq_iff_eq.1 (Bool.and_eq_true_iff.1 hquestion).2] at hnext
        exact avoids_bind (avoids_wildcard hr hc hnext) fun _ _ _ => avoids_pure _

theorem avoids_typeBase (hr : TypesAvoid r) (hc : Clear c) (flags : TypeFlags) :
    Avoids (typeBase r flags) c := by
  refine avoids_look (a := ()) (repeatWhile_of_false ?_) (avoids_typeHead hr hc flags)
  refine run_look (a := nextKind c == some .atSign) rfl (run_look rfl ?_)
  rw [if_neg]
  · rfl
  · simp [hc.ne_atSign]

theorem run_typeBase_primitive {flags : TypeFlags} {kind : TokenKind}
    (hnext : nextKind c = some kind) (hkind : kind.isPrimitiveType = true) :
    ∃ stop, typeBase r flags c = .ok ⟨.named, [.token kind], stop⟩ := by
  obtain ⟨stop, hpasses⟩ := exists_passes hnext
  refine ⟨stop, run_typeBase (fun h => ?_) (run_look (a := nextKind c) rfl ?_)⟩
  · cases Option.some.inj (hnext.symm.trans h)
    cases hkind
  · rw [hnext]
    dsimp only
    rw [if_pos hkind]
    exact hpasses.bump_bind rfl

theorem avoids_typeSuffix (flags : TypeFlags) (base : Outline) :
    Avoids (typeSuffix flags base) c := by
  unfold typeSuffix
  refine avoids_bind (avoids_iterate (fun element here _ => ?_) base) fun array mid _ => ?_
  · refine avoids_look (a := nextKind here == some .openBracket) rfl (avoids_look rfl
      (avoids_ite (fun hat => ?_) (avoids_pure _)))
    obtain ⟨hopen, hclose⟩ := Bool.and_eq_true_iff.1 hat
    refine avoids_bind (avoids_around (avoids_bump_bind (beq_iff_eq.1 hopen) rfl
      fun next hpasses => ?_)) fun _ _ _ => avoids_pure _
    exact avoids_bump (hpasses.ahead_eq.symm.trans (beq_iff_eq.1 hclose)) rfl
  · refine avoids_look (a := nextKind mid == some .ellipsis) rfl (avoids_ite (fun hat => ?_)
      (avoids_pure _))
    exact avoids_around (avoids_bump (beq_iff_eq.1 (Bool.and_eq_true_iff.1 hat).2) rfl)

theorem avoids_type (hr : TypesAvoid r) (hc : Clear c) (flags : TypeFlags) :
    Avoids (Grammar.type r flags) c := by
  unfold Grammar.type
  refine avoids_attempt (avoids_bind (avoids_capture (avoids_typeBase hr hc flags))
    fun base mid _ => ?_)
  obtain ⟨form, parts⟩ := base
  cases form with
  | missing => exact avoids_pure _
  | wildcard => exact avoids_pure _
  | named => exact avoids_bind (avoids_typeSuffix flags _) fun _ _ _ => avoids_pure _

theorem typesAvoid_ofDepth (depth : Nat) : TypesAvoid (.ofDepth depth) := by
  induction depth with
  | zero => exact fun _ _ _ _ hrun => nomatch hrun
  | succ depth ih => exact fun flags _ hc => avoids_type ih hc flags

theorem ne_append_close {row : List Lexeme} (h : Fine row) {front back : List Terminal}
    {glued : Bool} (hfront : ∀ terminal ∈ front, isParenthesis terminal.kind = false) :
    row.map Lexeme.terminal ≠ front ++ ⟨.closeParen, glued⟩ :: back := by
  intro hrow
  obtain ⟨before, behind, rfl, rfl, hbehind⟩ := List.map_eq_append_iff.1 hrow
  obtain ⟨first, later, rfl, hfirst, -⟩ := List.map_eq_cons_iff.1 hbehind
  have hkind : first.kind = .closeParen := congrArg Terminal.kind hfirst
  have hfound : (before ++ first :: later).find? (fun lexeme => isParenthesis lexeme.kind) =
      some first := by
    rw [List.find?_append, List.find?_eq_none.2, Option.none_or, List.find?_cons_of_pos]
    · rw [hkind]
      rfl
    · exact fun lexeme hmem => Bool.not_eq_true _ ▸ hfront _ (List.mem_map_of_mem hmem)
  cases hkind.symm.trans (h.opens first hfound)

/-- A type that a parenthesis closes ends at the first parenthesis. If it began where an expression
does, this is the one behind the expression. -/
theorem rest_eq_of_flat {sketch : Sketch} {behind : Cursor} (hfine : Fine sketch.lexemes)
    (h : Spans [sketch] c behind) (hclose : Passes .closeParen behind stop) (hflat : Flat c mid)
    (hmid : nextKind mid = some .closeParen) : mid.rest = behind.rest := by
  obtain ⟨front, hrest, hfront⟩ := hflat
  obtain ⟨glued, later, hlater⟩ := exists_of_nextKind hmid
  obtain ⟨index, glued', rest⟩ := hclose
  have hspan := h.rest_eq
  rw [Sketch.lexemesAll, Sketch.lexemesAll, List.append_nil, hrest] at hspan
  -- If the two cuts of the row differ, a parenthesis is where none can be: in the type, or closing
  -- in the expression before any has been opened.
  rcases List.append_eq_append_iff.1 hspan with ⟨between, hrow, hmid⟩ | ⟨between, hpassed, hbehind⟩
  · cases between with
    | nil => exact hmid
    | cons first between =>
        cases hlater.symm.trans hmid
        exact absurd hrow (ne_append_close hfine fun terminal hmem =>
          isParenthesis_of_not_isScreen (hfront terminal hmem))
  · cases between with
    | nil => exact hbehind.symm
    | cons first between =>
        cases hbehind
        cases hfront ⟨.closeParen, glued'⟩ (hpassed ▸ List.mem_append_right _ List.mem_cons_self)

/-- An expression in parentheses begins with no primitive type, and what comes behind it could not
be the operand of a cast. -/
structure Grouped (sketch : Sketch) (c stop : Cursor) : Prop where
  calm : Calm c
  spans : ∃ mid behind, Passes .openParen c mid ∧ Spans [sketch] mid behind ∧
    Passes .closeParen behind stop
  fine : Fine sketch.lexemes
  begins : Begins (fun kind => kind.isPrimitiveType = false) sketch
  follows : ∀ kind ∈ nextKind stop, kind.startsCastOperand false = false

theorem value_castType {sketch : Sketch} (h : Grouped sketch c stop) (hr : TypesAvoid r)
    {done : Parsed Bool} (hrun : castType r c = .ok done) : done.value = false := by
  obtain ⟨mid, behind, hopen, hspan, hclose⟩ := h.spans
  obtain ⟨kind, hnext, hkind⟩ := hspan.begins h.begins
  obtain ⟨first, second, hfirst, hsecond, rfl⟩ := exists_of_bind_ok hrun
  cases hopen.bump.symm.trans hfirst
  obtain ⟨looked, found, hlooked, hfound, rfl⟩ := exists_of_bind_ok hsecond
  cases hlooked
  obtain ⟨typed, tested, htyped, htested, rfl⟩ := exists_of_bind_ok hfound
  cases hvalue : typed.value with
  | none =>
      rw [hvalue] at htested
      cases htested
      rfl
  | some type =>
      rw [hvalue] at htested
      cases htested
      change ((nextKind typed.cursor == some .closeParen) && !type.hasError &&
        (typed.cursor.rest[1]?.map (·.kind)).any
          (TokenKind.startsCastOperand ((nextKind mid).any TokenKind.isPrimitiveType))) = false
      rw [hnext, Option.any_some, hkind]
      by_cases hend : nextKind typed.cursor = some .closeParen
      · have hflat := hr .plain mid (clear_of_calm (h.calm.passes hopen)) typed htyped
        rw [rest_eq_of_flat h.fine hspan hclose hflat hend, hclose.ahead_eq,
          (Option.any_eq_false _ _).2 h.follows]
        exact Bool.and_false _
      · rw [beq_eq_false_iff_ne.2 hend]
        rfl

theorem run_cast {sketch : Sketch} (h : Grouped sketch c stop) (arrow : ArrowRole) :
    Eventually fun r => cast r arrow c = .ok ⟨none, [], c⟩ := by
  obtain ⟨mid, behind, hopen, hspan, hclose⟩ := h.spans
  refine ⟨5 * c.rest.length, fun depth hdepth => ?_⟩
  obtain ⟨found, stop', hrun, hanswers⟩ := finds_cast (ready_ofDepth depth) arrow
    (Nat.zero_lt_of_lt hopen.length_lt) hdepth
  cases found with
  | none =>
      cases hanswers
      exact hrun
  | some outline =>
      unfold Grammar.cast at hrun
      obtain ⟨done, hdone, rfl | ⟨-, hnone⟩⟩ := exists_of_attempt_ok hrun
      · obtain ⟨captured, answered, hcaptured, hanswered, hdone⟩ := exists_of_bind_ok hdone
        obtain ⟨inner, hinner, rfl⟩ := exists_of_capture_ok hcaptured
        dsimp only at hanswered
        rw [value_castType h (typesAvoid_ofDepth depth) hinner] at hanswered
        cases hanswered
        cases hdone
      · cases hnone

end PatternSyntax.Proofs.Casts
