import PatternSyntax.Proofs.Coverage
import PatternSyntax.Proofs.Depth

/-!
Every rule ends, at every cursor where it may be applied. The depth that a rule needs grows with
the tokens ahead: rules that apply each other at one and the same token need one more each, and
whoever has passed a token has room for any rule.
-/

namespace PatternSyntax.Proofs.Contract

open Grammar
open PatternSyntax.Proofs.Coverage
open PatternSyntax.Proofs.Depth
open PatternSyntax.Proofs.Runs

def PatternAhead (c : Cursor) : Prop :=
  ∃ depth, isPattern (.ofDepth depth) c = .ok ⟨true, [], c⟩

/-- What the rules of a table promise at cursors for which the depth is sufficient. -/
structure Ready (depth : Nat) (r : Rules) : Prop where
  bounded : ∃ reach, r = .ofDepth reach
  annot (c : Cursor) : 0 < c.rest.length → 5 * c.rest.length + 1 ≤ depth →
    Finds r.annot c (Builds c)
  arrayInitializer (c : Cursor) : 0 < c.rest.length → 5 * c.rest.length + 1 ≤ depth →
    Finds r.arrayInitializer c (Builds c)
  type (flags : TypeFlags) (c : Cursor) : 5 * c.rest.length + 2 ≤ depth →
    Finds (r.type flags) c (Answers c)
  primitive (flags : TypeFlags) (c : Cursor) (kind : TokenKind) : nextKind c = some kind →
    kind.isPrimitiveType = true → 5 * c.rest.length + 2 ≤ depth →
    Finds (r.type flags) c fun found stop => ∃ outline, found = some outline ∧
      Builds c outline stop
  pattern (c : Cursor) : PatternAhead c → 5 * c.rest.length + 3 ≤ depth →
    Finds r.pattern c fun outline stop =>
      Covers c [outline] stop ∧ stop.rest.length < c.rest.length
  unary (arrow : ArrowRole) (c : Cursor) : 5 * c.rest.length + 3 ≤ depth →
    Finds (r.unary arrow) c (Answers c)
  binary (level : Nat) (arrow : ArrowRole) (c : Cursor) : 5 * c.rest.length + 4 ≤ depth →
    Finds (r.binary level arrow) c (Answers c)
  conditional (arrow : ArrowRole) (c : Cursor) : 5 * c.rest.length + 5 ≤ depth →
    Finds (r.conditional arrow) c (Answers c)

variable {depth : Nat} {r : Rules} {c origin : Cursor}

theorem Ready.expression (hr : Ready depth r) (c : Cursor) (hroom : 5 * c.rest.length + 5 ≤ depth) :
    Finds r.expression c (Answers c) :=
  hr.conditional .lambda c hroom

theorem lays_argumentTurn (hr : Ready depth r) (hroom : 5 * c.rest.length + 2 ≤ depth)
    (complete : Bool) :
    Lays (argumentTurn r complete) c c (Turns (fun _ _ => True) (fun _ _ => True) c) := by
  apply lays_bind_finds (hr.type _ c hroom)
  intro found mid hfound
  cases found with
  | none =>
      cases hfound
      exact lays_report_bind (lays_pure trivial)
  | some argument =>
      refine lays_put_bind hfound.1.2 (lays_bind lays_eat fun comma next hnext _ => ?_)
      split
      · exact lays_pure ⟨trivial, Nat.lt_of_le_of_lt hnext hfound.2⟩
      · exact lays_pure trivial

theorem finds_typeArguments (hr : Ready depth r) (hpos : 0 < c.rest.length)
    (hroom : 5 * c.rest.length ≤ depth) : Finds (typeArguments r) c (Builds c) := by
  apply finds_node_bump (by decide) hpos
  intro mid hmid
  apply lays_bind lays_eat
  intro empty start hstart _
  split
  · exact lays_pure trivial
  · refine lays_bind (P := fun _ _ => True) (lays_iterate (I := fun _ _ => True) trivial
      fun _ here hhere _ => lays_argumentTurn hr (by omega) _) fun complete stop _ _ => ?_
    split
    · exact lays_expect
    · exact lays_bind lays_eat fun _ _ _ _ => lays_pure trivial

theorem lays_optionalTypeArguments (hr : Ready depth r) (allowed : Bool)
    (hroom : 5 * c.rest.length ≤ depth) :
    Lays (optionalTypeArguments r allowed) c c fun _ _ => True := by
  apply lays_look (a := nextKind c == some .lt) rfl
  split
  · rename_i h
    simp only [Bool.and_eq_true, beq_iff_eq] at h
    exact (lays_found (finds_typeArguments hr (length_pos_of_nextKind h.2) hroom).covers).mono
      fun _ _ _ _ => trivial
  · exact lays_pure trivial

theorem finds_codeReference (hr : Ready depth r) (eatLastDot arguments : Bool)
    (hpos : 0 < c.rest.length) (hroom : 5 * c.rest.length ≤ depth) :
    Finds (codeReference r eatLastDot arguments) c (Builds c) := by
  apply finds_bind (finds_node_bump (by decide) hpos fun mid hmid =>
    lays_optionalTypeArguments hr arguments (by omega))
  intro first mid hfirst
  apply finds_iterate (I := Builds c) hfirst
  intro reference here hhere hreference
  have hlt := hreference.2
  refine finds_ifAt (fun hdot => ?_) fun _ => finds_pure hreference
  have hleft := length_pos_of_nextKind hdot
  apply finds_look rfl
  split
  · refine finds_bind (finds_around_bump hreference.1 hleft fun next hnext =>
      lays_bind lays_bump fun _ last hlast _ => lays_optionalTypeArguments hr arguments
        (by omega)) fun outline stop hmakes => finds_pure ?_
    exact ⟨⟨hmakes.1, by have := hmakes.2; omega⟩, hmakes.2⟩
  split
  · refine finds_bind (finds_around_bump hreference.1 hleft fun next _ =>
      lays_report.mono fun _ _ _ _ => trivial) fun outline stop hmakes => finds_pure ?_
    exact ⟨hmakes.1, by have := hmakes.2; omega⟩
  · exact finds_pure hreference

theorem lays_wildcard (hr : Ready depth r) (hpos : 0 < c.rest.length)
    (hroom : 5 * c.rest.length ≤ depth) :
    Lays (wildcard r) c c fun _ stop => stop.rest.length < c.rest.length := by
  refine lays_bump_bind hpos fun mid hmid => lays_look rfl (lays_look rfl ?_)
  split
  · exact lays_bind lays_bump fun _ next _ _ => lays_orReport (hr.type _ next (by omega))
  · exact lays_pure trivial

theorem lays_typeHead (hr : Ready depth r) (flags : TypeFlags)
    (hroom : 5 * c.rest.length ≤ depth) :
    Lays (typeHead r flags) c c fun form stop =>
      form ≠ .missing → stop.rest.length < c.rest.length := by
  apply lays_look (a := nextKind c) rfl
  cases hnext : nextKind c with
  | none => exact lays_pure (by simp)
  | some kind =>
      have hpos := length_pos_of_nextKind hnext
      dsimp only
      split
      · exact lays_bind lays_bump fun _ _ _ hlt => lays_pure fun _ => hlt hpos
      split
      · exact lays_found_bind (finds_codeReference hr _ _ hpos hroom).covers
          fun mid _ hlt => lays_pure fun _ => hlt
      split
      · exact lays_bind (lays_wildcard hr hpos hroom) fun _ _ _ hlt => lays_pure fun _ => hlt
      · exact lays_pure (by simp)

theorem finds_typeSuffix (flags : TypeFlags) {base : Outline} (hbase : Builds origin base c) :
    Finds (typeSuffix flags base) c (Builds origin) := by
  refine finds_bind (finds_iterate (I := Builds origin) (Q := Builds origin) hbase
    fun element here _ helement => ?_) fun array mid harray => ?_
  · refine finds_look (a := nextKind here == some .openBracket) rfl (finds_look rfl ?_)
    split
    · rename_i h
      simp only [Bool.and_eq_true, beq_iff_eq] at h
      refine finds_bind (finds_around_bump helement.1 (length_pos_of_nextKind h.1)
        fun _ _ => lays_bump.mono fun _ _ _ _ => trivial) fun outline stop hmakes => finds_pure ?_
      exact ⟨⟨hmakes.1, by have := helement.2; have := hmakes.2; omega⟩, hmakes.2⟩
    · exact finds_pure helement
  · apply finds_look rfl
    split
    · apply (finds_around harray.1 (lays_bump.mono (Q := fun _ stop =>
        stop.rest.length ≤ mid.rest.length) fun _ _ hle _ => hle)).mono
      intro outline stop hmakes
      exact ⟨hmakes.1, Nat.lt_of_le_of_lt hmakes.2 harray.2⟩
    · exact finds_pure harray

theorem lays_annotTurn (hr : Ready depth r) (hroom : 5 * c.rest.length + 1 ≤ depth) :
    Lays (annotTurn r) c c fun found stop => found = true → stop.rest.length < c.rest.length := by
  refine lays_look (a := nextKind c == some .atSign) rfl (lays_look rfl ?_)
  split
  · rename_i h
    simp only [Bool.and_eq_true, beq_iff_eq] at h
    exact lays_found_bind (hr.annot c (length_pos_of_nextKind h.1) (by omega)).covers
      fun _ _ hlt => lays_pure fun _ => hlt
  · exact lays_pure nofun

theorem finds_type (hr : Ready depth r) (flags : TypeFlags)
    (hroom : 5 * c.rest.length + 1 ≤ depth) : Finds (Grammar.type r flags) c (Answers c) := by
  have hhead : Lays (repeatWhile (annotTurn r) >>= fun _ => typeHead r flags) c c fun form stop =>
      form ≠ .missing → stop.rest.length < c.rest.length :=
    lays_bind (lays_repeatWhile fun here hhere => lays_annotTurn hr (by omega))
      fun _ mid hmid _ => (lays_typeHead hr flags (by omega)).mono fun form stop _ hlt hform =>
        Nat.lt_of_lt_of_le (hlt hform) hmid
  unfold Grammar.type
  refine finds_attempt (finds_capture_bind c hhead fun form parts mid hcovers hlt => ?_)
  have hbase (hform : form ≠ .missing) : Builds c (.node .type parts) mid :=
    ⟨⟨trivial, .node hcovers ⟨nofun, nofun⟩ (.nil _)⟩, hlt hform⟩
  cases form with
  | missing => exact finds_pure (by simp)
  | wildcard => exact finds_pure fun _ h => Option.some.inj h ▸ hbase (by decide)
  | named =>
      exact finds_bind (finds_typeSuffix flags (hbase (by decide))) fun outline stop hbuilds =>
        finds_pure fun _ h => Option.some.inj h ▸ hbuilds

theorem finds_type_primitive (r : Rules) (flags : TypeFlags) {kind : TokenKind}
    (hkind : nextKind c = some kind) (hprimitive : kind.isPrimitiveType = true) :
    Finds (Grammar.type r flags) c fun found stop => ∃ outline, found = some outline ∧
      Builds c outline stop := by
  have hpos := length_pos_of_nextKind hkind
  have hat : (isAt .atSign) c = .ok ⟨false, [], c⟩ := by
    show Except.ok (Parsed.mk (nextKind c == some .atSign) [] c) = _
    have : kind ≠ .atSign := by
      rintro rfl
      cases hprimitive
    simp [hkind, this]
  have hhead : Lays (repeatWhile (annotTurn r) >>= fun _ => typeHead r flags) c c fun form stop =>
      form = .named ∧ stop.rest.length < c.rest.length := by
    refine lays_look (repeatWhile_of_false ?_) ?_
    · rw [annotTurn, bind_apply, hat]
      rfl
    · apply lays_look (a := nextKind c) rfl
      simp only [hkind, hprimitive, if_true]
      exact lays_bind lays_bump fun _ _ _ hlt => lays_pure ⟨rfl, hlt hpos⟩
  obtain ⟨⟨form, parts⟩, mid, hcapture, hcovers, rfl, hlt⟩ := finds_capture hhead
  obtain ⟨outline, stop, hsuffix, hbuilds⟩ := finds_typeSuffix flags
    (⟨⟨trivial, .node hcovers ⟨nofun, nofun⟩ (.nil _)⟩, hlt⟩ : Builds c (.node .type parts) mid)
  refine ⟨some outline, stop, ?_, outline, rfl, hbuilds⟩
  have hrun := bind_ok (f := fun outline => (pure (some outline) : Grammar (Option Outline)))
    hsuffix rfl
  rw [Grammar.type, attempt, bind_apply, typeBase, hcapture]
  simp only
  rw [hrun]
  rfl

theorem lays_annotValue (hr : Ready depth r) (hroom : 5 * c.rest.length + 5 ≤ depth) :
    Lays (annotValue r) c c fun _ _ => True := by
  refine lays_ifAt (fun hat => ?_) fun _ => lays_ifAt (fun hbrace => ?_) fun _ =>
    lays_orReport (hr.expression c hroom)
  · exact (lays_found (hr.annot c (length_pos_of_nextKind hat) (by omega)).covers).mono
      fun _ _ _ _ => trivial
  · exact (lays_found (hr.arrayInitializer c (length_pos_of_nextKind hbrace)
      (by omega)).covers).mono fun _ _ _ _ => trivial

theorem lays_annotParameter (hr : Ready depth r) (hroom : 5 * c.rest.length + 5 ≤ depth) :
    Lays (annotParameter r) c c fun _ _ => True := by
  refine lays_look (a := nextKind c == some .ident) rfl (lays_look rfl ?_)
  split
  · rename_i h
    simp only [Bool.and_eq_true, beq_iff_eq] at h
    refine (lays_found (finds_node_bump (by decide) (length_pos_of_nextKind h.1)
      fun mid hmid => ?_).covers).mono fun _ _ _ _ => trivial
    exact lays_bind lays_bump fun _ next _ _ => lays_annotValue hr (by omega)
  · exact lays_annotValue hr hroom

theorem lays_annotParameterTurn (hr : Ready depth r) (hroom : 5 * c.rest.length + 5 ≤ depth) :
    Lays (annotParameterTurn r) c c fun found stop =>
      found = true → stop.rest.length < c.rest.length :=
  lays_bind (lays_annotParameter hr hroom) fun _ _ hmid _ =>
    lays_eat.mono fun _ _ _ hlt h => Nat.lt_of_lt_of_le (hlt h) hmid

theorem finds_annotParameters (hr : Ready depth r) (hpos : 0 < c.rest.length)
    (hroom : 5 * c.rest.length ≤ depth) : Finds (annotParameters r) c (Builds c) := by
  unfold annotParameters
  exact finds_node_bump (by decide) hpos fun mid hmid => lays_ifAt (fun _ => lays_expect)
    fun _ => lays_bind (lays_repeatWhile fun here hhere => lays_annotParameterTurn hr (by omega))
      fun _ _ _ _ => lays_expect

theorem finds_annot (hr : Ready depth r) (hpos : 0 < c.rest.length)
    (hroom : 5 * c.rest.length ≤ depth) : Finds (Grammar.annot r) c (Builds c) := by
  have hparameters (mid : Cursor) (hmid : mid.rest.length < c.rest.length) :
      Lays (optionalAnnotParameters r) mid mid fun _ _ => True := by
    refine lays_ifAt (fun hopen => ?_) fun _ => lays_pure trivial
    exact (lays_found (finds_annotParameters hr (length_pos_of_nextKind hopen)
      (by omega)).covers).mono fun _ _ _ _ => trivial
  refine finds_node_bump (by decide) hpos fun mid hmid => lays_ifAt (fun hident => ?_) fun _ => ?_
  · exact lays_found_bind (finds_codeReference hr _ _ (length_pos_of_nextKind hident)
      (by omega)).covers fun next hnext _ => hparameters next (by omega)
  · exact lays_report_bind (hparameters mid hmid)

theorem lays_modifierTurn (hr : Ready depth r) (allowed : TokenSet)
    (hroom : 5 * c.rest.length + 1 ≤ depth) :
    Lays (modifierTurn r allowed) c c fun found stop =>
      found = true → stop.rest.length < c.rest.length := by
  apply lays_look (a := nextKind c) rfl
  cases hnext : nextKind c with
  | none => exact lays_pure nofun
  | some kind =>
      have hpos := length_pos_of_nextKind hnext
      dsimp only
      split
      · exact lays_bind lays_bump fun _ _ _ hlt => lays_pure fun _ => hlt hpos
      · apply lays_look rfl
        split
        · exact lays_found_bind (hr.annot c hpos (by omega)).covers fun _ _ hlt =>
            lays_pure fun _ => hlt
        · exact lays_pure nofun

theorem finds_modifierList (hr : Ready depth r) (allowed : TokenSet)
    (hroom : 5 * c.rest.length + 1 ≤ depth) :
    Finds (modifierList r allowed) c (Makes c) := by
  unfold modifierList
  exact finds_node_true (by decide) (lays_repeatWhile fun here hhere =>
    lays_modifierTurn hr allowed (by omega))

theorem lays_probe (hr : Ready depth r) (hroom : 5 * c.rest.length + 2 ≤ depth) :
    Lays (probe r) c c fun _ _ => True := by
  refine lays_bind (lays_repeatWhile fun _ _ => lays_eat) fun _ mid hmid _ => ?_
  refine lays_found_bind (finds_modifierList hr _ (by omega)).covers_of_makes fun next hnext _ => ?_
  refine lays_bind_finds (hr.type .pattern next (by omega)) fun found stop hfound => ?_
  cases found with
  | none =>
      cases hfound
      exact lays_pure trivial
  | some type => exact lays_put_bind hfound.1.2 (lays_look rfl (lays_look rfl (lays_pure trivial)))

theorem finds_isPattern (hr : Ready depth r) (hroom : 5 * c.rest.length + 2 ≤ depth) :
    Finds (isPattern r) c fun answer stop => stop = c ∧ (answer = true → PatternAhead c) := by
  obtain ⟨reach, hreach⟩ := hr.bounded
  refine (finds_lookahead (lays_probe hr hroom).ends).mono
    fun answer stop ⟨heq, hrun⟩ => ⟨heq, fun h => ⟨reach, ?_⟩⟩
  rw [← hreach, ← h]
  exact hrun

/-- The modifiers and the type of a pattern that is not in parentheses lie ahead, and then its name
or its components. -/
def TypeAhead (c : Cursor) : Prop :=
  ∃ depth modifiers found,
    modifierList (.ofDepth depth) .variableModifiers c = .ok modifiers ∧
    (Rules.ofDepth depth).type .pattern modifiers.cursor = .ok found ∧
    found.value.isSome ∧
    (nextKind found.cursor = some .ident ∨ nextKind found.cursor = some .openParen)

theorem patternAhead_iff :
    PatternAhead c ↔
      ∃ parens, repeatWhile (eat .openParen) c = .ok parens ∧ TypeAhead parens.cursor := by
  constructor
  · rintro ⟨depth, hrun⟩
    unfold isPattern lookahead at hrun
    split at hrun
    · cases hrun
    · rename_i done hdone
      obtain ⟨parens, afterParens, hparens, hafterParens, rfl⟩ := exists_of_bind_ok hdone
      obtain ⟨modifiers, afterModifiers, hmodifiers, hafterModifiers, rfl⟩ :=
        exists_of_bind_ok hafterParens
      obtain ⟨_, afterPut, hput, hafterPut, rfl⟩ := exists_of_bind_ok hafterModifiers
      cases hput
      obtain ⟨found, last, hfound, hlast, rfl⟩ := exists_of_bind_ok hafterPut
      refine ⟨parens, hparens, depth, modifiers, found, hmodifiers, hfound, ?_⟩
      -- The lookahead answers by what follows the type, and with no where there is none.
      obtain ⟨value, parts, stop⟩ := found
      cases value with
      | none =>
          cases hlast
          simp at hrun
      | some type =>
          cases hlast
          simpa [nextKind] using hrun
  · rintro ⟨parens, hparens, depth, modifiers, ⟨value, parts, stop⟩, hmodifiers, hfound, hsome,
      hkind⟩
    cases value with
    | none => simp at hsome
    | some type =>
        refine ⟨depth, ?_⟩
        have hlast : (do return (← isAt .ident) || (← isAt .openParen) : Grammar Bool) stop =
            .ok ⟨true, [], stop⟩ := by
          show Except.ok (Parsed.mk
            (nextKind stop == some .ident || nextKind stop == some .openParen) [] stop) = _
          rcases hkind with hkind | hkind
          · simp [hkind]
          · simp [hkind]
        have hput (outline : Outline) (c : Cursor) : put outline c = .ok ⟨(), [outline], c⟩ := rfl
        unfold isPattern lookahead probe
        rw [bind_ok hparens (bind_ok hmodifiers (bind_ok (hput _ _) (bind_ok hfound
          (bind_ok (hput type _) hlast))))]

theorem patternAhead_of_open {i : Nat} {glued : Bool} {rest : List Terminal}
    (h : PatternAhead ⟨i, ⟨.openParen, glued⟩ :: rest⟩) : PatternAhead ⟨i + 1, rest⟩ := by
  rw [patternAhead_iff] at h ⊢
  obtain ⟨parens, hparens, htype⟩ := h
  obtain ⟨first, second, hfirst, hsecond, rfl⟩ := exists_of_bind_ok hparens
  cases hfirst
  exact ⟨second, hsecond, htype⟩

theorem typeAhead_of_patternAhead (h : PatternAhead c) (hopen : nextKind c ≠ some .openParen) :
    TypeAhead c := by
  obtain ⟨parens, hparens, htype⟩ := patternAhead_iff.1 h
  have hnone := repeatWhile_of_false (eat_of_nextKind_ne hopen)
  cases hnone.symm.trans hparens
  exact htype

/-- A step of the loop over the components of a record, behind the comma between two of them. -/
theorem lays_component (hr : Ready depth r) (isFirst : Bool) {here : Cursor}
    (hhere : c.rest.length ≤ here.rest.length) (hroom : 5 * c.rest.length + 3 ≤ depth) :
    Lays (component r isFirst) c c (Turns (fun _ _ => True) (fun _ _ => True) here) := by
  apply lays_look rfl
  split
  · exact lays_pure trivial
  · rename_i hleft
    have hpos : 0 < c.rest.length :=
      List.length_pos_iff.2 fun hnil => hleft (List.isEmpty_iff.2 hnil)
    refine lays_bind_finds (finds_isPattern hr (by omega)) fun answer _ ⟨heq, hahead⟩ => ?_
    subst heq
    split
    · exact lays_found_bind (hr.pattern _ (hahead ‹_›) (by omega)) fun _ _ hlt =>
        lays_pure ⟨trivial, Nat.lt_of_lt_of_le hlt hhere⟩
    · refine lays_report_bind (lays_ifAt (fun _ => lays_pure trivial) fun _ => ?_)
      exact lays_bind lays_bump fun _ _ _ hlt =>
        lays_pure ⟨trivial, Nat.lt_of_lt_of_le (hlt hpos) hhere⟩

theorem finds_recordStructure (hr : Ready depth r) (hpos : 0 < c.rest.length)
    (hroom : 5 * c.rest.length ≤ depth) : Finds (recordStructure r) c (Builds c) := by
  refine finds_node_bump (by decide) hpos fun mid hmid => lays_bind (P := fun _ _ => True)
    (lays_iterate (I := fun _ _ => True) trivial fun isFirst here hhere _ => ?_)
      fun _ _ _ _ => lays_expect
  apply lays_ifAt (fun _ => lays_pure trivial)
  intro _
  dsimp only
  split
  · exact lays_component hr isFirst (Nat.le_refl _) (by omega)
  · exact lays_bind lays_expect fun _ next hnext _ => lays_component hr isFirst hnext (by omega)

theorem lays_recordName : Lays recordName c c fun _ _ => True :=
  lays_ifAt (fun hident => (lays_found (finds_node_token (by decide)
    (length_pos_of_nextKind hident)).covers).mono fun _ _ _ _ => trivial) fun _ => lays_pure trivial

theorem finds_typeOrRecordPattern (hr : Ready depth r) (hahead : TypeAhead c)
    (hroom : 5 * c.rest.length + 2 ≤ depth) :
    Finds (typeOrRecordPattern r) c (Builds c) := by
  obtain ⟨reach, hreach⟩ := hr.bounded
  obtain ⟨depth', foreseen, found, hforeseen, hfound, hsome, hkind⟩ := hahead
  obtain ⟨modifiers, mid, hmodifiers, hmakes⟩ := finds_modifierList (c := c) hr .variableModifiers
    (by omega)
  have hmid := hmakes.2.length_le
  obtain ⟨answer, stop, hanswer, hbuilt⟩ := hr.type .pattern mid (by omega)
  subst hreach
  -- Both are runs of one table, only to different depths.
  cases ofDepth_agree (fun h => modifierList_refines h _) hmodifiers hforeseen
  cases ofDepth_agree (fun h => h.type _) hanswer hfound
  cases answer with
  | none => simp at hsome
  | some type =>
      have htype : Covers c [modifiers, type] stop := hmakes.2.append hbuilt.1.2
      have hlt : stop.rest.length < c.rest.length := Nat.lt_of_lt_of_le hbuilt.2 hmid
      refine finds_look hmodifiers (finds_look hanswer (finds_ifAt (fun hopen => ?_) fun hno =>
        finds_ifAt (fun hident => ?_) fun hnone => ?_))
      · refine finds_capture_bind c (P := fun _ last => last.rest.length < c.rest.length) ?_ ?_
        · refine lays_put_put_bind htype (Lays.of_true ?_ fun _ _ hle => Nat.lt_of_le_of_lt hle hlt)
          exact lays_found_bind (finds_recordStructure hr (length_pos_of_nextKind hopen)
            (by omega)).covers fun _ _ _ => lays_recordName
        · intro _ parts last hcovers hlast
          exact finds_pure
            ⟨⟨trivial, .node (.loose hcovers (.nil _)) ⟨nofun, nofun⟩ (.nil _)⟩, hlast⟩
      · refine finds_bind (finds_node (by decide) (lays_put_put_bind htype lays_bump))
          fun declared last ⟨hmakes', hbump⟩ => finds_pure ⟨⟨trivial, .node hmakes'.2
            ⟨nofun, nofun⟩ (.nil _)⟩, ?_⟩
        have := hbump (length_pos_of_nextKind hident)
        omega
      · exact absurd hkind (not_or.2 ⟨hnone, hno⟩)

theorem finds_primaryPattern (hr : Ready depth r) (hahead : PatternAhead c)
    (hroom : 5 * c.rest.length + 2 ≤ depth) :
    Finds (primaryPattern r) c (Builds c) := by
  refine finds_ifAt (fun hopen => ?_) fun hno =>
    finds_typeOrRecordPattern hr (typeAhead_of_patternAhead hahead hno) hroom
  obtain ⟨i, rest⟩ := c
  obtain ⟨glued, later, rfl⟩ := exists_of_nextKind hopen
  have hlater := patternAhead_of_open hahead
  simp only [List.length_cons] at hroom
  refine finds_node (P := fun _ stop => stop.rest.length < later.length + 1) (by decide)
    (lays_bump_cons_bind (lays_found_bind (hr.pattern _ hlater (by dsimp only; omega))
      fun mid _ hlt => lays_expect.of_true fun _ stop hle => ?_))
  dsimp only at hlt
  omega

theorem finds_pattern (hr : Ready depth r) (hahead : PatternAhead c)
    (hroom : 5 * c.rest.length + 2 ≤ depth) :
    Finds (Grammar.pattern r) c fun outline stop =>
      Covers c [outline] stop ∧ stop.rest.length < c.rest.length := by
  refine finds_bind (finds_primaryPattern hr hahead hroom) fun primary mid ⟨⟨_, hcovers⟩, hlt⟩ =>
    finds_ifAt (fun hguard => ?_) fun _ =>
      finds_pure ⟨.loose hcovers (.nil _), hlt⟩
  refine (finds_node (P := fun _ stop => stop.rest.length < mid.rest.length) (by decide)
    (lays_put_bind hcovers (lays_bump_bind (length_pos_of_nextKind hguard) fun next hnext =>
      lays_orReport (hr.binary _ _ next (by omega))))).mono fun outline stop ⟨hmakes, hstop⟩ => ?_
  exact ⟨hmakes.2, Nat.lt_trans hstop hlt⟩

end PatternSyntax.Proofs.Contract
