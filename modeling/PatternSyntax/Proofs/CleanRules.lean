import PatternSyntax.Grammar.Depth
import PatternSyntax.Proofs.CleanRuns

/-!
No rule puts down a defect without an error. Tokens that were not looked at are only passed inside
of blocks, and what opens a bracket also closes it.
-/

namespace PatternSyntax.Proofs.CleanRules

open Grammar
open PatternSyntax.Proofs.CleanRuns
open PatternSyntax.Proofs.Coverage
open PatternSyntax.Proofs.Neatness
open PatternSyntax.Proofs.Runs

/-- What the rules of a table keep. -/
structure Careful (r : Rules) : Prop where
  annot (c : Cursor) : nextKind c = some .atSign → Tidies r.annot c
  arrayInitializer (c : Cursor) : nextKind c = some .openBrace → Tidies r.arrayInitializer c
  type (flags : TypeFlags) (c : Cursor) : Offers (r.type flags) c
  pattern (c : Cursor) : Clean r.pattern c (Bare fun outline _ => Laid outline)
  unary (arrow : ArrowRole) (c : Cursor) : Offers (r.unary arrow) c
  binary (level : Nat) (arrow : ArrowRole) (c : Cursor) : Offers (r.binary level arrow) c
  conditional (arrow : ArrowRole) (c : Cursor) : Offers (r.conditional arrow) c

variable {r : Rules} {c : Cursor}

theorem Careful.expression (hr : Careful r) (c : Cursor) : Offers r.expression c :=
  hr.conditional .lambda c

theorem ordinary_of_isPrimitiveType {kind : TokenKind} (h : kind.isPrimitiveType = true) :
    Ordinary kind := by
  cases kind
  all_goals first
    | decide
    | cases h

theorem ordinary_of_isLiteral {kind : TokenKind} (h : kind.isLiteral = true) :
    Ordinary kind := by
  cases kind
  all_goals first
    | decide
    | cases h

theorem ordinary_of_isPrefixOperator {kind : TokenKind} (h : kind.isPrefixOperator = true) :
    Ordinary kind := by
  cases kind
  all_goals first
    | decide
    | cases h

theorem clean_typeArguments (hr : Careful r) (hangle : nextKind c = some .lt) :
    Tidies (typeArguments r) c := by
  unfold typeArguments
  apply clean_list
  · apply clean_bump_bind_bare hangle (by decide)
    intro mid _
    apply clean_bind_bare (clean_eat_bare (by decide))
    intro empty start _
    split
    · exact clean_pure ⟨rfl, trivial⟩
    · refine clean_bind_bare (clean_iterate_bare (I := fun _ => True) (J := fun _ => True) trivial
        fun _ here _ => ?_) fun complete stop _ => ?_
      · apply clean_bind_bare (hr.type _ here)
        intro found next hfound
        cases found with
        | none => exact clean_report_bind
        | some argument =>
            apply clean_put_bind (hfound argument rfl).laid
            apply clean_bind_bare (clean_eat_bare (by decide))
            intro comma last _
            split
            · exact clean_pure ⟨rfl, trivial⟩
            · exact clean_pure ⟨rfl, trivial⟩
      · split
        · exact clean_expect_bare (by decide)
        · exact clean_bind_bare (clean_eat_bare (by decide)) fun _ _ _ => clean_pure ⟨rfl, trivial⟩
  · refine after_bump_bind hangle fun mid _ => after_bind after_eat ?_
    rintro empty front start rfl
    split
    · exact after_pure ⟨[], rfl⟩
    · refine after_bind (after_iterate (Q := fun complete last _ => complete = true → last = true)
        (fun complete here => ?_) true) fun complete parts stop hcomplete => ?_
      · refine after_bind (P := fun _ _ _ => True) (fun _ _ _ => trivial) fun found _ next _ => ?_
        cases found with
        | none => exact after_report_bind
        | some argument =>
            refine after_bind (P := fun _ _ _ => True) (fun _ _ _ => trivial) fun _ _ next _ => ?_
            refine after_bind (P := fun _ _ _ => True) (fun _ _ _ => trivial)
              fun comma _ last _ => ?_
            split
            · exact after_pure fun _ _ hlast _ => hlast rfl
            · exact after_pure fun _ => rfl
      · rw [hcomplete rfl, if_pos rfl]
        refine after_expect.mono ?_
        rintro _ back last rfl
        exact ⟨parts, rfl⟩

theorem clean_optionalTypeArguments (hr : Careful r) (allowed : Bool) :
    Clean (optionalTypeArguments r allowed) c (Bare fun _ _ => True) := by
  apply clean_look (a := nextKind c == some .lt) rfl
  split
  · rename_i h
    simp only [Bool.and_eq_true, beq_iff_eq] at h
    exact clean_found (clean_typeArguments hr h.2).laid
  · exact clean_pure ⟨rfl, trivial⟩

theorem clean_codeReference (hr : Careful r) (eatLastDot arguments : Bool)
    (hident : nextKind c = some .ident) : Tidies (codeReference r eatLastDot arguments) c := by
  apply clean_bind_bare (clean_node_bare (by decide) (clean_bump_bind_bare hident (by decide)
    fun mid _ => clean_optionalTypeArguments hr arguments))
  intro first mid hfirst
  apply clean_iterate_bare (I := Tidy) hfirst
  intro reference here hreference
  refine clean_ifAt (fun hdot => ?_) fun _ => clean_pure ⟨rfl, hreference⟩
  apply clean_look rfl
  split
  · rename_i hahead
    have hnext := beq_iff_eq.1 hahead
    apply clean_bind_bare (clean_around_bare (by decide) hreference (clean_bump_bind_bare hdot
      (by decide) fun next hmid => clean_bump_bind_bare (nextKind_of_tail hmid hnext) (by decide)
        fun _ _ => clean_optionalTypeArguments hr arguments))
    intro outline _ houtline
    exact clean_pure ⟨rfl, houtline⟩
  split
  · apply clean_bind_bare (clean_around_bare (by decide) hreference
      (clean_bump_bind_bare hdot (by decide) fun _ _ => clean_report))
    intro outline _ houtline
    exact clean_pure ⟨rfl, houtline⟩
  · exact clean_pure ⟨rfl, hreference⟩

theorem clean_wildcard (hr : Careful r) (hquestion : nextKind c = some .question) :
    Clean (wildcard r) c (Bare fun _ _ => True) := by
  apply clean_bump_bind_bare hquestion (by decide)
  intro mid _
  apply clean_look (a := nextKind mid == some .extendsKw) rfl
  apply clean_look (a := nextKind mid == some .superKw) rfl
  split
  · rename_i h
    simp only [Bool.or_eq_true, beq_iff_eq] at h
    rcases h with hextends | hsuper
    · exact clean_bump_bind_bare hextends (by decide) fun next _ => clean_orReport (hr.type _ next)
    · exact clean_bump_bind_bare hsuper (by decide) fun next _ => clean_orReport (hr.type _ next)
  · exact clean_pure ⟨rfl, trivial⟩

theorem clean_typeHead (hr : Careful r) (flags : TypeFlags) :
    Clean (typeHead r flags) c (Bare fun _ _ => True) := by
  apply clean_look (a := nextKind c) rfl
  cases hnext : nextKind c with
  | none => exact clean_pure ⟨rfl, trivial⟩
  | some kind =>
      dsimp only
      split
      · exact clean_bump_bind_bare hnext (ordinary_of_isPrimitiveType ‹_›) fun _ _ =>
          clean_pure ⟨rfl, trivial⟩
      split
      · rename_i hident
        rw [beq_iff_eq.1 hident] at hnext
        exact clean_found_bind (clean_codeReference hr _ _ hnext).laid fun _ =>
          clean_pure ⟨rfl, trivial⟩
      split
      · rename_i h
        simp only [Bool.and_eq_true, beq_iff_eq] at h
        rw [h.2] at hnext
        exact clean_bind_bare (clean_wildcard hr hnext) fun _ _ _ => clean_pure ⟨rfl, trivial⟩
      · exact clean_pure ⟨rfl, trivial⟩

theorem clean_typeSuffix (flags : TypeFlags) {base : Outline} (hbase : Tidy base) :
    Tidies (typeSuffix flags base) c := by
  refine clean_bind_bare (clean_iterate_bare (I := Tidy) (J := Tidy) hbase
    fun element here helement => ?_) fun array mid harray => ?_
  · apply clean_look (a := nextKind here == some .openBracket) rfl
    apply clean_look rfl
    split
    · rename_i h
      simp only [Bool.and_eq_true, beq_iff_eq] at h
      exact clean_bind_bare (clean_around (by decide) helement (clean_bump_bind h.1 (by decide)
        fun next hnext => clean_bump (nextKind_of_tail hnext h.2) (by decide) fun _ _ => rfl))
          fun outline _ houtline => clean_pure ⟨rfl, houtline⟩
    · exact clean_pure ⟨rfl, helement⟩
  · apply clean_look (a := nextKind mid == some .ellipsis) rfl
    split
    · rename_i h
      simp only [Bool.and_eq_true, beq_iff_eq] at h
      exact clean_around_bare (by decide) harray (clean_bump_bare h.2 (by decide))
    · exact clean_pure ⟨rfl, harray⟩

theorem clean_type (hr : Careful r) (flags : TypeFlags) : Offers (Grammar.type r flags) c := by
  apply clean_attempt
  refine clean_capture_bind (P := Bare fun _ _ => True) ?_ fun form parts mid hparts => ?_
  · refine clean_bind_bare (clean_repeatWhile_bare (P := fun _ _ => True) fun here => ?_)
      fun _ next _ => clean_typeHead hr flags
    apply clean_look (a := nextKind here == some .atSign) rfl
    apply clean_look rfl
    split
    · rename_i h
      simp only [Bool.and_eq_true, beq_iff_eq] at h
      exact clean_found_bind (hr.annot here h.1).laid fun _ => clean_pure ⟨rfl, trivial⟩
    · exact clean_pure ⟨rfl, trivial⟩
  · have hbase : Tidy (.node .type parts) := by
      refine tidy_node (by decide) nofun fun hclean => ?_
      obtain ⟨hneat, hbare, -⟩ := hparts hclean
      exact ⟨hneat, by rw [hbare]; rfl⟩
    cases form with
    | missing => exact clean_pure ⟨rfl, nofun⟩
    | wildcard => exact clean_pure ⟨rfl, fun _ h => Option.some.inj h ▸ hbase⟩
    | named => exact clean_some (clean_typeSuffix flags hbase)

theorem clean_annotValue (hr : Careful r) : Clean (annotValue r) c (Bare fun _ _ => True) := by
  apply clean_ifAt (fun hat => clean_found (hr.annot c hat).laid)
  intro _
  exact clean_ifAt (fun hbrace => clean_found (hr.arrayInitializer c hbrace).laid) fun _ =>
    clean_orReport (hr.expression c)

theorem clean_annotParameter (hr : Careful r) :
    Clean (annotParameter r) c (Bare fun _ _ => True) := by
  apply clean_look (a := nextKind c == some .ident) rfl
  apply clean_look rfl
  split
  · rename_i h
    simp only [Bool.and_eq_true, beq_iff_eq] at h
    refine clean_found (clean_node_bare (by decide) (clean_bump_bind_bare h.1 (by decide)
      fun mid hmid => ?_)).laid
    exact clean_bump_bind_bare (nextKind_of_tail hmid h.2) (by decide) fun _ _ =>
      clean_annotValue hr
  · exact clean_annotValue hr

theorem clean_annotParameters (hr : Careful r) (hopen : nextKind c = some .openParen) :
    Tidies (annotParameters r) c := by
  refine clean_node (by decide) (clean_bump_bind hopen (by decide) fun mid _ => ?_)
  apply clean_ifAt (fun _ => clean_close (by decide) (by decide))
  intro _
  refine clean_bind_bare (clean_repeatWhile_bare (P := fun _ _ => True) fun here => ?_)
    fun _ _ _ => clean_close (by decide) (by decide)
  exact clean_bind_bare (clean_annotParameter hr) fun _ _ _ => clean_eat_bare (by decide)

theorem clean_annot (hr : Careful r) (hat : nextKind c = some .atSign) :
    Tidies (Grammar.annot r) c := by
  have hparameters (mid : Cursor) :
      Clean (optionalAnnotParameters r) mid (Bare fun _ _ => True) :=
    clean_ifAt (fun hopen => clean_found (clean_annotParameters hr hopen).laid) fun _ =>
      clean_pure ⟨rfl, trivial⟩
  refine clean_node_bare (by decide) (clean_bump_bind_bare hat (by decide) fun mid _ => ?_)
  refine clean_ifAt (fun hident => ?_) fun _ => clean_report_bind
  exact clean_found_bind (clean_codeReference hr _ _ hident).laid fun next => hparameters next

theorem clean_modifierList (hr : Careful r) :
    Tidies (modifierList r .variableModifiers) c := by
  refine clean_node_bare (by decide) (clean_repeatWhile_bare (P := fun _ _ => True) fun here => ?_)
  apply clean_look (a := nextKind here) rfl
  cases hnext : nextKind here with
  | none => exact clean_pure ⟨rfl, trivial⟩
  | some kind =>
      dsimp only
      split
      · rename_i hallowed
        rw [TokenSet.contains_iff_mem] at hallowed
        rw [List.mem_singleton.1 hallowed] at hnext
        exact clean_bump_bind_bare hnext (by decide) fun _ _ => clean_pure ⟨rfl, trivial⟩
      apply clean_look rfl
      split
      · rename_i h
        simp only [Bool.and_eq_true, beq_iff_eq] at h
        rw [h.1] at hnext
        exact clean_found_bind (hr.annot here hnext).laid fun _ => clean_pure ⟨rfl, trivial⟩
      · exact clean_pure ⟨rfl, trivial⟩

theorem clean_component (hr : Careful r) (isFirst : Bool) :
    Clean (component r isFirst) c
      (Bare fun next _ => Keeps (fun _ => True) (fun _ => True) next) := by
  apply clean_look rfl
  split
  · exact clean_pure ⟨rfl, trivial⟩
  · apply clean_bind_bare clean_lookahead
    intro answer next _
    split
    · exact clean_found_bind (hr.pattern next) fun _ => clean_pure ⟨rfl, trivial⟩
    · exact clean_report_bind

theorem clean_recordStructure (hr : Careful r) (hopen : nextKind c = some .openParen) :
    Tidies (recordStructure r) c := by
  refine clean_node (by decide) (clean_bump_bind hopen (by decide) fun mid _ => ?_)
  refine clean_bind_bare (clean_iterate_bare (I := fun _ => True) (J := fun _ => True) trivial
    fun isFirst here _ => ?_) fun _ _ _ => clean_close (by decide) (by decide)
  apply clean_ifAt (fun _ => clean_pure ⟨rfl, trivial⟩)
  intro _
  dsimp only
  split
  · exact clean_component hr isFirst
  · exact clean_bind_bare (clean_expect_bare (by decide)) fun _ _ _ => clean_component hr isFirst

theorem clean_recordName : Clean recordName c (Bare fun _ _ => True) :=
  clean_ifAt (fun hident => clean_found (clean_node_bare (by decide)
    (clean_bump_bare hident (by decide))).laid) fun _ => clean_pure ⟨rfl, trivial⟩

theorem clean_typeOrRecordPattern (hr : Careful r) : Tidies (typeOrRecordPattern r) c := by
  apply clean_bind_bare (clean_modifierList hr)
  intro modifiers mid hmodifiers
  apply clean_bind_bare (hr.type .pattern mid)
  intro found stop hfound
  cases found with
  | none => exact clean_fail
  | some type =>
      have htype := hfound type rfl
      refine clean_ifAt (fun hopen => ?_) fun _ => clean_ifAt (fun hident => ?_) fun _ => clean_fail
      · refine clean_capture_bind (P := Bare fun _ _ => True) ?_ fun _ parts last hparts => ?_
        · refine clean_put_bind hmodifiers.laid (clean_put_bind htype.laid ?_)
          exact clean_found_bind (clean_recordStructure hr hopen).laid fun _ => clean_recordName
        · refine clean_pure ⟨rfl, tidy_node (by decide) (fun h => absurd h (by decide))
            fun hclean => ?_⟩
          obtain ⟨hneat, hbare, -⟩ := hparts (by
            simpa [Outline.hasErrorAll, Outline.hasError] using hclean)
          exact ⟨⟨hneat, trivial⟩, by rw [brackets_loose, hbare]; rfl⟩
      · apply clean_bind_bare (clean_node_bare (by decide) (clean_put_bind hmodifiers.laid
          (clean_put_bind htype.laid (clean_bump_bare hident (by decide)))))
        intro declared last hdeclared
        refine clean_pure ⟨rfl, tidy_node (by decide) (fun h => absurd h (by decide))
          fun hclean => ?_⟩
        rw [Outline.hasErrorAll, Bool.or_eq_false_iff] at hclean
        exact ⟨⟨hdeclared.2 hclean.1, trivial⟩, by rw [hdeclared.laid.brackets_eq]; rfl⟩

theorem clean_primaryPattern (hr : Careful r) : Tidies (primaryPattern r) c := by
  refine clean_ifAt (fun hopen => ?_) fun _ => clean_typeOrRecordPattern hr
  refine clean_node (by decide) (clean_bump_bind hopen (by decide) fun mid _ => ?_)
  exact clean_found_bind (hr.pattern mid) fun _ => clean_close (by decide) (by decide)

theorem clean_pattern (hr : Careful r) :
    Clean (Grammar.pattern r) c (Bare fun outline _ => Laid outline) := by
  apply clean_bind_bare (clean_primaryPattern hr)
  intro primary mid hprimary
  refine clean_ifAt (fun hguard => ?_) fun _ => clean_pure ⟨rfl, ?_⟩
  · refine (clean_node_bare (by decide) (clean_put_bind hprimary.laid ?_)).laid
    exact clean_bump_bind_bare hguard (by decide) fun next _ => clean_orReport (hr.binary _ _ next)
  · refine ⟨.inr ⟨primary, rfl, hprimary.1⟩, fun hclean => ?_⟩
    rw [Outline.hasError, Outline.hasErrorAll, Bool.or_eq_false_iff] at hclean
    exact ⟨hprimary.2 hclean.1, trivial⟩

end PatternSyntax.Proofs.CleanRules
