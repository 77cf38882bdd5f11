import PatternSyntax.Proofs.Spelling

/-!
A scanner looks at characters behind the token that it takes. If they are cut off, it takes the same
token: what made the token end there was not in its way.
-/

namespace PatternSyntax.Proofs.Lookahead

open PatternSyntax.Proofs.Spelling
open Text
open Token

/-- What follows the characters that the scanner takes can be cut off. -/
def Detaches (scanner : List Char → TokenKind × List Char) : Prop :=
  ∀ cs s kind, scanner (cs ++ s) = (kind, s) → scanner cs = (kind, [])

theorem eq_nil_of_append_suffix {front s : List Char} (h : front ++ s <:+ s) : front = [] := by
  have hlength := h.length_le
  simp only [List.length_append] at hlength
  exact List.eq_nil_of_length_eq_zero (by omega)

theorem cons_append_ne {c : Char} {cs s : List Char} : c :: (cs ++ s) ≠ s := by
  intro h
  have hnil : c :: cs = [] := eq_nil_of_append_suffix ⟨[], h⟩
  cases hnil

theorem dropWhile_of_append {p : Char → Bool} {cs s mid : List Char}
    (h : (cs ++ s).dropWhile p = mid ++ s) : cs.dropWhile p = mid := by
  rw [List.dropWhile_append] at h
  split at h
  · rename_i hempty
    have hmid : mid = [] := eq_nil_of_append_suffix (h ▸ List.dropWhile_suffix p)
    rw [hmid, List.isEmpty_iff.1 hempty]
  · exact List.append_cancel_right h

theorem dropSign_of_append {cs s mid : List Char} (h : dropSign (cs ++ s) = mid ++ s) :
    dropSign cs = mid := by
  rcases cs with _ | ⟨c, cs⟩
  · rw [List.nil_append] at h
    have hmid : mid = [] := eq_nil_of_append_suffix (h ▸ dropSign_suffix s)
    rw [hmid]
    rfl
  · rw [List.cons_append] at h
    unfold dropSign at h ⊢
    split at h
    · simp_all
    · simp_all
    · rw [← List.cons_append, List.append_cancel_right_eq] at h
      subst h
      split
      all_goals simp_all

theorem dropExponent_of_append {cs s mid : List Char} (h : dropExponent (cs ++ s) = mid ++ s) :
    dropExponent cs = mid := by
  have digits {cs : List Char} (h : (dropSign (cs ++ s)).dropWhile isDigitPart = mid ++ s) :
      (dropSign cs).dropWhile isDigitPart = mid := by
    obtain ⟨front, hfront⟩ : s <:+ dropSign (cs ++ s) :=
      (List.suffix_append mid s).trans (h ▸ List.dropWhile_suffix _)
    rw [dropSign_of_append hfront.symm]
    rw [← hfront] at h
    exact dropWhile_of_append h
  rcases cs with _ | ⟨c, cs⟩
  · rw [List.nil_append] at h
    have hmid : mid = [] := eq_nil_of_append_suffix (h ▸ dropExponent_suffix s)
    rw [hmid]
    rfl
  · rw [List.cons_append] at h
    unfold dropExponent at h ⊢
    split at h
    · simp_all
    · simp_all
    · rw [← List.cons_append, List.append_cancel_right_eq] at h
      subst h
      split
      all_goals simp_all

theorem detaches_scanIntegerSuffix : Detaches scanIntegerSuffix := by
  intro cs s kind h
  rcases cs with _ | ⟨c, cs⟩
  · unfold scanIntegerSuffix at h
    split at h
    all_goals simp_all [scanIntegerSuffix]
  · rw [List.cons_append] at h
    unfold scanIntegerSuffix at h ⊢
    split at h
    all_goals simp_all [cons_append_ne]

theorem detaches_scanFloatSuffix : Detaches scanFloatSuffix := by
  intro cs s kind h
  rcases cs with _ | ⟨c, cs⟩
  · unfold scanFloatSuffix at h
    split at h
    all_goals simp_all [scanFloatSuffix]
  · rw [List.cons_append] at h
    unfold scanFloatSuffix at h ⊢
    split at h
    all_goals simp_all [cons_append_ne]

theorem detaches_scanFloatTail : Detaches scanFloatTail := by
  intro cs s kind h
  unfold scanFloatTail at h ⊢
  obtain ⟨mid, hmid⟩ : s <:+ dropExponent (cs ++ s) := by
    simpa [h] using scanFloatSuffix_suffix (dropExponent (cs ++ s))
  rw [dropExponent_of_append hmid.symm]
  rw [← hmid] at h
  exact detaches_scanFloatSuffix mid s kind h

theorem Detaches.dropWhile {scanner : List Char → TokenKind × List Char} {p : Char → Bool}
    (hdetaches : Detaches scanner) (hsuffix : ∀ cs, (scanner cs).2 <:+ cs) :
    Detaches fun cs => scanner (cs.dropWhile p) := by
  intro cs s kind h
  obtain ⟨mid, hmid⟩ : s <:+ (cs ++ s).dropWhile p := by
    simpa [h] using hsuffix ((cs ++ s).dropWhile p)
  dsimp only at h ⊢
  rw [dropWhile_of_append hmid.symm]
  rw [← hmid] at h
  exact hdetaches mid s kind h

theorem not_cons_suffix {c : Char} {s : List Char} : ¬c :: s <:+ s := by
  intro h
  have hlength := h.length_le
  simp only [List.length_cons] at hlength
  omega

theorem scanFloatTail_of_isFloatMark {c : Char} (hc : isFloatMark c = true) (cs : List Char) :
    (scanFloatTail (c :: cs)).2 <:+ cs := by
  have digits : (scanFloatSuffix ((dropSign cs).dropWhile isDigitPart)).2 <:+ cs :=
    ((scanFloatSuffix_suffix _).trans (List.dropWhile_suffix _)).trans (dropSign_suffix cs)
  simp only [isFloatMark, Bool.or_eq_true, beq_iff_eq] at hc
  rcases hc with ((((rfl | rfl) | rfl) | rfl) | rfl) | rfl
  · exact digits
  · exact digits
  all_goals exact List.suffix_refl cs

theorem scanFloatTail_ne_of_isDigit {s : List Char} {kind : TokenKind}
    (hdigit : s.head?.any isDigit = true) :
    scanFloatTail (s.dropWhile isDigitPart) ≠ (kind, s) := by
  intro h
  rcases s with _ | ⟨d, s⟩
  · cases hdigit
  · have hpart : isDigitPart d = true := by
      simp_all [isDigitPart]
    have hsuffix := scanFloatTail_suffix ((d :: s).dropWhile isDigitPart)
    rw [h, List.dropWhile_cons_of_pos hpart] at hsuffix
    exact not_cons_suffix (hsuffix.trans (List.dropWhile_suffix _))

/-- The digits of a number are not the whole number if a dot or a letter goes on with it. -/
theorem kind_of_scanDecimalTail {s : List Char} {kind : TokenKind}
    (h : scanDecimalTail s = (kind, s)) : kind = .intLiteral := by
  unfold scanDecimalTail at h
  split at h
  · rename_i rest
    have hdot (cs : List Char) (hcs : cs <:+ rest) : scanFloatTail cs ≠ (kind, '.' :: rest) := by
      intro hscan
      have hsuffix := scanFloatTail_suffix cs
      rw [hscan] at hsuffix
      exact not_cons_suffix (hsuffix.trans hcs)
    split at h
    · exact (Prod.mk.inj h).1.symm
    split at h
    · exact absurd h (hdot _ (List.dropWhile_suffix _))
    · exact absurd h (hdot _ (List.suffix_refl _))
  · split at h
    · rename_i hmark
      rcases s with _ | ⟨c, s⟩
      · cases hmark
      · have hsuffix := scanFloatTail_of_isFloatMark (c := c) (by simpa using hmark) s
        rw [h] at hsuffix
        exact absurd hsuffix not_cons_suffix
    · exact (Prod.mk.inj (detaches_scanIntegerSuffix [] s kind h)).1.symm

theorem detaches_scanDecimalTail : Detaches scanDecimalTail := by
  intro cs s kind h
  rcases cs with _ | ⟨c, cs⟩
  · rw [kind_of_scanDecimalTail h]
    rfl
  by_cases hdot : c = '.'
  · subst hdot
    rw [List.cons_append, scanDecimalTail] at h
    rw [scanDecimalTail]
    split at h
    · exact absurd (Prod.mk.inj h).2 cons_append_ne
    rcases cs with _ | ⟨d, cs⟩
    · split at h
      · exact absurd h (scanFloatTail_ne_of_isDigit ‹_›)
      · exact detaches_scanFloatTail [] s kind h
    · rw [List.cons_append, List.head?_cons] at *
      rw [if_neg ‹_›]
      split at h
      · rw [if_pos ‹_›]
        exact detaches_scanFloatTail.dropWhile scanFloatTail_suffix (d :: cs) s kind h
      · rw [if_neg ‹_›]
        exact detaches_scanFloatTail (d :: cs) s kind h
  · have hne (rest : List Char) : ∀ later, c :: rest = '.' :: later → False :=
      fun later heq => hdot (List.cons.inj heq).1
    rw [List.cons_append, scanDecimalTail.eq_2 _ (hne _), List.head?_cons] at h
    rw [scanDecimalTail.eq_2 _ (hne _), List.head?_cons]
    split at h
    · rw [if_pos ‹_›]
      exact detaches_scanFloatTail (c :: cs) s kind h
    · rw [if_neg ‹_›]
      exact detaches_scanIntegerSuffix (c :: cs) s kind h

theorem detaches_scanNumber (first : Char) : Detaches (scanNumber first) := by
  have plain := detaches_scanDecimalTail.dropWhile (p := isDigitPart) scanDecimalTail_suffix
  have based (p : Char → Bool) :=
    detaches_scanIntegerSuffix.dropWhile (p := p) scanIntegerSuffix_suffix
  intro cs s kind h
  unfold scanNumber at h ⊢
  split at h
  · rw [if_pos ‹_›]
    fun_cases scanZero cs with
    | case1 rest => exact based isDigitPart rest s kind h
    | case2 rest => exact based isDigitPart rest s kind h
    | case3 rest => exact based isHexDigitPart rest s kind h
    | case4 rest => exact based isHexDigitPart rest s kind h
    | case5 =>
        rename_i h1 h2 h3 h4
        rcases cs with _ | ⟨c, cs⟩
        · have hbased (p : Char → Bool) (c : Char) (rest : List Char) :
              scanIntegerSuffix (rest.dropWhile p) ≠ (kind, c :: rest) := by
            intro hscan
            have hsuffix := scanIntegerSuffix_suffix (rest.dropWhile p)
            rw [hscan] at hsuffix
            exact not_cons_suffix (hsuffix.trans (List.dropWhile_suffix _))
          rw [List.nil_append] at h
          unfold scanZero at h
          split at h
          · exact absurd h (hbased _ _ _)
          · exact absurd h (hbased _ _ _)
          · exact absurd h (hbased _ _ _)
          · exact absurd h (hbased _ _ _)
          · exact plain [] s kind h
        · have hne {d : Char} (hcs : ∀ rest, c :: cs = d :: rest → False) :
              ∀ rest, c :: (cs ++ s) = d :: rest → False :=
            fun rest heq => hcs cs (by rw [(List.cons.inj heq).1])
          rw [List.cons_append, scanZero.eq_5 _ (hne h1) (hne h2) (hne h3) (hne h4)] at h
          exact plain (c :: cs) s kind h
  · rw [if_neg ‹_›]
    exact plain cs s kind h

theorem length_lt_of_scanQuoted {quote : Char} {cs rest : List Char}
    (h : scanQuoted quote cs = .ok rest) : rest.length < cs.length := by
  fun_induction scanQuoted quote cs with
  | case1 => cases h
  | case2 => cases h
  | case3 escaped cs hescaped ih =>
      have := ih h
      simp only [List.length_cons]
      omega
  | case4 => cases h
  | case5 c cs =>
      cases h
      simp
  | case6 c cs hpair hend hclose ih =>
      have := ih h
      simp only [List.length_cons]
      omega

theorem length_lt_of_scanTextBlock {cs rest : List Char} (h : scanTextBlock cs = some rest) :
    rest.length + 2 < cs.length := by
  fun_induction scanTextBlock cs with
  | case1 => cases h
  | case2 c cs ih =>
      have := ih h
      simp only [List.length_cons]
      omega
  | case3 cs =>
      cases h
      simp
  | case4 c cs _ _ ih =>
      have := ih h
      simp only [List.length_cons]
      omega

theorem length_lt_of_scanComment {cs rest : List Char} (h : scanComment cs = some rest) :
    rest.length + 1 < cs.length := by
  fun_induction scanComment cs with
  | case1 => cases h
  | case2 cs =>
      cases h
      simp
  | case3 c cs _ ih =>
      have := ih h
      simp only [List.length_cons]
      omega

theorem scanComment_of_append {cs s : List Char} (h : scanComment (cs ++ s) = some s) :
    scanComment cs = some [] := by
  have hlength := length_lt_of_scanComment h
  fun_induction scanComment cs with
  | case1 =>
      rw [List.nil_append] at hlength
      omega
  | case2 cs =>
      have hcs : cs ++ s = s := Option.some.inj h
      rw [List.append_left_eq_self.1 hcs]
  | case3 c cs hclose ih =>
      rcases cs with _ | ⟨d, cs⟩
      · simp at hlength
      · rw [List.cons_append, scanComment.eq_3 _ _ fun _ hc hd => ?_] at h
        · exact ih h (length_lt_of_scanComment h)
        · cases hd
          exact hclose _ hc rfl

theorem scanTextBlock_of_append {cs s : List Char} (h : scanTextBlock (cs ++ s) = some s) :
    scanTextBlock cs = some [] := by
  have hlength := length_lt_of_scanTextBlock h
  fun_induction scanTextBlock cs with
  | case1 =>
      rw [List.nil_append] at hlength
      omega
  | case2 c cs ih => exact ih h (length_lt_of_scanTextBlock h)
  | case3 cs =>
      have hcs : cs ++ s = s := Option.some.inj h
      rw [List.append_left_eq_self.1 hcs]
  | case4 c cs hescape hclose ih =>
      rcases cs with _ | ⟨d, _ | ⟨e, cs⟩⟩
      · simp at hlength
      · simp at hlength
      · rw [List.cons_append, scanTextBlock.eq_4 _ _ (fun _ _ heq _ => hescape _ _ heq rfl)
          fun _ heq htail => ?_] at h
        · exact ih h (length_lt_of_scanTextBlock h)
        · cases htail
          exact hclose _ heq rfl

theorem scanQuoted_of_append {quote : Char} (hquote : quote ≠ '\\') (cs s : List Char) :
    (scanQuoted quote (cs ++ s) = .ok s → scanQuoted quote cs = .ok []) ∧
      (scanQuoted quote (cs ++ s) = .error s → scanQuoted quote cs = .error []) := by
  fun_induction scanQuoted quote cs with
  | case1 => exact ⟨fun h => absurd (length_lt_of_scanQuoted h) (Nat.lt_irrefl _), fun _ => rfl⟩
  | case2 escaped cs hescaped =>
      rw [List.cons_append, List.cons_append, scanQuoted, if_pos hescaped]
      constructor
      · intro h
        cases h
      · intro h
        exact absurd (Except.error.inj h) cons_append_ne
  | case3 escaped cs hescaped ih =>
      rw [List.cons_append, List.cons_append, scanQuoted, if_neg hescaped]
      exact ih
  | case4 c cs hpair hend =>
      have hc : c ≠ '\\' := by
        rintro rfl
        cases hend
      rw [List.cons_append, scanQuoted.eq_3 _ _ _ fun _ _ heq => absurd heq hc, if_pos hend]
      constructor
      · intro h
        cases h
      · intro h
        exact absurd (Except.error.inj h) cons_append_ne
  | case5 c cs hpair hend hclose =>
      have hc : c ≠ '\\' := fun heq => hquote (by rw [← beq_iff_eq.1 hclose, heq])
      rw [List.cons_append, scanQuoted.eq_3 _ _ _ fun _ _ heq => absurd heq hc, if_neg hend,
        if_pos hclose]
      constructor
      · intro h
        exact congrArg _ (List.append_left_eq_self.1 (Except.ok.inj h))
      · intro h
        cases h
  | case6 c cs hpair hend hclose ih =>
      rcases cs with _ | ⟨d, cs⟩
      · refine ⟨fun h => ?_, fun _ => rfl⟩
        -- A literal that begins with the last character does not end before what follows.
        have hshort (rest : List Char) (hrest : rest <:+ s) : scanQuoted quote rest ≠ .ok s :=
          fun hscan => absurd (length_lt_of_scanQuoted hscan) (Nat.not_lt.2 hrest.length_le)
        rw [List.cons_append, List.nil_append] at h
        unfold scanQuoted at h
        split at h
        · cases h
        · rename_i escaped rest heq
          obtain ⟨-, rfl⟩ := List.cons.inj heq
          split at h
          · cases h
          · exact absurd h (hshort rest (List.suffix_cons _ _))
        · rename_i heq
          obtain ⟨rfl, rfl⟩ := List.cons.inj heq
          rw [if_neg hend, if_neg hclose] at h
          exact absurd h (hshort _ (List.suffix_refl _))
      · have hc : c ≠ '\\' := fun heq => hpair _ _ heq rfl
        rw [List.cons_append, scanQuoted.eq_3 _ _ _ fun _ _ heq => absurd heq hc, if_neg hend,
          if_neg hclose]
        exact ih

theorem detaches_scanLiteral (kind : TokenKind) {quote : Char} (hquote : quote ≠ '\\') :
    Detaches (scanLiteral kind quote) := by
  intro cs s found h
  have hquoted := scanQuoted_of_append hquote cs s
  unfold scanLiteral at h ⊢
  cases hscan : scanQuoted quote (cs ++ s) with
  | error rest =>
      rw [hscan] at h
      obtain ⟨rfl, rfl⟩ := Prod.mk.inj h
      rw [hquoted.2 hscan]
  | ok rest =>
      rw [hscan] at h
      obtain ⟨rfl, rfl⟩ := Prod.mk.inj h
      rw [hquoted.1 hscan]

theorem detaches_scanString : Detaches scanString := by
  intro cs s kind h
  by_cases hs : s = []
  · subst hs
    rwa [List.append_nil] at h
  have hblock {rest : List Char} (hscan : scanString ('"' :: '"' :: rest) = (kind, s)) :
      kind = .stringLiteral ∧ scanTextBlock rest = some s := by
    rw [scanString] at hscan
    split at hscan
    · obtain ⟨rfl, rfl⟩ := Prod.mk.inj hscan
      exact ⟨rfl, ‹_›⟩
    · exact absurd (Prod.mk.inj hscan).2.symm hs
  by_cases hopen : ∃ rest, cs ++ s = '"' :: '"' :: rest
  · obtain ⟨rest, hrest⟩ := hopen
    rw [hrest] at h
    obtain ⟨rfl, hclose⟩ := hblock h
    have hlength := length_lt_of_scanTextBlock hclose
    have htotal := congrArg List.length hrest
    rcases cs with _ | ⟨c, _ | ⟨d, cs⟩⟩
    · simp only [List.nil_append, List.length_cons] at htotal
      omega
    · simp only [List.cons_append, List.nil_append, List.length_cons] at htotal
      omega
    · simp only [List.cons_append, List.cons.injEq] at hrest
      obtain ⟨rfl, rfl, rfl⟩ := hrest
      rw [scanString, scanTextBlock_of_append hclose]
  · have hopen' : ∀ rest, cs = '"' :: '"' :: rest → False := by
      rintro rest rfl
      exact hopen ⟨rest ++ s, rfl⟩
    rw [scanString.eq_2 _ fun rest heq => hopen ⟨rest, heq⟩] at h
    rw [scanString.eq_2 _ hopen']
    exact detaches_scanLiteral _ (by decide) cs s kind h

theorem detaches_scanSymbol (first : Char) : Detaches (scanSymbol first) := by
  intro cs s kind h
  by_cases hs : s = []
  · subst hs
    rwa [List.append_nil] at h
  have hnone (heq : cs ++ s = s) : cs = [] := List.append_left_eq_self.1 heq
  have hone {c : Char} (heq : cs ++ s = c :: s) : cs = [c] := List.append_cancel_right heq
  have htwo {c d : Char} (heq : cs ++ s = c :: d :: s) : cs = [c, d] :=
    List.append_cancel_right heq
  unfold scanSymbol at h
  split at h
  case h_5 hellipsis =>
    rw [scanSymbol.eq_5 _ fun rest heq => hellipsis (rest ++ s) (by rw [heq]; rfl)]
    split at h
    · rcases cs with _ | ⟨c, cs⟩
      · exact absurd h (scanFloatTail_ne_of_isDigit ‹_›)
      · rw [if_pos (by simpa using ‹_›)]
        exact detaches_scanFloatTail.dropWhile scanFloatTail_suffix (c :: cs) s kind h
    · obtain ⟨rfl, hrest⟩ := Prod.mk.inj h
      rw [hnone hrest]
      rfl
  case h_21 rest heq =>
    obtain ⟨rfl, hdrop⟩ := Prod.mk.inj h
    rcases cs with _ | ⟨c, cs⟩
    · rw [List.nil_append] at heq
      have hsuffix := List.dropWhile_suffix (l := rest) (· != '\n')
      rw [hdrop, heq] at hsuffix
      exact absurd hsuffix not_cons_suffix
    · obtain ⟨rfl, rfl⟩ := List.cons.inj heq
      have hdropped : cs.dropWhile (· != '\n') = [] := dropWhile_of_append hdrop
      rw [scanSymbol, hdropped]
  case h_22 rest heq =>
    split at h
    · obtain ⟨rfl, rfl⟩ := Prod.mk.inj h
      have hclose := ‹scanComment _ = _›
      rcases cs with _ | ⟨c, cs⟩
      · rw [List.nil_append] at heq
        have hlength := length_lt_of_scanComment hclose
        have htotal := congrArg List.length heq
        simp only [List.length_cons] at htotal
        omega
      · obtain ⟨rfl, rfl⟩ := List.cons.inj heq
        rw [scanSymbol, scanComment_of_append hclose]
    · exact absurd (Prod.mk.inj h).2.symm hs
  case h_39 =>
    obtain ⟨rfl, hrest⟩ := Prod.mk.inj h
    rw [hnone hrest]
    unfold scanSymbol
    split
    all_goals first | rfl | contradiction
  -- A symbol of one character, of two, and of three.
  all_goals
    obtain ⟨rfl, hrest⟩ := Prod.mk.inj h
    first
    | obtain rfl := hnone hrest
      rfl
    | subst hrest
      obtain rfl := hone ‹_›
      rfl
    | subst hrest
      obtain rfl := htwo ‹_›
      rfl

theorem scan_of_append {first : Char} {cs s : List Char} {kind : TokenKind}
    (h : scan first (cs ++ s) = (kind, s)) : scan first cs = (kind, []) := by
  -- The branches are those of the scanner, and none of them depends on what follows the token.
  unfold scan at h ⊢
  split at h
  · rw [if_pos ‹_›]
    obtain ⟨rfl, hdrop⟩ := Prod.mk.inj h
    have hdropped : cs.dropWhile isBlank = [] := dropWhile_of_append hdrop
    rw [hdropped]
  rw [if_neg ‹_›]
  split at h
  · rw [if_pos ‹_›]
    obtain ⟨rfl, hdrop⟩ := Prod.mk.inj h
    have htake : (cs ++ s).takeWhile isIdentPart = cs := by
      have happend := List.takeWhile_append_dropWhile (p := isIdentPart) (l := cs ++ s)
      rw [hdrop] at happend
      exact List.append_cancel_right happend
    have hdropped : cs.dropWhile isIdentPart = [] := dropWhile_of_append hdrop
    have hword := List.takeWhile_append_dropWhile (p := isIdentPart) (l := cs)
    rw [hdropped, List.append_nil] at hword
    rw [htake, hdropped, hword]
  rw [if_neg ‹_›]
  split at h
  · rw [if_pos ‹_›]
    exact detaches_scanNumber first cs s kind h
  rw [if_neg ‹_›]
  split at h
  · rw [if_pos ‹_›]
    exact detaches_scanString cs s kind h
  rw [if_neg ‹_›]
  split at h
  · rw [if_pos ‹_›]
    exact detaches_scanLiteral _ (by decide) cs s kind h
  · rw [if_neg ‹_›]
    exact detaches_scanSymbol first cs s kind h

theorem exists_scan_of_mem_lexemes {cs : List Char} {piece : TokenKind × List Char}
    (hmem : piece ∈ lexemes cs) :
    ∃ first word, piece.2 = first :: word ∧ scan first word = (piece.1, []) := by
  fun_induction lexemes cs with
  | case1 => cases hmem
  | case2 first rest ih =>
      rcases List.mem_cons.1 hmem with rfl | hmem
      · have happend := lexeme_append_scan first rest
        obtain ⟨word, hword⟩ := scan_suffix first rest
        have hlexeme : lexeme first rest = first :: word := by
          rw [← hword, ← List.cons_append] at happend
          exact List.append_cancel_right (hword ▸ happend)
        refine ⟨first, word, hlexeme, scan_of_append (s := (scan first rest).2) ?_⟩
        rw [hword]
      · exact ih hmem

theorem lexemes_of_mem {cs : List Char} {piece : TokenKind × List Char}
    (hmem : piece ∈ lexemes cs) : lexemes piece.2 = [piece] := by
  obtain ⟨first, word, hword, hscan⟩ := exists_scan_of_mem_lexemes hmem
  rw [hword, lexemes_of_scan hscan, ← hword]

end PatternSyntax.Proofs.Lookahead
