import Mathlib.Order.Bounds.Image
import PatternSyntax.Proofs.Spelling

/-!
Comments and quoted literals end at the first delimiter that closes them. What a scanner finds is
compared with places in the text: the first one with a property, or that there is none.
-/

namespace PatternSyntax.Proofs.Delimiters

open PatternSyntax.Proofs.Spelling
open Text
open Token

/-- Whether the character at a place is escaped: a backslash that is not escaped itself stands
before it. -/
def Escaped (cs : List Char) : Nat → Prop
  | 0 => False
  | i + 1 => cs[i]? = some '\\' ∧ ¬Escaped cs i

def newlines (cs : List Char) : Set Nat :=
  {i | cs[i]? = some '\n'}

/-- The places of `\n` and `\r` in a text. -/
def lineEnds (cs : List Char) : Set Nat :=
  {i | cs[i]? = some '\n' ∨ cs[i]? = some '\r'}

def commentEnds (cs : List Char) : Set Nat :=
  {i | ['*', '/'] <+: cs.drop i}

/-- The places of a quote that is not escaped. -/
def quoteEnds (quote : Char) (cs : List Char) : Set Nat :=
  {i | cs[i]? = some quote ∧ ¬Escaped cs i}

/-- The places of three double quotes none of which is escaped. -/
def blockEnds (cs : List Char) : Set Nat :=
  {i | ['"', '"', '"'] <+: cs.drop i ∧ ¬Escaped cs i ∧ ¬Escaped cs (i + 1) ∧ ¬Escaped cs (i + 2)}

theorem eq_image_add {P Q : Set Nat} {k : Nat} (hP : ∀ i < k, i ∉ P)
    (hPQ : ∀ i, i + k ∈ P ↔ i ∈ Q) : P = (· + k) '' Q := by
  ext i
  constructor
  · intro hi
    have hle : k ≤ i := by
      by_contra hlt
      exact hP i (by omega) hi
    refine ⟨i - k, (hPQ _).1 ?_, Nat.sub_add_cancel hle⟩
    rwa [Nat.sub_add_cancel hle]
  · rintro ⟨i, hi, rfl⟩
    exact (hPQ i).2 hi

theorem isLeast_image_add {Q : Set Nat} {i : Nat} (h : IsLeast Q i) (k : Nat) :
    IsLeast ((· + k) '' Q) (i + k) :=
  Monotone.map_isLeast (fun _ _ hle => Nat.add_le_add_right hle k) h

theorem isLeast_zero {P : Set Nat} (h : 0 ∈ P) : IsLeast P 0 :=
  ⟨h, fun i _ => Nat.zero_le i⟩

theorem escaped_cons {c : Char} (hc : c ≠ '\\') (cs : List Char) (i : Nat) :
    Escaped (c :: cs) (i + 1) ↔ Escaped cs i := by
  induction i with
  | zero => simp [Escaped, hc]
  | succ i ih => rw [Escaped, ih, Escaped, List.getElem?_cons_succ]

theorem escaped_pair (c : Char) (cs : List Char) (i : Nat) :
    Escaped ('\\' :: c :: cs) (i + 2) ↔ Escaped cs i := by
  induction i with
  | zero => simp [Escaped]
  | succ i ih => rw [Escaped, ih, Escaped, List.getElem?_cons_succ, List.getElem?_cons_succ]

theorem escaped_one (cs : List Char) : Escaped ('\\' :: cs) 1 := by
  simp [Escaped]

theorem newlines_cons {c : Char} (hc : c ≠ '\n') (cs : List Char) :
    newlines (c :: cs) = (· + 1) '' newlines cs := by
  refine eq_image_add ?_ fun i => by simp [newlines]
  simp [newlines, hc]

theorem commentEnds_cons {c : Char} {cs : List Char} (h : ¬['*', '/'] <+: c :: cs) :
    commentEnds (c :: cs) = (· + 1) '' commentEnds cs := by
  refine eq_image_add ?_ fun i => by simp [commentEnds]
  simpa [commentEnds] using h

theorem lineEnds_cons {c : Char} (hc : isLineEnd c = false) (cs : List Char) :
    lineEnds (c :: cs) = (· + 1) '' lineEnds cs := by
  refine eq_image_add ?_ fun i => by simp [lineEnds]
  simpa [lineEnds, isLineEnd] using hc

theorem quoteEnds_cons {c quote : Char} (hc : c ≠ '\\') (hquote : c ≠ quote) (cs : List Char) :
    quoteEnds quote (c :: cs) = (· + 1) '' quoteEnds quote cs := by
  refine eq_image_add ?_ fun i => by simp [quoteEnds, escaped_cons hc]
  simp [quoteEnds, hquote]

theorem quoteEnds_pair {quote : Char} (hquote : quote ≠ '\\') (c : Char) (cs : List Char) :
    quoteEnds quote ('\\' :: c :: cs) = (· + 2) '' quoteEnds quote cs := by
  refine eq_image_add ?_ fun i => by simp [quoteEnds, escaped_pair]
  intro i hi hmem
  match i, hi with
  | 0, _ => simp [quoteEnds, hquote.symm] at hmem
  | 1, _ => exact hmem.2 (escaped_one _)

theorem blockEnds_cons {c : Char} {cs : List Char} (hc : c ≠ '\\')
    (h : ¬['"', '"', '"'] <+: c :: cs) : blockEnds (c :: cs) = (· + 1) '' blockEnds cs := by
  refine eq_image_add ?_ fun i => ?_
  · intro i hi hmem
    rw [Nat.lt_one_iff.1 hi] at hmem
    exact h hmem.1
  · simp only [blockEnds, Set.mem_ofPred_eq, List.drop_succ_cons, escaped_cons hc]

theorem blockEnds_pair (c : Char) (cs : List Char) :
    blockEnds ('\\' :: c :: cs) = (· + 2) '' blockEnds cs := by
  refine eq_image_add ?_ fun i => ?_
  · intro i hi hmem
    match i, hi with
    | 0, _ => simp [blockEnds] at hmem
    | 1, _ => exact hmem.2.1 (escaped_one _)
  · simp only [blockEnds, Set.mem_ofPred_eq, List.drop_succ_cons, Nat.add_right_comm i 2,
      escaped_pair]

/-- Where a comment or a text block ends: so many characters behind its first end, or nowhere. -/
def EndsAtFirst (ends : Set Nat) (width : Nat) (cs : List Char) : Option (List Char) → Prop
  | some rest => ∃ i, IsLeast ends i ∧ rest = cs.drop (i + width)
  | none => ends = ∅

namespace EndsAtFirst

variable {ends : Set Nat} {width k : Nat} {cs later : List Char} {found : Option (List Char)}

theorem at_front (h : 0 ∈ ends) : EndsAtFirst ends width cs (some (cs.drop width)) :=
  ⟨0, isLeast_zero h, by rw [Nat.zero_add]⟩

theorem of_image (h : EndsAtFirst ends width later found) (hlater : cs.drop k = later) :
    EndsAtFirst ((· + k) '' ends) width cs found := by
  cases found with
  | none => exact (congrArg _ h).trans (Set.image_empty _)
  | some rest =>
      obtain ⟨i, hleast, rfl⟩ := h
      refine ⟨i + k, isLeast_image_add hleast k, ?_⟩
      rw [← hlater, List.drop_drop, Nat.add_right_comm i k, Nat.add_comm k]

theorem of_drop (h : EndsAtFirst ends width later found) (hlater : cs.drop k = later) :
    EndsAtFirst ends (width + k) cs found := by
  cases found with
  | none => exact h
  | some rest =>
      obtain ⟨i, hleast, rfl⟩ := h
      refine ⟨i, hleast, ?_⟩
      rw [← hlater, List.drop_drop, Nat.add_comm k, Nat.add_assoc]

end EndsAtFirst

theorem scanComment_ends (cs : List Char) :
    EndsAtFirst (commentEnds cs) 2 cs (scanComment cs) := by
  fun_induction scanComment cs with
  | case1 => simp [EndsAtFirst, commentEnds]
  | case2 cs => exact .at_front (by simp [commentEnds])
  | case3 c cs hclose ih =>
      have hnot : ¬['*', '/'] <+: c :: cs := by
        rintro ⟨rest, hrest⟩
        obtain ⟨rfl, rfl⟩ := List.cons.inj hrest
        exact hclose rest rfl rfl
      rw [commentEnds_cons hnot]
      exact ih.of_image rfl

theorem scanTextBlock_ends (cs : List Char) :
    EndsAtFirst (blockEnds cs) 3 cs (scanTextBlock cs) := by
  fun_induction scanTextBlock cs with
  | case1 => simp [EndsAtFirst, blockEnds]
  | case2 c cs ih =>
      rw [blockEnds_pair]
      exact ih.of_image rfl
  | case3 cs => exact .at_front (by simp [blockEnds, Escaped])
  | case4 c cs hescape hclose ih =>
      have hnot : ¬['"', '"', '"'] <+: c :: cs := by
        rintro ⟨rest, hrest⟩
        obtain ⟨rfl, rfl⟩ := List.cons.inj hrest
        exact hclose rest rfl rfl
      rcases cs with _ | ⟨d, cs⟩
      · -- The last character may be a backslash.
        have hnone : blockEnds [c] = ∅ := by
          ext i
          rcases i with _ | i <;> simp [blockEnds]
        exact hnone
      · have hc : c ≠ '\\' := fun heq => hescape d cs heq rfl
        rw [blockEnds_cons hc hnot]
        exact ih.of_image rfl

/-- Where a literal on one line ends: behind the first quote that is not escaped, or else before the
end of the line or of the text. -/
def EndsAtQuote (quote : Char) (cs : List Char) : Except (List Char) (List Char) → Prop
  | .ok rest => ∃ i, IsLeast (quoteEnds quote cs) i ∧ (∀ j ∈ lineEnds cs, i < j) ∧
      rest = cs.drop (i + 1)
  | .error rest => (∃ i, IsLeast (lineEnds cs) i ∧ (∀ j ∈ quoteEnds quote cs, i < j) ∧
      rest = cs.drop i) ∨ (quoteEnds quote cs = ∅ ∧ lineEnds cs = ∅ ∧ rest = [])

/-- The ends of a literal are as far behind as the front that neither ends it nor its line. -/
theorem EndsAtQuote.of_image {quote : Char} {cs later : List Char} {k : Nat}
    {found : Except (List Char) (List Char)} (h : EndsAtQuote quote later found)
    (hlater : cs.drop k = later) (hquotes : quoteEnds quote cs = (· + k) '' quoteEnds quote later)
    (hlines : lineEnds cs = (· + k) '' lineEnds later) : EndsAtQuote quote cs found := by
  have hdrop (i : Nat) : later.drop i = cs.drop (i + k) := by
    rw [← hlater, List.drop_drop, Nat.add_comm]
  have hlt {i : Nat} {P : Set Nat} (hbefore : ∀ j ∈ P, i < j) : ∀ j ∈ (· + k) '' P, i + k < j := by
    rintro _ ⟨j, hj, rfl⟩
    exact Nat.add_lt_add_right (hbefore j hj) k
  unfold EndsAtQuote at h ⊢
  rw [hquotes, hlines]
  rcases found with rest | rest
  · rcases h with ⟨i, hleast, hbefore, hrest⟩ | ⟨hnone, hnone', hrest⟩
    · exact .inl ⟨i + k, isLeast_image_add hleast k, hlt hbefore, hrest.trans (hdrop i)⟩
    · exact .inr ⟨by rw [hnone, Set.image_empty], by rw [hnone', Set.image_empty], hrest⟩
  · obtain ⟨i, hleast, hbefore, hrest⟩ := h
    refine ⟨i + k, isLeast_image_add hleast k, hlt hbefore, hrest.trans ?_⟩
    rw [hdrop, Nat.add_right_comm]

theorem scanQuoted_ends {quote : Char} (hquote : quote ≠ '\\') (hline : isLineEnd quote = false)
    (cs : List Char) : EndsAtQuote quote cs (scanQuoted quote cs) := by
  fun_induction scanQuoted quote cs with
  | case1 => exact .inr ⟨by simp [quoteEnds], by simp [lineEnds], rfl⟩
  | case2 escaped cs hescaped =>
      -- The line ends behind a backslash, and every quote is further on.
      refine .inl ⟨1, ?_, ?_, rfl⟩
      · rw [lineEnds_cons rfl]
        exact isLeast_image_add (isLeast_zero (by simpa [lineEnds, isLineEnd] using hescaped)) 1
      · rw [quoteEnds_pair hquote]
        rintro _ ⟨j, -, rfl⟩
        exact Nat.lt_add_left j (Nat.lt_succ_self 1)
  | case3 escaped cs hescaped ih =>
      refine ih.of_image (k := 2) rfl (quoteEnds_pair hquote _ _) ?_
      rw [lineEnds_cons rfl, lineEnds_cons (by simpa using hescaped), Set.image_image]
  | case4 c cs hpair hend =>
      refine .inl ⟨0, isLeast_zero (by simpa [lineEnds, isLineEnd] using hend), ?_, rfl⟩
      rintro j ⟨hj, -⟩
      rcases j with _ | j
      · simp_all
      · exact Nat.succ_pos j
  | case5 c cs hpair hend hclose =>
      rw [beq_iff_eq] at hclose
      subst hclose
      refine ⟨0, isLeast_zero (by simp [quoteEnds, Escaped]), ?_, rfl⟩
      rw [lineEnds_cons hline]
      rintro _ ⟨j, -, rfl⟩
      exact Nat.succ_pos j
  | case6 c cs hpair hend hclose ih =>
      rw [beq_iff_eq] at hclose
      rw [Bool.not_eq_true] at hend
      rcases cs with _ | ⟨d, cs⟩
      · refine .inr ⟨?_, ?_, rfl⟩
        · ext i
          rcases i with _ | i
          · simp [quoteEnds, hclose]
          · simp [quoteEnds]
        · rw [lineEnds_cons hend]
          simp [lineEnds]
      · have hc : c ≠ '\\' := fun heq => hpair d cs heq rfl
        exact ih.of_image (k := 1) rfl (quoteEnds_cons hc hclose _) (lineEnds_cons hend _)

theorem dropWhile_ends (cs : List Char) :
    (∃ i, IsLeast (newlines cs) i ∧ cs.dropWhile (· != '\n') = cs.drop i) ∨
      (newlines cs = ∅ ∧ cs.dropWhile (· != '\n') = []) := by
  induction cs with
  | nil => simp [newlines]
  | cons c cs ih =>
      by_cases hc : c = '\n'
      · subst hc
        exact .inl ⟨0, isLeast_zero (by simp [newlines]), rfl⟩
      · rw [newlines_cons hc, List.dropWhile_cons_of_pos (by simpa using hc)]
        rcases ih with ⟨i, hleast, hrest⟩ | ⟨hnone, hrest⟩
        · exact .inl ⟨i + 1, isLeast_image_add hleast 1, hrest⟩
        · exact .inr ⟨by rw [hnone, Set.image_empty], hrest⟩

/-- A token of a kind that is taken from the front of a text ends where its delimiter says. -/
structure Ends (kind : TokenKind) (taken cs : List Char) : Prop where
  front : taken <+: cs
  lineComment : ∀ rest, cs = '/' :: '/' :: rest → kind = .lineComment ∧
    (∀ i, IsLeast (newlines rest) i → taken = '/' :: '/' :: rest.take i) ∧
    (newlines rest = ∅ → taken = cs)
  blockComment : ∀ rest, cs = '/' :: '*' :: rest →
    (∀ i, IsLeast (commentEnds rest) i →
      kind = .blockComment ∧ taken = '/' :: '*' :: rest.take (i + 2)) ∧
    (commentEnds rest = ∅ → kind = .unterminatedBlockComment ∧ taken = cs)
  textBlock : ∀ rest, cs = '"' :: '"' :: '"' :: rest →
    (∀ i, IsLeast (blockEnds rest) i →
      kind = .stringLiteral ∧ taken = '"' :: '"' :: '"' :: rest.take (i + 3)) ∧
    (blockEnds rest = ∅ → kind = .unterminatedLiteral ∧ taken = cs)
  quoted : ∀ quote literal rest,
    (quote, literal) ∈ [('"', TokenKind.stringLiteral), ('\'', TokenKind.charLiteral)] →
    cs = quote :: rest → ¬['"', '"', '"'] <+: taken →
    (∀ i, IsLeast (quoteEnds quote rest) i → (∀ j ∈ lineEnds rest, i < j) →
      kind = literal ∧ taken = quote :: rest.take (i + 1)) ∧
    (∀ i, IsLeast (lineEnds rest) i → (∀ j ∈ quoteEnds quote rest, i < j) →
      kind = .unterminatedLiteral ∧ taken = quote :: rest.take i) ∧
    (quoteEnds quote rest = ∅ → lineEnds rest = ∅ → kind = .unterminatedLiteral ∧ taken = cs)

theorem scanLiteral_ends (literal : TokenKind) {quote : Char} (hquote : quote ≠ '\\')
    (hline : isLineEnd quote = false) (cs : List Char) :
    (∀ i, IsLeast (quoteEnds quote cs) i → (∀ j ∈ lineEnds cs, i < j) →
      scanLiteral literal quote cs = (literal, cs.drop (i + 1))) ∧
    (∀ i, IsLeast (lineEnds cs) i → (∀ j ∈ quoteEnds quote cs, i < j) →
      scanLiteral literal quote cs = (.unterminatedLiteral, cs.drop i)) ∧
    (quoteEnds quote cs = ∅ → lineEnds cs = ∅ →
      scanLiteral literal quote cs = (.unterminatedLiteral, [])) := by
  have hends := scanQuoted_ends hquote hline cs
  unfold scanLiteral
  cases hscan : scanQuoted quote cs with
  | ok rest =>
      rw [hscan] at hends
      obtain ⟨i, hleast, hbefore, rfl⟩ := hends
      refine ⟨fun j hj _ => ?_, fun j hj hfirst => ?_, fun hnone _ => ?_⟩
      · rw [hleast.unique hj]
      · exact absurd (hfirst i hleast.1) (Nat.lt_asymm (hbefore j hj.1))
      · exact absurd hnone hleast.nonempty.ne_empty
  | error rest =>
      rw [hscan] at hends
      rcases hends with ⟨i, hleast, hbefore, rfl⟩ | ⟨hnone, hnone', rfl⟩
      · refine ⟨fun j hj hfirst => ?_, fun j hj _ => ?_, fun _ hnone => ?_⟩
        · exact absurd (hfirst i hleast.1) (Nat.lt_asymm (hbefore j hj.1))
        · rw [hleast.unique hj]
        · exact absurd hnone hleast.nonempty.ne_empty
      · refine ⟨fun j hj _ => ?_, fun j hj _ => ?_, fun _ _ => rfl⟩
        · exact absurd hnone hj.nonempty.ne_empty
        · exact absurd hnone' hj.nonempty.ne_empty

theorem scan_slash (rest : List Char) : scan '/' rest = scanSymbol '/' rest :=
  scan_of_symbol (by decide) rfl rfl rfl rest

theorem scan_doubleQuote (rest : List Char) : scan '"' rest = scanString rest :=
  scan_of_symbol (by decide) rfl rfl rfl rest

theorem scan_singleQuote (rest : List Char) :
    scan '\'' rest = scanLiteral .charLiteral '\'' rest :=
  scan_of_symbol (by decide) rfl rfl rfl rest

theorem taken_of_scan {first : Char} {rest : List Char} {kind : TokenKind} (n : Nat)
    (h : scan first rest = (kind, (first :: rest).drop n)) :
    (scan first rest).1 = kind ∧ lexeme first rest = (first :: rest).take n := by
  have happend := lexeme_append_scan first rest
  rw [h] at happend
  refine ⟨by rw [h], ?_⟩
  exact List.append_cancel_right (happend.trans (List.take_append_drop n _).symm)

theorem taken_of_scan_nil {first : Char} {rest : List Char} {kind : TokenKind}
    (h : scan first rest = (kind, [])) :
    (scan first rest).1 = kind ∧ lexeme first rest = first :: rest := by
  have happend := lexeme_append_scan first rest
  rw [h, List.append_nil] at happend
  exact ⟨by rw [h], happend⟩

/-- A token that is scanned up to the first of the places where it may close, or to the end. -/
theorem taken_of_closing {first : Char} {rest : List Char} {closed unclosed : TokenKind}
    {close : Option (List Char)} {ends : Set Nat} (n : Nat)
    (hscan : scan first rest = match close with
      | some last => (closed, last)
      | none => (unclosed, []))
    (hends : EndsAtFirst ends n (first :: rest) close) :
    (∀ i, IsLeast ends i →
      (scan first rest).1 = closed ∧ lexeme first rest = (first :: rest).take (i + n)) ∧
    (ends = ∅ → (scan first rest).1 = unclosed ∧ lexeme first rest = first :: rest) := by
  cases close with
  | none =>
      exact ⟨fun i hi => absurd hends hi.nonempty.ne_empty,
        fun _ => taken_of_scan_nil hscan⟩
  | some last =>
      obtain ⟨i, hi, rfl⟩ := hends
      refine ⟨fun j hj => ?_, fun hnone => absurd hnone hi.nonempty.ne_empty⟩
      rw [← hi.unique hj]
      exact taken_of_scan (i + n) hscan

theorem textBlock_ends (rest : List Char) :
    (∀ i, IsLeast (blockEnds rest) i → (scan '"' ('"' :: '"' :: rest)).1 = .stringLiteral ∧
      lexeme '"' ('"' :: '"' :: rest) = '"' :: '"' :: '"' :: rest.take (i + 3)) ∧
    (blockEnds rest = ∅ → (scan '"' ('"' :: '"' :: rest)).1 = .unterminatedLiteral ∧
      lexeme '"' ('"' :: '"' :: rest) = '"' :: '"' :: '"' :: rest) :=
  taken_of_closing 6 (scan_doubleQuote _) ((scanTextBlock_ends rest).of_drop (k := 3) rfl)

theorem quotes_taken {rest : List Char} (h : ['"', '"', '"'] <+: '"' :: rest) :
    ['"', '"', '"'] <+: lexeme '"' rest := by
  obtain ⟨later, hlater⟩ := h
  obtain ⟨-, rfl⟩ := List.cons.inj hlater
  change _ <+: lexeme '"' ('"' :: '"' :: later)
  have hends := scanTextBlock_ends later
  cases hclose : scanTextBlock later with
  | none =>
      rw [hclose] at hends
      rw [((textBlock_ends later).2 hends).2]
      exact ⟨later, rfl⟩
  | some last =>
      rw [hclose] at hends
      obtain ⟨i, hi, -⟩ := hends
      rw [((textBlock_ends later).1 i hi).2]
      exact ⟨later.take (i + 3), rfl⟩

theorem scan_quote {quote : Char} {literal : TokenKind} {rest : List Char}
    (hquote : (quote, literal) ∈ [('"', TokenKind.stringLiteral), ('\'', TokenKind.charLiteral)])
    (hsingle : ¬['"', '"', '"'] <+: quote :: rest) :
    scan quote rest = scanLiteral literal quote rest := by
  simp only [List.mem_cons, Prod.mk.injEq, List.not_mem_nil, or_false] at hquote
  rcases hquote with ⟨rfl, rfl⟩ | ⟨rfl, rfl⟩
  · rw [scan_doubleQuote, scanString.eq_2]
    rintro later rfl
    exact hsingle ⟨later, rfl⟩
  · exact scan_singleQuote rest

theorem ends_scan (first : Char) (rest : List Char) :
    Ends (scan first rest).1 (lexeme first rest) (first :: rest) where
  front := ⟨_, lexeme_append_scan first rest⟩
  lineComment := by
    rintro rest ⟨rfl, rfl⟩
    have hscan : scan '/' ('/' :: rest) = (.lineComment, rest.dropWhile (· != '\n')) :=
      scan_slash _
    refine ⟨by rw [hscan], fun i hi => ?_, fun hnone => ?_⟩
    all_goals rcases dropWhile_ends rest with ⟨j, hj, hrest⟩ | ⟨hnone', hrest⟩
    · rw [hrest, hj.unique hi] at hscan
      exact (taken_of_scan (i + 2) hscan).2
    · exact absurd hnone' hi.nonempty.ne_empty
    · exact absurd hnone hj.nonempty.ne_empty
    · rw [hrest] at hscan
      exact (taken_of_scan_nil hscan).2
  blockComment := by
    rintro rest ⟨rfl, rfl⟩
    exact taken_of_closing 4 (scan_slash _) ((scanComment_ends rest).of_drop (k := 2) rfl)
  textBlock := by
    rintro rest ⟨rfl, rfl⟩
    exact textBlock_ends rest
  quoted := by
    rintro _ literal _ hquote ⟨rfl, rfl⟩ hsingle
    -- Three quotes at the front of the text would all be taken.
    have hnot : ¬['"', '"', '"'] <+: first :: rest := by
      intro hopen
      obtain rfl : '"' = first := (List.cons_prefix_cons.1 hopen).1
      exact hsingle (quotes_taken hopen)
    obtain ⟨hescape, hline⟩ : first ≠ '\\' ∧ isLineEnd first = false := by
      simp only [List.mem_cons, Prod.mk.injEq, List.not_mem_nil, or_false] at hquote
      rcases hquote with ⟨rfl, -⟩ | ⟨rfl, -⟩
      · decide
      · decide
    have hscan := scan_quote hquote hnot
    obtain ⟨hclosed, hbroken, hopen⟩ := scanLiteral_ends literal hescape hline rest
    exact ⟨fun i hi hfirst => taken_of_scan (i + 2) (hscan.trans (hclosed i hi hfirst)),
      fun i hi hfirst => taken_of_scan (i + 1) (hscan.trans (hbroken i hi hfirst)),
      fun hnone hnone' => taken_of_scan_nil (hscan.trans (hopen hnone hnone'))⟩

theorem exists_scan_of_mem_place (front : String) {cs : List Char} {token : Token}
    (hmem : token ∈ place front.utf8ByteSize (lexemes cs)) :
    ∃ before first rest, front ++ String.ofList cs = before ++ String.ofList (first :: rest) ∧
      before.utf8ByteSize = token.start ∧ token.kind = (scan first rest).1 ∧
      token.text.toList = lexeme first rest := by
  fun_induction lexemes cs generalizing front with
  | case1 => cases hmem
  | case2 first rest ih =>
      rcases List.mem_cons.1 hmem with rfl | hmem
      · exact ⟨front, first, rest, rfl, rfl, rfl, String.toList_ofList⟩
      · have hfront : (front ++ String.ofList (lexeme first rest)) ++
            String.ofList (scan first rest).2 = front ++ String.ofList (first :: rest) := by
          rw [String.append_assoc, ← String.ofList_append, lexeme_append_scan]
        rw [← hfront]
        refine ih _ ?_
        rw [String.utf8ByteSize_append]
        exact hmem

/-- Each token ends where the delimiters in the text from its offset on say: a comment on a line
before the first end of a line, a comment in stars behind the first `*/`, a text block behind the
first three quotes none of which is escaped, and another literal behind the first quote that is not
escaped, or else before the end of its line. -/
theorem ends_of_mem_tokenize (text : String) : ∀ token ∈ tokenize text, ∃ before cs,
    text = before ++ String.ofList cs ∧ before.utf8ByteSize = token.start ∧
      Ends token.kind token.text.toList cs := by
  intro token hmem
  obtain ⟨before, first, rest, htext, hstart, hkind, htaken⟩ :=
    exists_scan_of_mem_place "" hmem
  rw [String.ofList_toList, String.empty_append] at htext
  refine ⟨before, first :: rest, htext, hstart, ?_⟩
  rw [hkind, htaken]
  exact ends_scan first rest

/-- A text block that holds a quote which is escaped, before a name. -/
theorem ends_of_mem_tokenize_escaped :
    (⟨.stringLiteral, 0, "\"\"\"\\\"\"\"\""⟩ : Token) ∈ tokenize "\"\"\"\\\"\"\"\" x" ∧
      ∃ before cs, "\"\"\"\\\"\"\"\" x" = before ++ String.ofList cs ∧
        before.utf8ByteSize = 0 ∧
        Ends .stringLiteral "\"\"\"\\\"\"\"\"".toList cs := by
  have hmem : (⟨.stringLiteral, 0, "\"\"\"\\\"\"\"\""⟩ : Token) ∈
      tokenize "\"\"\"\\\"\"\"\" x" := by
    decide +kernel
  exact ⟨hmem, ends_of_mem_tokenize _ _ hmem⟩

/-- A star that is already taken does not close a comment, and four quotes do not make a text. -/
example : (tokenize "/*/ */\"\"\"\"").map (fun token => (token.kind, token.start)) =
    [(.blockComment, 0), (.unterminatedLiteral, 6)] := by
  decide +kernel

end PatternSyntax.Proofs.Delimiters
