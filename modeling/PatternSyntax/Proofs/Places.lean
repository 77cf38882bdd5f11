import Mathlib.Data.Prod.Lex
import Mathlib.Data.String.Basic
import PatternSyntax.Diagnostics
import PatternSyntax.Proofs.Listings
import PatternSyntax.Proofs.Partition
import PatternSyntax.Proofs.Respacing

/-!
Lines and columns are exact. The place of an offset is told by the characters before it, by how many
newlines are among them and how many characters stand behind the last one. It is the same place that
a table of the offsets at which lines begin would tell, and no two offsets between characters share
it. The lines that tell of errors name the places of their errors in this sense.
-/

namespace PatternSyntax.Proofs.Places

open PatternSyntax.Proofs.Elements
open PatternSyntax.Proofs.ErrorPlaces
open PatternSyntax.Proofs.Listings
open PatternSyntax.Proofs.Lossless (text_parse)
open PatternSyntax.Proofs.Partition
open PatternSyntax.Proofs.Respacing
open PatternSyntax.Proofs.Weave
open String (utf8Len)
open Text
open Text.Position

/-- What stands before the place right behind some characters that begin a text. -/
def tally (front : List Char) : Preceding :=
  ⟨front.count '\n', (front.reverse.takeWhile (· != '\n')).length⟩

theorem tally_concat (front : List Char) (c : Char) :
    tally (front ++ [c]) = (tally front).next c := by
  by_cases hc : c = '\n'
  · subst hc
    simp [tally, Preceding.next]
  · simp [tally, Preceding.next, hc]

theorem foldl_next (front : List Char) : front.foldl Preceding.next ⟨0, 0⟩ = tally front := by
  induction front using List.reverseRecOn with
  | nil => rfl
  | append_singleton front c ih => rw [List.foldl_concat, ih, tally_concat]

/-- An offset is right behind the first of the given characters, or, if there are no others,
anywhere behind them. -/
def Reaches (front back : List Char) (offset : Nat) : Prop :=
  utf8Len front = offset ∨ back = [] ∧ utf8Len front ≤ offset

theorem Reaches.le {front back : List Char} {offset : Nat} (h : Reaches front back offset) :
    utf8Len front ≤ offset :=
  h.elim Nat.le_of_eq And.right

theorem advance_append (before : Preceding) (front back : List Char) {offset : Nat}
    (hoffset : Reaches front back offset) :
    before.advance offset (front ++ back) = front.foldl Preceding.next before := by
  induction front generalizing before offset with
  | nil =>
      rcases hoffset with rfl | ⟨rfl, -⟩
      · cases back <;> simp [Preceding.advance]
      · rfl
  | cons c front ih =>
      have hsize := c.utf8Size_pos
      have hle := hoffset.le
      rw [Reaches, String.utf8Len_cons] at hoffset
      rw [String.utf8Len_cons] at hle
      rw [List.cons_append, Preceding.advance, if_neg (by omega), if_neg (by omega),
        List.foldl_cons]
      exact ih _ (hoffset.imp (by omega) fun h => ⟨h.1, by omega⟩)

theorem ofOffset_append (front back : List Char) {offset : Nat}
    (hoffset : Reaches front back offset) :
    Preceding.ofOffset (String.ofList (front ++ back)) offset = tally front := by
  rw [Preceding.ofOffset, String.toList_ofList, advance_append _ _ _ hoffset, foldl_next]

/-- The offsets right behind the newlines of a text, the first character of which has the given
offset. -/
def lineStartsFrom (offset : Nat) : List Char → List Nat
  | [] => []
  | c :: rest =>
    if c == '\n' then (offset + c.utf8Size) :: lineStartsFrom (offset + c.utf8Size) rest
    else lineStartsFrom (offset + c.utf8Size) rest

/-- The offsets at which the lines of a text begin. -/
def lineStarts (text : String) : List Nat :=
  0 :: lineStartsFrom 0 text.toList

/-- The characters before an offset, if it is between characters. -/
def before? : Nat → List Char → Option (List Char)
  | 0, _ => some []
  | _ + 1, [] => none
  | offset + 1, c :: rest =>
    if offset + 1 < c.utf8Size then none
    else (before? (offset + 1 - c.utf8Size) rest).map (c :: ·)

/-- The characters behind an offset, if it is between characters. -/
def behind? : Nat → List Char → Option (List Char)
  | 0, cs => some cs
  | _ + 1, [] => none
  | offset + 1, c :: rest =>
    if offset + 1 < c.utf8Size then none else behind? (offset + 1 - c.utf8Size) rest

/-- The place of an offset by the table: the last line that begins at the offset or before it, and
the number of characters from there on. -/
def lookup (text : String) (offset : Nat) : Position :=
  let line := ((lineStarts text).takeWhile (· ≤ offset)).length - 1
  let start := (lineStarts text).getD line 0
  let stop := min offset text.utf8ByteSize
  .behind ⟨line, ((behind? start text.toList).bind (before? (stop - start))).elim 0 List.length⟩

theorem before?_append (front back : List Char) :
    before? (utf8Len front) (front ++ back) = some front := by
  induction front with
  | nil => rw [String.utf8Len_nil, before?]
  | cons c front ih =>
      have hsize := c.utf8Size_pos
      obtain ⟨n, hn⟩ : ∃ n, utf8Len (c :: front) = n + 1 :=
        ⟨utf8Len (c :: front) - 1, by rw [String.utf8Len_cons]; omega⟩
      rw [hn, List.cons_append, before?, ← hn, String.utf8Len_cons, if_neg (by omega),
        Nat.add_sub_cancel, ih, Option.map_some]

theorem behind?_append (front back : List Char) :
    behind? (utf8Len front) (front ++ back) = some back := by
  induction front with
  | nil => rw [String.utf8Len_nil, behind?, List.nil_append]
  | cons c front ih =>
      have hsize := c.utf8Size_pos
      obtain ⟨n, hn⟩ : ∃ n, utf8Len (c :: front) = n + 1 :=
        ⟨utf8Len (c :: front) - 1, by rw [String.utf8Len_cons]; omega⟩
      rw [hn, List.cons_append, behind?, ← hn, String.utf8Len_cons, if_neg (by omega),
        Nat.add_sub_cancel, ih]

theorem lineStartsFrom_append (offset : Nat) (front back : List Char) :
    lineStartsFrom offset (front ++ back) =
      lineStartsFrom offset front ++ lineStartsFrom (offset + utf8Len front) back := by
  induction front generalizing offset with
  | nil => rfl
  | cons c front ih =>
      have hsum : offset + utf8Len (c :: front) = offset + c.utf8Size + utf8Len front := by
        rw [String.utf8Len_cons]
        omega
      rw [List.cons_append, lineStartsFrom, lineStartsFrom, ih, hsum]
      split <;> rfl

theorem length_lineStartsFrom (offset : Nat) (cs : List Char) :
    (lineStartsFrom offset cs).length = cs.count '\n' := by
  induction cs generalizing offset with
  | nil => rfl
  | cons c cs ih =>
      rw [lineStartsFrom, List.count_cons]
      split <;> simp [ih]

theorem lt_of_mem_lineStartsFrom {offset start : Nat} {cs : List Char}
    (h : start ∈ lineStartsFrom offset cs) : offset < start ∧ start ≤ offset + utf8Len cs := by
  induction cs generalizing offset with
  | nil => cases h
  | cons c cs ih =>
      have hsize := c.utf8Size_pos
      have hlater (h : start ∈ lineStartsFrom (offset + c.utf8Size) cs) :
          offset < start ∧ start ≤ offset + utf8Len (c :: cs) := by
        have hstart := ih h
        rw [String.utf8Len_cons]
        omega
      rw [lineStartsFrom] at h
      split at h
      · rcases List.mem_cons.1 h with rfl | h
        · rw [String.utf8Len_cons]
          omega
        · exact hlater h
      · exact hlater h

theorem pairwise_lineStarts (text : String) : (lineStarts text).Pairwise (· < ·) := by
  have hfrom (offset : Nat) (cs : List Char) : (lineStartsFrom offset cs).Pairwise (· < ·) := by
    induction cs generalizing offset with
    | nil => exact .nil
    | cons c cs ih =>
        rw [lineStartsFrom]
        split
        · exact List.pairwise_cons.2 ⟨fun _ h => (lt_of_mem_lineStartsFrom h).1, ih _⟩
        · exact ih _
  exact List.pairwise_cons.2 ⟨fun _ h => (lt_of_mem_lineStartsFrom h).1, hfrom _ _⟩

theorem exists_lastLine (front : List Char) :
    ∃ above last, front = above ++ last ∧
      (0 :: lineStartsFrom 0 front).getLast (List.cons_ne_nil _ _) = utf8Len above ∧
      last.length = (front.reverse.takeWhile (· != '\n')).length := by
  induction front using List.reverseRecOn with
  | nil => exact ⟨[], [], rfl, rfl, rfl⟩
  | append_singleton front c ih =>
      obtain ⟨above, last, hfront, hstart, hlast⟩ := ih
      by_cases hc : c = '\n'
      · subst hc
        refine ⟨front ++ ['\n'], [], by simp, ?_, by simp⟩
        simp [lineStartsFrom_append, lineStartsFrom]
      · refine ⟨above, last ++ [c], by rw [hfront, List.append_assoc], ?_, ?_⟩
        · simpa [lineStartsFrom_append, lineStartsFrom, hc] using hstart
        · simp [hc, hlast]

theorem takeWhile_lineStarts (front back : List Char) {offset : Nat}
    (hoffset : Reaches front back offset) :
    (lineStarts (String.ofList (front ++ back))).takeWhile (· ≤ offset) =
      0 :: lineStartsFrom 0 front := by
  have hfront : ∀ start ∈ 0 :: lineStartsFrom 0 front, decide (start ≤ offset) = true := by
    intro start hmem
    rw [decide_eq_true_eq]
    rcases List.mem_cons.1 hmem with rfl | hmem
    · exact Nat.zero_le _
    · have hstart := (lt_of_mem_lineStartsFrom hmem).2
      have hle := hoffset.le
      omega
  have hback : (lineStartsFrom (0 + utf8Len front) back).takeWhile (· ≤ offset) = [] := by
    rcases hoffset with rfl | ⟨rfl, -⟩
    · cases hstarts : lineStartsFrom (0 + utf8Len front) back with
      | nil => rfl
      | cons start later =>
          have hlt := (lt_of_mem_lineStartsFrom (hstarts ▸ List.mem_cons_self)).1
          rw [List.takeWhile_cons_of_neg (by simpa using by omega)]
    · rfl
  rw [lineStarts, String.toList_ofList, lineStartsFrom_append, ← List.cons_append,
    List.takeWhile_append_of_pos hfront, hback, List.append_nil]

theorem lookup_append (front back : List Char) {offset : Nat}
    (hoffset : Reaches front back offset) :
    lookup (String.ofList (front ++ back)) offset = .behind (tally front) := by
  obtain ⟨above, last, hfront, hstart, hlast⟩ := exists_lastLine front
  have hline : (0 :: lineStartsFrom 0 front).length - 1 = front.count '\n' := by
    rw [List.length_cons, length_lineStartsFrom, Nat.add_sub_cancel]
  have hbound : front.count '\n' < (0 :: lineStartsFrom 0 front).length := by
    rw [List.length_cons, length_lineStartsFrom]
    exact Nat.lt_succ_self _
  have hget : (lineStarts (String.ofList (front ++ back))).getD (front.count '\n') 0 =
      utf8Len above := by
    rw [lineStarts, String.toList_ofList, lineStartsFrom_append, ← List.cons_append,
      List.getD_eq_getElem?_getD, List.getElem?_append_left hbound, ← hline, ← hstart,
      List.getLast_eq_getElem, List.getElem?_eq_getElem, Option.getD_some]
  have hstop : min offset (String.ofList (front ++ back)).utf8ByteSize - utf8Len above =
      utf8Len last := by
    have hsum := congrArg utf8Len hfront
    rw [String.utf8Len_append] at hsum
    rw [String.utf8ByteSize_ofList, String.utf8Len_append]
    rcases hoffset with rfl | ⟨rfl, hle⟩
    · omega
    · rw [String.utf8Len_nil]
      omega
  have hbehind : behind? (utf8Len above) (front ++ back) = some (last ++ back) := by
    rw [hfront, List.append_assoc, behind?_append]
  rw [lookup, takeWhile_lineStarts front back hoffset, hline, hget, hstop, String.toList_ofList,
    hbehind, Option.bind_some, before?_append, Option.elim_some, tally, hlast]

/-- The order of what can stand before places: by the lines, and on one line by the characters. -/
def tallyRank (before : Preceding) : ℕ ×ₗ ℕ :=
  toLex (before.lines, before.characters)

/-- The order of places: by the lines, and on one line by the columns. -/
def rank (here : Position) : ℕ ×ₗ ℕ :=
  toLex (here.line, here.column)

theorem tallyRank_lt_next (before : Preceding) (c : Char) :
    tallyRank before < tallyRank (before.next c) := by
  unfold Preceding.next
  split
  · exact Prod.Lex.toLex_lt_toLex.2 (.inl (Nat.lt_succ_self _))
  · exact Prod.Lex.toLex_lt_toLex.2 (.inr ⟨rfl, Nat.lt_succ_self _⟩)

theorem tallyRank_lt_foldl (before : Preceding) (c : Char) (cs : List Char) :
    tallyRank before < tallyRank ((c :: cs).foldl Preceding.next before) := by
  induction cs generalizing before c with
  | nil => exact tallyRank_lt_next before c
  | cons d cs ih => exact (tallyRank_lt_next before c).trans (ih _ d)

theorem tally_lt {front back front' back' : List Char}
    (h : front ++ back = front' ++ back') (hlt : utf8Len front < utf8Len front') :
    tallyRank (tally front) < tallyRank (tally front') := by
  rcases List.append_eq_append_iff.1 h with ⟨more, rfl, -⟩ | ⟨more, rfl, -⟩
  · cases more with
    | nil => simp at hlt
    | cons c more =>
        rw [← foldl_next, ← foldl_next, List.foldl_append]
        exact tallyRank_lt_foldl _ c more
  · rw [String.utf8Len_append] at hlt
    omega

theorem line_behind {before : Preceding} (h : before.Fits) :
    (behind before).line = before.lines + 1 := by
  have hlines : before.lines + 1 < 2 ^ 32 := h.1
  rw [line, behind, UInt32.toNat_add, UInt32.toNat_ofNat', UInt32.toNat_one]
  omega

theorem column_behind {before : Preceding} (h : before.Fits) :
    (behind before).column = before.characters + 1 := by
  have hcharacters : before.characters + 1 < 2 ^ 32 := h.2
  rw [column, behind, UInt32.toNat_add, UInt32.toNat_ofNat', UInt32.toNat_one]
  omega

theorem rank_behind_lt_iff {here there : Preceding} (hhere : here.Fits) (hthere : there.Fits) :
    rank (behind here) < rank (behind there) ↔ tallyRank here < tallyRank there := by
  rw [rank, rank, line_behind hhere, line_behind hthere, column_behind hhere,
    column_behind hthere, tallyRank, tallyRank, Prod.Lex.toLex_lt_toLex,
    Prod.Lex.toLex_lt_toLex]
  dsimp only
  omega

/-- An offset between characters cuts the text, one behind its end takes all of it, and what is
before it tells its place. -/
theorem exists_front {text : String} {offset : Nat}
    (h : String.Pos.Raw.IsValid text ⟨offset⟩ ∨ text.utf8ByteSize ≤ offset) :
    ∃ front back, text = front ++ back ∧ front.utf8ByteSize = min offset text.utf8ByteSize ∧
      Preceding.ofOffset text offset = tally front.toList ∧
      lookup text offset = ofOffset text offset := by
  have told {front back : String} (hreaches : Reaches front.toList back.toList offset) :
      Preceding.ofOffset (front ++ back) offset = tally front.toList ∧
        lookup (front ++ back) offset = ofOffset (front ++ back) offset := by
    have hplace := ofOffset_append _ _ hreaches
    have hlookup := lookup_append _ _ hreaches
    rw [String.ofList_append, String.ofList_toList, String.ofList_toList] at hplace hlookup
    exact ⟨hplace, by rw [hlookup, ofOffset, hplace]⟩
  rcases h with hvalid | hle
  · obtain ⟨front, back, rfl, hoffset⟩ := String.Pos.Raw.isValid_iff_exists_append.1 hvalid
    have hsize : offset = front.utf8ByteSize := congrArg String.Pos.Raw.byteIdx hoffset
    refine ⟨front, back, rfl, ?_, told (.inl (by rw [String.utf8Len_toList, hsize]))⟩
    rw [Nat.min_eq_left hvalid.le_utf8ByteSize, hsize]
  · refine ⟨text, "", String.append_empty.symm, (Nat.min_eq_right hle).symm, ?_⟩
    have hreaches : Reaches text.toList "".toList offset :=
      .inr ⟨rfl, by rwa [String.utf8Len_toList]⟩
    have htold := told hreaches
    rwa [String.append_empty] at htold

theorem tallyRank_ofOffset_lt {text : String} {a b : Nat} (ha : String.Pos.Raw.IsValid text ⟨a⟩)
    (hb : String.Pos.Raw.IsValid text ⟨b⟩) (hlt : a < b) :
    tallyRank (Preceding.ofOffset text a) < tallyRank (Preceding.ofOffset text b) := by
  obtain ⟨front, back, htext, hfront, hplace, -⟩ := exists_front (.inl ha)
  obtain ⟨front', back', htext', hfront', hplace', -⟩ := exists_front (.inl hb)
  have hboth : front.toList ++ back.toList = front'.toList ++ back'.toList := by
    rw [← String.toList_append, ← String.toList_append, ← htext, ← htext']
  have hle : a ≤ text.utf8ByteSize := ha.le_utf8ByteSize
  have hle' : b ≤ text.utf8ByteSize := hb.le_utf8ByteSize
  rw [hplace, hplace']
  refine tally_lt hboth ?_
  rw [String.utf8Len_toList, String.utf8Len_toList]
  omega

theorem lt_iff_rank_lt {text : String} {a b : Nat} (ha : String.Pos.Raw.IsValid text ⟨a⟩)
    (hb : String.Pos.Raw.IsValid text ⟨b⟩) (hfits : (Preceding.ofOffset text a).Fits)
    (hfits' : (Preceding.ofOffset text b).Fits) :
    a < b ↔ rank (ofOffset text a) < rank (ofOffset text b) := by
  rw [ofOffset, ofOffset, rank_behind_lt_iff hfits hfits']
  refine ⟨tallyRank_ofOffset_lt ha hb, fun hrank => ?_⟩
  rcases Nat.lt_trichotomy a b with hlt | rfl | hlt
  · exact hlt
  · exact absurd hrank (lt_irrefl _)
  · exact absurd hrank (tallyRank_ofOffset_lt hb ha hlt).asymm

theorem length_le_utf8Len (cs : List Char) : cs.length ≤ utf8Len cs := by
  induction cs with
  | nil => exact Nat.zero_le _
  | cons c cs ih =>
      have hsize := c.utf8Size_pos
      rw [String.utf8Len_cons, List.length_cons]
      omega

/-- Below 4 GiB, only the end of a text that is as long as can be has no place of its own, if it is
one line or nothing but newlines. -/
theorem longest_of_not_fits {text : String} (hsize : text.utf8ByteSize < 2 ^ 32) {offset : Nat}
    (h : String.Pos.Raw.IsValid text ⟨offset⟩ ∨ text.utf8ByteSize ≤ offset)
    (hfits : ¬(Preceding.ofOffset text offset).Fits) :
    text.utf8ByteSize = 2 ^ 32 - 1 ∧ text.utf8ByteSize ≤ offset ∧
      ((∀ c ∈ text.toList, c = '\n') ∨ ∀ c ∈ text.toList, c ≠ '\n') := by
  obtain ⟨front, back, htext, hfront, hplace, -⟩ := exists_front h
  have hbytes := length_le_utf8Len front.toList
  have hlines : front.toList.count '\n' ≤ front.toList.length := List.count_le_length
  have hlast := (List.takeWhile_sublist (l := front.toList.reverse) (· != '\n')).length_le
  have hsum : text.utf8ByteSize = front.utf8ByteSize + back.utf8ByteSize := by
    rw [htext, String.utf8ByteSize_append]
  rw [String.utf8Len_toList] at hbytes
  rw [List.length_reverse] at hlast
  rw [hplace, Preceding.Fits, tally, UInt32.size] at hfits
  dsimp only at hfits
  have hback : back = "" := String.utf8ByteSize_eq_zero_iff.1 (by omega)
  rw [hback, String.append_empty] at htext
  subst htext
  refine ⟨by omega, by omega, ?_⟩
  by_cases hmany : text.toList.count '\n' + 1 < 2 ^ 32
  · refine .inr fun c hc => ?_
    have hwhole := (List.takeWhile_sublist (l := text.toList.reverse) (· != '\n')).eq_of_length_le
      (by rw [List.length_reverse]; omega)
    simpa using List.takeWhile_eq_self_iff.1 hwhole c (List.mem_reverse.2 hc)
  · exact .inl fun c hc => (List.count_eq_length.1 (by omega) c hc).symm

/-- The lines of a text, with no end behind the last one. A text without characters has none. -/
def linesOf (text : String) : List String :=
  if text = "" then [] else (text.toList.splitOn '\n').map String.ofList

theorem linesOf_join {items : List String}
    (hitems : ∀ item ∈ items, item ≠ "" ∧ '\n' ∉ item.toList) :
    linesOf (Text.join "\n" items) = items := by
  cases items with
  | nil => rfl
  | cons item rest =>
      have hsplit : (Text.join "\n" (item :: rest)).toList.splitOn '\n' =
          (item :: rest).map String.toList := by
        rw [toList_join]
        refine List.splitOn_intercalate '\n' ?_ (by simp)
        rw [List.forall_mem_map]
        exact fun other hother => (hitems other hother).2
      have hne : Text.join "\n" (item :: rest) ≠ "" := by
        intro hempty
        rw [hempty] at hsplit
        obtain ⟨hitem, -⟩ := List.cons.inj hsplit
        exact (hitems item List.mem_cons_self).1 (String.toList_eq_nil_iff.1 hitem.symm)
      rw [linesOf, if_neg hne, hsplit, List.map_map]
      simp

theorem notMem_append {c : Char} {front back : String} (hfront : c ∉ front.toList)
    (hback : c ∉ back.toList) : c ∉ (front ++ back).toList := by
  rw [String.toList_append, List.mem_append, not_or]
  exact ⟨hfront, hback⟩

theorem notMem_message (kind : ErrorKind) : '\n' ∉ kind.message.toList := by
  have hdisplay (kind : TokenKind) : '\n' ∉ kind.display.toList := by
    cases kind <;> decide
  cases kind with
  | unexpectedToken found =>
      cases found with
      | none => decide
      | some kind => exact notMem_append (notMem_append (by decide) (hdisplay kind)) (by decide)
  | _ => decide

theorem diagnostic_line (text : String) (error : SyntaxError) :
    error.diagnostic text ≠ "" ∧ '\n' ∉ (error.diagnostic text).toList := by
  have hdigits (n : Nat) : '\n' ∉ Nat.toDigits 10 n :=
    notMem_toDigits (by decide) (by decide) (by decide) n
  constructor
  · intro hempty
    have htext := congrArg String.toList hempty
    simp [SyntaxError.diagnostic] at htext
  · simp [SyntaxError.diagnostic, display, hdigits, notMem_message]

/-- The line and the column right behind some characters that begin a text, counted from one. -/
def IsBehind (here : Position) (front : List Char) : Prop :=
  here.line = 1 + front.count '\n' ∧
    here.column = 1 + (front.reverse.takeWhile (· != '\n')).length

theorem isBehind_behind {front : List Char} (h : (tally front).Fits) :
    IsBehind (behind (tally front)) front := by
  rw [IsBehind, line_behind h, column_behind h, Nat.add_comm 1, Nat.add_comm 1]
  exact ⟨rfl, rfl⟩

/-- A line that tells of an error: the place right behind what comes before the error in a text, and
what the error is. -/
def Tells (text : String) (error : SyntaxError) (line : String) : Prop :=
  ∃ front back here, text = front ++ back ∧ front.utf8ByteSize = error.span.start ∧
    ((Preceding.ofOffset text error.span.start).Fits → IsBehind here front.toList) ∧
    line = here.display ++ ": " ++ error.kind.message

theorem isValid_of_mem_errors {s : Subject} {text : String} (a : Account s text)
    {error : SyntaxError} (h : error ∈ a.parse.errors) :
    String.Pos.Raw.IsValid text ⟨error.span.start⟩ := by
  obtain ⟨i, hspan⟩ := exists_index_of_errorsAll a.parts h
  have hstart : error.span.start = locate text i := congrArg Span.start hspan
  rw [hstart]
  rcases locate_cases text i with ⟨token, hmem, -, hlocate⟩ | hend
  · rw [← hlocate]
    exact (cuts_of_mem_tokenize hmem).isValid.1
  · rw [hend]
    exact String.Pos.Raw.isValid_rawEndPos

theorem tells_diagnostic {s : Subject} {text : String} (a : Account s text) {error : SyntaxError}
    (h : error ∈ a.parse.errors) : Tells text error (error.diagnostic text) := by
  have hvalid := isValid_of_mem_errors a h
  obtain ⟨front, back, htext, hfront, hplace, -⟩ := exists_front (.inl hvalid)
  refine ⟨front, back, ofOffset text error.span.start, htext, ?_, fun hfits => ?_, rfl⟩
  · rw [hfront]
    exact Nat.min_eq_left hvalid.le_utf8ByteSize
  · rw [hplace] at hfits
    rw [ofOffset, hplace]
    exact isBehind_behind hfits

/-- The place of an offset that is between characters of a text, or behind its end, is told by the
part of the text before it, as far as its numbers fit, and the table of lines tells the same. The
table is in order, so that it can be searched. Below 4 GiB the numbers fit anywhere but at the end
of the longest texts of one line or of newlines only. Offsets between characters are in the order of
their places, so that no two share one. The diagnostics of a parse have one line for each error, in
their order, which names the place that its offset has in the text. -/
theorem ofOffset_exact (text : String) :
    (∀ offset, String.Pos.Raw.IsValid text ⟨offset⟩ ∨ text.utf8ByteSize ≤ offset →
      (∃ front back, text = front ++ back ∧ front.utf8ByteSize = min offset text.utf8ByteSize ∧
        ((Preceding.ofOffset text offset).Fits → IsBehind (ofOffset text offset) front.toList)) ∧
      lookup text offset = ofOffset text offset ∧
      (text.utf8ByteSize < 2 ^ 32 → ¬(Preceding.ofOffset text offset).Fits →
        text.utf8ByteSize = 2 ^ 32 - 1 ∧ text.utf8ByteSize ≤ offset ∧
          ((∀ c ∈ text.toList, c = '\n') ∨ ∀ c ∈ text.toList, c ≠ '\n'))) ∧
    (lineStarts text).Pairwise (· < ·) ∧
    (∀ a b, String.Pos.Raw.IsValid text ⟨a⟩ → String.Pos.Raw.IsValid text ⟨b⟩ →
      (Preceding.ofOffset text a).Fits → (Preceding.ofOffset text b).Fits →
      (a < b ↔ rank (ofOffset text a) < rank (ofOffset text b)) ∧
        (ofOffset text a = ofOffset text b → a = b)) ∧
    ∀ s, ∃ parse, Parse.ofText s text = .ok parse ∧
      (∀ error ∈ parse.errors, String.Pos.Raw.IsValid text ⟨error.span.start⟩) ∧
      List.Forall₂ (Tells text) parse.errors (linesOf parse.diagnostics) := by
  refine ⟨fun offset h => ?_, pairwise_lineStarts text, fun a b ha hb hfits hfits' => ?_,
    fun s => ?_⟩
  · obtain ⟨front, back, htext, hfront, hplace, hlookup⟩ := exists_front h
    refine ⟨⟨front, back, htext, hfront, fun hfits => ?_⟩, hlookup,
      fun hsize => longest_of_not_fits hsize h⟩
    rw [hplace] at hfits
    rw [ofOffset, hplace]
    exact isBehind_behind hfits
  · have hlt := lt_iff_rank_lt ha hb hfits hfits'
    have hgt := lt_iff_rank_lt hb ha hfits' hfits
    refine ⟨hlt, fun hplace => ?_⟩
    rw [hplace] at hlt hgt
    exact Nat.le_antisymm (not_lt.1 (mt hgt.1 (lt_irrefl _))) (not_lt.1 (mt hlt.1 (lt_irrefl _)))
  · obtain ⟨a, hparse⟩ := exists_account s text
    refine ⟨a.parse, hparse, fun error => isValid_of_mem_errors a, ?_⟩
    have hlines : ∀ item ∈ a.parse.errors.map (SyntaxError.diagnostic text),
        item ≠ "" ∧ '\n' ∉ item.toList := by
      rw [List.forall_mem_map]
      exact fun error _ => diagnostic_line text error
    rw [Parse.diagnostics, text_parse, linesOf_join hlines, List.forall₂_map_right_iff,
      List.forall₂_same]
    exact fun error => tells_diagnostic a

/-- Two characters on the third line, the first of which has two bytes. -/
theorem ofOffset_exact_thirdLine :
    String.Pos.Raw.IsValid "ab\nc\n\u00e9d" ⟨5⟩ ∧ String.Pos.Raw.IsValid "ab\nc\n\u00e9d" ⟨7⟩ ∧
      rank (ofOffset "ab\nc\n\u00e9d" 5) < rank (ofOffset "ab\nc\n\u00e9d" 7) ∧
      ofOffset "ab\nc\n\u00e9d" 7 = ⟨3, 2⟩ := by
  have hstart : String.Pos.Raw.IsValid "ab\nc\n\u00e9d" ⟨5⟩ := by decide +kernel
  have hsecond : String.Pos.Raw.IsValid "ab\nc\n\u00e9d" ⟨7⟩ := by decide +kernel
  have hfits : (Preceding.ofOffset "ab\nc\n\u00e9d" 5).Fits :=
    ⟨by decide +kernel, by decide +kernel⟩
  have hfits' : (Preceding.ofOffset "ab\nc\n\u00e9d" 7).Fits :=
    ⟨by decide +kernel, by decide +kernel⟩
  have hplaces := ofOffset_exact "ab\nc\n\u00e9d"
  exact ⟨hstart, hsecond, (hplaces.2.2.1 5 7 hstart hsecond hfits hfits').1.1 (by decide),
    by decide +kernel⟩

theorem ofOffset_replicate (n : Nat) :
    (String.ofList (List.replicate n 'a')).utf8ByteSize = n ∧
      tally (List.replicate n 'a') = ⟨0, n⟩ ∧
      ofOffset (String.ofList (List.replicate n 'a')) n = behind ⟨0, n⟩ := by
  have hsize : utf8Len (List.replicate n 'a') = n := by
    induction n with
    | zero => rfl
    | succ n ih => rw [List.replicate_succ, String.utf8Len_cons, ih]; rfl
  have htally : tally (List.replicate n 'a') = ⟨0, n⟩ := by
    rw [tally, List.reverse_replicate, List.takeWhile_replicate, List.count_replicate]
    simp
  have hplace := ofOffset_append (List.replicate n 'a') [] (.inl hsize)
  rw [List.append_nil, htally] at hplace
  exact ⟨by rw [String.utf8ByteSize_ofList, hsize], htally, by rw [ofOffset, hplace]⟩

/-- The column behind the last letter of the longest text has no number: there is one more than
there are numbers. -/
theorem column_overflows :
    (String.ofList (List.replicate 4294967295 'a')).utf8ByteSize = 4294967295 ∧
      tally (List.replicate 4294967295 'a') = ⟨0, 4294967295⟩ ∧
      ofOffset (String.ofList (List.replicate 4294967295 'a')) 4294967295 = ⟨1, 0⟩ := by
  obtain ⟨hsize, htally, hplace⟩ := ofOffset_replicate 4294967295
  exact ⟨hsize, htally, hplace.trans (by decide)⟩

end PatternSyntax.Proofs.Places
