import PatternSyntax.Proofs.Lossless
import PatternSyntax.Tree.Listing

/-!
A listing determines its tree. Each line is read back to the element that it shows, whichever
characters of the texts are numbered, and the elements tell the text and where they lie in it.
-/

namespace PatternSyntax.Proofs.Listings

open PatternSyntax.Proofs.Lossless
open PatternSyntax.Proofs.Weave
open Text.Quoted

def digitValue (c : Char) : Nat :=
  if c.isDigit then c.toNat - '0'.toNat else c.toNat - 'a'.toNat + 10

/-- A number that begins with `n` and goes on with some digits. -/
def ofDigits (base n : Nat) (digits : List Char) : Nat :=
  digits.foldl (fun n c => base * n + digitValue c) n

/-- The character that stands behind a backslash as `c`. -/
def unescape : Char → Option Char
  | '0' => some '\x00'
  | 't' => some '\t'
  | 'r' => some '\r'
  | 'n' => some '\n'
  | '"' => some '"'
  | '\\' => some '\\'
  | _ => none

/-- Reads a text up to the quote at its end. Between braces, the number that was read so far is
carried along. -/
def unquote : Option Nat → List Char → Option (List Char)
  | none, ['"'] => some []
  | none, '\\' :: 'u' :: '\x7b' :: rest => unquote (some 0) rest
  | none, '\\' :: c :: rest => do
    let c ← unescape c
    let cs ← unquote none rest
    return c :: cs
  | none, c :: rest => (unquote none rest).map (c :: ·)
  | some n, '\x7d' :: rest => (unquote none rest).map (Char.ofNat n :: ·)
  | some n, c :: rest => unquote (some (16 * n + digitValue c)) rest
  | _, [] => none

/-- What stands before the first `mark`, and what behind it. -/
def cut (mark : Char) (cs : List Char) : Option (List Char × List Char) :=
  match cs.dropWhile (· != mark) with
  | [] => none
  | _ :: back => some (cs.takeWhile (· != mark), back)

/-- Reads the end of a range, and the text behind it if there is one. -/
def decodeStop (cs : List Char) : Option (Nat × Option String) :=
  match cut ' ' cs with
  | none => some (ofDigits 10 0 cs, none)
  | some (stop, quoted) => do
    let text ← unquote none (quoted.drop 1)
    return (ofDigits 10 0 stop, some (String.ofList text))

def decodeLine (line : List Char) : Option Row := do
  let (name, range) ← cut '@' (line.dropWhile (· == ' '))
  let kind ← SyntaxKind.ofName? (String.ofList name)
  let (start, behind) ← cut '.' range
  let (stop, text?) ← decodeStop (behind.drop 1)
  return ⟨(line.takeWhile (· == ' ')).length / 2, kind, ofDigits 10 0 start, stop, text?⟩

/-- Reads a listing, each line of which has an end. -/
def decode (listing : String) : Option (List Row) :=
  (listing.toList.splitOn '\n').dropLast.mapM decodeLine

/-- The text that the tokens among some elements make up. -/
def textOf (rows : List Row) : String :=
  String.join (rows.filterMap Row.text?)

section Digits

variable {b : Nat} (hb : 1 < b) (hle : b ≤ 16)

include hb

theorem exists_of_mem_toDigits {n : Nat} {c : Char} (h : c ∈ Nat.toDigits b n) :
    ∃ d < b, c = Nat.digitChar d := by
  induction n using Nat.strong_induction_on with
  | _ n ih =>
      rcases Nat.lt_or_ge n b with hlt | hge
      · rw [Nat.toDigits_of_lt_base hlt, List.mem_singleton] at h
        exact ⟨n, hlt, h⟩
      · rw [Nat.toDigits_of_base_le hb hge, List.mem_append, List.mem_singleton] at h
        rcases h with h | h
        · exact ih (n / b) (Nat.div_lt_self (by omega) hb) h
        · exact ⟨n % b, Nat.mod_lt n (by omega), h⟩

include hle

theorem ofDigits_toDigits (n : Nat) : ofDigits b 0 (Nat.toDigits b n) = n := by
  have hvalue : ∀ d < 16, digitValue (Nat.digitChar d) = d := by decide
  induction n using Nat.strong_induction_on with
  | _ n ih =>
      rcases Nat.lt_or_ge n b with hlt | hge
      · rw [Nat.toDigits_of_lt_base hlt]
        simpa [ofDigits] using hvalue n (by omega)
      · have hlast := hvalue (n % b) ((Nat.mod_lt n (by omega)).trans_le hle)
        have hfront := ih (n / b) (Nat.div_lt_self (by omega) hb)
        rw [ofDigits] at hfront ⊢
        rw [Nat.toDigits_of_base_le hb hge, List.foldl_append, hfront, List.foldl_cons,
          List.foldl_nil, hlast, Nat.div_add_mod]

theorem notMem_toDigits {mark : Char} (hmark : mark ∈ ['.', ' ', '\n', '\x7d']) (n : Nat) :
    mark ∉ Nat.toDigits b n := by
  intro hmem
  obtain ⟨d, hd, rfl⟩ := exists_of_mem_toDigits hb hmem
  have hdigit : ∀ d < 16, Nat.digitChar d ∉ ['.', ' ', '\n', '\x7d'] := by decide
  exact hdigit d (by omega) hmark

end Digits

theorem unquote_digits {digits : List Char} (hdigits : '\x7d' ∉ digits) (n : Nat)
    (rest : List Char) :
    unquote (some n) (digits ++ '\x7d' :: rest) =
      (unquote none rest).map (Char.ofNat (ofDigits 16 n digits) :: ·) := by
  induction digits generalizing n with
  | nil => rfl
  | cons c digits ih =>
      rw [List.mem_cons, not_or] at hdigits
      rw [List.cons_append, unquote.eq_6 _ _ _ fun h => hdigits.1 h.symm, ih hdigits.2]
      rfl

theorem unquote_escape {written c : Char} (h : unescape written = some c) (rest : List Char) :
    unquote none ('\\' :: written :: rest) = (unquote none rest).map (c :: ·) := by
  have hnumber : written ≠ 'u' := by
    rintro rfl
    cases h
  rw [unquote.eq_3 _ _ fun _ heq => absurd heq hnumber, h]
  cases unquote none rest <;> rfl

theorem unquote_numbered (c : Char) (rest : List Char) :
    unquote none (numbered c ++ rest) = (unquote none rest).map (c :: ·) := by
  have hbrace : '\x7d' ∉ Nat.toDigits 16 c.toNat :=
    notMem_toDigits (by decide) (by decide) (by decide) c.toNat
  have hdigits := unquote_digits hbrace 0 rest
  rw [ofDigits_toDigits (by decide) (by decide), Char.ofNat_toNat] at hdigits
  rw [← hdigits]
  simp [numbered, unquote]

theorem unquote_encodeChar (hidden : Char → Bool) (c : Char) (rest : List Char) :
    unquote none (encodeChar hidden c ++ rest) = (unquote none rest).map (c :: ·) := by
  unfold encodeChar
  split_ifs with hnul htab hreturn hend hquote hslash hhidden
  · obtain rfl := beq_iff_eq.1 hnul
    exact unquote_escape rfl rest
  · obtain rfl := beq_iff_eq.1 htab
    exact unquote_escape rfl rest
  · obtain rfl := beq_iff_eq.1 hreturn
    exact unquote_escape rfl rest
  · obtain rfl := beq_iff_eq.1 hend
    exact unquote_escape rfl rest
  · obtain rfl := beq_iff_eq.1 hquote
    exact unquote_escape rfl rest
  · obtain rfl := beq_iff_eq.1 hslash
    exact unquote_escape rfl rest
  · exact unquote_numbered c rest
  · rw [beq_iff_eq] at hquote hslash
    exact unquote.eq_4 _ _ (fun h => absurd h hquote) (fun _ h => absurd h hslash)
      fun _ _ h => absurd h hslash

theorem unquote_flatMap (hidden : Char → Bool) (text : List Char) :
    unquote none (text.flatMap (encodeChar hidden) ++ ['"']) = some text := by
  induction text with
  | nil => rfl
  | cons c text ih =>
      rw [List.flatMap_cons, List.append_assoc, unquote_encodeChar, ih]
      rfl

theorem notMem_encodeChar (hidden : Char → Bool) (c : Char) : '\n' ∉ encodeChar hidden c := by
  unfold encodeChar
  split_ifs with hnul htab hreturn hend hquote hslash hhidden
  · decide
  · decide
  · decide
  · decide
  · decide
  · decide
  · have hdigits : '\n' ∉ Nat.toDigits 16 c.toNat :=
      notMem_toDigits (by decide) (by decide) (by decide) c.toNat
    simpa [numbered] using hdigits
  · rw [beq_iff_eq] at hend
    rw [List.mem_singleton]
    exact fun h => hend h.symm

theorem bne_of_notMem {mark : Char} {cs : List Char} (h : mark ∉ cs) :
    ∀ c ∈ cs, (c != mark) = true := by
  rintro c hc
  rw [bne_iff_ne]
  rintro rfl
  exact h hc

theorem cut_append {mark : Char} {front : List Char} (h : mark ∉ front) (back : List Char) :
    cut mark (front ++ mark :: back) = some (front, back) := by
  rw [cut, List.dropWhile_append_of_pos (bne_of_notMem h),
    List.takeWhile_append_of_pos (bne_of_notMem h)]
  simp

theorem cut_of_notMem {mark : Char} {cs : List Char} (h : mark ∉ cs) : cut mark cs = none := by
  rw [cut, List.dropWhile_eq_nil_iff.2 (bne_of_notMem h)]

theorem notMem_name {mark : Char} (hmark : mark ∈ ['@', ' ', '\n']) (kind : SyntaxKind) :
    mark ∉ kind.name.toList := by
  have hall : SyntaxKind.all.all (fun kind =>
      kind.name.toList.all fun c => c ∉ ['@', ' ', '\n']) = true := by
    decide +kernel
  have hkind := List.all_eq_true.1 hall kind (SyntaxKind.mem_all kind)
  exact fun hmem => of_decide_eq_true (List.all_eq_true.1 hkind mark hmem) hmark

/-- What stands behind the range of an element. -/
def shownText (hidden : Char → Bool) : Option String → List Char
  | none => []
  | some text => ' ' :: '"' :: (text.toList.flatMap (encodeChar hidden) ++ ['"'])

def lineChars (hidden : Char → Bool) (row : Row) : List Char :=
  List.replicate (2 * row.depth) ' ' ++ (row.kind.name.toList ++ '@' ::
    (Nat.toDigits 10 row.start ++ '.' :: '.' ::
      (Nat.toDigits 10 row.stop ++ shownText hidden row.text?)))

theorem toList_line (hidden : Char → Bool) (row : Row) :
    (row.line hidden).toList = lineChars hidden row ++ ['\n'] := by
  obtain ⟨depth, kind, start, stop, text?⟩ := row
  cases text? with
  | none => simp [Row.line, Row.indent, lineChars, shownText]
  | some text =>
      simp [Row.line, Row.indent, lineChars, shownText, encode]

theorem decodeStop_shownText (hidden : Char → Bool) (stop : Nat) (text? : Option String) :
    decodeStop (Nat.toDigits 10 stop ++ shownText hidden text?) = some (stop, text?) := by
  have hspace : ' ' ∉ Nat.toDigits 10 stop :=
    notMem_toDigits (by decide) (by decide) (by decide) stop
  have hdigits := ofDigits_toDigits (b := 10) (by decide) (by decide) stop
  rw [decodeStop]
  cases text? with
  | none => rw [shownText, List.append_nil, cut_of_notMem hspace, hdigits]
  | some text =>
      rw [shownText, cut_append hspace]
      simp [unquote_flatMap, hdigits]

theorem exists_name_cons (kind : SyntaxKind) (rest : List Char) :
    ∃ c cs, kind.name.toList ++ '@' :: rest = c :: cs ∧ c ≠ ' ' := by
  have hspace : ' ' ∉ kind.name.toList := notMem_name (by decide) kind
  rcases hname : kind.name.toList with _ | ⟨c, cs⟩
  · exact ⟨'@', rest, rfl, by decide⟩
  · rw [hname, List.mem_cons, not_or] at hspace
    exact ⟨c, cs ++ '@' :: rest, rfl, fun h => hspace.1 h.symm⟩

theorem decodeLine_lineChars (hidden : Char → Bool) (row : Row) :
    decodeLine (lineChars hidden row) = some row := by
  have hname : '@' ∉ row.kind.name.toList := notMem_name (by decide) row.kind
  have hdot : '.' ∉ Nat.toDigits 10 row.start :=
    notMem_toDigits (by decide) (by decide) (by decide) row.start
  have hindent : ∀ c ∈ List.replicate (2 * row.depth) ' ', (c == ' ') = true := by simp
  have hcut := cut_append hname (Nat.toDigits 10 row.start ++ '.' :: '.' ::
    (Nat.toDigits 10 row.stop ++ shownText hidden row.text?))
  obtain ⟨c, cs, hbody, hc⟩ := exists_name_cons row.kind (Nat.toDigits 10 row.start ++ '.' ::
    '.' :: (Nat.toDigits 10 row.stop ++ shownText hidden row.text?))
  rw [hbody] at hcut
  rw [lineChars, hbody, decodeLine, List.dropWhile_append_of_pos hindent,
    List.takeWhile_append_of_pos hindent, List.dropWhile_cons_of_neg (by simpa using hc),
    List.takeWhile_cons_of_neg (by simpa using hc), hcut]
  simp [SyntaxKind.ofName?_name, cut_append hdot, decodeStop_shownText,
    ofDigits_toDigits (b := 10) (by decide) (by decide)]

theorem notMem_lineChars (hidden : Char → Bool) (row : Row) : '\n' ∉ lineChars hidden row := by
  have hname : '\n' ∉ row.kind.name.toList := notMem_name (by decide) row.kind
  have hdigits (n : Nat) : '\n' ∉ Nat.toDigits 10 n :=
    notMem_toDigits (by decide) (by decide) (by decide) n
  have htext : '\n' ∉ shownText hidden row.text? := by
    cases row.text? with
    | none => exact List.not_mem_nil
    | some text => simp [shownText, notMem_encodeChar]
  simp [lineChars, hname, hdigits, htext]

theorem splitOn_join (hidden : Char → Bool) (rows : List Row) :
    (String.join (rows.map (Row.line hidden))).toList.splitOn '\n' =
      rows.map (lineChars hidden) ++ [[]] := by
  rw [String.toList_join]
  induction rows with
  | nil => rfl
  | cons row rows ih =>
      have hline : ∀ c ∈ lineChars hidden row, (c == '\n') = false := by
        simpa [bne] using bne_of_notMem (notMem_lineChars hidden row)
      rw [List.map_cons, List.flatMap_cons, toList_line, List.append_assoc, List.cons_append,
        List.nil_append, List.splitOn, List.splitOnP_append_cons_of_forall_mem hline '\n' rfl,
        ← List.splitOn, ih, List.map_cons, List.cons_append]

theorem decode_join (hidden : Char → Bool) (rows : List Row) :
    decode (String.join (rows.map (Row.line hidden))) = some rows := by
  rw [decode, splitOn_join, List.dropLast_concat]
  induction rows with
  | nil => rfl
  | cons row rows ih => rw [List.map_cons, List.mapM_cons, decodeLine_lineChars, ih]; rfl

example : decode "Root@0..1\n  Whitespace@0..1 \"\\n\"\n" =
    some [⟨0, .node .root, 0, 1, none⟩, ⟨1, .token .whitespace, 0, 1, some "\n"⟩] :=
  decode_join (fun _ => false) [⟨0, .node .root, 0, 1, none⟩,
    ⟨1, .token .whitespace, 0, 1, some "\n"⟩]

/-- Ranges that stand one behind the other, from an offset to another. -/
def Tiles : Nat → Nat → List (Nat × Nat) → Prop
  | start, stop, [] => start = stop
  | start, stop, range :: rest => range.1 = start ∧ range.1 ≤ range.2 ∧ Tiles range.2 stop rest

theorem Tiles.le {start stop : Nat} {ranges : List (Nat × Nat)} (h : Tiles start stop ranges) :
    start ≤ stop := by
  induction ranges generalizing start with
  | nil => exact Nat.le_of_eq h
  | cons range rest ih =>
      obtain ⟨rfl, hle, hrest⟩ := h
      exact hle.trans (ih hrest)

theorem Tiles.mem_iff {start stop : Nat} {ranges : List (Nat × Nat)}
    (h : Tiles start stop ranges) (i : Nat) :
    start ≤ i ∧ i < stop ↔ ∃ range ∈ ranges, range.1 ≤ i ∧ i < range.2 := by
  induction ranges generalizing start with
  | nil =>
      obtain rfl := h
      simp
  | cons range rest ih =>
      obtain ⟨rfl, hle, hrest⟩ := h
      have hlast := hrest.le
      simp only [List.mem_cons, exists_eq_or_imp, ← ih hrest]
      omega

/-- The ranges of the tokens among some elements. -/
def tokenRanges (rows : List Row) : List (Nat × Nat) :=
  rows.filterMap fun row => row.text?.map fun _ => (row.start, row.stop)

/-- The elements below an element are the deeper ones right behind it. -/
def below (row : Row) (rest : List Row) : List Row :=
  rest.takeWhile (row.depth < ·.depth)

/-- Each range is tiled by those of the tokens at or below its element. -/
def Tiled : List Row → Prop
  | [] => True
  | row :: rest =>
    Tiles row.start row.stop (tokenRanges (row :: below row rest)) ∧ Tiled rest

theorem Tiled.of_append {front rest : List Row} {row : Row} (h : Tiled (front ++ row :: rest)) :
    Tiles row.start row.stop (tokenRanges (row :: below row rest)) := by
  induction front with
  | nil => exact h.1
  | cons other front ih => exact ih h.2

theorem tokenRanges_eq (rows : List Row) :
    tokenRanges rows = (rows.filterMap leafRow?).map fun leaf => (leaf.2.1, leaf.2.2.1) := by
  rw [tokenRanges, List.map_filterMap]
  congr 1
  funext row
  cases h : row.text? <;> simp [leafRow?, h]

theorem tiles_placed (start : Nat) (leaves : List (TokenKind × String)) :
    Tiles start (start + leavesWidth leaves)
      ((placed start leaves).map fun leaf => (leaf.2.1, leaf.2.2.1)) := by
  induction leaves generalizing start with
  | nil => rfl
  | cons leaf leaves ih =>
      refine ⟨rfl, Nat.le_add_right _ _, ?_⟩
      rw [leavesWidth, ← Nat.add_assoc]
      exact ih _

mutual

theorem depth_le_of_mem_rowsFrom (depth start : Nat) (tree : Tree) :
    ∀ row ∈ tree.rowsFrom depth start, depth ≤ row.depth := by
  cases tree with
  | leaf kind text => simp [Tree.rowsFrom]
  | node kind children =>
      have hbelow := depth_le_of_mem_forestRowsFrom (depth + 1) start children
      rintro row hrow
      rcases List.mem_cons.1 hrow with rfl | hrow
      · exact Nat.le_refl depth
      · exact Nat.le_of_succ_le (hbelow row hrow)

theorem depth_le_of_mem_forestRowsFrom (depth start : Nat) (trees : List Tree) :
    ∀ row ∈ Tree.forestRowsFrom depth start trees, depth ≤ row.depth := by
  cases trees with
  | nil => simp [Tree.forestRowsFrom]
  | cons tree rest =>
      rw [Tree.forestRowsFrom, List.forall_mem_append]
      exact ⟨depth_le_of_mem_rowsFrom depth start tree,
        depth_le_of_mem_forestRowsFrom depth (start + tree.width) rest⟩

end

/-- The first of some elements, if there is one, is not deeper than an element before them. -/
def EndsBelow (depth : Nat) (later : List Row) : Prop :=
  ∀ row ∈ later.head?, row.depth ≤ depth

theorem EndsBelow.forestRowsFrom {depth : Nat} {later : List Row} (h : EndsBelow depth later)
    (start : Nat) (trees : List Tree) :
    EndsBelow depth (Tree.forestRowsFrom depth start trees ++ later) := by
  cases trees with
  | nil => exact h
  | cons tree rest =>
      cases tree with
      | leaf kind text => simp [EndsBelow, Tree.forestRowsFrom, Tree.rowsFrom]
      | node kind children => simp [EndsBelow, Tree.forestRowsFrom, Tree.rowsFrom]

theorem below_append {row : Row} {deeper later : List Row}
    (hdeeper : ∀ other ∈ deeper, row.depth + 1 ≤ other.depth)
    (hlater : EndsBelow row.depth later) : below row (deeper ++ later) = deeper := by
  rw [below, List.takeWhile_append_of_pos (by simpa [Nat.succ_le_iff] using hdeeper)]
  cases later with
  | nil => simp
  | cons other later =>
      have hother : other.depth ≤ row.depth := hlater other rfl
      rw [List.takeWhile_cons_of_neg (by simpa using hother), List.append_nil]

mutual

/-- The induction goes along with what is listed behind an element, since that is where the elements
below it end. -/
theorem tiled_rowsFrom (depth start : Nat) (tree : Tree) {later : List Row}
    (hbelow : EndsBelow depth later) (hlater : Tiled later) :
    Tiled (tree.rowsFrom depth start ++ later) := by
  cases tree with
  | leaf kind text =>
      rw [Tree.rowsFrom, List.singleton_append, Tiled, ← List.nil_append later,
        below_append (by simp) hbelow]
      exact ⟨⟨rfl, Nat.le_add_right _ _, rfl⟩, hlater⟩
  | node kind children =>
      rw [Tree.rowsFrom, List.cons_append, Tiled,
        below_append (depth_le_of_mem_forestRowsFrom (depth + 1) start children) hbelow,
        tokenRanges_eq, List.filterMap_cons_none rfl, leafRows_forestRowsFrom, forestWidth_eq]
      refine ⟨tiles_placed start _, tiled_forestRowsFrom (depth + 1) start children ?_ hlater⟩
      exact fun row hrow => (hbelow row hrow).trans (Nat.le_succ depth)

theorem tiled_forestRowsFrom (depth start : Nat) (trees : List Tree) {later : List Row}
    (hbelow : EndsBelow depth later) (hlater : Tiled later) :
    Tiled (Tree.forestRowsFrom depth start trees ++ later) := by
  cases trees with
  | nil => exact hlater
  | cons tree rest =>
      rw [Tree.forestRowsFrom, List.append_assoc]
      exact tiled_rowsFrom depth start tree (hbelow.forestRowsFrom (start + tree.width) rest)
        (tiled_forestRowsFrom depth (start + tree.width) rest hbelow hlater)

end

theorem tiled_rows (tree : Tree) : Tiled tree.rows := by
  rw [Tree.rows, ← List.append_nil (tree.rowsFrom 0 0)]
  exact tiled_rowsFrom 0 0 tree (by simp [EndsBelow]) trivial

theorem map_text_placed (start : Nat) (leaves : List (TokenKind × String)) :
    (placed start leaves).map (fun leaf => leaf.2.2.2) = leaves.map (·.2) := by
  induction leaves generalizing start with
  | nil => rfl
  | cons leaf leaves ih => rw [placed, List.map_cons, List.map_cons, ih]

theorem textOf_rows (tree : Tree) : textOf tree.rows = tree.text := by
  have htexts : tree.rows.filterMap Row.text? = tree.leaves.map (·.2) := by
    rw [← map_text_placed 0, ← leafRows_rowsFrom 0 0, ← Tree.rows, List.map_filterMap]
    congr 1
    funext row
    cases h : row.text? <;> simp [leafRow?, h]
  rw [textOf, htexts, Tree.text]

/-- A listing determines the tree, whichever characters are numbered: it is read back to the
elements of the tree with their depths, kinds, ranges and texts, so that it tells the text, and no
two texts have the same listing. The range of each element is made up of those of the tokens at or
below it, which stand in it one behind the other. -/
theorem decode_listing (hidden : Char → Bool) (s : Subject) (text : String) :
    ∃ parse, Parse.ofText s text = .ok parse ∧
      decode (parse.tree.listingBy hidden) = some parse.tree.rows ∧
      (decode (parse.tree.listingBy hidden)).map textOf = some text ∧
      (∀ other parse', Parse.ofText s other = .ok parse' →
        parse'.tree.listingBy hidden = parse.tree.listingBy hidden → other = text) ∧
      ∀ front row rest, parse.tree.rows = front ++ row :: rest →
        Tiles row.start row.stop (tokenRanges (row :: below row rest)) ∧
          ∀ i, row.start ≤ i ∧ i < row.stop ↔
            ∃ range ∈ tokenRanges (row :: below row rest), range.1 ≤ i ∧ i < range.2 := by
  have hread {text : String} (a : Account s text) :
      decode (a.parse.tree.listingBy hidden) = some a.parse.tree.rows ∧
        (decode (a.parse.tree.listingBy hidden)).map textOf = some text := by
    have hdecode := decode_join hidden a.parse.tree.rows
    rw [Tree.listingBy, hdecode, Option.map_some, textOf_rows, text_parse]
    exact ⟨rfl, rfl⟩
  obtain ⟨a, hparse⟩ := exists_account s text
  refine ⟨a.parse, hparse, (hread a).1, (hread a).2, ?_, ?_⟩
  · intro other parse' hparse' hlisting
    obtain ⟨a', hother⟩ := exists_account s other
    cases hparse'.symm.trans hother
    have htext := (hread a').2
    rw [hlisting, (hread a).2] at htext
    exact (Option.some.inj htext).symm
  · intro front row rest hrows
    have htiles := (hrows ▸ tiled_rows a.parse.tree).of_append
    exact ⟨htiles, htiles.mem_iff⟩

end PatternSyntax.Proofs.Listings
