import PatternSyntax.Json.Basic
import PatternSyntax.Proofs.Listings

/-!
Documents are read back. What a document may look like is said by a grammar, with blanks wherever
they may stand, and with characters that are escaped though they need not be. A reader that goes
through a text from left to right finds the value of every text of this grammar, and the text that a
value is laid out as is one of them.
-/

namespace PatternSyntax.Proofs.JsonReader

open PatternSyntax.Proofs.Listings (exists_of_mem_toDigits ofDigits ofDigits_toDigits)
open Text (isDigit)
open Json

/-- The characters that may stand around values and marks. -/
def isSpace (c : Char) : Bool :=
  c == ' ' || c == '\t' || c == '\n' || c == '\r'

/-- What may stand where a blank may. -/
def Spaces (cs : List Char) : Prop :=
  ∀ c ∈ cs, isSpace c = true

/-- The digits of a natural number. Only zero begins with a zero. -/
structure IsNumeral (digits : List Char) : Prop where
  ne_nil : digits ≠ []
  isDigit : ∀ c ∈ digits, isDigit c = true
  lead : digits.head? = some '0' → digits = ['0']

/-- The character that stands behind a backslash as `c`. -/
def unescape : Char → Option Char
  | '"' => some '"'
  | '\\' => some '\\'
  | '/' => some '/'
  | 'b' => some '\x08'
  | 'f' => some '\x0c'
  | 'n' => some '\n'
  | 'r' => some '\r'
  | 't' => some '\t'
  | _ => none

/-- What a hexadecimal digit stands for. -/
def hexValue? (c : Char) : Option Nat :=
  if isDigit c then some (c.toNat - '0'.toNat)
  else if 'a' ≤ c && c ≤ 'f' then some (c.toNat - 'a'.toNat + 10)
  else if 'A' ≤ c && c ≤ 'F' then some (c.toNat - 'A'.toNat + 10)
  else none

/-- The character that has a number of four digits. Halves of pairs are none. -/
def numberedChar? (a b c d : Char) : Option Char := do
  let n := 4096 * (← hexValue? a) + 256 * (← hexValue? b) + 16 * (← hexValue? c) + (← hexValue? d)
  if n.isValidChar then some (Char.ofNat n) else none

/-- What may stand between quotes for a text. -/
inductive SpellsText : List Char → List Char → Prop
  | nil : SpellsText [] []
  | plain {c : Char} {text written : List Char} :
      ' ' ≤ c → c ≠ '"' → c ≠ '\\' → SpellsText text written →
      SpellsText (c :: text) (c :: written)
  | escaped {mark c : Char} {text written : List Char} :
      unescape mark = some c → SpellsText text written →
      SpellsText (c :: text) ('\\' :: mark :: written)
  | numbered {a b c d shown : Char} {text written : List Char} :
      numberedChar? a b c d = some shown → SpellsText text written →
      SpellsText (shown :: text) ('\\' :: 'u' :: a :: b :: c :: d :: written)

/-- What a stretch of a document is read as. -/
inductive Phrase where
  | value (value : Json)
  /-- A value with what may stand around it. -/
  | element (value : Json)
  /-- The items of an array, at least one. -/
  | elements (items : List Json)
  | member (name : String) (value : Json)
  /-- The fields of an object, at least one. -/
  | members (fields : List (String × Json))

inductive Spells : Phrase → List Char → Prop
  | number {digits : List Char} :
      IsNumeral digits → Spells (.value (.number (ofDigits 10 0 digits))) digits
  | string {text written : List Char} :
      SpellsText text written →
      Spells (.value (.string (String.ofList text))) ('"' :: (written ++ ['"']))
  | emptyArray {between : List Char} :
      Spaces between → Spells (.value (.array [])) ('[' :: (between ++ [']']))
  | array {items : List Json} {written : List Char} :
      Spells (.elements items) written →
      Spells (.value (.array items)) ('[' :: (written ++ [']']))
  | emptyObject {between : List Char} :
      Spaces between → Spells (.value (.object [])) ('\x7b' :: (between ++ ['\x7d']))
  | object {fields : List (String × Json)} {written : List Char} :
      Spells (.members fields) written →
      Spells (.value (.object fields)) ('\x7b' :: (written ++ ['\x7d']))
  | element {value : Json} {before written behind : List Char} :
      Spaces before → Spaces behind → Spells (.value value) written →
      Spells (.element value) (before ++ written ++ behind)
  | lastElement {item : Json} {written : List Char} :
      Spells (.element item) written → Spells (.elements [item]) written
  | elements {item : Json} {items : List Json} {written later : List Char} :
      Spells (.element item) written → Spells (.elements items) later →
      Spells (.elements (item :: items)) (written ++ ',' :: later)
  | member {name : List Char} {value : Json} {before behind shown written : List Char} :
      Spaces before → Spaces behind → SpellsText name shown → Spells (.element value) written →
      Spells (.member (String.ofList name) value)
        (before ++ '"' :: (shown ++ '"' :: (behind ++ ':' :: written)))
  | lastMember {name : String} {value : Json} {written : List Char} :
      Spells (.member name value) written → Spells (.members [(name, value)]) written
  | members {name : String} {value : Json} {fields : List (String × Json)}
      {written later : List Char} :
      Spells (.member name value) written → Spells (.members fields) later →
      Spells (.members ((name, value) :: fields)) (written ++ ',' :: later)

/-- Reads a text up to the quote at its end. -/
def readText : List Char → Option (List Char × List Char)
  | [] => none
  | '"' :: rest => some ([], rest)
  | '\\' :: 'u' :: a :: b :: c :: d :: rest => do
    let shown ← numberedChar? a b c d
    let (text, rest) ← readText rest
    return (shown :: text, rest)
  | '\\' :: mark :: rest => do
    let c ← unescape mark
    let (text, rest) ← readText rest
    return (c :: text, rest)
  | c :: rest =>
    if c < ' ' then none
    else do
      let (text, rest) ← readText rest
      return (c :: text, rest)

def skip (cs : List Char) : List Char :=
  cs.dropWhile isSpace

/-- Reads a value and what may stand around it. -/
def readAround (read : List Char → Option (Json × List Char)) (cs : List Char) :
    Option (Json × List Char) := do
  let (value, rest) ← read (skip cs)
  return (value, skip rest)

def readField (read : List Char → Option (Json × List Char)) (cs : List Char) :
    Option ((String × Json) × List Char) :=
  match skip cs with
  | '"' :: rest => do
    let (name, rest) ← readText rest
    match skip rest with
    | ':' :: rest =>
      let (value, rest) ← readAround read rest
      return ((String.ofList name, value), rest)
    | _ => none
  | _ => none

mutual

/-- Reads a value. The first argument bounds the steps. -/
def readValue : Nat → List Char → Option (Json × List Char)
  | 0, _ => none
  | _ + 1, [] => none
  | fuel + 1, first :: rest =>
    if first == '"' then do
      let (text, rest) ← readText rest
      return (.string (String.ofList text), rest)
    else if first == '[' then
      match skip rest with
      | ']' :: rest => some (.array [], rest)
      | _ => do
        let (items, rest) ← readItems fuel rest
        return (.array items, rest)
    else if first == '\x7b' then
      match skip rest with
      | '\x7d' :: rest => some (.object [], rest)
      | _ => do
        let (fields, rest) ← readFields fuel rest
        return (.object fields, rest)
    else if isDigit first then
      some (.number (ofDigits 10 0 (first :: rest.takeWhile isDigit)), rest.dropWhile isDigit)
    else none

/-- Reads the items of an array and the bracket behind them. -/
def readItems : Nat → List Char → Option (List Json × List Char)
  | 0, _ => none
  | fuel + 1, cs => do
    let (item, rest) ← readAround (readValue fuel) cs
    match rest with
    | ']' :: rest => return ([item], rest)
    | ',' :: rest =>
      let (items, rest) ← readItems fuel rest
      return (item :: items, rest)
    | _ => none

/-- Reads the fields of an object and the brace behind them. -/
def readFields : Nat → List Char → Option (List (String × Json) × List Char)
  | 0, _ => none
  | fuel + 1, cs => do
    let (field, rest) ← readField (readValue fuel) cs
    match rest with
    | '\x7d' :: rest => return ([field], rest)
    | ',' :: rest =>
      let (fields, rest) ← readFields fuel rest
      return (field :: fields, rest)
    | _ => none

end

def decode (document : String) : Option Json :=
  match readAround (readValue document.toList.length) document.toList with
  | some (value, []) => some value
  | _ => none

theorem skip_append {before rest : List Char} (hbefore : Spaces before)
    (hrest : ∀ c ∈ rest.head?, isSpace c = false) : skip (before ++ rest) = rest := by
  rw [skip, List.dropWhile_append_of_pos hbefore]
  cases rest with
  | nil => rfl
  | cons c rest => exact List.dropWhile_cons_of_neg (by simp [hrest c rfl])

/-- What follows a value does not go on with it. -/
def Stops (rest : List Char) : Prop :=
  ∀ c ∈ rest.head?, isSpace c = false ∧ isDigit c = false

theorem isDigit_of_isSpace {c : Char} (h : isSpace c = true) : isDigit c = false := by
  simp only [isSpace, Bool.or_eq_true, beq_iff_eq] at h
  rcases h with ((rfl | rfl) | rfl) | rfl <;> rfl

theorem isSpace_of_isDigit {c : Char} (h : isDigit c = true) : isSpace c = false := by
  rw [← Bool.not_eq_true]
  intro hspace
  rw [isDigit_of_isSpace hspace] at h
  cases h

theorem Stops.append {behind rest : List Char} (hbehind : Spaces behind) (h : Stops rest) :
    ∀ c ∈ (behind ++ rest).head?, isDigit c = false := by
  cases behind with
  | nil => exact fun c hc => (h c hc).2
  | cons d behind =>
      rintro c hc
      cases hc
      exact isDigit_of_isSpace (hbehind d List.mem_cons_self)

/-- The first character of a value tells it from a blank and from the end of an array. -/
theorem exists_cons_of_value {value : Json} {written : List Char}
    (h : Spells (.value value) written) :
    ∃ c more, written = c :: more ∧ isSpace c = false ∧ c ≠ ']' := by
  cases h with
  | number hnumeral =>
      obtain ⟨c, more, rfl⟩ := List.exists_cons_of_ne_nil hnumeral.ne_nil
      have hdigit := hnumeral.isDigit c List.mem_cons_self
      refine ⟨c, more, rfl, isSpace_of_isDigit hdigit, ?_⟩
      rintro rfl
      cases hdigit
  | string => exact ⟨_, _, rfl, rfl, by decide⟩
  | emptyArray => exact ⟨_, _, rfl, rfl, by decide⟩
  | array => exact ⟨_, _, rfl, rfl, by decide⟩
  | emptyObject => exact ⟨_, _, rfl, rfl, by decide⟩
  | object => exact ⟨_, _, rfl, rfl, by decide⟩

theorem skip_elements {items : List Json} {written : List Char}
    (h : Spells (.elements items) written) (rest : List Char) :
    ∃ c more, skip (written ++ rest) = c :: more ∧ c ≠ ']' := by
  have helement {item : Json} {written : List Char} (h : Spells (.element item) written)
      (rest : List Char) : ∃ c more, skip (written ++ rest) = c :: more ∧ c ≠ ']' := by
    cases h with
    | element hbefore _ hvalue =>
        obtain ⟨c, more, rfl, hspace, hne⟩ := exists_cons_of_value hvalue
        rw [List.append_assoc, List.append_assoc, skip_append hbefore (by simp [hspace])]
        exact ⟨c, _, rfl, hne⟩
  cases h with
  | lastElement hitem => exact helement hitem rest
  | elements hitem _ =>
      rw [List.append_assoc]
      exact helement hitem _

theorem skip_members {fields : List (String × Json)} {written : List Char}
    (h : Spells (.members fields) written) (rest : List Char) :
    ∃ more, skip (written ++ rest) = '"' :: more := by
  have hmember {name : String} {value : Json} {written : List Char}
      (h : Spells (.member name value) written) (rest : List Char) :
      ∃ more, skip (written ++ rest) = '"' :: more := by
    cases h with
    | member hbefore _ _ _ =>
        rw [List.append_assoc, List.cons_append, skip_append hbefore (by simp [isSpace])]
        exact ⟨_, rfl⟩
  cases h with
  | lastMember hfield => exact hmember hfield rest
  | members hfield _ =>
      rw [List.append_assoc]
      exact hmember hfield _

theorem readText_append {text written : List Char} (h : SpellsText text written)
    (rest : List Char) : readText (written ++ '"' :: rest) = some (text, rest) := by
  induction h with
  | nil => rfl
  | plain hle hquote hslash _ ih =>
      rw [List.cons_append, readText.eq_5 _ _ (fun h => hquote h) (fun _ _ _ _ _ h => absurd h hslash)
        fun _ _ h => absurd h hslash, if_neg (by simpa using hle), ih]
      rfl
  | @escaped mark c text written hmark _ ih =>
      have hnumber : mark ≠ 'u' := by
        rintro rfl
        cases hmark
      rw [List.cons_append, List.cons_append, readText.eq_4 _ _ fun _ _ _ _ _ h => absurd h hnumber,
        hmark, Option.bind_eq_bind, Option.bind_some, ih]
      rfl
  | numbered hshown _ ih =>
      simp only [List.cons_append, readText, hshown, ih]
      rfl

/-- What reading does with a phrase: it is found, whatever follows it, if there are enough steps. -/
def Reads : Phrase → List Char → Prop
  | .value value, written => ∀ fuel rest, written.length ≤ fuel →
      (∀ c ∈ rest.head?, isDigit c = false) →
      readValue fuel (written ++ rest) = some (value, rest)
  | .element value, written => ∀ fuel rest, written.length ≤ fuel → Stops rest →
      readAround (readValue fuel) (written ++ rest) = some (value, rest)
  | .elements items, written => ∀ fuel rest, written.length < fuel →
      readItems fuel (written ++ ']' :: rest) = some (items, rest)
  | .member name value, written => ∀ fuel rest, written.length ≤ fuel → Stops rest →
      readField (readValue fuel) (written ++ rest) = some ((name, value), rest)
  | .members fields, written => ∀ fuel rest, written.length < fuel →
      readFields fuel (written ++ '\x7d' :: rest) = some (fields, rest)

theorem reads_number {digits : List Char} (h : IsNumeral digits) :
    Reads (.value (.number (ofDigits 10 0 digits))) digits := by
  intro fuel rest hfuel hrest
  obtain ⟨first, more, rfl⟩ := List.exists_cons_of_ne_nil h.ne_nil
  obtain ⟨fuel, rfl⟩ := Nat.exists_eq_add_of_lt hfuel
  have hfirst := h.isDigit first List.mem_cons_self
  have hmore : ∀ c ∈ more, isDigit c = true := fun c hc => h.isDigit c (List.mem_cons_of_mem _ hc)
  have hne (mark : Char) (hmark : isDigit mark = false) : (first == mark) = false := by
    rw [beq_eq_false_iff_ne]
    rintro rfl
    rw [hmark] at hfirst
    cases hfirst
  have hnil : rest.takeWhile isDigit = [] ∧ rest.dropWhile isDigit = rest := by
    cases rest with
    | nil => exact ⟨rfl, rfl⟩
    | cons c rest =>
        have hc : ¬isDigit c = true := by simp [hrest c rfl]
        exact ⟨List.takeWhile_cons_of_neg hc, List.dropWhile_cons_of_neg hc⟩
  rw [List.cons_append, readValue, hne '"' rfl, hne '[' rfl, hne '\x7b' rfl, if_pos hfirst,
    List.takeWhile_append_of_pos hmore, List.dropWhile_append_of_pos hmore, hnil.1, hnil.2,
    List.append_nil]
  rfl

theorem reads_string {text written : List Char} (h : SpellsText text written) :
    Reads (.value (.string (String.ofList text))) ('"' :: (written ++ ['"'])) := by
  intro fuel rest hfuel _
  obtain ⟨fuel, rfl⟩ := Nat.exists_eq_add_of_lt hfuel
  simp [readValue, readText_append h]

theorem reads_emptyArray {between : List Char} (h : Spaces between) :
    Reads (.value (.array [])) ('[' :: (between ++ [']'])) := by
  intro fuel rest hfuel _
  obtain ⟨fuel, rfl⟩ := Nat.exists_eq_add_of_lt hfuel
  have hskip : skip (between ++ [']'] ++ rest) = ']' :: rest := by
    rw [List.append_assoc, skip_append h (by simp [isSpace]), List.singleton_append]
  rw [List.cons_append, readValue, if_neg (by decide), if_pos (by decide), hskip]
  rfl

theorem reads_array {items : List Json} {written : List Char}
    (h : Spells (.elements items) written) (hread : Reads (.elements items) written) :
    Reads (.value (.array items)) ('[' :: (written ++ [']'])) := by
  intro fuel rest hfuel _
  rw [List.length_cons, List.length_append] at hfuel
  obtain ⟨fuel, rfl⟩ := Nat.exists_eq_add_of_lt hfuel
  obtain ⟨c, more, hskip, hne⟩ := skip_elements h (']' :: rest)
  have hitems := hread (written.length + [']'].length + fuel) rest
    (by rw [List.length_singleton]; omega)
  rw [List.cons_append, List.append_assoc, List.singleton_append, readValue, if_neg (by decide),
    if_pos (by decide), hskip, hitems]
  split
  · rename_i heq
    cases heq
    exact absurd rfl hne
  · rfl

theorem reads_emptyObject {between : List Char} (h : Spaces between) :
    Reads (.value (.object [])) ('\x7b' :: (between ++ ['\x7d'])) := by
  intro fuel rest hfuel _
  obtain ⟨fuel, rfl⟩ := Nat.exists_eq_add_of_lt hfuel
  have hskip : skip (between ++ ['\x7d'] ++ rest) = '\x7d' :: rest := by
    rw [List.append_assoc, skip_append h (by simp [isSpace]), List.singleton_append]
  rw [List.cons_append, readValue, if_neg (by decide), if_neg (by decide), if_pos (by decide), hskip]
  rfl

theorem reads_object {fields : List (String × Json)} {written : List Char}
    (h : Spells (.members fields) written) (hread : Reads (.members fields) written) :
    Reads (.value (.object fields)) ('\x7b' :: (written ++ ['\x7d'])) := by
  intro fuel rest hfuel _
  rw [List.length_cons, List.length_append] at hfuel
  obtain ⟨fuel, rfl⟩ := Nat.exists_eq_add_of_lt hfuel
  obtain ⟨more, hskip⟩ := skip_members h ('\x7d' :: rest)
  have hfields := hread (written.length + ['\x7d'].length + fuel) rest
    (by rw [List.length_singleton]; omega)
  rw [List.cons_append, List.append_assoc, List.singleton_append, readValue, if_neg (by decide),
    if_neg (by decide), if_pos (by decide), hskip, hfields]
  rfl

theorem reads_element {value : Json} {before written behind : List Char}
    (hbefore : Spaces before) (hbehind : Spaces behind) (h : Spells (.value value) written)
    (hread : Reads (.value value) written) :
    Reads (.element value) (before ++ written ++ behind) := by
  intro fuel rest hfuel hstops
  rw [List.length_append, List.length_append] at hfuel
  obtain ⟨c, more, rfl, hspace, -⟩ := exists_cons_of_value h
  have hvalue := hread fuel (behind ++ rest) (by omega) (hstops.append hbehind)
  rw [readAround, List.append_assoc, List.append_assoc, skip_append hbefore (by simp [hspace]),
    hvalue]
  simp [skip_append hbehind fun c hc => (hstops c hc).1]

theorem stops_cons {c : Char} (hc : isSpace c = false ∧ isDigit c = false) (rest : List Char) :
    Stops (c :: rest) := by
  rintro _ ⟨⟩
  exact hc

theorem reads_lastElement {item : Json} {written : List Char}
    (hread : Reads (.element item) written) : Reads (.elements [item]) written := by
  intro fuel rest hfuel
  obtain ⟨fuel, rfl⟩ := Nat.exists_eq_add_of_lt hfuel
  have hitem := hread (written.length + fuel) (']' :: rest) (by omega)
    (stops_cons (by decide) rest)
  rw [readItems, hitem]
  rfl

theorem reads_elements {item : Json} {items : List Json} {written later : List Char}
    (hread : Reads (.element item) written) (hlater : Reads (.elements items) later) :
    Reads (.elements (item :: items)) (written ++ ',' :: later) := by
  intro fuel rest hfuel
  rw [List.length_append, List.length_cons] at hfuel
  obtain ⟨fuel, rfl⟩ : ∃ n, fuel = n + 1 := ⟨fuel - 1, by omega⟩
  have hitem := hread fuel (',' :: (later ++ ']' :: rest)) (by omega) (stops_cons (by decide) _)
  have hitems := hlater fuel rest (by omega)
  rw [List.append_assoc, List.cons_append, readItems, hitem]
  simp [hitems]

theorem reads_member {name : List Char} {value : Json}
    {before behind shown written : List Char} (hbefore : Spaces before) (hbehind : Spaces behind)
    (hname : SpellsText name shown) (hread : Reads (.element value) written) :
    Reads (.member (String.ofList name) value)
      (before ++ '"' :: (shown ++ '"' :: (behind ++ ':' :: written))) := by
  intro fuel rest hfuel hstops
  simp only [List.length_append, List.length_cons] at hfuel
  have hvalue := hread fuel rest (by omega) hstops
  have hskip (later : List Char) : skip (before ++ '"' :: later) = '"' :: later :=
    skip_append hbefore (by simp [isSpace])
  have hskip' (later : List Char) : skip (behind ++ ':' :: later) = ':' :: later :=
    skip_append hbehind (by simp [isSpace])
  simp only [List.append_assoc, List.cons_append]
  rw [readField, hskip]
  simp [readText_append hname, hskip', hvalue]

theorem reads_lastMember {name : String} {value : Json} {written : List Char}
    (hread : Reads (.member name value) written) : Reads (.members [(name, value)]) written := by
  intro fuel rest hfuel
  obtain ⟨fuel, rfl⟩ := Nat.exists_eq_add_of_lt hfuel
  have hfield := hread (written.length + fuel) ('\x7d' :: rest) (by omega)
    (stops_cons (by decide) rest)
  rw [readFields, hfield]
  rfl

theorem reads_members {name : String} {value : Json} {fields : List (String × Json)}
    {written later : List Char} (hread : Reads (.member name value) written)
    (hlater : Reads (.members fields) later) :
    Reads (.members ((name, value) :: fields)) (written ++ ',' :: later) := by
  intro fuel rest hfuel
  rw [List.length_append, List.length_cons] at hfuel
  obtain ⟨fuel, rfl⟩ : ∃ n, fuel = n + 1 := ⟨fuel - 1, by omega⟩
  have hfield := hread fuel (',' :: (later ++ '\x7d' :: rest)) (by omega)
    (stops_cons (by decide) _)
  have hfields := hlater fuel rest (by omega)
  rw [List.append_assoc, List.cons_append, readFields, hfield]
  simp [hfields]

theorem reads_of_spells {phrase : Phrase} {written : List Char} (h : Spells phrase written) :
    Reads phrase written := by
  induction h with
  | number hnumeral => exact reads_number hnumeral
  | string htext => exact reads_string htext
  | emptyArray hbetween => exact reads_emptyArray hbetween
  | array hitems ih => exact reads_array hitems ih
  | emptyObject hbetween => exact reads_emptyObject hbetween
  | object hfields ih => exact reads_object hfields ih
  | element hbefore hbehind hvalue ih => exact reads_element hbefore hbehind hvalue ih
  | lastElement _ ih => exact reads_lastElement ih
  | elements _ _ ih ihLater => exact reads_elements ih ihLater
  | member hbefore hbehind hname _ ih => exact reads_member hbefore hbehind hname ih
  | lastMember _ ih => exact reads_lastMember ih
  | members _ _ ih ihLater => exact reads_members ih ihLater

theorem decode_of_spells {value : Json} {document : String}
    (h : Spells (.element value) document.toList) : decode document = some value := by
  have hread := reads_of_spells h document.toList.length [] (Nat.le_refl _) (by simp [Stops])
  rw [List.append_nil] at hread
  rw [decode, hread]

theorem toDigits_ne_nil (n : Nat) : Nat.toDigits 10 n ≠ [] := by
  rcases Nat.lt_or_ge n 10 with hlt | hge
  · simp [Nat.toDigits_of_lt_base hlt]
  · simp [Nat.toDigits_of_base_le (by decide) hge]

theorem isNumeral_toDigits (n : Nat) : IsNumeral (Nat.toDigits 10 n) where
  ne_nil := toDigits_ne_nil n
  isDigit c hc := by
    obtain ⟨d, hd, rfl⟩ := exists_of_mem_toDigits (by decide) hc
    have hdigit : ∀ d < 10, isDigit (Nat.digitChar d) = true := by decide
    exact hdigit d hd
  lead := by
    induction n using Nat.strong_induction_on with
    | _ n ih =>
        rcases Nat.lt_or_ge n 10 with hlt | hge
        · rw [Nat.toDigits_of_lt_base hlt]
          intro hhead
          rw [Option.some.inj hhead]
        · rw [Nat.toDigits_of_base_le (by decide) hge]
          intro hhead
          obtain ⟨lead, more, hfront⟩ := List.exists_cons_of_ne_nil (toDigits_ne_nil (n / 10))
          rw [hfront] at hhead
          have hzero := ih (n / 10) (by omega) (by rw [hfront]; exact hhead)
          have hvalue := ofDigits_toDigits (b := 10) (by decide) (by decide) (n / 10)
          rw [hzero] at hvalue
          have hsmall : n / 10 = 0 := hvalue.symm
          omega

theorem spellsText_escape (c : Char) {text written : List Char} (h : SpellsText text written) :
    SpellsText (c :: text) (escape c ++ written) := by
  unfold escape
  split_ifs with hquote hslash hback htab hend hfeed hreturn hcontrol
  · obtain rfl := beq_iff_eq.1 hquote
    exact .escaped rfl h
  · obtain rfl := beq_iff_eq.1 hslash
    exact .escaped rfl h
  · obtain rfl := beq_iff_eq.1 hback
    exact .escaped rfl h
  · obtain rfl := beq_iff_eq.1 htab
    exact .escaped rfl h
  · obtain rfl := beq_iff_eq.1 hend
    exact .escaped rfl h
  · obtain rfl := beq_iff_eq.1 hfeed
    exact .escaped rfl h
  · obtain rfl := beq_iff_eq.1 hreturn
    exact .escaped rfl h
  · have hnumber : ∀ n < 32,
        numberedChar? '0' '0' (hexDigit (n / 16)) (hexDigit n) = some (Char.ofNat n) := by
      decide +kernel
    have hshown := hnumber c.toNat hcontrol
    rw [Char.ofNat_toNat] at hshown
    exact .numbered hshown h
  · rw [beq_iff_eq] at hquote hslash
    exact .plain (Char.not_lt.1 hcontrol) hquote hslash h

theorem spellsText_flatMap (text : List Char) : SpellsText text (text.flatMap escape) := by
  induction text with
  | nil => exact .nil
  | cons c text ih => exact spellsText_escape c ih

theorem spells_quote (text : String) : Spells (.value (.string text)) (quote text) := by
  have hquote := Spells.string (spellsText_flatMap text.toList)
  rwa [String.ofList_toList] at hquote

theorem spaces_newLine (depth : Nat) : Spaces (newLine depth) := by
  intro c hc
  rw [newLine, List.mem_cons, List.mem_replicate] at hc
  rcases hc with rfl | ⟨-, rfl⟩ <;> rfl

theorem spaces_nil : Spaces [] :=
  List.forall_mem_nil _

theorem spells_label (depth : Nat) (name : String) {value : Json} {written behind : List Char}
    (h : Spells (.value value) written) (hbehind : Spaces behind) :
    Spells (.member name value) (newLine depth ++ label name ++ written ++ behind) := by
  have hspace : Spaces [' '] := by simp [Spaces, isSpace]
  have hmember := Spells.member (spaces_newLine depth) spaces_nil
    (spellsText_flatMap name.toList) (.element hspace hbehind h)
  rw [String.ofList_toList] at hmember
  simpa [label, quote] using hmember

mutual

theorem spells_prettyAt (depth : Nat) (value : Json) :
    Spells (.value value) (value.prettyAt depth) := by
  cases value with
  | number n =>
      have hnumber := Spells.number (isNumeral_toDigits n)
      rwa [ofDigits_toDigits (by decide) (by decide)] at hnumber
  | string text => exact spells_quote text
  | array items =>
      cases items with
      | nil => exact .emptyArray spaces_nil
      | cons first rest =>
          exact .array (spells_prettyItems (depth + 1) (spaces_newLine depth)
            (spells_prettyAt (depth + 1) first) rest)
  | object fields =>
      cases fields with
      | nil => exact .emptyObject spaces_nil
      | cons field rest =>
          obtain ⟨name, first⟩ := field
          exact .object (spells_prettyFields (depth + 1) (spaces_newLine depth) name
            (spells_prettyAt (depth + 1) first) rest)

theorem spells_prettyItems (depth : Nat) {behind : List Char} (hbehind : Spaces behind)
    {first : Json} {written : List Char} (h : Spells (.value first) written)
    (rest : List Json) :
    Spells (.elements (first :: rest))
      (newLine depth ++ written ++ prettyItems depth rest ++ behind) := by
  cases rest with
  | nil =>
      rw [prettyItems, List.append_nil]
      exact .lastElement (.element (spaces_newLine depth) hbehind h)
  | cons item rest =>
      have hitem := spells_prettyItems depth hbehind (spells_prettyAt depth item) rest
      have hfirst := Spells.elements (.element (spaces_newLine depth) spaces_nil h) hitem
      simpa [prettyItems] using hfirst

theorem spells_prettyFields (depth : Nat) {behind : List Char} (hbehind : Spaces behind)
    (name : String) {first : Json} {written : List Char} (h : Spells (.value first) written)
    (rest : List (String × Json)) :
    Spells (.members ((name, first) :: rest))
      (newLine depth ++ label name ++ written ++ prettyFields depth rest ++ behind) := by
  cases rest with
  | nil =>
      rw [prettyFields, List.append_nil]
      exact .lastMember (spells_label depth name h hbehind)
  | cons field rest =>
      obtain ⟨other, value⟩ := field
      have hfield := spells_prettyFields depth hbehind other (spells_prettyAt depth value) rest
      have hfirst := Spells.members (spells_label depth name h spaces_nil) hfield
      simpa [prettyFields] using hfirst

end

/-- The text of a document spells its value, with an end of the last line or without it. -/
theorem spells_pretty (value : Json) {behind : String} (hbehind : Spaces behind.toList) :
    Spells (.element value) (value.pretty ++ behind).toList := by
  rw [pretty, String.toList_append, String.toList_ofList]
  exact .element spaces_nil hbehind (spells_prettyAt 0 value)

theorem decode_pretty (value : Json) : decode value.pretty = some value := by
  have hspells : Spells (.element value) (value.pretty ++ "").toList :=
    spells_pretty value spaces_nil
  rw [String.append_empty] at hspells
  exact decode_of_spells hspells

/-- Other blanks than those of the layout, a letter and a tab that are numbered. -/
example : (decode "[ \x7b\"\\u0041\":12 \x7d, \"\\u0009\"]\n").map Json.pretty =
    some "[\n  \x7b\n    \"A\": 12\n  \x7d,\n  \"\\t\"\n]" := by
  decide +kernel

end PatternSyntax.Proofs.JsonReader
