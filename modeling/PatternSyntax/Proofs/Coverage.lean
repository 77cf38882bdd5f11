import PatternSyntax.Proofs.Runs

/-!
What a run of a rule puts down accounts for the tokens that the run passes, each once and in order.
-/

namespace PatternSyntax.Proofs.Coverage

open Grammar
open PatternSyntax.Proofs.Runs

/-- The outlines that begin with a node, which a later node can wrap. -/
def IsNode : Outline → Prop
  | .node _ _ => True
  | .around _ _ _ => True
  | _ => False

/-- What some nodes promise about their parts: those for unexpected text are not empty, and blocks
begin with a brace. -/
def Fits (kind : NodeKind) (inner : List Outline) : Prop :=
  (kind = .error → Outline.sizeAll inner ≠ 0) ∧
    (kind = .codeBlock → ∃ later, inner = .token .openBrace :: later)

/-- A row of outlines accounts for the tokens from one cursor to another, and its errors stand
where they were reported. Only nodes are wrapped. -/
inductive Covers : Cursor → List Outline → Cursor → Prop
  | nil (c : Cursor) : Covers c [] c
  | token {i : Nat} {terminal : Terminal} {rest : List Terminal} {parts : List Outline}
      {stop : Cursor} :
      Covers ⟨i + 1, rest⟩ parts stop →
      Covers ⟨i, terminal :: rest⟩ (.token terminal.kind :: parts) stop
  | error {c : Cursor} {kind : ErrorKind} {parts : List Outline} {stop : Cursor} :
      Covers c parts stop → Covers c (.error kind c.index :: parts) stop
  | node {c mid stop : Cursor} {kind : NodeKind} {inner parts : List Outline} :
      Covers c inner mid → Fits kind inner →
      Covers mid parts stop → Covers c (.node kind inner :: parts) stop
  | around {c mid last stop : Cursor} {kind : NodeKind} {first : Outline}
      {later parts : List Outline} :
      kind ≠ .codeBlock → IsNode first → Covers c [first] mid → Covers mid later last →
      Covers last parts stop → Covers c (.around kind first later :: parts) stop
  | loose {c mid stop : Cursor} {inner parts : List Outline} :
      Covers c inner mid → Covers mid parts stop → Covers c (.loose inner :: parts) stop

theorem Covers.append {c mid stop : Cursor} {front back : List Outline}
    (hfront : Covers c front mid) (hback : Covers mid back stop) :
    Covers c (front ++ back) stop := by
  induction hfront with
  | nil => exact hback
  | token _ ih => exact .token (ih hback)
  | error _ ih => exact .error (ih hback)
  | node hinner hfits _ _ ih => exact .node hinner hfits (ih hback)
  | around hkind hnode hfirst hlater _ _ _ ih => exact .around hkind hnode hfirst hlater (ih hback)
  | loose hinner _ _ ih => exact .loose hinner (ih hback)

theorem Covers.index_add_length {c stop : Cursor} {parts : List Outline}
    (h : Covers c parts stop) :
    stop.index + stop.rest.length = c.index + c.rest.length := by
  induction h with
  | nil => rfl
  | token _ ih =>
      simp only [List.length_cons] at ih ⊢
      omega
  | error _ ih => exact ih
  | node _ _ _ ihInner ih => exact ih.trans ihInner
  | around _ _ _ _ _ ihFirst ihLater ih => exact ih.trans (ihLater.trans ihFirst)
  | loose _ _ ihInner ih => exact ih.trans ihInner

theorem Covers.rest_suffix {c stop : Cursor} {parts : List Outline}
    (h : Covers c parts stop) : stop.rest <:+ c.rest := by
  induction h with
  | nil => exact List.suffix_refl _
  | token _ ih => exact ih.trans (List.suffix_cons _ _)
  | error _ ih => exact ih
  | node _ _ _ ihInner ih => exact ih.trans ihInner
  | around _ _ _ _ _ ihFirst ihLater ih => exact ih.trans (ihLater.trans ihFirst)
  | loose _ _ ihInner ih => exact ih.trans ihInner

theorem Covers.length_le {c stop : Cursor} {parts : List Outline}
    (h : Covers c parts stop) : stop.rest.length ≤ c.rest.length :=
  h.rest_suffix.length_le

theorem Covers.eq_of_sizeAll_eq_zero {c stop : Cursor} {parts : List Outline}
    (h : Covers c parts stop) (hsize : Outline.sizeAll parts = 0) : stop = c := by
  induction h with
  | nil => rfl
  | token => simp [Outline.sizeAll, Outline.size] at hsize
  | error => simp [Outline.sizeAll, Outline.size] at hsize
  | node => simp [Outline.sizeAll, Outline.size] at hsize
  | around => simp [Outline.sizeAll, Outline.size] at hsize
  | loose _ _ ihInner ih =>
      simp only [Outline.sizeAll, Outline.size, Nat.add_eq_zero_iff, ite_eq_left_iff,
        Nat.add_one_ne_zero, imp_false, Decidable.not_not] at hsize
      rw [ih hsize.2, ihInner hsize.1]

theorem Covers.tokens_append {c stop : Cursor} {parts : List Outline}
    (h : Covers c parts stop) :
    Outline.tokensAll parts ++ stop.rest.map (·.kind) = c.rest.map (·.kind) := by
  induction h with
  | nil => rfl
  | token _ ih => simpa [Outline.tokensAll, Outline.tokens] using ih
  | error _ ih => simpa [Outline.tokensAll, Outline.tokens] using ih
  | node _ _ _ ihInner ih =>
      rw [Outline.tokensAll, Outline.tokens, List.append_assoc, ih, ihInner]
  | around _ _ _ _ _ ihFirst ihLater ih =>
      rw [Outline.tokensAll, Outline.tokens, List.append_assoc, List.append_assoc, ih, ihLater,
        ← ihFirst]
      simp [Outline.tokensAll]
  | loose _ _ ihInner ih =>
      rw [Outline.tokensAll, Outline.tokens, List.append_assoc, ih, ihInner]

section Runs

variable {α β σ : Type} {c origin : Cursor}

/-- From a cursor the rule ends without a fault, and puts nothing down. -/
def Finds (g : Grammar α) (c : Cursor) (Q : α → Cursor → Prop) : Prop :=
  ∃ value stop, g c = .ok ⟨value, [], stop⟩ ∧ Q value stop

/-- From a cursor the rule ends without a fault, and what it puts down accounts for the tokens
from `origin` on. The origin lies before the cursor while a finished outline has not been put
down. -/
def Lays (g : Grammar α) (origin c : Cursor) (Q : α → Cursor → Prop) : Prop :=
  ∃ done, g c = .ok done ∧ Covers origin done.parts done.cursor ∧ Q done.value done.cursor

theorem Finds.mono {g : Grammar α} {P Q : α → Cursor → Prop} (h : Finds g c P)
    (hPQ : ∀ a stop, P a stop → Q a stop) : Finds g c Q := by
  obtain ⟨value, stop, hrun, hP⟩ := h
  exact ⟨value, stop, hrun, hPQ _ _ hP⟩

theorem Lays.mono {g : Grammar α} {P Q : α → Cursor → Prop} (h : Lays g origin c P)
    (hPQ : ∀ a stop, stop.rest.length ≤ origin.rest.length → P a stop → Q a stop) :
    Lays g origin c Q := by
  obtain ⟨done, hrun, hcovers, hP⟩ := h
  exact ⟨done, hrun, hcovers, hPQ _ _ hcovers.length_le hP⟩

theorem finds_pure {a : α} {Q : α → Cursor → Prop} (h : Q a c) :
    Finds (pure a : Grammar α) c Q :=
  ⟨a, c, rfl, h⟩

theorem lays_pure {a : α} {Q : α → Cursor → Prop} (h : Q a c) :
    Lays (pure a : Grammar α) c c Q :=
  ⟨_, rfl, .nil c, h⟩

theorem finds_bind {g : Grammar α} {f : α → Grammar β} {P : α → Cursor → Prop}
    {Q : β → Cursor → Prop} (hg : Finds g c P) (hf : ∀ a mid, P a mid → Finds (f a) mid Q) :
    Finds (g >>= f) c Q := by
  obtain ⟨a, mid, hrun, hP⟩ := hg
  obtain ⟨b, stop, hrun', hQ⟩ := hf a mid hP
  exact ⟨b, stop, bind_ok hrun hrun', hQ⟩

theorem lays_bind {g : Grammar α} {f : α → Grammar β} {P : α → Cursor → Prop}
    {Q : β → Cursor → Prop} (hg : Lays g origin c P)
    (hf : ∀ a mid, mid.rest.length ≤ origin.rest.length → P a mid → Lays (f a) mid mid Q) :
    Lays (g >>= f) origin c Q := by
  obtain ⟨first, hrun, hcovers, hP⟩ := hg
  obtain ⟨second, hrun', hcovers', hQ⟩ := hf _ _ hcovers.length_le hP
  exact ⟨_, bind_ok hrun hrun', hcovers.append hcovers', hQ⟩

theorem lays_bind_finds {g : Grammar α} {f : α → Grammar β} {P : α → Cursor → Prop}
    {Q : β → Cursor → Prop} (hg : Finds g c P) (hf : ∀ a mid, P a mid → Lays (f a) origin mid Q) :
    Lays (g >>= f) origin c Q := by
  obtain ⟨a, mid, hrun, hP⟩ := hg
  obtain ⟨done, hrun', hcovers, hQ⟩ := hf a mid hP
  exact ⟨_, bind_ok hrun hrun', hcovers, hQ⟩

/-- The kind of the token behind a cursor. -/
def nextKind (c : Cursor) : Option TokenKind :=
  c.rest[0]?.map (·.kind)

theorem exists_of_nextKind {kind : TokenKind} (h : nextKind c = some kind) :
    ∃ glued rest, c.rest = ⟨kind, glued⟩ :: rest := by
  cases hrest : c.rest with
  | nil => simp [nextKind, hrest] at h
  | cons terminal rest =>
      obtain ⟨found, glued⟩ := terminal
      simp only [nextKind, hrest, List.getElem?_cons_zero, Option.map_some,
        Option.some.injEq] at h
      exact ⟨glued, rest, by rw [h]⟩

theorem length_pos_of_nextKind {kind : TokenKind} (h : nextKind c = some kind) :
    0 < c.rest.length := by
  obtain ⟨glued, rest, hrest⟩ := exists_of_nextKind h
  simp [hrest]

theorem finds_look {g : Grammar α} {f : α → Grammar β} {a : α} {mid : Cursor}
    {Q : β → Cursor → Prop} (hrun : g c = .ok ⟨a, [], mid⟩) (h : Finds (f a) mid Q) :
    Finds (g >>= f) c Q := by
  obtain ⟨b, stop, hrun', hQ⟩ := h
  exact ⟨b, stop, bind_ok hrun hrun', hQ⟩

theorem lays_look {g : Grammar α} {f : α → Grammar β} {a : α} {mid : Cursor}
    {Q : β → Cursor → Prop} (hrun : g c = .ok ⟨a, [], mid⟩) (h : Lays (f a) origin mid Q) :
    Lays (g >>= f) origin c Q := by
  obtain ⟨done, hrun', hcovers, hQ⟩ := h
  exact ⟨_, bind_ok hrun hrun', hcovers, hQ⟩

theorem finds_ifAt {kind : TokenKind} {yes no : Grammar α} {Q : α → Cursor → Prop}
    (hyes : nextKind c = some kind → Finds yes c Q)
    (hno : nextKind c ≠ some kind → Finds no c Q) :
    Finds (isAt kind >>= fun found => if found = true then yes else no) c Q := by
  apply finds_look (a := nextKind c == some kind) rfl
  split
  · exact hyes (beq_iff_eq.1 ‹_›)
  · exact hno fun h => ‹¬_› (beq_iff_eq.2 h)

theorem lays_ifAt {kind : TokenKind} {yes no : Grammar α} {Q : α → Cursor → Prop}
    (hyes : nextKind c = some kind → Lays yes origin c Q)
    (hno : nextKind c ≠ some kind → Lays no origin c Q) :
    Lays (isAt kind >>= fun found => if found = true then yes else no) origin c Q := by
  apply lays_look (a := nextKind c == some kind) rfl
  split
  · exact hyes (beq_iff_eq.1 ‹_›)
  · exact hno fun h => ‹¬_› (beq_iff_eq.2 h)

theorem lays_put {outline : Outline} {Q : Unit → Cursor → Prop}
    (hcovers : Covers origin [outline] c) (h : Q () c) : Lays (put outline) origin c Q :=
  ⟨_, rfl, hcovers, h⟩

theorem lays_put_bind {outline : Outline} {f : Unit → Grammar α} {Q : α → Cursor → Prop}
    (hcovers : Covers origin [outline] c) (h : Lays (f ()) c c Q) :
    Lays (put outline >>= f) origin c Q := by
  obtain ⟨done, hrun, hdone, hQ⟩ := h
  exact ⟨_, bind_ok (show put outline c = .ok ⟨(), [outline], c⟩ from rfl) hrun,
    hcovers.append hdone, hQ⟩

theorem lays_putAll_bind {parts : List Outline} {f : Unit → Grammar α} {Q : α → Cursor → Prop}
    (hcovers : Covers origin parts c) (h : Lays (f ()) c c Q) :
    Lays (putAll parts >>= f) origin c Q := by
  obtain ⟨done, hrun, hdone, hQ⟩ := h
  exact ⟨_, bind_ok (show putAll parts c = .ok ⟨(), parts, c⟩ from rfl) hrun,
    hcovers.append hdone, hQ⟩

theorem lays_put_put_bind {first second : Outline} {f : Unit → Grammar α}
    {Q : α → Cursor → Prop} (hcovers : Covers origin [first, second] c)
    (h : Lays (f ()) c c Q) : Lays (put first >>= fun _ => put second >>= f) origin c Q := by
  obtain ⟨done, hrun, hdone, hQ⟩ := h
  have hput (outline : Outline) : put outline c = .ok ⟨(), [outline], c⟩ := rfl
  exact ⟨_, bind_ok (hput first) (bind_ok (hput second) hrun), hcovers.append hdone, hQ⟩

theorem lays_bump :
    Lays bump c c fun _ stop => 0 < c.rest.length → stop.rest.length < c.rest.length := by
  obtain ⟨i, rest⟩ := c
  cases rest with
  | nil => exact ⟨_, rfl, .nil _, by simp⟩
  | cons terminal rest => exact ⟨_, rfl, .token (.nil _), by simp⟩

theorem lays_bump_cons_bind {i : Nat} {terminal : Terminal} {rest : List Terminal}
    {f : Unit → Grammar α} {Q : α → Cursor → Prop} (h : Lays (f ()) ⟨i + 1, rest⟩ ⟨i + 1, rest⟩ Q) :
    Lays (bump >>= f) ⟨i, terminal :: rest⟩ ⟨i, terminal :: rest⟩ Q := by
  obtain ⟨done, hrun, hcovers, hQ⟩ := h
  exact ⟨_, bind_ok (show bump ⟨i, terminal :: rest⟩ = .ok ⟨(), _, ⟨i + 1, rest⟩⟩ from rfl) hrun,
    .token hcovers, hQ⟩

theorem lays_report {kind : ErrorKind} : Lays (report kind) c c fun _ stop => stop = c :=
  ⟨_, rfl, .error (.nil c), rfl⟩

theorem lays_report_bind {kind : ErrorKind} {f : Unit → Grammar α} {Q : α → Cursor → Prop}
    (h : Lays (f ()) c c Q) : Lays (report kind >>= f) c c Q :=
  lays_bind lays_report fun _ _ _ heq => heq ▸ h

theorem lays_reportUnexpected : Lays reportUnexpected c c fun _ stop => stop = c :=
  lays_look rfl lays_report

theorem lays_eat {kind : TokenKind} :
    Lays (eat kind) c c fun found stop => found = true → stop.rest.length < c.rest.length := by
  refine lays_ifAt (fun hat => ?_) (fun _ => lays_pure (by simp))
  refine lays_bind lays_bump fun _ mid _ hmid => lays_pure fun _ => ?_
  exact hmid (length_pos_of_nextKind hat)

theorem eat_of_nextKind_ne {kind : TokenKind} (h : nextKind c ≠ some kind) :
    eat kind c = .ok ⟨false, [], c⟩ := by
  have hat : isAt kind c = .ok ⟨false, [], c⟩ := by
    show Except.ok (Parsed.mk (nextKind c == some kind) [] c) = _
    rw [beq_eq_false_iff_ne.2 h]
  unfold eat
  rw [bind_apply, hat]
  rfl

theorem lays_expect {kind : TokenKind} {missing : ErrorKind} :
    Lays (expect kind missing) c c fun _ _ => True := by
  apply lays_bind lays_eat
  intro found mid _ _
  split
  · exact lays_pure trivial
  · exact lays_report.mono fun _ _ _ _ => trivial

theorem lays_bumpMany (n : Nat) : Lays (bumpMany n) c c fun _ _ => True := by
  induction n generalizing c with
  | zero => exact lays_pure trivial
  | succ n ih => exact lays_bind lays_bump fun _ _ _ _ => ih

/-- A node that accounts for the tokens from one cursor to another. -/
def Makes (c : Cursor) (outline : Outline) (stop : Cursor) : Prop :=
  IsNode outline ∧ Covers c [outline] stop

/-- A node that accounts for the tokens from one cursor to another, of which there is at least
one. -/
def Builds (c : Cursor) (outline : Outline) (stop : Cursor) : Prop :=
  Makes c outline stop ∧ stop.rest.length < c.rest.length

/-- A node may have been found; if not, no token was passed. -/
def Answers (c : Cursor) : Option Outline → Cursor → Prop
  | none, stop => stop = c
  | some outline, stop => Builds c outline stop

theorem finds_capture {g : Grammar α} {P : α → Cursor → Prop} (h : Lays g origin c P) :
    Finds (capture g) c fun captured stop =>
      Covers origin captured.2 stop ∧ P captured.1 stop := by
  obtain ⟨done, hrun, hcovers, hP⟩ := h
  exact ⟨(done.value, done.parts), done.cursor, by simp only [capture, hrun], hcovers, hP⟩

theorem finds_capture_bind (origin : Cursor) {g : Grammar α} {f : α × List Outline → Grammar β}
    {P : α → Cursor → Prop} {Q : β → Cursor → Prop} (hg : Lays g origin c P)
    (hf : ∀ a parts mid, Covers origin parts mid → P a mid → Finds (f (a, parts)) mid Q) :
    Finds (capture g >>= f) c Q :=
  finds_bind (finds_capture hg) fun captured mid ⟨hcovers, hP⟩ =>
    hf captured.1 captured.2 mid hcovers hP

theorem finds_node {kind : NodeKind} (hkind : kind ≠ .error ∧ kind ≠ .codeBlock) {g : Grammar Unit}
    {P : Unit → Cursor → Prop} (h : Lays g origin c P) :
    Finds (node kind g) c fun outline stop => Makes origin outline stop ∧ P () stop :=
  finds_bind (finds_capture h) fun _ _ ⟨hcovers, hP⟩ => finds_pure ⟨⟨trivial, .node hcovers
    ⟨fun h => absurd h hkind.1, fun h => absurd h hkind.2⟩ (.nil _)⟩, hP⟩

theorem finds_node_true {kind : NodeKind} (hkind : kind ≠ .error ∧ kind ≠ .codeBlock)
    {g : Grammar Unit}
    (h : Lays g origin c fun _ _ => True) : Finds (node kind g) c (Makes origin) :=
  (finds_node hkind h).mono fun _ _ hmakes => hmakes.1

theorem finds_around {kind : NodeKind} {first : Outline} (hfirst : Makes origin first c)
    {g : Grammar Unit} {P : Unit → Cursor → Prop} (h : Lays g c c P)
    (hkind : kind ≠ .codeBlock := by decide) :
    Finds (around kind first g) c fun outline stop => Makes origin outline stop ∧ P () stop :=
  finds_bind (finds_capture h) fun _ _ ⟨hcovers, hP⟩ =>
    finds_pure ⟨⟨trivial, .around hkind hfirst.1 hfirst.2 hcovers (.nil _)⟩, hP⟩

theorem Lays.of_true {g : Grammar α} {Q : α → Cursor → Prop}
    (h : Lays g origin c fun _ _ => True)
    (hQ : ∀ a stop, stop.rest.length ≤ origin.rest.length → Q a stop) : Lays g origin c Q :=
  h.mono fun a stop hle _ => hQ a stop hle

theorem lays_bump_bind {f : Unit → Grammar α} (hpos : 0 < c.rest.length)
    (h : ∀ mid, mid.rest.length < c.rest.length → Lays (f ()) mid mid fun _ _ => True) :
    Lays (bump >>= f) c c fun _ stop => stop.rest.length < c.rest.length :=
  lays_bind lays_bump fun _ mid _ hmid => (h mid (hmid hpos)).of_true fun _ _ hle =>
    Nat.lt_of_le_of_lt hle (hmid hpos)

theorem finds_node_bump {kind : NodeKind} (hkind : kind ≠ .error ∧ kind ≠ .codeBlock)
    {f : Unit → Grammar Unit}    (hpos : 0 < c.rest.length)
    (h : ∀ mid, mid.rest.length < c.rest.length → Lays (f ()) mid mid fun _ _ => True) :
    Finds (node kind (bump >>= f)) c (Builds c) :=
  finds_node hkind (lays_bump_bind hpos h)

theorem finds_codeBlock_bump {f : Unit → Grammar Unit} (hbrace : nextKind c = some .openBrace)
    (h : ∀ mid, Lays (f ()) mid mid fun _ _ => True) :
    Finds (node .codeBlock (bump >>= f)) c (Builds c) := by
  obtain ⟨i, rest⟩ := c
  obtain ⟨glued, later, rfl⟩ := exists_of_nextKind hbrace
  obtain ⟨done, hrun, hcovers, -⟩ := h ⟨i + 1, later⟩
  have hbump : bump ⟨i, ⟨.openBrace, glued⟩ :: later⟩ =
      .ok ⟨(), [.token .openBrace], ⟨i + 1, later⟩⟩ := rfl
  have hcapture : capture (bump >>= f) ⟨i, ⟨.openBrace, glued⟩ :: later⟩ =
      .ok ⟨(done.value, .token .openBrace :: done.parts), [], done.cursor⟩ := by
    simp only [capture, bind_ok hbump hrun]
    rfl
  refine finds_look hcapture (finds_pure ⟨⟨trivial, .node (.token hcovers)
    ⟨fun h => absurd h (by decide), fun _ => ⟨_, rfl⟩⟩ (.nil _)⟩, ?_⟩)
  exact Nat.lt_succ_of_le hcovers.length_le

theorem finds_node_token {kind : NodeKind} (hkind : kind ≠ .error ∧ kind ≠ .codeBlock)
    (hpos : 0 < c.rest.length) :
    Finds (node kind bump) c (Builds c) :=
  finds_node hkind (lays_bump.mono fun _ _ _ hlt => hlt hpos)

theorem finds_around_bump {kind : NodeKind} {first : Outline} (hfirst : Makes origin first c)
    {f : Unit → Grammar Unit} (hpos : 0 < c.rest.length)
    (h : ∀ mid, mid.rest.length < c.rest.length → Lays (f ()) mid mid fun _ _ => True)
    (hkind : kind ≠ .codeBlock := by decide) :
    Finds (around kind first (bump >>= f)) c fun outline stop =>
      Makes origin outline stop ∧ stop.rest.length < c.rest.length :=
  finds_around hfirst (lays_bump_bind hpos h) hkind

theorem Finds.covers {g : Grammar Outline} (h : Finds g c (Builds c)) :
    Finds g c fun outline stop =>
      Covers c [outline] stop ∧ stop.rest.length < c.rest.length :=
  h.mono fun _ _ hbuilds => ⟨hbuilds.1.2, hbuilds.2⟩

theorem Finds.covers_of_makes {g : Grammar Outline} (h : Finds g c (Makes c)) :
    Finds g c fun outline stop => Covers c [outline] stop ∧ True :=
  h.mono fun _ _ hmakes => ⟨hmakes.2, trivial⟩

theorem lays_found {g : Grammar Outline} {P : Cursor → Prop}
    (h : Finds g c fun outline stop => Covers c [outline] stop ∧ P stop) :
    Lays (g >>= fun outline => put outline) c c fun _ stop => P stop :=
  lays_bind_finds h fun _ _ ⟨hcovers, hP⟩ => lays_put hcovers hP

theorem lays_found_bind {g : Grammar Outline} {f : Unit → Grammar β} {P : Cursor → Prop}
    {Q : β → Cursor → Prop}
    (h : Finds g c fun outline stop => Covers c [outline] stop ∧ P stop)
    (hf : ∀ mid, mid.rest.length ≤ c.rest.length → P mid → Lays (f ()) mid mid Q) :
    Lays (g >>= fun outline => put outline >>= f) c c Q := by
  refine lays_bind_finds h fun outline mid ⟨hcovers, hP⟩ => ?_
  exact lays_put_bind hcovers (hf mid hcovers.length_le hP)

theorem lays_orReport {missing : ErrorKind} {g : Grammar (Option Outline)}
    (h : Finds g c (Answers c)) : Lays (orReport missing g) c c fun _ _ => True := by
  apply lays_bind_finds h
  intro found mid hfound
  cases found with
  | none =>
      cases hfound
      exact lays_report.mono fun _ _ _ _ => trivial
  | some outline => exact lays_put hfound.1.2 trivial

/-- From a cursor the rule ends without a fault. -/
def Ends (g : Grammar α) (c : Cursor) (Q : α → Cursor → Prop) : Prop :=
  ∃ done, g c = .ok done ∧ Q done.value done.cursor

theorem Finds.ends {g : Grammar α} {Q : α → Cursor → Prop} (h : Finds g c Q) : Ends g c Q := by
  obtain ⟨value, stop, hrun, hQ⟩ := h
  exact ⟨_, hrun, hQ⟩

theorem Lays.ends {g : Grammar α} {Q : α → Cursor → Prop} (h : Lays g c c Q) :
    Ends g c fun a stop => stop.rest.length ≤ c.rest.length ∧ Q a stop := by
  obtain ⟨done, hrun, hcovers, hQ⟩ := h
  exact ⟨done, hrun, hcovers.length_le, hQ⟩

theorem ends_bind {g : Grammar α} {f : α → Grammar β} {P : α → Cursor → Prop}
    {Q : β → Cursor → Prop} (hg : Ends g c P) (hf : ∀ a mid, P a mid → Ends (f a) mid Q) :
    Ends (g >>= f) c Q := by
  obtain ⟨first, hrun, hP⟩ := hg
  obtain ⟨second, hrun', hQ⟩ := hf _ _ hP
  exact ⟨_, bind_ok hrun hrun', hQ⟩

theorem finds_lookahead {g : Grammar α} {P : α → Cursor → Prop} (h : Ends g c P) :
    Finds (lookahead g) c fun a stop => stop = c ∧ lookahead g c = .ok ⟨a, [], c⟩ := by
  obtain ⟨done, hrun, -⟩ := h
  have hlook : lookahead g c = .ok ⟨done.value, [], c⟩ := by simp only [lookahead, hrun]
  exact ⟨done.value, c, hlook, rfl, hlook⟩

theorem finds_attempt {g : Grammar (Option Outline)}
    (h : Finds g c fun found stop => ∀ outline, found = some outline → Builds c outline stop) :
    Finds (attempt g) c (Answers c) := by
  obtain ⟨found, stop, hrun, hP⟩ := h
  cases found with
  | none => exact ⟨none, c, by simp [attempt, hrun], rfl⟩
  | some outline => exact ⟨some outline, stop, by simp [attempt, hrun], hP outline rfl⟩

/-- A step that is done establishes the outcome; one that is not keeps the invariant, and passes a
token. -/
def Turns (I Q : σ → Cursor → Prop) (c : Cursor) : ForInStep σ → Cursor → Prop
  | .done s, stop => Q s stop
  | .yield s, stop => I s stop ∧ stop.rest.length < c.rest.length

theorem lays_iterateWithin {step : σ → Grammar (ForInStep σ)} {I Q : σ → Cursor → Prop}
    (hstep : ∀ s mid, mid.rest.length ≤ c.rest.length → I s mid →
      Lays (step s) mid mid (Turns I Q mid))
    (limit : Nat) {s : σ} {mid : Cursor} (hmid : mid.rest.length ≤ c.rest.length)
    (hlimit : mid.rest.length < limit) (hI : I s mid) :
    Lays (iterateWithin step limit s) mid mid Q := by
  induction limit generalizing s mid with
  | zero => omega
  | succ limit ih =>
      apply lays_bind (hstep s mid hmid hI)
      intro next last _ hnext
      cases next with
      | done s => exact lays_pure hnext
      | yield s =>
          obtain ⟨hI, hlt⟩ := hnext
          exact ih (by omega) (by omega) hI

theorem lays_iterate {step : σ → Grammar (ForInStep σ)} {I Q : σ → Cursor → Prop} {s : σ}
    (hI : I s c)
    (hstep : ∀ s mid, mid.rest.length ≤ c.rest.length → I s mid →
      Lays (step s) mid mid (Turns I Q mid)) :
    Lays (iterate step s) c c Q :=
  lays_iterateWithin hstep _ (Nat.le_refl _) (Nat.lt_succ_self _) hI

theorem finds_iterateWithin {step : σ → Grammar (ForInStep σ)} {I Q : σ → Cursor → Prop}
    (hstep : ∀ s mid, mid.rest.length ≤ c.rest.length → I s mid →
      Finds (step s) mid (Turns I Q mid))
    (limit : Nat) {s : σ} {mid : Cursor} (hmid : mid.rest.length ≤ c.rest.length)
    (hlimit : mid.rest.length < limit) (hI : I s mid) :
    Finds (iterateWithin step limit s) mid Q := by
  induction limit generalizing s mid with
  | zero => omega
  | succ limit ih =>
      apply finds_bind (hstep s mid hmid hI)
      intro next last hnext
      cases next with
      | done s => exact finds_pure hnext
      | yield s =>
          obtain ⟨hI, hlt⟩ := hnext
          exact ih (by omega) (by omega) hI

theorem finds_iterate {step : σ → Grammar (ForInStep σ)} {I Q : σ → Cursor → Prop} {s : σ}
    (hI : I s c)
    (hstep : ∀ s mid, mid.rest.length ≤ c.rest.length → I s mid →
      Finds (step s) mid (Turns I Q mid)) :
    Finds (iterate step s) c Q :=
  finds_iterateWithin hstep _ (Nat.le_refl _) (Nat.lt_succ_self _) hI

theorem lays_repeatWhile_until {g : Grammar Bool} {Q : Cursor → Prop}
    (h : ∀ mid, mid.rest.length ≤ c.rest.length → Lays g mid mid fun again stop =>
      (again = true → stop.rest.length < mid.rest.length) ∧ (again = false → Q stop)) :
    Lays (repeatWhile g) c c fun _ stop => Q stop := by
  apply lays_iterate (I := fun _ _ => True) trivial
  intro _ mid hmid _
  refine lays_bind (h mid hmid) fun again stop _ ⟨hagain, hQ⟩ => ?_
  cases again with
  | true => exact lays_pure ⟨trivial, hagain rfl⟩
  | false => exact lays_pure (hQ rfl)

theorem lays_repeatWhile {g : Grammar Bool}
    (h : ∀ mid, mid.rest.length ≤ c.rest.length →
      Lays g mid mid fun again stop => again = true → stop.rest.length < mid.rest.length) :
    Lays (repeatWhile g) c c fun _ _ => True :=
  lays_repeatWhile_until fun mid hmid => (h mid hmid).mono fun _ _ _ hagain =>
    ⟨hagain, fun _ => trivial⟩

theorem lays_bumpAll : Lays bumpAll c c fun _ stop => stop.rest = [] := by
  refine lays_repeatWhile_until fun mid _ => lays_look rfl ?_
  split
  · exact lays_pure ⟨nofun, fun _ => List.isEmpty_iff.1 ‹_›⟩
  · refine lays_bind lays_bump fun _ _ _ hlt => lays_pure ⟨fun _ => hlt ?_, nofun⟩
    exact List.length_pos_iff.2 fun h => ‹¬_› (List.isEmpty_iff.2 h)

theorem repeatWhile_of_false {g : Grammar Bool} (h : g c = .ok ⟨false, [], c⟩) :
    repeatWhile g c = .ok ⟨(), [], c⟩ := by
  unfold repeatWhile iterate iterateWithin again
  rw [bind_apply, bind_apply, h]
  rfl

end Runs

end PatternSyntax.Proofs.Coverage
