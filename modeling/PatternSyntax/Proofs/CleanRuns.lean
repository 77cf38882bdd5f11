import PatternSyntax.Proofs.Neatness

/-!
Runs that put down no error. Whatever a rule puts down then is neat, and a judgement about a run
keeps account of the brackets that the run puts down directly.
-/

namespace PatternSyntax.Proofs.CleanRuns

open Grammar
open PatternSyntax.Proofs.Coverage
open PatternSyntax.Proofs.Neatness
open PatternSyntax.Proofs.Runs

variable {α β σ : Type} {c : Cursor}

/-- If the rule ends without an error, this holds of its value, of what it put down and of the place
that it reached. -/
def After (g : Grammar α) (c : Cursor) (Q : α → List Outline → Cursor → Prop) : Prop :=
  ∀ done, g c = .ok done → Outline.hasErrorAll done.parts = false →
    Q done.value done.parts done.cursor

/-- If the rule ends without an error, what it put down is neat, and this holds of its value, of the
brackets it put down directly and of the place that it reached. -/
def Clean (g : Grammar α) (c : Cursor) (Q : α → List TokenKind → Cursor → Prop) : Prop :=
  After g c fun a parts stop => Neat parts ∧ Q a (brackets parts) stop

/-- No bracket was put down directly. -/
def Bare (P : α → Cursor → Prop) (a : α) (kinds : List TokenKind) (stop : Cursor) : Prop :=
  kinds = [] ∧ P a stop

/-- The rule answers with a neat node, or there is an error. -/
def Tidies (g : Grammar Outline) (c : Cursor) : Prop :=
  Clean g c (Bare fun outline _ => Tidy outline)

/-- What the rule may answer with is a neat node, or there is an error. -/
def Offers (g : Grammar (Option Outline)) (c : Cursor) : Prop :=
  Clean g c (Bare fun found _ => ∀ outline, found = some outline → Tidy outline)

theorem after_bind {g : Grammar α} {f : α → Grammar β} {P : α → List Outline → Cursor → Prop}
    {Q : β → List Outline → Cursor → Prop} (hg : After g c P)
    (hf : ∀ a front mid, P a front mid →
      After (f a) mid fun b back stop => Q b (front ++ back) stop) :
    After (g >>= f) c Q := by
  intro done hrun hclean
  obtain ⟨first, second, hfirst, hsecond, rfl⟩ := exists_of_bind_ok hrun
  rw [hasErrorAll_append, Bool.or_eq_false_iff] at hclean
  exact hf _ _ _ (hg first hfirst hclean.1) second hsecond hclean.2

theorem after_look {g : Grammar α} {f : α → Grammar β} {a : α} {mid : Cursor}
    {Q : β → List Outline → Cursor → Prop} (hrun : g c = .ok ⟨a, [], mid⟩)
    (h : After (f a) mid Q) : After (g >>= f) c Q := by
  intro done hdone hclean
  obtain ⟨first, second, hfirst, hsecond, rfl⟩ := exists_of_bind_ok hdone
  cases hrun.symm.trans hfirst
  exact h second hsecond hclean

theorem after_pure {a : α} {Q : α → List Outline → Cursor → Prop} (h : Q a [] c) :
    After (pure a : Grammar α) c Q := by
  intro done hrun _
  cases hrun
  exact h

theorem after_report_bind {kind : ErrorKind} {f : Unit → Grammar α}
    {Q : α → List Outline → Cursor → Prop} : After (report kind >>= f) c Q := by
  intro done hrun hclean
  obtain ⟨first, second, hfirst, -, rfl⟩ := exists_of_bind_ok hrun
  cases hfirst
  cases hclean

theorem after_report {kind : ErrorKind} {Q : Unit → List Outline → Cursor → Prop} :
    After (report kind) c Q := by
  intro done hrun hclean
  cases hrun
  cases hclean

theorem after_bump_bind {kind : TokenKind} {f : Unit → Grammar α}
    {Q : α → List Outline → Cursor → Prop} (hnext : nextKind c = some kind)
    (h : ∀ mid, mid.rest = c.rest.tail →
      After (f ()) mid fun b back stop => Q b (.token kind :: back) stop) :
    After (bump >>= f) c Q := by
  obtain ⟨i, rest⟩ := c
  obtain ⟨glued, later, rfl⟩ := exists_of_nextKind hnext
  intro done hrun hclean
  obtain ⟨first, second, hfirst, hsecond, rfl⟩ := exists_of_bind_ok hrun
  cases hfirst
  exact h ⟨i + 1, later⟩ rfl second hsecond hclean

theorem after_iterate {step : σ → Grammar (ForInStep σ)} {Q : σ → σ → List Outline → Prop}
    (hstep : ∀ s c, After (step s) c fun next front _ =>
      match next with
      | .done last => Q s last front
      | .yield mid => ∀ last back, Q mid last back → Q s last (front ++ back)) (s : σ) :
    After (iterate step s) c fun last parts _ => Q s last parts := by
  suffices h : ∀ limit s c, After (iterateWithin step limit s) c fun last parts _ =>
    Q s last parts from h _ s c
  intro limit
  induction limit with
  | zero => exact fun _ _ _ hrun => nomatch hrun
  | succ limit ih =>
      intro s c
      refine after_bind (hstep s c) fun next front mid hnext => ?_
      cases next with
      | done last =>
          apply after_pure
          rwa [List.append_nil]
      | yield s =>
          intro done hrun hclean
          exact hnext _ _ (ih s mid done hrun hclean)

theorem After.mono {g : Grammar α} {P Q : α → List Outline → Cursor → Prop} (h : After g c P)
    (hPQ : ∀ a parts stop, P a parts stop → Q a parts stop) : After g c Q :=
  fun done hrun hclean => hPQ _ _ _ (h done hrun hclean)

theorem Clean.mono {g : Grammar α} {P Q : α → List TokenKind → Cursor → Prop} (h : Clean g c P)
    (hPQ : ∀ a kinds stop, P a kinds stop → Q a kinds stop) : Clean g c Q :=
  After.mono h fun _ _ _ hP => ⟨hP.1, hPQ _ _ _ hP.2⟩

theorem clean_bind {g : Grammar α} {f : α → Grammar β} {P : α → List TokenKind → Cursor → Prop}
    {Q : β → List TokenKind → Cursor → Prop} (hg : Clean g c P)
    (hf : ∀ a front mid, P a front mid →
      Clean (f a) mid fun b back stop => Q b (front ++ back) stop) :
    Clean (g >>= f) c Q := by
  refine after_bind hg fun a front mid hP => After.mono (hf a _ mid hP.2) fun b back stop hQ => ?_
  rw [brackets_append]
  exact ⟨hP.1.append hQ.1, hQ.2⟩

theorem clean_bind_bare {g : Grammar α} {f : α → Grammar β} {P : α → Cursor → Prop}
    {Q : β → List TokenKind → Cursor → Prop} (hg : Clean g c (Bare P))
    (hf : ∀ a mid, P a mid → Clean (f a) mid Q) : Clean (g >>= f) c Q := by
  apply clean_bind hg
  rintro a front mid ⟨rfl, hP⟩
  exact hf a mid hP

theorem clean_look {g : Grammar α} {f : α → Grammar β} {a : α} {mid : Cursor}
    {Q : β → List TokenKind → Cursor → Prop} (hrun : g c = .ok ⟨a, [], mid⟩)
    (h : Clean (f a) mid Q) : Clean (g >>= f) c Q :=
  after_look hrun h

theorem clean_pure {a : α} {Q : α → List TokenKind → Cursor → Prop} (h : Q a [] c) :
    Clean (pure a : Grammar α) c Q :=
  after_pure ⟨trivial, h⟩

theorem clean_ifAt {kind : TokenKind} {yes no : Grammar α}
    {Q : α → List TokenKind → Cursor → Prop}
    (hyes : nextKind c = some kind → Clean yes c Q)
    (hno : nextKind c ≠ some kind → Clean no c Q) :
    Clean (isAt kind >>= fun found => if found = true then yes else no) c Q := by
  apply clean_look (a := nextKind c == some kind) rfl
  split
  · exact hyes (beq_iff_eq.1 ‹_›)
  · exact hno fun h => ‹¬_› (beq_iff_eq.2 h)

theorem clean_report_bind {kind : ErrorKind} {f : Unit → Grammar α}
    {Q : α → List TokenKind → Cursor → Prop} : Clean (report kind >>= f) c Q :=
  after_report_bind

theorem clean_report {kind : ErrorKind} {Q : Unit → List TokenKind → Cursor → Prop} :
    Clean (report kind) c Q :=
  after_report

theorem clean_fail {fault : Fault} {Q : α → List TokenKind → Cursor → Prop} :
    Clean (fail fault) c Q :=
  fun _ hrun _ => nomatch hrun

theorem clean_bump_bind {kind : TokenKind} {f : Unit → Grammar α}
    {Q : α → List TokenKind → Cursor → Prop} (hnext : nextKind c = some kind) (hkind : Plain kind)
    (h : ∀ mid, mid.rest = c.rest.tail →
      Clean (f ()) mid fun b back stop => Q b (bracketOf kind ++ back) stop) :
    Clean (bump >>= f) c Q := by
  refine after_bump_bind hnext fun mid hmid => After.mono (h mid hmid) fun b back stop hQ => ?_
  rw [brackets_token]
  exact ⟨⟨hkind, hQ.1⟩, hQ.2⟩

theorem clean_bump {kind : TokenKind} {Q : Unit → List TokenKind → Cursor → Prop}
    (hnext : nextKind c = some kind) (hkind : Plain kind)
    (h : ∀ mid, mid.rest = c.rest.tail → Q () (bracketOf kind) mid) : Clean bump c Q := by
  obtain ⟨i, rest⟩ := c
  obtain ⟨glued, later, rfl⟩ := exists_of_nextKind hnext
  intro done hrun _
  cases hrun
  refine ⟨⟨hkind, trivial⟩, ?_⟩
  rw [brackets_singleton]
  exact h ⟨i + 1, later⟩ rfl

theorem nextKind_of_tail {kind : TokenKind} {mid : Cursor} (hmid : mid.rest = c.rest.tail)
    (hahead : c.rest[1]?.map (·.kind) = some kind) : nextKind mid = some kind := by
  rw [nextKind, hmid, List.getElem?_tail]
  exact hahead

theorem after_eat {kind : TokenKind} :
    After (eat kind) c fun found parts _ => parts = if found then [.token kind] else [] := by
  refine after_look (a := nextKind c == some kind) rfl ?_
  split
  · refine after_bump_bind (beq_iff_eq.1 ‹_›) fun mid _ => after_pure ?_
    rw [if_pos rfl]
  · exact after_pure rfl

theorem after_expect {kind : TokenKind} {missing : ErrorKind} :
    After (expect kind missing) c fun _ parts _ => parts = [.token kind] := by
  refine after_bind after_eat fun found front mid hfront => ?_
  subst hfront
  cases found with
  | true => exact after_pure rfl
  | false => exact after_report

theorem clean_eat {kind : TokenKind} (hkind : Plain kind) :
    Clean (eat kind) c fun found kinds _ => kinds = if found then bracketOf kind else [] := by
  refine after_eat.mono ?_
  rintro found parts stop rfl
  cases found with
  | true => exact ⟨⟨hkind, trivial⟩, brackets_singleton kind⟩
  | false => exact ⟨trivial, rfl⟩

theorem clean_expect {kind : TokenKind} {missing : ErrorKind} (hkind : Plain kind) :
    Clean (expect kind missing) c fun _ kinds _ => kinds = bracketOf kind := by
  refine after_expect.mono ?_
  rintro _ parts stop rfl
  exact ⟨⟨hkind, trivial⟩, brackets_singleton kind⟩

theorem clean_close {opening closing : TokenKind} {missing : ErrorKind} (hclosing : Plain closing)
    (hpaired : paired (bracketOf opening ++ bracketOf closing) = true) :
    Clean (expect closing missing) c fun _ kinds _ =>
      paired (bracketOf opening ++ kinds) = true := by
  apply (clean_expect hclosing).mono
  rintro _ kinds _ rfl
  exact hpaired

theorem clean_bump_bind_bare {kind : TokenKind} {f : Unit → Grammar α}
    {Q : α → List TokenKind → Cursor → Prop} (hnext : nextKind c = some kind)
    (hkind : Ordinary kind)
    (h : ∀ mid, mid.rest = c.rest.tail → Clean (f ()) mid Q) : Clean (bump >>= f) c Q := by
  apply clean_bump_bind hnext hkind.1
  intro mid hmid
  rw [bracketOf_ordinary hkind]
  exact h mid hmid

theorem clean_bump_bare {kind : TokenKind} (hnext : nextKind c = some kind)
    (hkind : Ordinary kind) : Clean bump c (Bare fun _ _ => True) :=
  clean_bump hnext hkind.1 fun _ _ => ⟨bracketOf_ordinary hkind, trivial⟩

theorem clean_eat_bare {kind : TokenKind} (hkind : Ordinary kind) :
    Clean (eat kind) c (Bare fun _ _ => True) := by
  apply (clean_eat hkind.1).mono
  rintro found kinds stop rfl
  rw [bracketOf_ordinary hkind, ite_self]
  exact ⟨rfl, trivial⟩

theorem clean_expect_bare {kind : TokenKind} {missing : ErrorKind} (hkind : Ordinary kind) :
    Clean (expect kind missing) c (Bare fun _ _ => True) := by
  apply (clean_expect hkind.1).mono
  rintro _ kinds _ rfl
  exact ⟨bracketOf_ordinary hkind, trivial⟩

theorem clean_put_bind {outline : Outline} {f : Unit → Grammar α}
    {Q : α → List TokenKind → Cursor → Prop} (houtline : Laid outline) (h : Clean (f ()) c Q) :
    Clean (put outline >>= f) c Q := by
  intro done hrun hclean
  obtain ⟨first, second, hfirst, hsecond, rfl⟩ := exists_of_bind_ok hrun
  cases hfirst
  rw [List.singleton_append, Outline.hasErrorAll, Bool.or_eq_false_iff] at hclean
  obtain ⟨hneat, hQ⟩ := h second hsecond hclean.2
  rw [brackets_append, houtline.brackets_eq]
  exact ⟨⟨houtline.2 hclean.1, hneat⟩, hQ⟩

theorem clean_put {outline : Outline} (houtline : Laid outline) :
    Clean (put outline) c (Bare fun _ stop => stop = c) := by
  intro done hrun hclean
  cases hrun
  rw [Outline.hasErrorAll, Bool.or_eq_false_iff] at hclean
  exact ⟨⟨houtline.2 hclean.1, trivial⟩, houtline.brackets_eq, rfl⟩

theorem clean_putAll_bind {parts : List Outline} {f : Unit → Grammar α}
    {Q : α → List TokenKind → Cursor → Prop}
    (h : Outline.hasErrorAll parts = false →
      Neat parts ∧ Clean (f ()) c fun b back stop => Q b (brackets parts ++ back) stop) :
    Clean (putAll parts >>= f) c Q := by
  intro done hrun hclean
  obtain ⟨first, second, hfirst, hsecond, rfl⟩ := exists_of_bind_ok hrun
  cases hfirst
  rw [hasErrorAll_append, Bool.or_eq_false_iff] at hclean
  obtain ⟨hneat, hlater⟩ := h hclean.1
  obtain ⟨hneat', hQ⟩ := hlater second hsecond hclean.2
  rw [brackets_append]
  exact ⟨hneat.append hneat', hQ⟩

theorem Tidies.laid {g : Grammar Outline} (h : Tidies g c) :
    Clean g c (Bare fun outline _ => Laid outline) :=
  Clean.mono h fun _ _ _ ⟨hkinds, htidy⟩ => ⟨hkinds, htidy.laid⟩

theorem clean_found_bind {g : Grammar Outline} {f : Unit → Grammar β}
    {Q : β → List TokenKind → Cursor → Prop}
    (h : Clean g c (Bare fun outline _ => Laid outline)) (hf : ∀ mid, Clean (f ()) mid Q) :
    Clean (g >>= fun outline => put outline >>= f) c Q :=
  clean_bind_bare h fun _ mid hlaid => clean_put_bind hlaid (hf mid)

theorem clean_found {g : Grammar Outline}
    (h : Clean g c (Bare fun outline _ => Laid outline)) :
    Clean (g >>= fun outline => put outline) c (Bare fun _ _ => True) :=
  clean_bind_bare h fun _ _ hlaid =>
    (clean_put hlaid).mono fun _ _ _ hbare => ⟨hbare.1, trivial⟩

theorem clean_orReport {missing : ErrorKind} {g : Grammar (Option Outline)} (h : Offers g c) :
    Clean (orReport missing g) c (Bare fun _ _ => True) := by
  apply clean_bind_bare h
  intro found mid htidy
  cases found with
  | none => exact clean_report
  | some outline =>
      exact (clean_put (htidy outline rfl).laid).mono fun _ _ _ hbare => ⟨hbare.1, trivial⟩

theorem clean_capture_bind {g : Grammar α} {f : α × List Outline → Grammar β}
    {P : α → List TokenKind → Cursor → Prop} {Q : β → List TokenKind → Cursor → Prop}
    (hg : Clean g c P)
    (hf : ∀ a parts mid, (Outline.hasErrorAll parts = false →
      Neat parts ∧ P a (brackets parts) mid) → Clean (f (a, parts)) mid Q) :
    Clean (capture g >>= f) c Q := by
  intro done hrun hclean
  obtain ⟨first, second, hfirst, hsecond, rfl⟩ := exists_of_bind_ok hrun
  obtain ⟨inner, hinner, rfl⟩ := exists_of_capture_ok hfirst
  exact hf inner.value inner.parts inner.cursor (hg inner hinner) second hsecond hclean

theorem clean_node {kind : NodeKind} {g : Grammar Unit}
    (hkind : kind ≠ .error ∧ kind ≠ .codeBlock ∧ kind ≠ .referenceParameterList)
    (h : Clean g c fun _ kinds _ => paired kinds = true) : Tidies (node kind g) c := by
  refine clean_capture_bind h fun _ parts mid hparts => clean_pure ⟨rfl, ?_⟩
  exact tidy_node ⟨hkind.1, hkind.2.1⟩ (fun hlist => absurd hlist hkind.2.2) hparts

theorem clean_around {kind : NodeKind} {first : Outline} {g : Grammar Unit}
    (hkind : kind ≠ .error ∧ kind ≠ .codeBlock ∧ kind ≠ .referenceParameterList)
    (hfirst : Tidy first) (h : Clean g c fun _ kinds _ => paired kinds = true) :
    Tidies (around kind first g) c := by
  refine clean_capture_bind h fun _ parts mid hparts => clean_pure ⟨rfl, ?_⟩
  exact tidy_around hkind hfirst hparts

theorem clean_list {g : Grammar Unit} (h : Clean g c (Bare fun _ _ => True))
    (hangles : After g c fun _ parts _ => ∃ inner, parts = .token .lt :: (inner ++ [.token .gt])) :
    Tidies (node .referenceParameterList g) c := by
  intro done hrun _
  obtain ⟨first, second, hfirst, hsecond, rfl⟩ := exists_of_bind_ok hrun
  obtain ⟨inner, hinner, rfl⟩ := exists_of_capture_ok hfirst
  cases hsecond
  refine ⟨trivial, rfl, tidy_node (by decide) (fun _ => hangles inner hinner) fun hclean => ?_⟩
  obtain ⟨hneat, hbare, -⟩ := h inner hinner hclean
  exact ⟨hneat, by rw [hbare]; rfl⟩

theorem clean_block {g : Grammar Unit} (h : After g c fun _ parts _ => IsBlock parts) :
    Tidies (node .codeBlock g) c := by
  intro done hrun _
  obtain ⟨first, second, hfirst, hsecond, rfl⟩ := exists_of_bind_ok hrun
  obtain ⟨inner, hinner, rfl⟩ := exists_of_capture_ok hfirst
  cases hsecond
  refine ⟨trivial, rfl, trivial, fun hclean => ?_⟩
  rw [NeatOne, if_pos rfl]
  exact h inner hinner hclean

theorem clean_node_bare {kind : NodeKind} {g : Grammar Unit}
    (hkind : kind ≠ .error ∧ kind ≠ .codeBlock ∧ kind ≠ .referenceParameterList)
    (h : Clean g c (Bare fun _ _ => True)) : Tidies (node kind g) c :=
  clean_node hkind (h.mono fun _ _ _ hbare => hbare.1 ▸ rfl)

theorem clean_around_bare {kind : NodeKind} {first : Outline} {g : Grammar Unit}
    (hkind : kind ≠ .error ∧ kind ≠ .codeBlock ∧ kind ≠ .referenceParameterList)
    (hfirst : Tidy first) (h : Clean g c (Bare fun _ _ => True)) :
    Tidies (around kind first g) c :=
  clean_around hkind hfirst (h.mono fun _ _ _ hbare => hbare.1 ▸ rfl)

theorem clean_some {g : Grammar Outline} (h : Tidies g c) :
    Offers (do return some (← g)) c :=
  clean_bind_bare h fun _ _ htidy => clean_pure ⟨rfl, fun _ heq => Option.some.inj heq ▸ htidy⟩

theorem clean_lookahead {g : Grammar α} :
    Clean (lookahead g) c (Bare fun _ stop => stop = c) := by
  intro done hrun _
  obtain ⟨inner, -, rfl⟩ := exists_of_lookahead_ok hrun
  exact ⟨trivial, rfl, rfl⟩

theorem clean_attempt {g : Grammar (Option Outline)} (h : Offers g c) : Offers (attempt g) c := by
  intro done hrun hclean
  obtain ⟨inner, hinner, rfl | ⟨-, rfl⟩⟩ := exists_of_attempt_ok hrun
  · exact h _ hinner hclean
  · exact ⟨trivial, rfl, nofun⟩

/-- A step that is done establishes the outcome; one that is not keeps the invariant. -/
def Keeps (I J : σ → Prop) : ForInStep σ → Prop
  | .done s => J s
  | .yield s => I s

theorem clean_iterate {step : σ → Grammar (ForInStep σ)} {I J : σ → Prop}
    {B : List TokenKind → Prop} {s : σ}
    (happend : ∀ front back, B front → B back → B (front ++ back)) (hI : I s)
    (hstep : ∀ s c, I s → Clean (step s) c fun next kinds _ => B kinds ∧ Keeps I J next) :
    Clean (iterate step s) c fun s kinds _ => B kinds ∧ J s := by
  refine After.mono (after_iterate (Q := fun s last parts => I s →
    Neat parts ∧ B (brackets parts) ∧ J last) (fun s c => ?_) s) fun _ _ _ h => h hI
  intro done hrun hclean
  cases hnext : done.value with
  | done last =>
      intro hs
      have hlast := hstep s c hs done hrun hclean
      rwa [hnext] at hlast
  | yield mid =>
      intro last back hback hs
      have hfront := hstep s c hs done hrun hclean
      rw [hnext] at hfront
      obtain ⟨hneat, hkinds, hmid⟩ := hfront
      obtain ⟨hneat', hkinds', hlast⟩ := hback hmid
      rw [brackets_append]
      exact ⟨hneat.append hneat', happend _ _ hkinds hkinds', hlast⟩

theorem bare_append (front back : List TokenKind) (hfront : front = []) (hback : back = []) :
    front ++ back = [] :=
  List.append_eq_nil_iff.2 ⟨hfront, hback⟩

theorem clean_iterate_bare {step : σ → Grammar (ForInStep σ)} {I J : σ → Prop} {s : σ} (hI : I s)
    (hstep : ∀ s c, I s → Clean (step s) c (Bare fun next _ => Keeps I J next)) :
    Clean (iterate step s) c (Bare fun s _ => J s) :=
  clean_iterate (B := fun kinds => kinds = []) bare_append hI hstep

theorem clean_repeatWhile {g : Grammar Bool} {B : List TokenKind → Prop}
    (happend : ∀ front back, B front → B back → B (front ++ back))
    (h : ∀ c, Clean g c fun _ kinds _ => B kinds) :
    Clean (repeatWhile g) c fun _ kinds _ => B kinds := by
  refine (clean_iterate (I := fun _ => True) (J := fun _ => True) happend trivial
    fun _ c _ => ?_).mono fun _ _ _ hB => hB.1
  apply clean_bind (h c)
  intro again front mid hfront
  split
  · exact clean_pure ⟨by rwa [List.append_nil], trivial⟩
  · exact clean_pure ⟨by rwa [List.append_nil], trivial⟩

theorem clean_repeatWhile_bare {g : Grammar Bool} {P : Bool → Cursor → Prop}
    (h : ∀ c, Clean g c (Bare P)) : Clean (repeatWhile g) c (Bare fun _ _ => True) :=
  (clean_repeatWhile (B := fun kinds => kinds = []) bare_append
    fun c => (h c).mono fun _ _ _ hbare => hbare.1).mono fun _ _ _ hB => ⟨hB, trivial⟩

end PatternSyntax.Proofs.CleanRuns
