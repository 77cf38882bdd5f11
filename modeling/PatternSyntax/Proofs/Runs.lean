import PatternSyntax.Grammar.Depth

/-!
Runs of rules, taken apart and put together; and rules that can stand for others, since they end
in the same way wherever those end at all.
-/

namespace PatternSyntax.Proofs.Runs

open Grammar

variable {α β σ : Type} {c : Cursor}

theorem bind_apply (g : Grammar α) (f : α → Grammar β) (c : Cursor) :
    (g >>= f) c =
      match g c with
      | .error fault => .error fault
      | .ok first =>
        match f first.value first.cursor with
        | .error fault => .error fault
        | .ok second =>
          .ok ⟨second.value, first.parts ++ second.parts, second.cursor⟩ :=
  rfl

theorem bind_ok {g : Grammar α} {f : α → Grammar β} {first : Parsed α} {second : Parsed β}
    (hg : g c = .ok first) (hf : f first.value first.cursor = .ok second) :
    (g >>= f) c = .ok ⟨second.value, first.parts ++ second.parts, second.cursor⟩ := by
  simp only [bind_apply, hg, hf]

theorem exists_of_bind_ok {g : Grammar α} {f : α → Grammar β} {done : Parsed β}
    (h : (g >>= f) c = .ok done) :
    ∃ first second, g c = .ok first ∧ f first.value first.cursor = .ok second ∧
      done = ⟨second.value, first.parts ++ second.parts, second.cursor⟩ := by
  rw [bind_apply] at h
  cases hg : g c with
  | error fault => simp [hg] at h
  | ok first =>
      cases hf : f first.value first.cursor with
      | error fault => simp [hg, hf] at h
      | ok second =>
          simp only [hg, hf, Except.ok.injEq] at h
          exact ⟨first, second, rfl, hf, h.symm⟩

theorem exists_of_capture_ok {g : Grammar α} {done : Parsed (α × List Outline)}
    (h : capture g c = .ok done) :
    ∃ inner, g c = .ok inner ∧ done = ⟨(inner.value, inner.parts), [], inner.cursor⟩ := by
  unfold capture at h
  split at h
  · cases h
  · exact ⟨_, ‹_›, (Except.ok.inj h).symm⟩

theorem exists_of_lookahead_ok {g : Grammar α} {done : Parsed α} (h : lookahead g c = .ok done) :
    ∃ inner, g c = .ok inner ∧ done = ⟨inner.value, [], c⟩ := by
  unfold lookahead at h
  split at h
  · cases h
  · exact ⟨_, ‹_›, (Except.ok.inj h).symm⟩

theorem exists_of_attempt_ok {g : Grammar (Option α)} {done : Parsed (Option α)}
    (h : attempt g c = .ok done) :
    ∃ inner, g c = .ok inner ∧ (done = inner ∨ inner.value = none ∧ done = ⟨none, [], c⟩) := by
  unfold attempt at h
  split at h
  · cases h
  · refine ⟨_, ‹_›, ?_⟩
    split at h
    · exact .inl (Except.ok.inj h).symm
    · exact .inr ⟨Option.not_isSome_iff_eq_none.1 ‹_›, (Except.ok.inj h).symm⟩

/-- Wherever the first rule ends without a fault, the second one does the same. -/
def Refines (g g' : Grammar α) : Prop :=
  ∀ c done, g c = .ok done → g' c = .ok done

theorem Refines.refl (g : Grammar α) : Refines g g :=
  fun _ _ h => h

theorem fail_refines (fault : Fault) (g : Grammar α) : Refines (fail fault) g :=
  fun _ _ h => nomatch h

theorem bind_refines {g g' : Grammar α} {f f' : α → Grammar β} (hg : Refines g g')
    (hf : ∀ a, Refines (f a) (f' a)) : Refines (g >>= f) (g' >>= f') := by
  intro c done h
  obtain ⟨first, second, hfirst, hsecond, rfl⟩ := exists_of_bind_ok h
  exact bind_ok (hg _ _ hfirst) (hf _ _ _ hsecond)

theorem bind_refines_left {g g' : Grammar α} {f : α → Grammar β} (hg : Refines g g') :
    Refines (g >>= f) (g' >>= f) :=
  bind_refines hg fun _ => .refl _

theorem bind_refines_right {g : Grammar α} {f f' : α → Grammar β}
    (hf : ∀ a, Refines (f a) (f' a)) : Refines (g >>= f) (g >>= f') :=
  bind_refines (.refl g) hf

theorem ite_refines {p : Prop} [Decidable p] {yes yes' no no' : Grammar α}
    (hyes : Refines yes yes') (hno : Refines no no') :
    Refines (if p then yes else no) (if p then yes' else no') := by
  split
  · exact hyes
  · exact hno

theorem capture_refines {g g' : Grammar α} (hg : Refines g g') :
    Refines (capture g) (capture g') := by
  intro c done h
  obtain ⟨inner, hinner, rfl⟩ := exists_of_capture_ok h
  simp only [capture, hg _ _ hinner]

theorem node_refines {kind : NodeKind} {g g' : Grammar Unit} (hg : Refines g g') :
    Refines (node kind g) (node kind g') :=
  bind_refines_left (capture_refines hg)

theorem around_refines {kind : NodeKind} {first : Outline} {g g' : Grammar Unit}
    (hg : Refines g g') : Refines (around kind first g) (around kind first g') :=
  bind_refines_left (capture_refines hg)

theorem put_refines {g g' : Grammar Outline} {f f' : Unit → Grammar β} (hg : Refines g g')
    (hf : ∀ a, Refines (f a) (f' a)) :
    Refines (g >>= fun outline => put outline >>= f) (g' >>= fun outline => put outline >>= f') :=
  bind_refines hg fun _ => bind_refines_right hf

theorem orReport_refines {missing : ErrorKind} {g g' : Grammar (Option Outline)}
    (hg : Refines g g') : Refines (orReport missing g) (orReport missing g') :=
  bind_refines_left hg

theorem lookahead_refines {g g' : Grammar α} (hg : Refines g g') :
    Refines (lookahead g) (lookahead g') := by
  intro c done h
  unfold lookahead at h
  split at h
  · cases h
  · cases h
    simp only [lookahead, hg _ _ ‹_›]

theorem attempt_refines {g g' : Grammar (Option α)} (hg : Refines g g') :
    Refines (attempt g) (attempt g') := by
  intro c done h
  unfold attempt at h
  split at h
  · cases h
  · simp only [attempt, hg _ _ ‹_›]
    exact h

theorem iterateWithin_refines {step step' : σ → Grammar (ForInStep σ)}
    (hstep : ∀ s, Refines (step s) (step' s)) (limit : Nat) (s : σ) :
    Refines (iterateWithin step limit s) (iterateWithin step' limit s) := by
  induction limit generalizing s with
  | zero => exact .refl _
  | succ limit ih =>
      apply bind_refines (hstep s)
      intro next
      cases next with
      | done s => exact .refl _
      | yield s => exact ih s

theorem iterate_refines {step step' : σ → Grammar (ForInStep σ)} {s : σ}
    (hstep : ∀ s, Refines (step s) (step' s)) :
    Refines (iterate step s) (iterate step' s) :=
  fun c => iterateWithin_refines hstep _ s c

theorem repeatWhile_refines {g g' : Grammar Bool} (hg : Refines g g') :
    Refines (repeatWhile g) (repeatWhile g') :=
  iterate_refines fun _ => bind_refines_left hg

end PatternSyntax.Proofs.Runs
