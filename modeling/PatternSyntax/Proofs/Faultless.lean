import PatternSyntax.Proofs.Elements
import PatternSyntax.Proofs.Procedures

/-!
Parsing never ends in a fault: every marker is closed in its turn, every checkpoint is gone back to
with as many markers open as before it, what is asserted holds, and what is recorded is the record
of one tree.
-/

namespace PatternSyntax.Proofs.Faultless

open PatternSyntax.Proofs.Blocks
open PatternSyntax.Proofs.Elements
open PatternSyntax.Proofs.Procedures
open PatternSyntax.Proofs.Realization
open PatternSyntax.Proofs.Weave

theorem brace_of_account {s : Subject} {text : String} (a : Account s text) (children : List Tree)
    (hmem : .node (.node .codeBlock) children ∈ subtrees a.parse.tree) :
    ∃ leaf later, children = .leaf .openBrace leaf :: later := by
  rcases node_mem_trees a hmem with ⟨hroot, -⟩ | hmem
  · cases hroot
  · obtain ⟨_, row, hkind, -, hbrace, i, tokens, j, rest, hat, hweaves⟩ :=
      madeOf_of_weaves a.weaves hmem
    cases hkind
    obtain ⟨later, rfl⟩ := hbrace rfl
    exact hweaves.head_token hat

/-- No text makes parsing end in a fault, and blocks are only begun at a brace. -/
theorem parses_without_fault (s : Subject) (text : String) :
    ∃ parse, Parse.ofText s text = .ok parse ∧
      ∀ children, .node (.node .codeBlock) children ∈ subtrees parse.tree →
        ∃ leaf later, children = .leaf .openBrace leaf :: later := by
  obtain ⟨a, hparse⟩ := exists_account s text
  exact ⟨a.parse, hparse, brace_of_account a⟩

theorem recordStructure_faults_iff (p : Recorder) :
    ProcedureName.recordStructure.run p = .error .recordWithoutParen ↔
      p.isAt .openParen = false := by
  constructor
  · intro hfault
    refine Bool.eq_false_iff.2 fun hopen => ?_
    obtain ⟨found, q, block, hrun, -⟩ := recordsBlock_of_delivers
      (outcome_deepEnough fun _ _ h => outcome_procedure .recordStructure hopen h)
      (delivers_procedure .recordStructure hopen)
    cases hfault.symm.trans hrun
  · intro hopen
    have heat : p.start.2.eat .openParen = (false, p.start.2) := if_neg (by
      rw [show p.start.2.isAt .openParen = p.isAt .openParen from rfl, hopen]
      exact Bool.false_ne_true)
    simp only [ProcedureName.run, Procedure.deepEnough, ProcedureName.procedure,
      Procedure.recordStructure, Procedure.marked, Procedure.owning, Procedure.start, bind,
      Procedure.eat, heat]
    rfl

end PatternSyntax.Proofs.Faultless
