import ExprCompiler.Compilation
import ExprCompiler.Proofs.Run

/-!
# Compilation in stages

A stage after another succeeds when both do, and reports what both report:

* `HasStatements`: tokens that are a program by themselves, with its statements;
* `Forest.ofSource_eq_ok_iff`: the trees of a source text, by its postfix form;
* `compileTo_eq_ok_iff`: the text of a target, by the trees.
-/

namespace ExprCompiler

/-- The tokens are a program by themselves, and these are its statements. -/
def HasStatements (tokens : List Token) (trees : List Tree) : Prop :=
  ∃ shunted built, Postfix.ofTokens tokens = .ok shunted ∧ Forest.ofItems shunted.items = .ok built ∧
    built.trees = trees

/-- A forest is built from the postfix form of the tokens. -/
theorem Forest.ofSource_eq_ok_iff {source : String} {forest : Forest} :
    ofSource source = .ok forest ↔ ∃ shunted built, Postfix.ofTokens (tokenize source) = .ok shunted ∧
      ofItems shunted.items = .ok built ∧
      forest = ⟨built.trees, shunted.diagnostics ++ built.diagnostics⟩ := by
  constructor
  · intro h
    obtain ⟨shunted, shunts, h⟩ := Run.bind_eq_ok_iff.1 h
    obtain ⟨built, builds, h⟩ := Run.bind_eq_ok_iff.1 h
    cases h
    exact ⟨shunted, built, shunts, builds, rfl⟩
  · rintro ⟨shunted, built, shunts, builds, rfl⟩
    exact Run.bind_eq_ok_iff.2 ⟨shunted, shunts, Run.bind_eq_ok_iff.2 ⟨built, builds, rfl⟩⟩

/-- What is compiled has trees, which are emitted. -/
theorem compileTo_eq_ok_iff {target : Target} {source : String} {compiled : Compiled} :
    compileTo target source = .ok compiled ↔ ∃ forest, Forest.ofSource source = .ok forest ∧
      compiled.output = ((target.generate forest.trees).run #[]).1 ∧
      compiled.diagnostics =
        forest.diagnostics ++ ((target.generate forest.trees).run #[]).2.toList := by
  rw [compileTo, Run.bind_eq_ok_iff]
  cases Forest.ofSource source with
  | error error => exact ⟨fun ⟨_, found, _⟩ => (nomatch found), fun ⟨_, found, _⟩ => (nomatch found)⟩
  | ok forest =>
    constructor
    · rintro ⟨_, ⟨⟩, ⟨⟩⟩
      exact ⟨forest, rfl, rfl, rfl⟩
    · rintro ⟨_, ⟨⟩, output, diagnostics⟩
      cases compiled
      cases output
      cases diagnostics
      exact ⟨forest, rfl, rfl⟩

end ExprCompiler
