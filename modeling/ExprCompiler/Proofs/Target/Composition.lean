import ExprCompiler.Proofs.Target.Emission

/-!
# Emission, tree by tree

A program is emitted as its trees are, one behind the other:

* `Emit.Yields.bind_pure`, `Emit.Yields.mapM`: what actions one behind the other yield and report;
* `Target.text`, `Target.reports`: what a tree is emitted as, and what is reported about it;
* `Target.Ruby.yields_emit`: a tree yields these, whatever was reported before;
* `Target.Request`: what can be asked of a target before a program is emitted;
* `generate_append`: the text of two programs, one behind the other, and the reports about them.
-/

namespace ExprCompiler

namespace Emit

variable {α β : Type} {action : Emit α} {value : α} {reported : List Diagnostic}

/-- An action that appends yields always what it yields at first. -/
theorem Appends.yields (h : action.Appends) :
    action.Yields (action.run #[]).1 (action.run #[]).2.toList := by
  obtain ⟨value, reported, yields⟩ := h
  rw [yields #[]]
  simpa using yields

/-- What is made of a value at the end is made without a report. -/
theorem Yields.bind_pure (h : action.Yields value reported) (f : α → β) :
    (action >>= fun value => pure (f value)).Yields (f value) reported := by
  have pure : (pure (f value) : Emit β).Yields (f value) [] := yields_pure (f value)
  rw [← List.append_nil reported]
  exact h.bind pure

/-- Actions one behind the other report one behind the other. -/
theorem Yields.mapM {f : α → Emit β} {value : α → β} {reported : α → List Diagnostic} {xs : List α}
    (h : ∀ x ∈ xs, (f x).Yields (value x) (reported x)) :
    (xs.mapM f).Yields (xs.map value) (xs.flatMap reported) := by
  induction xs with
  | nil => exact yields_pure []
  | cons x xs ih =>
    obtain ⟨head, tail⟩ := List.forall_mem_cons.1 h
    rw [List.mapM_cons]
    exact head.bind ((ih tail).bind_pure (value x :: ·))

/-- The same of actions whose values are not kept. -/
theorem Yields.forM {f : α → Emit PUnit} {reported : α → List Diagnostic} {xs : List α}
    (h : ∀ x ∈ xs, (f x).Yields () (reported x)) : (xs.forM f).Yields () (xs.flatMap reported) := by
  induction xs with
  | nil => exact yields_pure ()
  | cons x xs ih =>
    obtain ⟨head, tail⟩ := List.forall_mem_cons.1 h
    exact head.bind (ih tail)

end Emit

namespace Target

/-- What a tree is emitted as. -/
def text (target : Target) (tree : Tree) : String :=
  ((target.emit tree).run #[]).1

/-- What is reported about a tree. -/
def reports (target : Target) (tree : Tree) : List Diagnostic :=
  ((target.emit tree).run #[]).2.toList

/-- What can be asked of a target before a program is emitted. -/
inductive Request where
  | warn (message : String) (offset : Option Nat)
  | emit (tree : Tree)

namespace Request

/-- Carries out a request. The text of a tree is not kept. -/
def perform (target : Target) : Request → Emit Unit
  | warn message offset => Emit.warn message offset
  | emit tree => do
    let _ ← target.emit tree

/-- What is reported on a request. -/
def reports (target : Target) : Request → List Diagnostic
  | warn message offset => [⟨.generate, message, offset⟩]
  | emit tree => target.reports tree

end Request

namespace Ruby

open Emit

/-- Whatever was reported before, a tree yields its text and appends its reports. -/
theorem yields_emit (tree : Tree) : (ruby.emit tree).Yields (ruby.text tree) (ruby.reports tree) :=
  (appends_emit tree).yields

theorem yields_perform (request : Request) :
    (request.perform ruby).Yields () (request.reports ruby) := by
  cases request with
  | warn message offset => exact yields_warn message offset
  | emit tree => exact (yields_emit tree).bind_pure fun _ => ()

theorem yields_generate (trees : List Tree) : (ruby.generate trees).Yields
    (ruby.separator.intercalate (ruby.prologue ++ trees.map ruby.text ++ ruby.epilogue))
    (trees.flatMap ruby.reports) := by
  have parts : (trees.mapM ruby.emit).Yields (trees.map ruby.text) (trees.flatMap ruby.reports) :=
    .mapM fun tree _ => yields_emit tree
  exact parts.bind_pure fun parts => ruby.separator.intercalate (ruby.prologue ++ parts ++ ruby.epilogue)

end Ruby

end Target

/-- Emission is compositional. A tree, well formed or not, yields a text that does not depend on what was
reported before, and appends reports that do not either. So two programs, one behind the other, are
emitted as a part for each tree of the first and then of the second, between prologue and epilogue, and
what is reported about them stands behind what was reported before, on whatever requests. -/
theorem generate_append :
    (∀ tree diagnostics, (Target.ruby.emit tree).run diagnostics =
      (Target.ruby.text tree, diagnostics ++ Target.ruby.reports tree)) ∧
    ∀ (requests : List Target.Request) (xs ys : List Tree) (diagnostics : Array Diagnostic),
      (do
        requests.forM (Target.Request.perform Target.ruby)
        Target.ruby.generate (xs ++ ys)).run diagnostics =
      (Target.ruby.separator.intercalate (Target.ruby.prologue ++ xs.map Target.ruby.text ++
          ys.map Target.ruby.text ++ Target.ruby.epilogue),
        diagnostics ++ (requests.flatMap (Target.Request.reports Target.ruby) ++
          xs.flatMap Target.ruby.reports ++ ys.flatMap Target.ruby.reports)) := by
  refine ⟨fun tree => Target.Ruby.yields_emit tree, fun requests xs ys => ?_⟩
  have asked : (requests.forM (Target.Request.perform Target.ruby)).Yields ()
      (requests.flatMap (Target.Request.reports Target.ruby)) :=
    .forM fun request _ => Target.Ruby.yields_perform request
  have generated := Target.Ruby.yields_generate (xs ++ ys)
  rw [List.map_append, List.flatMap_append, ← List.append_assoc Target.ruby.prologue] at generated
  rw [List.append_assoc (requests.flatMap _)]
  exact asked.bind generated

end ExprCompiler
