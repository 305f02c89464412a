import ExprCompiler.Proofs.Postfix.Sequence
import ExprCompiler.Proofs.Tree.Shortage

/-!
# Statements one after the other

What a separator between two lists of tokens is worth:

* `build_append_separator`: two programs with a separator between them are a program, whose statements
  are those of the first one, then those of the second one;
* `exists_forest_append_separator_iff`: behind a program, tokens that are none by themselves are one
  exactly when the program has as many statements as they lack operands. A separator leaves nothing
  behind that would keep an operator from the operands of an earlier statement.
-/

namespace ExprCompiler

section Separator

variable {xs ys : List Token} {separator : Token} {first second : Postfix} {left right : Forest}

/-- Two programs with a separator between them are put into postfix form and built as each of them is
alone, and everything is reported that is reported of each. -/
theorem build_append_separator (kind : separator.kind = .separator)
    (hx : Postfix.ofTokens xs = .ok first) (hx' : Forest.ofItems first.items = .ok left)
    (hy : Postfix.ofTokens ys = .ok second) (hy' : Forest.ofItems second.items = .ok right) :
    Postfix.ofTokens (xs ++ [separator] ++ ys) =
        .ok ⟨first.items ++ second.items, first.diagnostics ++ second.diagnostics⟩ ∧
      Forest.ofItems (first.items ++ second.items) =
        .ok ⟨left.trees ++ right.trees, left.diagnostics ++ right.diagnostics⟩ := by
  have joined := Postfix.ofTokens_append_separator kind hx hy
  rw [← List.singleton_append, ← List.append_assoc] at joined
  exact ⟨joined, Forest.ofItems_append hx' hy'⟩

/-- Tokens behind a program and a separator are put into postfix form by themselves, and built exactly
when the program has as many statements as they lack operands. With nothing before them they are built
exactly when they lack none. -/
theorem exists_forest_append_separator_iff (kind : separator.kind = .separator)
    (hx : Postfix.ofTokens xs = .ok first) (hx' : Forest.ofItems first.items = .ok left)
    (hy : Postfix.ofTokens ys = .ok second) :
    ∃ joined, Postfix.ofTokens (xs ++ [separator] ++ ys) = .ok joined ∧
      ((∃ forest, Forest.ofItems joined.items = .ok forest) ↔
        ∃ missing ∈ shortage second.items, missing ≤ left.trees.length) ∧
      ((∃ forest, Forest.ofItems second.items = .ok forest) ↔ shortage second.items = some 0) := by
  have joined := Postfix.ofTokens_append_separator kind hx hy
  rw [← List.singleton_append, ← List.append_assoc] at joined
  exact ⟨_, joined, Forest.exists_ofItems_append_iff hx', Forest.exists_ofItems_iff_shortage _⟩

end Separator

/-- The programs `f[x]` and `-{@_1}`, in the second of which a token is reported. -/
theorem build_append_separator_call_lambda :
    let xs : List Token :=
      [⟨.word, "f", 0⟩, ⟨.callOpen, "[", 1⟩, ⟨.word, "x", 2⟩, ⟨.callClose, "]", 3⟩]
    let ys : List Token := [⟨.unaryOperator, "-", 5⟩, ⟨.lambdaOpen, "\x7b", 6⟩, ⟨.other, "@", 7⟩,
      ⟨.placeholder, "_1", 8⟩, ⟨.lambdaClose, "\x7d", 10⟩]
    let call : Tree := .call (.leaf ⟨.word, "f", 0⟩) [.leaf ⟨.word, "x", 2⟩]
    let negated : Tree := .unary ⟨.unaryOperator, "-", 5⟩ [.lambda [.leaf ⟨.placeholder, "_1", 8⟩]]
    ∃ first second : Postfix,
      (Postfix.ofTokens xs = .ok first ∧ Forest.ofItems first.items = .ok ⟨[call], []⟩) ∧
      (Postfix.ofTokens ys = .ok second ∧ Forest.ofItems second.items = .ok ⟨[negated], []⟩) ∧
      second.diagnostics = [⟨.shunt, "Unhandled token type other (\"@\")", some 7⟩] ∧
      Postfix.ofTokens (xs ++ [⟨.separator, ";", 4⟩] ++ ys) =
        .ok ⟨first.items ++ second.items, first.diagnostics ++ second.diagnostics⟩ ∧
      Forest.ofItems (first.items ++ second.items) = .ok ⟨[call, negated], []⟩ := by
  intro xs ys call negated
  have quoted : Text.quoted "@" = "\"@\"" := by decide +kernel
  obtain ⟨first, hx, hx'⟩ : ∃ first, Postfix.ofTokens xs = .ok first ∧
      Forest.ofItems first.items = .ok ⟨[call], []⟩ := ⟨_, rfl, rfl⟩
  obtain ⟨second, hy, hy', reported⟩ : ∃ second, Postfix.ofTokens ys = .ok second ∧
      Forest.ofItems second.items = .ok ⟨[negated], []⟩ ∧
      second.diagnostics = [⟨.shunt, "Unhandled token type other (" ++ Text.quoted "@" ++ ")", some 7⟩] :=
    ⟨_, rfl, rfl, rfl⟩
  rw [quoted] at reported
  exact ⟨first, second, ⟨hx, hx'⟩, ⟨hy, hy'⟩, reported, build_append_separator rfl hx hx' hy hy'⟩

/-- Behind `a;` there is the operand that `1 +` lacks alone. -/
theorem exists_forest_append_separator_iff_sum :
    let xs : List Token := [⟨.word, "a", 0⟩]
    let separator : Token := ⟨.separator, ";", 1⟩
    let ys : List Token := [⟨.number, "1", 3⟩, ⟨.operator, "+", 4⟩]
    Forest.ofItems (xs.map .token) = .ok ⟨[.leaf ⟨.word, "a", 0⟩], []⟩ ∧
      shortage (ys.map .token) = some 1 ∧
      ∃ joined, Postfix.ofTokens (xs ++ [separator] ++ ys) = .ok joined ∧
        ∃ forest, Forest.ofItems joined.items = .ok forest := by
  intro xs separator ys
  have hx : Postfix.ofTokens xs = .ok ⟨xs.map .token, []⟩ := rfl
  have hx' : Forest.ofItems (xs.map .token) = .ok ⟨[.leaf ⟨.word, "a", 0⟩], []⟩ := rfl
  have hy : Postfix.ofTokens ys = .ok ⟨ys.map .token, []⟩ := rfl
  have lacks : shortage (ys.map .token) = some 1 := by decide
  have kind : separator.kind = .separator := rfl
  obtain ⟨joined, shunts, made, -⟩ := exists_forest_append_separator_iff kind hx hx' hy
  exact ⟨hx', lacks, joined, shunts, made.2 ⟨1, lacks, Nat.le_refl 1⟩⟩

/-- Behind `a;` the tokens `1 +`, which are no program alone, are one: the operator takes the statement
before the separator for its left operand. -/
theorem missing_operand_from_statement :
    ∃ first second joined : Postfix,
      Postfix.ofTokens [⟨.word, "a", 0⟩] = .ok first ∧
      Postfix.ofTokens [⟨.number, "1", 3⟩, ⟨.operator, "+", 4⟩] = .ok second ∧
      Forest.ofItems first.items = .ok ⟨[.leaf ⟨.word, "a", 0⟩], []⟩ ∧
      Forest.ofItems second.items = .error ⟨.missingOperands 2 (.operator "+") 1, some 4⟩ ∧
      Postfix.ofTokens ([⟨.word, "a", 0⟩] ++ [⟨.separator, ";", 1⟩] ++
        [⟨.number, "1", 3⟩, ⟨.operator, "+", 4⟩]) = .ok joined ∧
      Forest.ofItems joined.items = .ok
        ⟨[.operator ⟨.operator, "+", 4⟩ [.leaf ⟨.word, "a", 0⟩, .leaf ⟨.number, "1", 3⟩]], []⟩ :=
  ⟨_, _, _, rfl, rfl, rfl, rfl, rfl, rfl⟩

end ExprCompiler
