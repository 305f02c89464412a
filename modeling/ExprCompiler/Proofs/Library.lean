import ExprCompiler.Proofs.Postfix.Sequence
import ExprCompiler.Report

/-!
# Programs behind a library

A program that is run stands behind a library, as further statements of it:

* `Tree.shift`, `Forest.ofItems_shift`: trees further on in a text, and what they are built from;
* `exists_forest_runSource`, `trees_ne_of_isAmbiguous`: when the trees of the whole are those of the
  two parts, and when they are not;
* `trees_runSource_iff`: they are, unless the library ends with an operand and the program begins with
  an operator or an opening bracket, which then goes on with that operand.
-/

namespace ExprCompiler

/-! ## Trees in other places -/

namespace Tree

/-- The tree, with its tokens further on in a text. -/
def shift (distance : Nat) (tree : Tree) : Tree :=
  tree.relocate (· + distance)

end Tree

theorem Item.isLeading_bare (item : Item) : item.bare.isLeading = item.isLeading := by
  cases item with
  | arity => rfl
  | token t => cases kind : t.kind <;> simp [Item.bare, Item.isLeading, Token.isUnary, kind] <;> rfl

namespace Forest

/-- What is built of items further on in a text. -/
theorem ofItems_shift {items : List Item} {forest : Forest} (distance : Nat)
    (handled : ∀ item ∈ items, item.isHandled = true) (h : ofItems items = .ok forest) :
    ∃ moved, ofItems (items.map (Item.relocate (· + distance))) = .ok moved ∧
      moved.trees = forest.trees.map (Tree.shift distance) := by
  have built := ofItems_relocate (· + distance) handled
  rw [h] at built
  exact ⟨_, built, rfl⟩

/-- A forest has one operation with an only operand, or array, for each item that stands for one. -/
theorem countP_isLeading {items : List Item} {forest : Forest} (h : ofItems items = .ok forest) :
    (Tree.flattenAll forest.trees).countP Item.isLeading = items.countP Item.isLeading := by
  obtain ⟨-, flat, -⟩ := flatten_of_ofItems h
  have bare : Item.isLeading ∘ Item.bare = Item.isLeading := funext Item.isLeading_bare
  have handled (item : Item) (leading : item.isLeading = true) : item.isHandled = true := by
    match item with
    | .arity _ _ => rfl
    | .token t => simp_all [Item.isLeading, Token.isUnary, Item.isHandled, Kind.isOperator]
  rw [← flat, List.countP_map, bare, List.countP_filter]
  refine List.countP_congr fun item _ => ?_
  rw [Bool.and_eq_true]
  exact and_iff_left_of_imp (handled item)

end Forest

section RunSource

variable {library source : String} {first second : Forest}

/-- The trees of a program behind a library, where the two stay apart. -/
theorem exists_forest_runSource (hl : Forest.ofSource library = .ok first)
    (hs : Forest.ofSource source = .ok second)
    (terminated : ∀ token ∈ (tokenize library).getLast?, token.isTerminated = true)
    (apart : (lastSignificant (tokenize library)).any Kind.isDataSignifier = false ∨
      ∀ kind ∈ firstSignificant (tokenize source), kind.isAmbiguous = false) :
    ∃ forest, Forest.ofSource (Report.runSource library source) = .ok forest ∧
      forest.trees = first.trees ++ second.trees.map (Tree.shift (library.utf8ByteSize + 2)) := by
  obtain ⟨shunted, built, shunts, builds, rfl⟩ := Forest.ofSource_eq_ok_iff.1 hl
  obtain ⟨shunted', built', shunts', builds', rfl⟩ := Forest.ofSource_eq_ok_iff.1 hs
  have tokens := Lexer.unspaced_tokenize_separator (Postfix.nested_of_ofTokens shunts).1 terminated apart
  rw [← Postfix.ofTokens_unspaced] at shunts shunts'
  have shuntsMoved := Postfix.ofTokens_shift (library.utf8ByteSize + 2) shunts'
  obtain ⟨moved, buildsMoved, trees⟩ := Forest.ofItems_shift (library.utf8ByteSize + 2)
    (Postfix.isHandled_of_ofTokens shunts') builds'
  have kind : (Token.mk .separator ";" library.utf8ByteSize).kind = .separator := rfl
  have shuntsJoined := Postfix.ofTokens_append_separator kind shunts shuntsMoved
  rw [← tokens, Postfix.ofTokens_unspaced] at shuntsJoined
  exact ⟨_, Forest.ofSource_eq_ok_iff.2
    ⟨_, _, shuntsJoined, Forest.ofItems_append builds buildsMoved, rfl⟩, by rw [trees]⟩

/-- A program that begins with an operator or a bracket goes on with an operand that stands at the end
of the library. -/
theorem trees_ne_of_isAmbiguous {forest : Forest} {kind : Kind} (hl : Forest.ofSource library = .ok first)
    (hs : Forest.ofSource source = .ok second)
    (terminated : ∀ token ∈ (tokenize library).getLast?, token.isTerminated = true)
    (data : (lastSignificant (tokenize library)).any Kind.isDataSignifier = true)
    (found : kind ∈ firstSignificant (tokenize source)) (ambiguous : kind.isAmbiguous = true)
    (h : Forest.ofSource (Report.runSource library source) = .ok forest) :
    forest.trees ≠ first.trees ++ second.trees.map (Tree.shift (library.utf8ByteSize + 2)) := by
  obtain ⟨shunted, built, shunts, builds, rfl⟩ := Forest.ofSource_eq_ok_iff.1 hl
  obtain ⟨shunted', built', shunts', builds', rfl⟩ := Forest.ofSource_eq_ok_iff.1 hs
  obtain ⟨joined, whole, shuntsJoined, buildsJoined, rfl⟩ := Forest.ofSource_eq_ok_iff.1 h
  intro trees
  obtain ⟨_, cuts⟩ := cuts_tokenize source
  obtain ⟨others, _, behind⟩ := Lexer.exists_cuts ⟨lastSignificant (tokenize library), []⟩
    (library.utf8ByteSize + 2) source.toList
  have tokens := Lexer.unspaced_tokenize_of_cuts (Postfix.nested_of_ofTokens shunts).1 terminated behind
  have fewer := cuts.countP_isLeading_of_isAmbiguous behind rfl rfl data found ambiguous
  obtain ⟨moved, buildsMoved, treesMoved⟩ := Forest.ofItems_shift (library.utf8ByteSize + 2)
    (Postfix.isHandled_of_ofTokens shunts') builds'
  have relocated : Item.isLeading ∘ Item.relocate (· + (library.utf8ByteSize + 2)) = Item.isLeading := by
    funext item
    cases item <;> rfl
  have read : joined.items.countP Item.isLeading =
      (tokenize library).countP Lexer.isLeading + others.countP Lexer.isLeading := by
    rw [Postfix.countP_isLeading shuntsJoined, ← countP_unspaced, Report.runSource, tokens,
      List.countP_append, List.countP_cons, countP_unspaced, countP_unspaced]
    rfl
  have built : joined.items.countP Item.isLeading =
      (tokenize library).countP Lexer.isLeading + (tokenize source).countP Lexer.isLeading := by
    rw [← Forest.countP_isLeading buildsJoined, trees, Tree.flattenAll_append, List.countP_append,
      Forest.countP_isLeading builds, Postfix.countP_isLeading shunts, ← treesMoved,
      Forest.countP_isLeading buildsMoved, List.countP_map, relocated, Postfix.countP_isLeading shunts']
  omega

/-- A program behind a library has the library's trees and then its own, in their new places, unless
the library ends with an operand and the program begins with an operator or an opening bracket. -/
theorem trees_runSource_iff (hl : Forest.ofSource library = .ok first)
    (hs : Forest.ofSource source = .ok second)
    (terminated : ∀ token ∈ (tokenize library).getLast?, token.isTerminated = true) :
    (∃ forest, Forest.ofSource (Report.runSource library source) = .ok forest ∧
      forest.trees = first.trees ++ second.trees.map (Tree.shift (library.utf8ByteSize + 2))) ↔
    ¬ ((lastSignificant (tokenize library)).any Kind.isDataSignifier = true ∧
      ∃ kind ∈ firstSignificant (tokenize source), kind.isAmbiguous = true) := by
  constructor
  · rintro ⟨forest, h, trees⟩ ⟨data, kind, found, ambiguous⟩
    exact trees_ne_of_isAmbiguous hl hs terminated data found ambiguous h trees
  · intro apart
    refine exists_forest_runSource hl hs terminated ?_
    cases data : (lastSignificant (tokenize library)).any Kind.isDataSignifier with
    | false => exact .inl rfl
    | true =>
      refine .inr fun kind found => ?_
      rw [← Bool.not_eq_true]
      exact fun ambiguous => apart ⟨data, kind, found, ambiguous⟩

end RunSource

/-- The program `x - 2` behind the library `x := 1`. -/
theorem trees_runSource_iff_difference :
    let definition : Tree := .operator ⟨.operator, ":=", 2⟩ [.leaf ⟨.word, "x", 0⟩, .leaf ⟨.number, "1", 5⟩]
    let difference : Tree := .operator ⟨.operator, "-", 2⟩ [.leaf ⟨.word, "x", 0⟩, .leaf ⟨.number, "2", 4⟩]
    Forest.ofSource "x := 1" = .ok ⟨[definition], []⟩ ∧ Forest.ofSource "x - 2" = .ok ⟨[difference], []⟩ ∧
      ∃ forest, Forest.ofSource (Report.runSource "x := 1" "x - 2") = .ok forest ∧
        forest.trees = [definition, difference.shift 8] := by
  intro definition difference
  have library : tokenize "x := 1" = [⟨.word, "x", 0⟩, ⟨.whitespace, " ", 1⟩, ⟨.operator, ":=", 2⟩,
    ⟨.whitespace, " ", 4⟩, ⟨.number, "1", 5⟩] := by decide +kernel
  have source : tokenize "x - 2" = [⟨.word, "x", 0⟩, ⟨.whitespace, " ", 1⟩, ⟨.operator, "-", 2⟩,
    ⟨.whitespace, " ", 3⟩, ⟨.number, "2", 4⟩] := by decide +kernel
  have first : Forest.ofSource "x := 1" = .ok ⟨[definition], []⟩ :=
    Forest.ofSource_eq_ok_iff.2 ⟨_, _, by rw [library]; rfl, rfl, rfl⟩
  have second : Forest.ofSource "x - 2" = .ok ⟨[difference], []⟩ :=
    Forest.ofSource_eq_ok_iff.2 ⟨_, _, by rw [source]; rfl, rfl, rfl⟩
  refine ⟨first, second, (trees_runSource_iff first second ?_).2 ?_⟩
  · rw [library]
    rintro _ ⟨⟩
    rfl
  · rw [source]
    rintro ⟨-, kind, ⟨⟩, ambiguous⟩
    cases ambiguous

/-- Behind the library `x` the program `-2` is not a statement of its own: what was its sign stands
between the two operands. -/
theorem trees_runSource_ne_of_sign :
    let x : Tree := .leaf ⟨.word, "x", 0⟩
    let negative : Tree := .unary ⟨.unaryOperator, "-", 0⟩ [.leaf ⟨.number, "2", 1⟩]
    let difference : Tree := .operator ⟨.operator, "-", 3⟩ [x, .leaf ⟨.number, "2", 4⟩]
    Forest.ofSource "x" = .ok ⟨[x], []⟩ ∧ Forest.ofSource "-2" = .ok ⟨[negative], []⟩ ∧
      (∀ token ∈ (tokenize "x").getLast?, token.isTerminated = true) ∧
      Forest.ofSource (Report.runSource "x" "-2") = .ok ⟨[difference], []⟩ ∧
      [difference] ≠ [x, negative.shift 3] := by
  intro x negative difference
  have library : tokenize "x" = [⟨.word, "x", 0⟩] := by decide +kernel
  have source : tokenize "-2" = [⟨.unaryOperator, "-", 0⟩, ⟨.number, "2", 1⟩] := by decide +kernel
  have whole : tokenize (Report.runSource "x" "-2") = [⟨.word, "x", 0⟩, ⟨.separator, ";", 1⟩,
    ⟨.whitespace, "\n", 2⟩, ⟨.operator, "-", 3⟩, ⟨.number, "2", 4⟩] := by decide +kernel
  refine ⟨Forest.ofSource_eq_ok_iff.2 ⟨_, _, by rw [library]; rfl, rfl, rfl⟩,
    Forest.ofSource_eq_ok_iff.2 ⟨_, _, by rw [source]; rfl, rfl, rfl⟩, ?_,
    Forest.ofSource_eq_ok_iff.2 ⟨_, _, by rw [whole]; rfl, rfl, rfl⟩, ?_⟩
  · rw [library]
    rintro _ ⟨⟩
    rfl
  · exact fun same => absurd (congrArg List.length same) (by decide)

end ExprCompiler
