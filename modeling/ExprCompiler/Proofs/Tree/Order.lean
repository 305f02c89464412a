import ExprCompiler.Proofs.Postfix.RightSide
import ExprCompiler.Proofs.Token.Tiling

/-!
# The sides of operands

Whether an operation has its operands on the sides that they are written on:

* `Tree.Part`, `Tree.Has`: the trees at any depth of a tree, and its tokens;
* `Tree.InOrder`: left operands are written before their operator, all others behind it;
* `Builder.Holds.run`: what holds of all trees that are made holds of all parts of what is built;
* `Builder.holds_inOrder`: an operator takes the last tree that was made of its right side;
* `inOrder_of_rightSide`: an operation has its operands on their sides if what stands to the right of
  its operator is a statement by itself. Nothing checks that there is one, so an operator can take
  operands that were never meant for it.
-/

namespace ExprCompiler

/-! ## Parts of trees -/

namespace Tree

/-- The trees directly below a tree. -/
def children : Tree → List Tree
  | .leaf _ => []
  | .operator _ operands => operands
  | .unary _ operands => operands
  | .lambda body => body
  | .array elements => elements
  | .call callee arguments => callee :: arguments

/-- The token of a leaf, or the operator of an operation. -/
def token? : Tree → Option Token
  | .leaf token => some token
  | .operator op _ => some op
  | .unary op _ => some op
  | _ => none

/-- The trees of a tree, at any depth. -/
inductive Part (part : Tree) : Tree → Prop
  | self : Part part part
  | child {child tree : Tree} : child ∈ tree.children → Part part child → Part part tree

/-- A token of a tree, at any depth. -/
def Has (tree : Tree) (token : Token) : Prop :=
  ∃ part, Part part tree ∧ part.token? = some token

/-- An operation has a left operand that is written before its operator and a right one behind it, or
its only operand behind it. -/
def InOrder : Tree → Prop
  | .operator op [left, right] =>
    (∀ token, left.Has token → token.offset < op.offset) ∧
      ∀ token, right.Has token → op.offset < token.offset
  | .operator _ _ => False
  | .unary op [operand] => ∀ token, operand.Has token → op.offset < token.offset
  | .unary _ _ => False
  | _ => True

theorem WellFormed.children {tree : Tree} (h : tree.WellFormed) :
    ∀ child ∈ tree.children, child.WellFormed := by
  cases h with
  | leaf => nofun
  | operator _ _ all | unary _ _ all | lambda all | array all => exact all
  | call callee all => exact List.forall_mem_cons.2 ⟨callee, all⟩

theorem Part.wellFormed {part tree : Tree} (h : Part part tree) (wf : tree.WellFormed) :
    part.WellFormed := by
  induction h with
  | self => exact wf
  | child mem _ ih => exact ih (wf.children _ mem)

/-- The encoding of a tree has those of the trees below it, in order and without anything between. -/
theorem exists_flatten_eq (tree : Tree) :
    ∃ front back, tree.flatten = front ++ (flattenAll tree.children ++ back) := by
  cases tree with
  | leaf token => exact ⟨[.token token], [], rfl⟩
  | operator op | unary op => exact ⟨[], [.token op], rfl⟩
  | lambda => exact ⟨[.lambdaOpen], [.lambdaClose], rfl⟩
  | array elements => exact ⟨[], [.arity .array elements.length], rfl⟩
  | call callee arguments =>
    refine ⟨[], [.arity .call arguments.length], ?_⟩
    rw [flatten, children, flattenAll, List.append_assoc]
    rfl

theorem Has.mem_flatten {tree : Tree} {token : Token} (h : tree.Has token) :
    .token token ∈ tree.flatten := by
  obtain ⟨part, isPart, found⟩ := h
  induction isPart with
  | self =>
    cases part <;> cases found
    · exact List.mem_singleton_self _
    · exact List.mem_append_right _ (List.mem_singleton_self _)
    · exact List.mem_append_right _ (List.mem_singleton_self _)
  | @child child tree mem _ ih =>
    obtain ⟨front, back, eq⟩ := exists_flatten_eq tree
    rw [eq, flattenAll_eq_flatMap]
    exact List.mem_append_right _ (List.mem_append_left _ (List.mem_flatMap.2 ⟨child, mem, ih⟩))

/-- Tokens of well-formed trees are operands or operators. -/
theorem Has.kind {tree : Tree} {token : Token} (h : tree.Has token) (wf : tree.WellFormed) :
    token.kind.isData = true ∨ token.kind.isOperator = true := by
  obtain ⟨part, isPart, found⟩ := h
  cases isPart.wellFormed wf with
  | leaf data => cases found; exact .inl data
  | operator kind | unary kind => cases found; exact .inr (by rw [kind]; rfl)
  | _ => cases found

end Tree

/-! ## Building -/

namespace Builder

/-- Every part of what the builder holds. -/
def Holds (p : Tree → Prop) (builder : Builder) : Prop :=
  ∀ scope ∈ builder.operands :: builder.enclosing, ∀ tree ∈ scope, ∀ part, Tree.Part part tree → p part

/-- The tree can be made of the item: its token, if it has one, is the item's. -/
def Makes (item : Item) (tree : Tree) : Prop :=
  ∀ token, tree.token? = some token → item = .token token

/-- One more item makes at most one more tree, of what the builder holds. -/
theorem Holds.reads {p : Tree → Prop} {builder next : Builder} {item : Item} (h : builder.Holds p)
    (reads : builder.Reads item next) (made : ∀ tree ∈ next.operands.head?, Makes item tree → p tree) :
    next.Holds p := by
  obtain ⟨operands, enclosing⟩ := List.forall_mem_cons.1 h
  -- The new tree stands on top of operands that were there, and what is below it was there as well.
  have replace {tree : Tree} {rest : List Tree} (top : next.operands = tree :: rest)
      (makes : Makes item tree) (children : ∀ child ∈ tree.children, child ∈ builder.operands)
      (below : ∀ t ∈ rest, ∀ part, Tree.Part part t → p part) :
      ∀ t ∈ next.operands, ∀ part, Tree.Part part t → p part := by
    rw [top]
    refine List.forall_mem_cons.2 ⟨fun part isPart => ?_, below⟩
    cases isPart with
    | self => exact made tree (by rw [top]; rfl) makes
    | child mem isPart => exact operands _ (children _ mem) part isPart
  have rest {taken rest : List Tree} (split : builder.operands = taken.reverse ++ rest) :
      (∀ t ∈ taken, t ∈ builder.operands) ∧ ∀ t ∈ rest, ∀ part, Tree.Part part t → p part := by
    rw [split] at operands ⊢
    refine ⟨fun t mem => ?_, fun t mem => operands t (List.mem_append_right _ mem)⟩
    exact List.mem_append_left _ (List.mem_reverse.2 mem)
  cases reads with
  | leaf =>
    refine List.forall_mem_cons.2 ⟨replace rfl ?_ nofun operands, enclosing⟩
    rintro _ ⟨⟩
    rfl
  | operator _ split | unary _ split =>
    refine List.forall_mem_cons.2 ⟨replace rfl ?_ (rest split).1 (rest split).2, enclosing⟩
    rintro _ ⟨⟩
    rfl
  | array split =>
    exact List.forall_mem_cons.2 ⟨replace rfl nofun (rest split).1 (rest split).2, enclosing⟩
  | @call callee taken below split =>
    have split' : builder.operands = (callee :: taken).reverse ++ below := by
      rw [split, List.reverse_cons, List.append_assoc, List.singleton_append]
    exact List.forall_mem_cons.2 ⟨replace rfl nofun (rest split').1 (rest split').2, enclosing⟩
  | lambdaOpen => exact List.forall_mem_cons.2 ⟨nofun, h⟩
  | lambdaClose _ open_ =>
    rw [open_] at enclosing
    obtain ⟨outer, enclosing⟩ := List.forall_mem_cons.1 enclosing
    refine List.forall_mem_cons.2 ⟨replace rfl nofun (fun t mem => ?_) outer, enclosing⟩
    exact List.mem_reverse.1 mem
  | unhandled => exact h

/-- What holds of every tree that the items make holds of every part of what is built. -/
theorem Holds.run {p : Tree → Prop} {builder last : Builder} {items : List Item} (h : builder.Holds p)
    (made : ∀ item ∈ items, ∀ tree, Makes item tree → p tree)
    (run : items.foldlM step builder = .ok last) : last.Holds p := by
  induction items generalizing builder with
  | nil => cases Run.nil_eq_ok_iff.1 run; exact h
  | cons item items ih =>
    obtain ⟨head, tail⟩ := List.forall_mem_cons.1 made
    obtain ⟨next, step, rest⟩ := Run.cons_eq_ok_iff.1 run
    exact ih (h.reads (.of_step step) fun tree _ => head tree) tail rest

/-- The tokens of what a builder holds were items. -/
theorem Encodes.mem_of_has {builder : Builder} {items : List Item} (h : builder.Encodes items)
    {tree : Tree} (mem : tree ∈ builder.operands) {token : Token} (has : tree.Has token) :
    .token token ∈ items := by
  have held : .token token ∈ builder.flatten := by
    refine List.mem_append_right _ ?_
    rw [Tree.flattenAll_eq_flatMap]
    exact List.mem_flatMap.2 ⟨tree, List.mem_reverse.2 mem, has.mem_flatten⟩
  rw [h.flatten] at held
  exact Item.mem_of_bare (has.kind (h.operands tree mem)) held

end Builder

/-- The tokens of a forest were items. -/
theorem Forest.mem_of_has {items : List Item} {forest : Forest} (h : ofItems items = .ok forest)
    {tree : Tree} (mem : tree ∈ forest.trees) {token : Token} (has : tree.Has token) :
    .token token ∈ items := by
  obtain ⟨wf, flat, -⟩ := flatten_of_ofItems h
  refine Item.mem_of_bare (has.kind (wf tree mem)) ?_
  rw [flat, Tree.flattenAll_eq_flatMap]
  exact List.mem_flatMap.2 ⟨tree, mem, has.mem_flatten⟩

namespace Builder

/-- An operator takes the tree that was made last, and one from before it when it stands between two
operands. -/
theorem Reads.inOrder {builder next : Builder} {op : Token} {right : Tree} {below : List Tree}
    (reads : builder.Reads (.token op) next) (kind : op.kind.isOperator = true)
    (split : builder.operands = right :: below)
    (before : op.kind = .operator → ∀ left ∈ below, ∀ token, left.Has token → token.offset < op.offset)
    (behind : ∀ token, right.Has token → op.offset < token.offset) :
    ∀ made ∈ next.operands.head?, made.InOrder := by
  cases reads with
  | @operator _ taken rest kind split' length =>
    match taken, length with
    | [x, y], _ =>
      obtain ⟨rfl, rfl⟩ := List.cons.inj (split.symm.trans split')
      rintro _ ⟨⟩
      exact ⟨before kind x List.mem_cons_self, behind⟩
  | @unary _ taken rest _ split' length =>
    match taken, length with
    | [x], _ =>
      obtain ⟨rfl, -⟩ := List.cons.inj (split.symm.trans split')
      rintro _ ⟨⟩
      exact behind
  | leaf data => rw [Kind.isOperator_of_isData data] at kind; cases kind
  | lambdaOpen other | lambdaClose other => rw [other] at kind; cases kind
  | unhandled other => simp [Item.isHandled, kind] at other

/-- An operator behind trees that are made by themselves makes an operation with the last of them on
its right side. If another operand stands to its left, it has to be the only one. -/
theorem holds_inOrder {builder : Builder} {front inner back : List Item} {forest : Forest} {op : Token}
    (run : (front ++ (inner ++ .token op :: back)).foldlM step .initial = .ok builder)
    (alone : Forest.ofItems inner = .ok forest) (some_ : forest.trees ≠ [])
    (single : op.kind = .operator → forest.trees.length = 1) (kind : op.kind.isOperator = true)
    (left : ∀ token, .token token ∈ front → token.offset < op.offset)
    (right : ∀ token, .token token ∈ inner → op.offset < token.offset) (once : .token op ∉ back) :
    builder.Holds fun part => part.token? = some op → part.InOrder := by
  obtain ⟨first, runFront, runBehind⟩ := Run.append_eq_ok_iff.1 run
  obtain ⟨second, runInner, runOperator⟩ := Run.append_eq_ok_iff.1 runBehind
  obtain ⟨third, step, runBack⟩ := Run.cons_eq_ok_iff.1 runOperator
  -- Only the item of the operator makes an operation of it.
  have others {items : List Item} (none : .token op ∉ items) :
      ∀ item ∈ items, ∀ tree, Makes item tree → tree.token? = some op → tree.InOrder := by
    intro item mem tree makes found
    rw [makes op found] at mem
    exact absurd mem none
  have initial : Builder.initial.Holds fun part => part.token? = some op → part.InOrder := by
    simp [Holds, Builder.initial]
  have holds := initial.run (others fun mem => Nat.lt_irrefl _ (left op mem)) runFront
  have holds := holds.run (others fun mem => Nat.lt_irrefl _ (right op mem)) runInner
  rw [foldlM_of_ofItems alone first] at runInner
  obtain ⟨earlier, last, trees⟩ := (List.eq_nil_or_concat forest.trees).resolve_left some_
  have operands : second.operands = last :: (earlier.reverse ++ first.operands) := by
    cases runInner
    simp [trees]
  have made := (Reads.of_step step).inOrder kind operands ?_ ?_
  case refine_1 =>
    intro operator x mem token has
    have none : earlier = [] := by simpa [trees] using single operator
    rw [none] at mem
    exact left token ((Encodes.run runFront).mem_of_has mem has)
  case refine_2 =>
    exact fun token has => right token (Forest.mem_of_has alone (by simp [trees]) has)
  have holds := holds.reads (.of_step step) fun tree top _ _ => made tree top
  exact holds.run (others once) runBack

end Builder

/-- Operations are made of operators; any other tree is in order. -/
theorem Tree.WellFormed.inOrder_or {tree : Tree} {token : Token} (wf : tree.WellFormed)
    (found : tree.token? = some token) : tree.InOrder ∨ token.kind.isOperator = true := by
  cases wf with
  | leaf => exact .inl trivial
  | operator kind | unary kind => cases found; exact .inr (by rw [kind]; rfl)
  | _ => cases found

/-- What is built are the operands that a builder holds in the end. -/
theorem Forest.exists_builder {items : List Item} {forest : Forest} (h : ofItems items = .ok forest) :
    ∃ builder, items.foldlM Builder.step .initial = .ok builder ∧
      forest.trees = builder.operands.reverse := by
  obtain ⟨builder, run, finish⟩ := Run.bind_eq_ok_iff.1 h
  unfold Builder.finish at finish
  split at finish
  · cases finish
    exact ⟨builder, run, rfl⟩
  · cases finish

/-- The operator of every operation is a token of the source text, and the operation has its operands
on their sides if what stands to the right of the operator has statements by itself: one, or any
number if the operator has no other operand. -/
theorem inOrder_of_rightSide {source : String} {forest : Forest} {statement part : Tree} {op : Token}
    (h : Forest.ofSource source = .ok forest) (mem : statement ∈ forest.trees)
    (isPart : Tree.Part part statement) (found : part.token? = some op) :
    op ∈ tokenize source ∧ ∀ before after trees, tokenize source = before ++ op :: after →
      HasStatements (op.rightSide [] after) trees → trees ≠ [] →
      (op.kind = .operator → trees.length = 1) → part.InOrder := by
  obtain ⟨shunted, built, shunts, builds, rfl⟩ := Forest.ofSource_eq_ok_iff.1 h
  have item := Forest.mem_of_has builds mem ⟨part, isPart, found⟩
  refine ⟨Postfix.mem_of_ofTokens shunts item, ?_⟩
  rintro before after _ split ⟨inner, trees, alone, buildsAlone, rfl⟩ some_ single
  have wf := isPart.wellFormed ((Forest.flatten_of_ofItems builds).1 statement mem)
  obtain inOrder | kind := wf.inOrder_or found
  · exact inOrder
  have lexed (t : Token) (ht : t ∈ after) : t.kind.isOperator = true →
      ∃ entry ∈ Operator.table, t.text = entry.symbol := by
    have ht : t ∈ tokenize source := by simp [split, ht]
    exact (isScanned_of_mem_tokenize ht).exists_entry
  have offsets := pairwise_offset_tokenize source
  rw [split] at shunts offsets
  obtain ⟨-, later, earlier⟩ := List.pairwise_append.1 offsets
  have later := (List.pairwise_cons.1 later).1
  obtain ⟨front, back, items, fromBefore, others⟩ := Postfix.exists_rightSide shunts kind lexed alone
  obtain ⟨builder, run, operands⟩ := Forest.exists_builder builds
  obtain ⟨rest, eq, -⟩ := op.exists_rest [] after
  have inAfter {t : Token} (ht : .token t ∈ inner.items) : t ∈ after := by
    rw [eq]
    exact List.mem_append_left _ (Postfix.mem_of_ofTokens alone ht)
  rw [items] at run
  have holds := Builder.holds_inOrder run buildsAlone some_ single kind
    (fun t ht => earlier t (fromBefore t ht) op List.mem_cons_self) (fun t ht => later t (inAfter ht)) ?_
  · refine holds builder.operands List.mem_cons_self statement ?_ part isPart found
    rw [← List.mem_reverse, ← operands]
    exact mem
  · intro again
    obtain ht | ht := others op again
    · exact Nat.lt_irrefl _ (earlier op ht op List.mem_cons_self)
    · exact Nat.lt_irrefl _ (later op ht)

/-- In `f[1 + 2 * 3]` the sum has its operands on their sides, inside the call. -/
theorem inOrder_of_rightSide_sum :
    let product : Tree := .operator ⟨.operator, "*", 8⟩
      [.leaf ⟨.number, "2", 6⟩, .leaf ⟨.number, "3", 10⟩]
    let sum : Tree := .operator ⟨.operator, "+", 4⟩ [.leaf ⟨.number, "1", 2⟩, product]
    let call : Tree := .call (.leaf ⟨.word, "f", 0⟩) [sum]
    Forest.ofSource "f[1 + 2 * 3]" = .ok ⟨[call], []⟩ ∧ Tree.Part sum call ∧ sum.InOrder := by
  intro product sum call
  let front : List Token := [⟨.word, "f", 0⟩, ⟨.callOpen, "[", 1⟩, ⟨.number, "1", 2⟩, ⟨.whitespace, " ", 3⟩]
  let back : List Token := [⟨.whitespace, " ", 5⟩, ⟨.number, "2", 6⟩, ⟨.whitespace, " ", 7⟩,
    ⟨.operator, "*", 8⟩, ⟨.whitespace, " ", 9⟩, ⟨.number, "3", 10⟩, ⟨.callClose, "]", 11⟩]
  have tokens : tokenize "f[1 + 2 * 3]" = front ++ ⟨.operator, "+", 4⟩ :: back := by decide +kernel
  have forest : Forest.ofSource "f[1 + 2 * 3]" = .ok ⟨[call], []⟩ :=
    Forest.ofSource_eq_ok_iff.2 ⟨_, _, by rw [tokens]; rfl, rfl, rfl⟩
  have isPart : Tree.Part sum call := .child (List.mem_cons_of_mem _ List.mem_cons_self) .self
  have inOrder := (inOrder_of_rightSide forest List.mem_cons_self isPart rfl).2 front back [product]
    tokens ⟨_, _, rfl, rfl, rfl⟩ nofun fun _ => rfl
  exact ⟨forest, isPart, inOrder⟩

/-- In `a; 1+` nothing stands to the right of the operator. It takes the number, which is written
before it, for its right operand, and the statement before for its left one. -/
theorem not_inOrder_of_missing_operand :
    let sum : Tree := .operator ⟨.operator, "+", 4⟩ [.leaf ⟨.word, "a", 0⟩, .leaf ⟨.number, "1", 3⟩]
    Forest.ofSource "a; 1+" = .ok ⟨[sum], []⟩ ∧ ¬ sum.InOrder := by
  intro sum
  have tokens : tokenize "a; 1+" = [⟨.word, "a", 0⟩, ⟨.separator, ";", 1⟩, ⟨.whitespace, " ", 2⟩,
      ⟨.number, "1", 3⟩, ⟨.operator, "+", 4⟩] := by decide +kernel
  refine ⟨Forest.ofSource_eq_ok_iff.2 ⟨_, _, by rw [tokens]; rfl, rfl, rfl⟩, fun inOrder => ?_⟩
  have behind : 4 < 3 := inOrder.2 ⟨.number, "1", 3⟩ ⟨_, .self, rfl⟩
  exact absurd behind (by decide)

end ExprCompiler
