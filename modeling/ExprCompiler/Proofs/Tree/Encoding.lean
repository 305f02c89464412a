import ExprCompiler.Proofs.Run
import ExprCompiler.Tree.Builder

/-!
# The postfix encoding of trees

`Tree.flatten` writes a tree as items: the parts of an operation ahead of its operator, the parts of
a call or an array ahead of a marker with their number, the statements of a lambda between its
delimiters. Building inverts it:

* `Builder.foldlM_flatten`: a tree's encoding leaves that tree on top of any operands, whatever lies
  below and outside (the frame);
* `Builder.Encodes.step`, `Builder.Encodes.run`: what a builder holds encodes the items it has read;
* `ofItems_eq_ok_iff`: building succeeds exactly on the encodings of well-formed trees, up to items
  without handling, each of which is reported, and gives those trees back;
* `Forest.ofItems_append`: what is built of two postfix forms, one behind the other.
-/

namespace ExprCompiler

/-! ## Well-formed trees and their encoding -/

/-- Leaves are operands by themselves, and operators have as many operands as they take. -/
inductive Tree.WellFormed : Tree → Prop
  | leaf {token : Token} : token.kind.isData = true → WellFormed (.leaf token)
  | operator {op : Token} {operands : List Tree} : op.kind = .operator → operands.length = 2 →
      (∀ tree ∈ operands, WellFormed tree) → WellFormed (.operator op operands)
  | unary {op : Token} {operands : List Tree} : op.kind = .unaryOperator → operands.length = 1 →
      (∀ tree ∈ operands, WellFormed tree) → WellFormed (.unary op operands)
  | lambda {body : List Tree} : (∀ tree ∈ body, WellFormed tree) → WellFormed (.lambda body)
  | array {elements : List Tree} :
      (∀ tree ∈ elements, WellFormed tree) → WellFormed (.array elements)
  | call {callee : Tree} {arguments : List Tree} : WellFormed callee →
      (∀ tree ∈ arguments, WellFormed tree) → WellFormed (.call callee arguments)

namespace Item

/-- The opening side of a lambda, without its place. -/
def lambdaOpen : Item := .token ⟨.lambdaOpen, Delimiter.lambda.opening, 0⟩

/-- The closing side of a lambda, without its place. -/
def lambdaClose : Item := .token ⟨.lambdaClose, Delimiter.lambda.closing, 0⟩

/-- Builders have a handling for the item. -/
def isHandled : Item → Bool
  | .arity _ _ => true
  | .token t =>
    t.kind.isData || t.kind.isOperator || t.kind = .lambdaOpen || t.kind = .lambdaClose

/-- The token of an item that builders have no handling for. -/
def unhandled? (item : Item) : Option Token :=
  if item.isHandled then none else item.token?

/-- The item without what trees do not keep: the text and the place of a lambda's delimiters. -/
def bare : Item → Item
  | .arity gathering count => .arity gathering count
  | .token t =>
    match t.kind with
    | .lambdaOpen => lambdaOpen
    | .lambdaClose => lambdaClose
    | _ => .token t

end Item

/-- The report of a token that builders have no handling for. -/
def Token.unhandled (token : Token) : Diagnostic :=
  ⟨.build, "no handler for " ++ token.display, some token.offset⟩

/-- One report for each item without handling, in order. -/
def Item.reports (items : List Item) : List Diagnostic :=
  (items.filterMap Item.unhandled?).map Token.unhandled

namespace Tree

mutual

/-- The items that stand for a tree. -/
def flatten : Tree → List Item
  | .leaf token => [.token token]
  | .operator op operands => flattenAll operands ++ [.token op]
  | .unary op operands => flattenAll operands ++ [.token op]
  | .lambda body => Item.lambdaOpen :: (flattenAll body ++ [Item.lambdaClose])
  | .array elements => flattenAll elements ++ [.arity .array elements.length]
  | .call callee arguments =>
    flatten callee ++ (flattenAll arguments ++ [.arity .call arguments.length])

/-- The items that stand for a list of trees. -/
def flattenAll : List Tree → List Item
  | [] => []
  | tree :: trees => flatten tree ++ flattenAll trees

end

/-- A list of trees is encoded tree by tree. -/
theorem flattenAll_eq_flatMap (trees : List Tree) : flattenAll trees = trees.flatMap flatten := by
  induction trees with
  | nil => rfl
  | cons tree trees ih => rw [flattenAll, ih, List.flatMap_cons]

theorem flattenAll_append (xs ys : List Tree) :
    flattenAll (xs ++ ys) = flattenAll xs ++ flattenAll ys := by
  simp only [flattenAll_eq_flatMap, List.flatMap_append]

theorem flattenAll_singleton (tree : Tree) : flattenAll [tree] = tree.flatten := by
  simp only [flattenAll, List.append_nil]

end Tree

namespace Builder

/-! ## Taking operands -/

/-- Taking succeeds exactly when there are enough operands, and takes the latest ones. -/
theorem take_eq_ok_iff {operands taken rest : List Tree} {count : Nat} {taker : Taker}
    {offset : Option Nat} :
    take operands count taker offset = .ok (taken, rest) ↔
      operands = taken.reverse ++ rest ∧ taken.length = count := by
  simp only [take, List.length_take]
  split
  · rename_i few
    refine ⟨nofun, fun ⟨split, length⟩ => ?_⟩
    rw [split, List.length_append, List.length_reverse] at few
    omega
  · rename_i enough
    simp only [Except.ok.injEq, Prod.mk.injEq]
    constructor
    · rintro ⟨rfl, rfl⟩
      rw [List.reverse_reverse, List.take_append_drop, List.length_reverse, List.length_take]
      exact ⟨rfl, by omega⟩
    · rintro ⟨rfl, rfl⟩
      rw [← List.length_reverse, List.take_left, List.drop_left, List.reverse_reverse]
      exact ⟨rfl, rfl⟩

/-- The operands just put on top are the ones taken. -/
theorem take_reverse_append (taken rest : List Tree) {count : Nat} (h : taken.length = count)
    (taker : Taker) (offset : Option Nat) :
    take (taken.reverse ++ rest) count taker offset = .ok (taken, rest) :=
  take_eq_ok_iff.2 ⟨rfl, h⟩

/-! ## What one item does -/

/-- Everything that reading an item can lead to. -/
inductive Reads (builder : Builder) : Item → Builder → Prop
  | leaf {token : Token} : token.kind.isData = true →
      Reads builder (.token token) { builder with operands := .leaf token :: builder.operands }
  | operator {token : Token} {taken rest : List Tree} : token.kind = .operator →
      builder.operands = taken.reverse ++ rest → taken.length = 2 →
      Reads builder (.token token) { builder with operands := .operator token taken :: rest }
  | unary {token : Token} {taken rest : List Tree} : token.kind = .unaryOperator →
      builder.operands = taken.reverse ++ rest → taken.length = 1 →
      Reads builder (.token token) { builder with operands := .unary token taken :: rest }
  | array {taken rest : List Tree} : builder.operands = taken.reverse ++ rest →
      Reads builder (.arity .array taken.length) { builder with operands := .array taken :: rest }
  | call {callee : Tree} {taken rest : List Tree} :
      builder.operands = taken.reverse ++ callee :: rest →
      Reads builder (.arity .call taken.length)
        { builder with operands := .call callee taken :: rest }
  | lambdaOpen {token : Token} : token.kind = .lambdaOpen →
      Reads builder (.token token)
        { builder with operands := [], enclosing := builder.operands :: builder.enclosing }
  | lambdaClose {token : Token} {outer : List Tree} {enclosing : List (List Tree)} :
      token.kind = .lambdaClose → builder.enclosing = outer :: enclosing →
      Reads builder (.token token)
        { builder with operands := .lambda builder.operands.reverse :: outer, enclosing }
  | unhandled {token : Token} : (Item.token token).isHandled = false →
      Reads builder (.token token)
        { builder with diagnostics := builder.diagnostics.push token.unhandled }

/-- A successful step does one of these things. -/
theorem Reads.of_step {builder next : Builder} {item : Item} (h : builder.step item = .ok next) :
    builder.Reads item next := by
  match item with
  | .arity .call count =>
    simp only [step, bind, Except.bind] at h
    split at h
    · cases h
    · rename_i taken
      obtain ⟨split, rfl⟩ := take_eq_ok_iff.1 taken
      split at h
      · cases h
      · rename_i left
        cases h
        exact .call (by rw [split, left])
  | .arity .array count =>
    simp only [step, bind, Except.bind] at h
    split at h
    · cases h
    · rename_i taken
      obtain ⟨split, rfl⟩ := take_eq_ok_iff.1 taken
      cases h
      exact .array split
  | .token token =>
    simp only [step, bind, Except.bind] at h
    split at h
    case h_5 kind =>
      split at h
      · cases h
      · rename_i taken
        obtain ⟨split, length⟩ := take_eq_ok_iff.1 taken
        cases h
        exact .operator kind split length
    case h_6 kind =>
      split at h
      · cases h
      · rename_i taken
        obtain ⟨split, length⟩ := take_eq_ok_iff.1 taken
        cases h
        exact .unary kind split length
    case h_7 kind =>
      cases h
      exact .lambdaOpen kind
    case h_8 kind =>
      split at h
      · cases h
      · rename_i outer
        cases h
        exact .lambdaClose kind outer
    case h_9 =>
      cases h
      refine .unhandled ?_
      cases kind : token.kind <;> simp_all [Item.isHandled, Kind.isData, Kind.isOperator]
    all_goals
      rename_i kind
      cases h
      exact .leaf (by rw [kind]; rfl)

/-- Each of these things is what the step does. -/
theorem Reads.step_eq {builder next : Builder} {item : Item} (h : builder.Reads item next) :
    builder.step item = .ok next := by
  cases h with
  | @leaf token data =>
    cases kind : token.kind <;> simp only [kind, Kind.isData, Bool.false_eq_true] at data <;>
    simp only [step, kind]
  | operator kind split length =>
    simp only [step, kind, split, take_reverse_append _ _ length]
    rfl
  | unary kind split length =>
    simp only [step, kind, split, take_reverse_append _ _ length]
    rfl
  | array split =>
    simp only [step, split, take_reverse_append _ _ rfl]
    rfl
  | call split =>
    simp only [step, split, take_reverse_append _ _ rfl]
    rfl
  | lambdaOpen kind => simp only [step, kind]
  | lambdaClose kind outer => simp only [step, kind, outer]
  | @unhandled token unhandled =>
    cases kind : token.kind <;>
    simp only [Item.isHandled, kind, Kind.isData, Kind.isOperator, Bool.or_eq_false_iff,
      decide_eq_false_iff_not, reduceCtorEq, not_false_eq_true, Bool.true_eq_false, not_true_eq_false,
      and_true, and_false] at unhandled <;>
    simp only [step, kind, Token.unhandled]

/-! ## The frame: an encoding runs alike on top of any operands -/

/-- The builder with more operands on top, given in the order in which they were built. -/
def push (builder : Builder) (trees : List Tree) : Builder :=
  { builder with operands := trees.reverse ++ builder.operands }

theorem push_append (builder : Builder) (xs ys : List Tree) :
    builder.push (xs ++ ys) = (builder.push xs).push ys := by
  simp only [push, List.reverse_append, List.append_assoc]

/-- Trees whose encodings run alike anywhere do so one after the other. -/
theorem foldlM_flattenAll {trees : List Tree}
    (h : ∀ tree ∈ trees, ∀ b : Builder, tree.flatten.foldlM step b = .ok (b.push [tree]))
    (builder : Builder) : (Tree.flattenAll trees).foldlM step builder = .ok (builder.push trees) := by
  induction trees generalizing builder with
  | nil => rfl
  | cons tree trees ih =>
    have rest := ih (fun t ht => h t (List.mem_cons_of_mem _ ht)) (builder.push [tree])
    rw [← push_append, List.singleton_append] at rest
    exact Run.append_eq_ok_iff.2 ⟨_, h tree List.mem_cons_self builder, rest⟩

/-- The item behind a list of trees, read after their encodings. -/
theorem foldlM_flattenAll_concat {trees : List Tree} {item : Item} {builder next : Builder}
    (h : ∀ tree ∈ trees, ∀ b : Builder, tree.flatten.foldlM step b = .ok (b.push [tree]))
    (reads : (builder.push trees).Reads item next) :
    (Tree.flattenAll trees ++ [item]).foldlM step builder = .ok next :=
  Run.append_eq_ok_iff.2
    ⟨_, foldlM_flattenAll h builder, Run.singleton_eq_ok_iff.2 reads.step_eq⟩

/-- Reading a tree's encoding adds the tree to the operands and changes nothing else. -/
theorem foldlM_flatten {tree : Tree} (h : tree.WellFormed) (builder : Builder) :
    tree.flatten.foldlM step builder = .ok (builder.push [tree]) := by
  induction h generalizing builder with
  | leaf data => exact Run.singleton_eq_ok_iff.2 (Reads.leaf data).step_eq
  | operator kind length _ ih => exact foldlM_flattenAll_concat ih (.operator kind rfl length)
  | unary kind length _ ih => exact foldlM_flattenAll_concat ih (.unary kind rfl length)
  | @lambda body _ ih =>
    refine Run.cons_eq_ok_iff.2 ⟨_, (Reads.lambdaOpen rfl).step_eq, ?_⟩
    let inside : Builder := ⟨[], builder.operands :: builder.enclosing, builder.diagnostics⟩
    have close : (inside.push body).Reads .lambdaClose _ := .lambdaClose rfl rfl
    have run := foldlM_flattenAll_concat ih close
    simp only [inside, push, List.append_nil, List.reverse_reverse] at run
    exact run
  | array _ ih => exact foldlM_flattenAll_concat ih (.array rfl)
  | call _ _ ihc ih =>
    exact Run.append_eq_ok_iff.2 ⟨_, ihc builder, foldlM_flattenAll_concat ih (.call rfl)⟩

/-! ## What a builder holds encodes what it has read -/

/-- The items that a builder's operands stand for: those outside of each open lambda with the
lambda's opening side behind them, then those of the innermost scope. -/
def flatten (builder : Builder) : List Item :=
  builder.enclosing.reverse.flatMap (fun outer => Tree.flattenAll outer.reverse ++ [.lambdaOpen])
    ++ Tree.flattenAll builder.operands.reverse

/-- The builder holds well-formed trees only, which encode the handled ones of `items`, and it has
reported the others. -/
structure Encodes (builder : Builder) (items : List Item) : Prop where
  operands : ∀ tree ∈ builder.operands, tree.WellFormed
  enclosing : ∀ outer ∈ builder.enclosing, ∀ tree ∈ outer, tree.WellFormed
  flatten : builder.flatten = (items.filter Item.isHandled).map Item.bare
  diagnostics : builder.diagnostics.toList = Item.reports items

theorem Encodes.initial : Encodes .initial [] :=
  ⟨nofun, nofun, rfl, rfl⟩

/-- Replacing the latest operands by a tree made of them extends the encoding by what the tree has
behind them. -/
theorem flatten_replace {builder : Builder} {taken rest : List Tree} {tree : Tree}
    {behind : List Item} (split : builder.operands = taken.reverse ++ rest)
    (flat : tree.flatten = Tree.flattenAll taken ++ behind) :
    Builder.flatten { builder with operands := tree :: rest } = builder.flatten ++ behind := by
  simp only [Builder.flatten, split, List.reverse_append, List.reverse_reverse, List.reverse_cons,
    Tree.flattenAll_append, Tree.flattenAll_singleton, flat, List.append_assoc]

/-- A handled item that changes the operands only. -/
theorem Encodes.replace {builder : Builder} {items : List Item} (h : builder.Encodes items)
    {taken rest : List Tree} {tree : Tree} {item : Item} (handled : item.isHandled = true)
    (split : builder.operands = taken.reverse ++ rest) (wf : tree.WellFormed)
    (flat : tree.flatten = Tree.flattenAll taken ++ [item.bare]) :
    Encodes { builder with operands := tree :: rest } (items ++ [item]) where
  operands := by
    intro t ht
    rcases List.mem_cons.1 ht with rfl | ht
    · exact wf
    · exact h.operands t (by rw [split]; exact List.mem_append_right _ ht)
  enclosing := h.enclosing
  flatten := by
    rw [flatten_replace split flat, h.flatten]
    simp [handled]
  diagnostics := by
    rw [h.diagnostics]
    simp [Item.reports, Item.unhandled?, handled]

/-- Operands that are taken are well formed. -/
theorem Encodes.taken {builder : Builder} {items : List Item} (h : builder.Encodes items)
    {taken rest : List Tree} (split : builder.operands = taken.reverse ++ rest) :
    ∀ tree ∈ taken, tree.WellFormed := by
  intro tree ht
  exact h.operands tree (by rw [split]; exact List.mem_append_left _ (List.mem_reverse.2 ht))

/-- One more item read is one more item encoded. -/
theorem Encodes.step {builder next : Builder} {items : List Item} {item : Item}
    (h : builder.Encodes items) (reads : builder.Reads item next) :
    next.Encodes (items ++ [item]) := by
  cases reads with
  | @leaf token data =>
    have handled : (Item.token token).isHandled = true := by simp [Item.isHandled, data]
    have bare : (Item.token token).bare = .token token := by
      cases kind : token.kind <;> simp_all [Item.bare, Kind.isData]
    have split : builder.operands = [].reverse ++ builder.operands := rfl
    exact h.replace handled split (.leaf data) (by rw [bare]; rfl)
  | @operator token taken rest kind split length =>
    have handled : (Item.token token).isHandled = true := by simp [Item.isHandled, kind, Kind.isOperator]
    have bare : (Item.token token).bare = .token token := by simp [Item.bare, kind]
    exact h.replace handled split (.operator kind length (h.taken split)) (by rw [bare]; rfl)
  | @unary token taken rest kind split length =>
    have handled : (Item.token token).isHandled = true := by simp [Item.isHandled, kind, Kind.isOperator]
    have bare : (Item.token token).bare = .token token := by simp [Item.bare, kind]
    exact h.replace handled split (.unary kind length (h.taken split)) (by rw [bare]; rfl)
  | array split => exact h.replace rfl split (.array (h.taken split)) rfl
  | @call callee taken rest split =>
    -- The callee lies below the arguments, so the call takes one operand more than it counts.
    have split' : builder.operands = (callee :: taken).reverse ++ rest := by
      rw [split, List.reverse_cons, List.append_assoc, List.singleton_append]
    have wf := h.taken split'
    refine h.replace rfl split' (.call (wf _ List.mem_cons_self) fun t ht => wf t (.tail _ ht)) ?_
    rw [Tree.flatten, Tree.flattenAll, List.append_assoc]
    rfl
  | @lambdaOpen token kind =>
    have handled : (Item.token token).isHandled = true := by simp [Item.isHandled, kind]
    refine ⟨nofun, ?_, ?_, ?_⟩
    · intro outer ho
      rcases List.mem_cons.1 ho with rfl | ho
      · exact h.operands
      · exact h.enclosing outer ho
    · have flat := h.flatten
      simp only [Builder.flatten] at flat
      simp [Builder.flatten, handled, ← flat, Item.bare, kind, Tree.flattenAll]
    · rw [h.diagnostics]
      simp [Item.reports, Item.unhandled?, handled]
  | @lambdaClose token outer enclosing kind open_ =>
    have handled : (Item.token token).isHandled = true := by simp [Item.isHandled, kind]
    refine ⟨?_, ?_, ?_, ?_⟩
    · intro t ht
      rcases List.mem_cons.1 ht with rfl | ht
      · exact .lambda fun t ht => h.operands t (List.mem_reverse.1 ht)
      · exact h.enclosing outer (by rw [open_]; exact List.mem_cons_self) t ht
    · exact fun o ho => h.enclosing o (by rw [open_]; exact List.mem_cons_of_mem _ ho)
    · have flat := h.flatten
      simp only [Builder.flatten, open_] at flat
      simp [Builder.flatten, handled, ← flat, Item.bare, kind, Tree.flattenAll_append,
        Tree.flattenAll_singleton, Tree.flatten]
    · rw [h.diagnostics]
      simp [Item.reports, Item.unhandled?, handled]
  | @unhandled token unhandled =>
    refine ⟨h.operands, h.enclosing, ?_, ?_⟩
    · have flat := h.flatten
      simp only [Builder.flatten] at flat ⊢
      rw [flat]
      simp [unhandled]
    · simp [h.diagnostics, Item.reports, Item.unhandled?, unhandled, Item.token?]

/-- What a builder holds after a run encodes the items of the run. -/
theorem Encodes.run {builder : Builder} {items : List Item}
    (run : items.foldlM Builder.step .initial = .ok builder) : builder.Encodes items := by
  have keep (before : List Item) (b : Builder) (item : Item) (next : Builder) (h : b.Encodes before)
      (step : b.step item = .ok next) : next.Encodes (before ++ [item]) := h.step (.of_step step)
  exact Run.invariant (P := fun before b => b.Encodes before) keep .initial run

/-! ## Items without handling, and the places of lambdas, do not matter -/

/-- A handled item does to the trees what it does without text and place, and reports nothing. -/
theorem Reads.of_bare {operands : List Tree} {enclosing : List (List Tree)}
    {before : Array Diagnostic} (diagnostics : Array Diagnostic) {item : Item} {next : Builder}
    (handled : item.isHandled = true) (h : Reads ⟨operands, enclosing, before⟩ item.bare next) :
    Reads ⟨operands, enclosing, diagnostics⟩ item ⟨next.operands, next.enclosing, diagnostics⟩ := by
  match item with
  | .arity _ _ =>
    cases h with
    | array split => exact .array split
    | call split => exact .call split
  | .token token =>
    by_cases isOpen : token.kind = .lambdaOpen
    · have bare : (Item.token token).bare = .lambdaOpen := by simp only [Item.bare, isOpen]
      rw [bare] at h
      cases h with
      | lambdaOpen => exact .lambdaOpen isOpen
      | _ => contradiction
    by_cases isClose : token.kind = .lambdaClose
    · have bare : (Item.token token).bare = .lambdaClose := by simp only [Item.bare, isClose]
      rw [bare] at h
      cases h with
      | lambdaClose _ outer => exact .lambdaClose isClose outer
      | _ => contradiction
    have bare : (Item.token token).bare = .token token := by
      cases kind : token.kind <;> simp_all [Item.bare]
    rw [bare] at h
    cases h with
    | leaf data => exact .leaf data
    | operator kind split length => exact .operator kind split length
    | unary kind split length => exact .unary kind split length
    | lambdaOpen kind => exact absurd kind isOpen
    | lambdaClose kind _ => exact absurd kind isClose
    | unhandled unhandled => rw [handled] at unhandled; cases unhandled

/-- If the handled items run without text and place, all items do, with a report for each of the
others. -/
theorem foldlM_of_bare {items : List Item} {operands : List Tree} {enclosing : List (List Tree)}
    {before : Array Diagnostic} (diagnostics : Array Diagnostic) {last : Builder}
    (run : ((items.filter Item.isHandled).map Item.bare).foldlM step ⟨operands, enclosing, before⟩ =
      .ok last) :
    items.foldlM step ⟨operands, enclosing, diagnostics⟩ =
      .ok ⟨last.operands, last.enclosing, diagnostics ++ Item.reports items⟩ := by
  induction items generalizing operands enclosing before diagnostics with
  | nil =>
    cases Run.nil_eq_ok_iff.1 run
    simp [Item.reports]
    rfl
  | cons item items ih =>
    rw [Run.cons_eq_ok_iff]
    cases handled : item.isHandled with
    | true =>
      rw [List.filter_cons_of_pos handled, List.map_cons, Run.cons_eq_ok_iff] at run
      obtain ⟨next, head, tail⟩ := run
      refine ⟨_, ((Reads.of_step head).of_bare diagnostics handled).step_eq, ?_⟩
      rw [ih diagnostics tail]
      simp [Item.reports, Item.unhandled?, handled]
    | false =>
      rw [List.filter_cons_of_neg (by rw [handled]; exact Bool.false_ne_true)] at run
      match item with
      | .arity _ _ => cases handled
      | .token token =>
        refine ⟨_, (Reads.unhandled handled).step_eq, ?_⟩
        rw [ih _ run]
        simp [Item.reports, Item.unhandled?, handled, Item.token?]

end Builder

namespace Forest

/-- What building gives is well formed and encoded by the items. -/
theorem flatten_of_ofItems {items : List Item} {forest : Forest} (h : ofItems items = .ok forest) :
    (∀ tree ∈ forest.trees, tree.WellFormed) ∧
      (items.filter Item.isHandled).map Item.bare = Tree.flattenAll forest.trees ∧
      forest.diagnostics = Item.reports items := by
  obtain ⟨builder, run, finish⟩ := Run.bind_eq_ok_iff.1 h
  have encodes := Builder.Encodes.run run
  unfold Builder.finish at finish
  split at finish
  · rename_i closed
    cases finish
    refine ⟨fun t ht => encodes.operands t (List.mem_reverse.1 ht), ?_, encodes.diagnostics⟩
    rw [← encodes.flatten, Builder.flatten, closed]
    rfl
  · cases finish

end Forest

namespace Builder

/-- What is built by itself is built on top of anything. -/
theorem foldlM_of_ofItems {items : List Item} {forest : Forest} (h : Forest.ofItems items = .ok forest)
    (builder : Builder) : items.foldlM step builder =
      .ok ⟨forest.trees.reverse ++ builder.operands, builder.enclosing,
        builder.diagnostics ++ Item.reports items⟩ := by
  obtain ⟨wf, flat, -⟩ := Forest.flatten_of_ofItems h
  have run := foldlM_flattenAll (fun tree mem => foldlM_flatten (wf tree mem)) builder
  rw [← flat] at run
  exact foldlM_of_bare builder.diagnostics run

end Builder

namespace Forest

/-- Building inverts the encoding of well-formed trees. -/
theorem ofItems_of_flatten {items : List Item} {trees : List Tree}
    (wf : ∀ tree ∈ trees, tree.WellFormed)
    (flat : (items.filter Item.isHandled).map Item.bare = Tree.flattenAll trees) :
    ofItems items = .ok ⟨trees, Item.reports items⟩ := by
  have bare := Builder.foldlM_flattenAll (fun t ht => Builder.foldlM_flatten (wf t ht)) .initial
  rw [← flat] at bare
  refine Run.bind_eq_ok_iff.2 ⟨_, Builder.foldlM_of_bare #[] bare, ?_⟩
  simp [Builder.push, Builder.initial, Builder.finish]

end Forest

/-- Building gives trees exactly when they are well formed and the items, those without handling and
the places of lambdas apart, are their encoding; what it reports are the items without handling. -/
theorem ofItems_eq_ok_iff (items : List Item) (forest : Forest) :
    Forest.ofItems items = .ok forest ↔
      (∀ tree ∈ forest.trees, tree.WellFormed) ∧
      (items.filter Item.isHandled).map Item.bare = Tree.flattenAll forest.trees ∧
      forest.diagnostics = Item.reports items := by
  refine ⟨Forest.flatten_of_ofItems, fun ⟨wf, flat, diagnostics⟩ => ?_⟩
  rw [Forest.ofItems_of_flatten wf flat, ← diagnostics]

/-- The trees of items one behind the other. -/
theorem Forest.ofItems_append {xs ys : List Item} {first second : Forest}
    (hx : ofItems xs = .ok first) (hy : ofItems ys = .ok second) : ofItems (xs ++ ys) =
      .ok ⟨first.trees ++ second.trees, first.diagnostics ++ second.diagnostics⟩ := by
  obtain ⟨wfx, flatx, reportsx⟩ := flatten_of_ofItems hx
  obtain ⟨wfy, flaty, reportsy⟩ := flatten_of_ofItems hy
  have flat : ((xs ++ ys).filter Item.isHandled).map Item.bare =
      Tree.flattenAll (first.trees ++ second.trees) := by
    rw [Tree.flattenAll_append, ← flatx, ← flaty, List.filter_append, List.map_append]
  rw [ofItems_of_flatten (List.forall_mem_append.2 ⟨wfx, wfy⟩) flat, reportsx, reportsy]
  simp only [Item.reports, List.filterMap_append, List.map_append]

end ExprCompiler
