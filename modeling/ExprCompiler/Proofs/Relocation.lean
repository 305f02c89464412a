import ExprCompiler.Postfix.Yard
import ExprCompiler.Proofs.Tree.Encoding

/-!
# Places do not matter

A postfix form and its trees depend on the kinds and the texts of tokens. Where the tokens stand shows
in offsets only, which move with them:

* `Token.relocate` and its likes: a token, an error, a tree with `place` applied to all of its offsets;
* `relocated`: the same of the result of a stage, whether it is an error or not, with what stages one
  after the other (`relocated_bind`) and runs of steps (`relocated_foldlM`) do to it;
* `Yard.read_relocate`, `Postfix.ofTokens_relocate`: the yard treats tokens in other places alike;
* `Builder.step_relocate`, `Forest.ofItems_relocate`: so does a builder, items apart that it does not
  handle, for it puts their offsets into words.
-/

namespace ExprCompiler

/-! ## Offsets -/

section Offsets

variable (place : Nat → Nat)

/-- The token in another place. -/
def Token.relocate (token : Token) : Token :=
  { token with offset := place token.offset }

/-- The item with its token in another place. -/
def Item.relocate : Item → Item
  | .token t => .token (t.relocate place)
  | .arity gathering count => .arity gathering count

/-- The error reported in another place. -/
def SyntaxError.relocate (error : SyntaxError) : SyntaxError :=
  { error with offset := error.offset.map place }

/-- The diagnostic reported in another place. -/
def Diagnostic.relocate (diagnostic : Diagnostic) : Diagnostic :=
  { diagnostic with offset := diagnostic.offset.map place }

/-- The yard with what waits in it in other places. -/
def Yard.relocate (yard : Yard) : Yard :=
  { yard with operators := yard.operators.map (Token.relocate place) }

/-- The move with everything in other places. -/
def Yard.Move.relocate (move : Yard.Move) : Yard.Move where
  yard := move.yard.relocate place
  items := move.items.map (Item.relocate place)
  diagnostics := move.diagnostics.map (Diagnostic.relocate place)

/-- The program being read with everything in other places. -/
def Shunting.relocate (shunting : Shunting) : Shunting where
  yard := shunting.yard.relocate place
  items := shunting.items.map (Item.relocate place)
  diagnostics := shunting.diagnostics.map (Diagnostic.relocate place)

/-- The postfix form with everything in other places. -/
def Postfix.relocate (result : Postfix) : Postfix where
  items := result.items.map (Item.relocate place)
  diagnostics := result.diagnostics.map (Diagnostic.relocate place)

mutual

/-- The tree with its tokens in other places. -/
def Tree.relocate : Tree → Tree
  | .leaf token => .leaf (token.relocate place)
  | .operator op operands => .operator (op.relocate place) (Tree.relocateAll operands)
  | .unary op operands => .unary (op.relocate place) (Tree.relocateAll operands)
  | .lambda body => .lambda (Tree.relocateAll body)
  | .array elements => .array (Tree.relocateAll elements)
  | .call callee arguments => .call (Tree.relocate callee) (Tree.relocateAll arguments)

/-- The trees with their tokens in other places. -/
def Tree.relocateAll : List Tree → List Tree
  | [] => []
  | tree :: trees => Tree.relocate tree :: Tree.relocateAll trees

end

theorem Tree.relocateAll_eq_map (trees : List Tree) :
    Tree.relocateAll place trees = trees.map (Tree.relocate place) := by
  induction trees with
  | nil => rfl
  | cons tree trees ih => rw [relocateAll, ih, List.map_cons]

/-- The builder with everything in other places. -/
def Builder.relocate (builder : Builder) : Builder where
  operands := builder.operands.map (Tree.relocate place)
  enclosing := builder.enclosing.map fun operands => operands.map (Tree.relocate place)
  diagnostics := builder.diagnostics.map (Diagnostic.relocate place)

/-- The forest with everything in other places. -/
def Forest.relocate (forest : Forest) : Forest where
  trees := forest.trees.map (Tree.relocate place)
  diagnostics := forest.diagnostics.map (Diagnostic.relocate place)

end Offsets

/-! ## Results -/

section Results

variable {α β σ : Type} {place : Nat → Nat} {move : α → α} {move' : β → β}

/-- The result of a stage: an error reported in another place, or what `move` makes of the value. -/
def relocated (place : Nat → Nat) (move : α → α) : Except SyntaxError α → Except SyntaxError α
  | .ok value => .ok (move value)
  | .error error => .error (error.relocate place)

@[simp] theorem relocated_pure (value : α) :
    relocated place move (pure value) = pure (move value) :=
  rfl

theorem relocated_bind {result : Except SyntaxError α} {next next' : α → Except SyntaxError β}
    (h : ∀ value, next' (move value) = relocated place move' (next value)) :
    relocated place move result >>= next' = relocated place move' (result >>= next) := by
  cases result with
  | ok value => exact h value
  | error => rfl

theorem relocated_ite {condition : Prop} [Decidable condition]
    {first first' second second' : Except SyntaxError α} (h : first' = relocated place move first)
    (h' : second' = relocated place move second) :
    (if condition then first' else second') =
      relocated place move (if condition then first else second) := by
  split
  · exact h
  · exact h'

/-- A run of steps that offsets do not matter to. -/
theorem relocated_foldlM {step : σ → α → Except SyntaxError σ} {moveState : σ → σ} {as : List α}
    (h : ∀ state, ∀ a ∈ as, step (moveState state) (move a) = relocated place moveState (step state a))
    (state : σ) :
    (as.map move).foldlM step (moveState state) = relocated place moveState (as.foldlM step state) := by
  induction as generalizing state with
  | nil => rfl
  | cons a as ih =>
    rw [List.map_cons, List.foldlM_cons, List.foldlM_cons, h state a List.mem_cons_self]
    exact relocated_bind fun next => ih (fun state a mem => h state a (List.mem_cons_of_mem _ mem)) next

end Results

/-! ## The yard -/

theorem Item.map_relocate_token (place : Nat → Nat) (tokens : List Token) :
    (tokens.map (Token.relocate place)).map Item.token =
      (tokens.map Item.token).map (Item.relocate place) := by
  rw [List.map_map, List.map_map]
  rfl

namespace Yard

variable (place : Nat → Nat)

theorem unclosed?_relocate (within : List Delimiter) (operators : List Token) :
    unclosed? within (operators.map (Token.relocate place)) =
      (unclosed? within operators).map (SyntaxError.relocate place) := by
  cases operators with
  | nil => rfl
  | cons top operators =>
    have kind : (top.relocate place).kind = top.kind := rfl
    simp only [unclosed?, List.map_cons, List.head?_cons, Option.bind_some, kind]
    cases top.kind.opens? with
    | none => rfl
    | some delimiter => by_cases mem : delimiter ∈ within <;> simp only [Option.bind_some, mem] <;> rfl

/-- What has left, and what is kept. -/
def relocateCut (cut : List Item × List Token) : List Item × List Token :=
  (cut.1.map (Item.relocate place), cut.2.map (Token.relocate place))

theorem flush_relocate (within : List Delimiter) (operators : List Token) :
    flush within (operators.map (Token.relocate place)) =
      relocated place (relocateCut place) (flush within operators) := by
  have pending : isPending ∘ Token.relocate place = isPending := rfl
  simp only [flush, List.dropWhile_map, List.takeWhile_map, pending, unclosed?_relocate]
  cases unclosed? within (operators.dropWhile isPending) with
  | some error => rfl
  | none =>
    rw [Item.map_relocate_token]
    rfl

theorem close_relocate (delimiter : Delimiter) (closing : Token) (operators : List Token) :
    close delimiter (closing.relocate place) (operators.map (Token.relocate place)) =
      relocated place (relocateCut place) (close delimiter closing operators) := by
  rw [close, flush_relocate]
  refine relocated_bind fun cut => ?_
  obtain ⟨items, below⟩ := cut
  cases below <;> rfl

theorem addOperator_relocate (yard : Yard) (token : Token) :
    (yard.relocate place).addOperator (token.relocate place) =
      (yard.addOperator token).relocate place := by
  have binding : (token.relocate place).binding? = token.binding? := rfl
  simp only [addOperator, binding]
  cases token.binding? with
  | none => rfl
  | some binding =>
    have leaves : yields binding.level ∘ Token.relocate place = yields binding.level := rfl
    simp only [Yard.relocate, List.takeWhile_map, List.dropWhile_map, leaves, Item.map_relocate_token]
    rfl

theorem addComma_relocate (yard : Yard) (token : Token) :
    (yard.relocate place).addComma (token.relocate place) =
      relocated place (Move.relocate place) (yard.addComma token) := by
  unfold addComma
  refine relocated_ite rfl ?_
  simp only [Yard.relocate, flush_relocate]
  cases yard.counts with
  | nil => rfl
  | cons count counts => exact relocated_bind fun cut => rfl

theorem closeBracket_relocate (yard : Yard) (token : Token) (delimiter : Delimiter) (opener : Kind)
    (gathering : Gathering) :
    (yard.relocate place).closeBracket (token.relocate place) delimiter opener gathering =
      relocated place (Move.relocate place) (yard.closeBracket token delimiter opener gathering) := by
  unfold closeBracket
  refine relocated_ite rfl ?_
  simp only [Yard.relocate, close_relocate]
  refine relocated_bind fun cut => ?_
  obtain ⟨items, outer⟩ := cut
  simp [relocateCut, Move.relocate, Item.relocate, Yard.relocate]

/-- Places do not matter to how a token is read. -/
theorem read_relocate (yard : Yard) (token : Token) :
    (yard.relocate place).read (token.relocate place) =
      relocated place (Move.relocate place) (yard.read token) := by
  have kind : (token.relocate place).kind = token.kind := rfl
  simp only [read, kind]
  cases token.kind
  case operator => exact congrArg Except.ok (addOperator_relocate place yard token)
  case comma => exact addComma_relocate place yard token
  case callClose | arrayClose => exact closeBracket_relocate place yard token _ _ _
  case separator =>
    simp only [Yard.relocate, flush_relocate]
    exact relocated_bind fun cut => rfl
  case parenClose =>
    simp only [Yard.relocate, close_relocate]
    exact relocated_bind fun cut => rfl
  case lambdaClose =>
    simp only [Yard.relocate, close_relocate]
    refine relocated_bind fun cut => ?_
    obtain ⟨items, outer⟩ := cut
    simp [relocateCut, Move.relocate, Item.relocate, Yard.relocate]
  all_goals rfl

theorem remember_relocate (yard : Yard) (kind : Kind) :
    (yard.remember kind).relocate place = (yard.relocate place).remember kind := by
  unfold remember
  split <;> rfl

theorem step_relocate (yard : Yard) (token : Token) :
    (yard.relocate place).step (token.relocate place) =
      relocated place (Move.relocate place) (yard.step token) := by
  rw [step, read_relocate]
  refine relocated_bind fun move => ?_
  simp only [relocated_pure, Move.relocate, remember_relocate]
  rfl

end Yard

theorem Shunting.step_relocate (place : Nat → Nat) (shunting : Shunting) (token : Token) :
    (shunting.relocate place).step (token.relocate place) =
      relocated place (Shunting.relocate place) (shunting.step token) := by
  have step := Yard.step_relocate place shunting.yard token
  rw [Shunting.step, Shunting.relocate, step]
  refine relocated_bind fun move => ?_
  have moved {α : Type} (f : α → α) (xs : Array α) (ys : List α) :
      (xs ++ ys).map f = xs.map f ++ ys.map f := Array.ext' (by simp)
  simp only [relocated_pure, Yard.Move.relocate, Shunting.relocate, moved]

/-- The postfix form of tokens in other places. -/
theorem Postfix.ofTokens_relocate (place : Nat → Nat) (tokens : List Token) :
    ofTokens (tokens.map (Token.relocate place)) =
      relocated place (Postfix.relocate place) (ofTokens tokens) := by
  have run := relocated_foldlM (fun shunting token (_ : token ∈ tokens) =>
    Shunting.step_relocate place shunting token) Shunting.initial
  have initial : Shunting.relocate place .initial = .initial := by
    simp [Shunting.relocate, Shunting.initial, Yard.relocate, Yard.empty]
  rw [initial] at run
  rw [ofTokens, run]
  refine relocated_bind fun shunting => ?_
  rw [Shunting.finish, Shunting.relocate, Yard.relocate, Yard.flush_relocate]
  refine relocated_bind fun cut => ?_
  simp [Yard.relocateCut, Postfix.relocate]

/-! ## The builder -/

namespace Builder

variable (place : Nat → Nat)

/-- What is taken, and what is left. -/
def relocateCut (cut : List Tree × List Tree) : List Tree × List Tree :=
  (cut.1.map (Tree.relocate place), cut.2.map (Tree.relocate place))

theorem take_relocate (operands : List Tree) (count : Nat) (taker : Taker) (offset : Option Nat) :
    take (operands.map (Tree.relocate place)) count taker (offset.map place) =
      relocated place (relocateCut place) (take operands count taker offset) := by
  simp only [take, ← List.map_take, ← List.map_drop, ← List.map_reverse, List.length_map]
  exact relocated_ite rfl rfl

/-- An operation takes its operands wherever they and its sign stand. -/
theorem apply_relocate (builder : Builder) (count : Nat) (taker : Taker) (offset : Option Nat)
    {apply apply' : List Tree → Tree}
    (h : ∀ operands, apply' (operands.map (Tree.relocate place)) = (apply operands).relocate place) :
    (do
      let (operands, rest) ← take (builder.relocate place).operands count taker (offset.map place)
      return { builder.relocate place with operands := apply' operands :: rest }) =
    relocated place (Builder.relocate place) (do
      let (operands, rest) ← take builder.operands count taker offset
      return { builder with operands := apply operands :: rest }) := by
  have taken := take_relocate place builder.operands count taker offset
  rw [Builder.relocate, taken]
  refine relocated_bind fun cut => ?_
  simp only [relocated_pure, relocateCut, h, Builder.relocate, List.map_cons]

/-- Places do not matter to what is made of an item that is handled. -/
theorem step_relocate (builder : Builder) {item : Item} (handled : item.isHandled = true) :
    (builder.relocate place).step (item.relocate place) =
      relocated place (Builder.relocate place) (builder.step item) := by
  match item with
  | .arity .call count =>
    have taken : take (builder.relocate place).operands count .call none = _ :=
      take_relocate place builder.operands count .call none
    simp only [Item.relocate, step, taken]
    refine relocated_bind fun cut => ?_
    obtain ⟨arguments, rest⟩ := cut
    cases rest with
    | nil => rfl
    | cons callee rest =>
      simp only [relocateCut, List.map_cons, relocated_pure, Builder.relocate, Tree.relocate,
        Tree.relocateAll_eq_map]
  | .arity .array count =>
    exact apply_relocate place builder count .array none fun elements => by
      rw [Tree.relocate, Tree.relocateAll_eq_map]
  | .token token =>
    have kind : (token.relocate place).kind = token.kind := rfl
    simp only [Item.isHandled] at handled
    simp only [Item.relocate, step, kind]
    cases kind : token.kind
    case number | string | word | placeholder => 
      simp [relocated, Builder.relocate, Tree.relocate]
    case operator | unaryOperator =>
      exact apply_relocate place builder _ (.operator token.text) (some token.offset) fun operands => by
        rw [Tree.relocate, Tree.relocateAll_eq_map]
    case lambdaOpen =>
      simp [relocated, Builder.relocate]
    case lambdaClose =>
      simp only [Builder.relocate]
      cases builder.enclosing with
      | nil => rfl
      | cons outer enclosing => simp [relocated, Builder.relocate, Tree.relocate, Tree.relocateAll_eq_map]
    all_goals simp [kind, Kind.isData, Kind.isOperator] at handled

end Builder

/-- The trees of items in other places. -/
theorem Forest.ofItems_relocate (place : Nat → Nat) {items : List Item}
    (handled : ∀ item ∈ items, item.isHandled = true) :
    ofItems (items.map (Item.relocate place)) =
      relocated place (Forest.relocate place) (ofItems items) := by
  have run := relocated_foldlM (fun builder item mem =>
    Builder.step_relocate place builder (handled item mem)) Builder.initial
  have initial : Builder.relocate place .initial = .initial := by
    simp [Builder.relocate, Builder.initial]
  rw [initial] at run
  rw [ofItems, run]
  refine relocated_bind fun builder => ?_
  simp only [Builder.finish, Builder.relocate]
  cases builder.enclosing with
  | nil => simp [relocated, Forest.relocate]
  | cons => rfl

end ExprCompiler
