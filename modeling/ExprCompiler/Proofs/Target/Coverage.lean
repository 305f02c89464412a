import ExprCompiler.Proofs.Target.Composition
import ExprCompiler.Proofs.Target.Lowering
import ExprCompiler.Proofs.Tree.Order
import Mathlib.Data.List.TakeWhile

/-!
# What the Ruby target covers

The trees that are emitted without a report are those that can be expressed:

* `Emit.QuietIff`: an action reports nothing exactly under a condition, which actions in sequence put
  together;
* `Target.Ruby.Supports`: what can be expressed of a tree and the trees directly below it;
* `Target.Ruby.Covers`: all of a tree, at every depth, can be expressed. `Target.Ruby.covers_array`,
  `Target.Ruby.covers_call` and so on say it from the trees below;
* `Target.Ruby.quietIff_emit`: a well-formed tree is emitted without a report exactly if it is covered;
* `Target.Ruby.text_ne_empty`: what can be expressed of a tree is not empty;
* `reports_nothing_iff_covers`: both, of the trees of a source text.
-/

namespace ExprCompiler

namespace Emit

variable {α β : Type} {action : Emit α} {next : α → Emit β} {p q : Prop}

/-- Whatever was reported before, the action reports nothing exactly if `p`, and all that it reports
belongs to the stage of emission. -/
def QuietIff (action : Emit α) (p : Prop) : Prop :=
  ∃ value reported, action.Yields value reported ∧ (∀ d ∈ reported, d.stage = .generate) ∧
    (reported = [] ↔ p)

theorem QuietIff.congr (h : action.QuietIff p) (iff : p ↔ q) : action.QuietIff q := by
  rwa [← propext iff]

/-- An action that reports nothing, where the condition holds. -/
theorem QuietIff.of (h : action.QuietIff True) (holds : p) : action.QuietIff p :=
  h.congr (iff_of_true trivial holds)

/-- An action that reports something, where it does not. -/
theorem QuietIff.of_not (h : action.QuietIff False) (fails : ¬ p) : action.QuietIff p :=
  h.congr (iff_of_false id fails)

theorem QuietIff.pure (value : α) : (pure value : Emit α).QuietIff True :=
  ⟨value, [], yields_pure value, nofun, by simp⟩

theorem QuietIff.warn (message : String) (offset : Option Nat) : (warn message offset).QuietIff False :=
  ⟨(), _, yields_warn message offset, by simp, by simp⟩

/-- What comes next may depend on the value that is yielded. -/
theorem QuietIff.bind (h : action.QuietIff p)
    (rest : ∀ value reported, action.Yields value reported → (next value).QuietIff q) :
    (action >>= next).QuietIff (p ∧ q) := by
  obtain ⟨value, reported, yields, stage, quiet⟩ := h
  obtain ⟨result, more, yields', stage', quiet'⟩ := rest value reported yields
  refine ⟨result, reported ++ more, yields.bind yields', List.forall_mem_append.2 ⟨stage, stage'⟩, ?_⟩
  rw [List.append_eq_nil_iff, quiet, quiet']

/-- What comes next reports nothing. -/
theorem QuietIff.bind_true (h : action.QuietIff p) (rest : ∀ value, (next value).QuietIff True) :
    (action >>= next).QuietIff p :=
  (h.bind fun value _ _ => rest value).congr (and_iff_left trivial)

/-- Nothing is quiet behind a warning. -/
theorem QuietIff.bind_warn {message : String} {offset : Option Nat} {next : Unit → Emit β}
    (rest : (next ()).QuietIff q) : (Emit.warn message offset >>= next).QuietIff False :=
  ((QuietIff.warn message offset).bind fun _ _ _ => rest).congr (iff_of_eq (false_and q))

theorem QuietIff.map (h : action.QuietIff p) (f : α → β) : (f <$> action).QuietIff p := by
  rw [← bind_pure_comp]
  exact h.bind_true fun _ => .pure _

theorem QuietIff.mapM {f : α → Emit β} {p : α → Prop} {xs : List α}
    (h : ∀ x ∈ xs, (f x).QuietIff (p x)) : (xs.mapM f).QuietIff (∀ x ∈ xs, p x) := by
  induction xs with
  | nil => exact (QuietIff.pure []).congr (by simp)
  | cons x xs ih =>
    obtain ⟨head, tail⟩ := List.forall_mem_cons.1 h
    rw [List.mapM_cons]
    refine (head.bind fun _ _ _ => (ih tail).bind_true fun _ => .pure _).congr ?_
    rw [List.forall_mem_cons]

/-- No report of the stage is no report. -/
theorem QuietIff.iff (h : action.QuietIff p) :
    (∀ d ∈ (action.run #[]).2, d.stage ≠ .generate) ↔ p := by
  obtain ⟨value, reported, yields, stage, quiet⟩ := h
  rw [← quiet, yields #[]]
  constructor
  · intro none
    refine List.eq_nil_iff_forall_not_mem.2 fun d mem => none d ?_ (stage d mem)
    simpa using mem
  · rintro rfl
    simp

end Emit

/-! ## What can be expressed -/

/-- A placeholder without an index: nothing but underscores. -/
def Tree.IsUnindexed (tree : Tree) : Prop :=
  ∃ token, tree = .leaf token ∧ token.kind = .placeholder ∧ ∀ c ∈ token.text.toList, c = '_'

namespace Target.Ruby

open Emit

/-- What can be expressed of a tree, whatever the trees below it are made of. -/
def Supports : Tree → Prop
  | .leaf _ => True
  | .operator op operands =>
    op.text ∈ [":=", "=", "+", "-", "*", "/"] ∧
      (op.text = ":=" → ∃ token, operands.head? = some (.leaf token)) ∧
      -- A placeholder without an index can only be assigned to.
      ∀ i x, operands[i]? = some x → x.IsUnindexed → op.text = ":=" ∧ i = 0
  | .unary op operands => op.text ∈ ["-", "~", "*"] ∧ ∀ x ∈ operands, ¬ x.IsUnindexed
  | .lambda body => ∀ x ∈ body, ¬ x.IsUnindexed
  | .array elements => ∀ x ∈ elements, ¬ x.IsUnindexed
  | .call callee arguments =>
    (∀ name, callee = .leaf name → name.text = "If" → arguments.length = 3) ∧
      ∀ x ∈ callee :: arguments, ¬ x.IsUnindexed

/-- The tree can stand by itself, and all that it is made of can be expressed. -/
def Covers (tree : Tree) : Prop :=
  ¬ tree.IsUnindexed ∧ ∀ node, Tree.Part node tree → Supports node

theorem forall_part_iff {p : Tree → Prop} {tree : Tree} : (∀ node, Tree.Part node tree → p node) ↔
    p tree ∧ ∀ child ∈ tree.children, ∀ node, Tree.Part node child → p node := by
  constructor
  · exact fun h => ⟨h tree .self, fun child mem node isPart => h node (.child mem isPart)⟩
  · rintro ⟨self, below⟩ node isPart
    cases isPart with
    | self => exact self
    | child mem isPart => exact below _ mem node isPart

theorem covers_leaf (token : Token) : Covers (.leaf token) ↔ ¬ (Tree.leaf token).IsUnindexed := by
  rw [Covers, forall_part_iff]
  exact and_iff_left ⟨trivial, nofun⟩

/-- Only a leaf is a placeholder. -/
theorem not_isUnindexed {tree : Tree} (h : isLeaf tree = false) : ¬ tree.IsUnindexed := by
  rintro ⟨token, rfl, -⟩
  cases h

/-- A tree below which no placeholder may lack its index is covered with the trees below it. -/
theorem covers_iff_children {tree : Tree} {own : Prop} (node : isLeaf tree = false)
    (supports : Supports tree ↔ own ∧ ∀ x ∈ tree.children, ¬ x.IsUnindexed) :
    Covers tree ↔ own ∧ ∀ x ∈ tree.children, Covers x := by
  rw [Covers, forall_part_iff, supports, and_iff_right (not_isUnindexed node), and_assoc]
  simp only [Covers, imp_and, forall_and]

theorem covers_lambda (body : List Tree) : Covers (.lambda body) ↔ ∀ x ∈ body, Covers x :=
  (covers_iff_children rfl (and_iff_right trivial).symm).trans (and_iff_right trivial)

theorem covers_array (elements : List Tree) : Covers (.array elements) ↔ ∀ x ∈ elements, Covers x :=
  (covers_iff_children rfl (and_iff_right trivial).symm).trans (and_iff_right trivial)

theorem covers_call (callee : Tree) (arguments : List Tree) : Covers (.call callee arguments) ↔
    (∀ x ∈ arguments, Covers x) ∧ Covers callee ∧
      ∀ name, callee = .leaf name → name.text = "If" → arguments.length = 3 := by
  have children : (∀ x ∈ (Tree.call callee arguments).children, Covers x) ↔
      Covers callee ∧ ∀ x ∈ arguments, Covers x := List.forall_mem_cons
  rw [covers_iff_children rfl Iff.rfl, children, and_comm, and_comm (a := Covers callee), and_assoc]

theorem covers_unary (op : Token) (x : Tree) :
    Covers (.unary op [x]) ↔ op.text ∈ ["-", "~", "*"] ∧ Covers x := by
  rw [covers_iff_children rfl Iff.rfl]
  exact and_congr_right' List.forall_mem_singleton

/-- The target of an assignment is a leaf, and any leaf will do. -/
theorem covers_assignment {op : Token} (assigns : op.text = ":=") (x y : Tree) :
    Covers (.operator op [x, y]) ↔ (∃ token, x = .leaf token) ∧ Covers y := by
  constructor
  · rintro ⟨-, supports⟩
    obtain ⟨-, target, unindexed⟩ := supports _ .self
    obtain ⟨token, leaf⟩ := target assigns
    refine ⟨⟨token, Option.some.inj leaf⟩, fun isUnindexed => ?_, fun node isPart => ?_⟩
    · exact absurd (unindexed 1 y rfl isUnindexed).2 (by decide)
    · exact supports node (.child (List.mem_cons_of_mem _ List.mem_cons_self) isPart)
  · rintro ⟨⟨token, rfl⟩, y_indexed, supports⟩
    refine ⟨not_isUnindexed rfl, forall_part_iff.2 ⟨⟨?_, fun _ => ⟨token, rfl⟩, ?_⟩, ?_⟩⟩
    · rw [assigns]
      exact List.mem_cons_self
    · rintro (_ | _ | i) x found isUnindexed
      · exact ⟨assigns, rfl⟩
      · cases found
        exact absurd isUnindexed y_indexed
      · cases found
    · refine List.forall_mem_cons.2 ⟨fun node isPart => ?_, List.forall_mem_singleton.2 supports⟩
      cases isPart with
      | self => trivial
      | child mem => cases mem

theorem covers_operator {op : Token} (other : op.text ≠ ":=") (x y : Tree) :
    Covers (.operator op [x, y]) ↔ op.text ∈ ["=", "+", "-", "*", "/"] ∧ Covers x ∧ Covers y := by
  have supports : Supports (.operator op [x, y]) ↔
      op.text ∈ ["=", "+", "-", "*", "/"] ∧ ∀ z ∈ [x, y], ¬ z.IsUnindexed := by
    rw [Supports, List.mem_cons, or_iff_right other]
    refine and_congr_right' ⟨fun ⟨_, unindexed⟩ z mem isUnindexed => ?_, fun indexed => ⟨?_, ?_⟩⟩
    · obtain ⟨i, found⟩ := List.getElem?_of_mem mem
      exact other (unindexed i z found isUnindexed).1
    · exact fun assigns => absurd assigns other
    · exact fun i z found isUnindexed => absurd isUnindexed (indexed z (List.mem_of_getElem? found))
  rw [covers_iff_children rfl supports]
  refine and_congr_right' ?_
  show (∀ z ∈ [x, y], Covers z) ↔ _
  rw [List.forall_mem_cons, List.forall_mem_singleton]

/-! ## What is reported about each form -/

section Forms

variable {tree : Tree} {trees : List Tree} {p : Prop}

theorem quietIff_value (token : Token) : (value token).QuietIff (Covers (.leaf token)) := by
  rw [covers_leaf]
  unfold value
  split
  · rename_i kind
    split
    · rename_i none
      refine .of_not (.bind_warn (.pure _)) fun indexed => indexed ⟨token, rfl, kind, ?_⟩
      simpa using List.dropWhile_eq_nil_iff.1 none
    · rename_i some_
      refine .of (.pure _) ?_
      rintro ⟨_, ⟨⟩, -, underscores⟩
      exact some_ (List.dropWhile_eq_nil_iff.2 (by simpa using underscores))
  · rename_i kind
    refine .of (.pure _) ?_
    rintro ⟨_, ⟨⟩, placeholder, -⟩
    exact kind placeholder

/-- Pieces are quiet one by one. -/
theorem quietIff_pieces {α : Type} {f : Piece → Emit α}
    (h : ∀ tree ∈ trees, (f (ruby.piece tree)).QuietIff (Covers tree)) :
    ((ruby.pieces trees).mapM f).QuietIff (∀ tree ∈ trees, Covers tree) := by
  rw [pieces_eq_map, List.mapM_map]
  exact .mapM h

theorem quietIff_operand (h : (ruby.emit tree).QuietIff p) : (operand (ruby.piece tree)).QuietIff p := by
  refine h.bind_true fun text => ?_
  cases tree <;> exact .pure _

theorem quietIff_assignment {op : Token} (assigns : op.text = ":=") {x y : Tree}
    (left : (ruby.emit x).QuietIff (Covers x)) (right : (ruby.emit y).QuietIff (Covers y)) :
    (assignment op (ruby.pieces [x, y])).QuietIff (Covers (.operator op [x, y])) := by
  rw [covers_assignment assigns]
  cases x with
  | leaf token =>
    refine QuietIff.congr ?_ (and_iff_right ⟨token, rfl⟩).symm
    show (ruby.emit y >>= fun value => pure (token.text ++ " = " ++ value)).QuietIff _
    exact right.bind_true fun _ => .pure _
  | _ =>
    -- The report comes first, so it does not matter what is reported about the operands.
    refine .of_not ?_ fun ⟨⟨token, leaf⟩, _⟩ => nomatch leaf
    exact .bind_warn (left.bind fun _ _ _ => right.bind_true fun _ => .pure _)

/-- An operator of two operands stands between their texts as something. -/
theorem mem_of_connective? {symbol connective : String} (h : connective? symbol = some connective) :
    symbol ∈ ["=", "+", "-", "*", "/"] ∧ connective ≠ "" := by
  unfold connective? at h
  grind

theorem not_mem_of_connective? {symbol : String} (h : connective? symbol = none) :
    symbol ∉ ["=", "+", "-", "*", "/"] := by
  unfold connective? at h
  grind

theorem quietIff_operator {op : Token} {x y : Tree} (left : (ruby.emit x).QuietIff (Covers x))
    (right : (ruby.emit y).QuietIff (Covers y)) :
    (ruby.emit (.operator op [x, y])).QuietIff (Covers (.operator op [x, y])) := by
  show (operator op (ruby.pieces [x, y])).QuietIff _
  unfold operator
  split
  · exact quietIff_assignment ‹_› left right
  rename_i other
  rw [covers_operator other]
  split
  · rename_i symbol connective
    have operands : ∀ tree ∈ [x, y], (operand (ruby.piece tree)).QuietIff (Covers tree) := by
      rw [List.forall_mem_cons, List.forall_mem_singleton]
      exact ⟨quietIff_operand left, quietIff_operand right⟩
    refine ((quietIff_pieces operands).bind_true fun _ => .pure _).congr ?_
    rw [List.forall_mem_cons, List.forall_mem_singleton, and_iff_right (mem_of_connective? connective).1]
  · rename_i none
    refine .of_not (.bind_warn (.pure _)) fun covers => ?_
    exact not_mem_of_connective? none covers.1

theorem quietIff_unary {op : Token} (h : (ruby.emit tree).QuietIff (Covers tree)) :
    (ruby.emit (.unary op [tree])).QuietIff (Covers (.unary op [tree])) := by
  rw [covers_unary]
  show (unary op (ruby.piece tree)).QuietIff _
  unfold unary
  split
  · rename_i sign
    exact ((quietIff_operand h).bind_true fun _ => .pure _).congr (and_iff_right sign).symm
  · rename_i other
    exact .of_not (.bind_warn (.pure _)) fun covers => other covers.1

theorem quietIff_applied (name : String) (texts : List String) :
    (applied name texts).QuietIff (name = "If" → texts.length = 3) := by
  unfold applied
  split
  · rename_i conditional
    split
    · exact .of (.pure _) fun _ => rfl
    · rename_i count
      refine .of_not (.bind_warn (.pure _)) fun three => ?_
      match texts, three conditional with
      | [x, y, z], _ => exact count x y z rfl
  · rename_i other
    exact .of (.pure _) fun conditional => absurd conditional other

/-- What is called is put into parentheses, unless it is a leaf. -/
theorem callee_of_node (node : isLeaf tree = false) :
    callee (ruby.piece tree) = parenthesized <$> ruby.emit tree := by
  cases tree with
  | leaf => cases node
  | _ => rfl

theorem quietIff_callee (h : (ruby.emit tree).QuietIff p) : (callee (ruby.piece tree)).QuietIff p := by
  cases tree with
  | leaf token =>
    rw [piece, callee_leaf]
    exact h
  | _ => exact h.map parenthesized

/-- What is called is written like the name of conditionals only if it is that name. -/
theorem callee_eq_if_iff {name : String} {reported : List Diagnostic}
    (yields : (callee (ruby.piece tree)).Yields name reported)
    (named : ∀ token, tree = .leaf token → token.kind = .placeholder → token.text ≠ "If") :
    name = "If" ↔ ∃ token, tree = .leaf token ∧ token.text = "If" := by
  have run : ((callee (ruby.piece tree)).run #[]).1 = name := congrArg Prod.fst (yields #[])
  cases leaf : isLeaf tree with
  | false =>
    refine iff_of_false (fun conditional => ?_) fun ⟨token, eq, _⟩ => by rw [eq] at leaf; cases leaf
    rw [callee_of_node leaf] at run
    -- Anything but a leaf stands in parentheses.
    have written : parenthesized (ruby.text tree) = "If" := run.trans conditional
    have chars := congrArg String.toList written
    simp [parenthesized] at chars
  | true =>
    obtain ⟨token, rfl⟩ : ∃ token, tree = .leaf token := by
      cases tree with
      | leaf token => exact ⟨token, rfl⟩
      | _ => cases leaf
    have same : (∃ t, Tree.leaf token = .leaf t ∧ t.text = "If") ↔ token.text = "If" := by simp
    rw [piece, callee_leaf] at run
    have run : ((value token).run #[]).1 = name := run
    rw [same]
    unfold value at run
    split at run
    · rename_i kind
      -- A placeholder is not written as its own text, but as `nil` or as access to an argument.
      refine iff_of_false (fun conditional => ?_) (named token rfl kind)
      rw [conditional] at run
      split at run
      · have written : "nil" = "If" := run
        exact absurd written (by decide)
      · have written : "_abstract[" ++ String.ofList _ ++ "]" = "If" := run
        have chars := congrArg String.toList written
        simp at chars
    · cases run
      exact Iff.rfl

/-- As many texts are there as trees. -/
theorem length_of_yields {texts : List String} {reported : List Diagnostic}
    (yields : (Piece.emitAll (ruby.pieces trees)).Yields texts reported) : texts.length = trees.length := by
  have all : (Piece.emitAll (ruby.pieces trees)).Yields _ _ :=
    .mapM fun piece mem => (appends_pieces trees piece mem).yields
  rw [(yields.unique all).1, List.length_map, pieces_eq_map, List.length_map]

theorem quietIff_call (hc : (ruby.emit tree).QuietIff (Covers tree))
    (h : ∀ x ∈ trees, (ruby.emit x).QuietIff (Covers x))
    (named : ∀ token, tree = .leaf token → token.kind = .placeholder → token.text ≠ "If") :
    (ruby.emit (.call tree trees)).QuietIff (Covers (.call tree trees)) := by
  show (call (ruby.piece tree) (ruby.pieces trees)).QuietIff _
  rw [call_eq, covers_call]
  -- Whether the call is a conditional is decided by the text of what is called, which comes last.
  refine (quietIff_pieces h).bind fun texts _ yields => (quietIff_callee hc).bind fun name _ yields' => ?_
  refine (quietIff_applied name texts).congr ?_
  rw [callee_eq_if_iff yields' named, length_of_yields yields]
  exact ⟨fun h token leaf text => h ⟨token, leaf, text⟩, fun h ⟨token, leaf, text⟩ => h token leaf text⟩

end Forms

/-! ## Whole trees -/

/-- No placeholder in the tree is written as the name of conditionals. -/
def Unmistaken (tree : Tree) : Prop :=
  ∀ token, Tree.Part (.leaf token) tree → token.kind = .placeholder → token.text ≠ "If"

theorem Unmistaken.of_mem {tree child : Tree} (h : Unmistaken tree) (mem : child ∈ tree.children) :
    Unmistaken child :=
  fun token isPart => h token (.child mem isPart)

/-- A well-formed tree is emitted without a report exactly if it is covered. -/
theorem quietIff_emit {tree : Tree} (wf : tree.WellFormed) (named : Unmistaken tree) :
    (ruby.emit tree).QuietIff (Covers tree) := by
  induction wf with
  | leaf => exact quietIff_value _
  | @operator op operands _ length _ ih =>
    match operands, length with
    | [x, y], _ =>
      have each : ∀ z ∈ [x, y], (ruby.emit z).QuietIff (Covers z) := fun z mem => ih z mem (named.of_mem mem)
      exact quietIff_operator (each x (by simp)) (each y (by simp))
  | @unary op operands _ length _ ih =>
    match operands, length with
    | [x], _ =>
      exact quietIff_unary (ih x List.mem_cons_self (named.of_mem List.mem_cons_self))
  | @lambda body _ ih =>
    rw [covers_lambda]
    exact QuietIff.bind_true (quietIff_pieces fun x mem => ih x mem (named.of_mem mem)) fun _ => .pure _
  | @array elements _ ih =>
    rw [covers_array]
    exact QuietIff.bind_true (quietIff_pieces fun x mem => ih x mem (named.of_mem mem)) fun _ => .pure _
  | @call callee arguments _ _ ihc ih =>
    have called : Unmistaken callee := named.of_mem List.mem_cons_self
    refine quietIff_call (ihc called) (fun x mem => ih x mem (named.of_mem (List.mem_cons_of_mem _ mem))) ?_
    rintro token rfl
    exact called token .self

theorem quietIff_generate {trees : List Tree} (wf : ∀ tree ∈ trees, tree.WellFormed)
    (named : ∀ tree ∈ trees, Unmistaken tree) :
    (ruby.generate trees).QuietIff (∀ tree ∈ trees, Covers tree) := by
  have parts : (trees.mapM ruby.emit).QuietIff (∀ tree ∈ trees, Covers tree) :=
    .mapM fun tree mem => quietIff_emit (wf tree mem) (named tree mem)
  exact parts.bind_true fun _ => .pure _

/-! ## No text is empty -/

theorem applied_ne_empty (name : String) (texts : List String) (diagnostics : Array Diagnostic) :
    ((applied name texts).run diagnostics).1 ≠ "" := by
  unfold applied
  split
  · split
    · show conditional _ _ _ ≠ ""
      simp [conditional, parenthesized]
    · show access name texts ≠ ""
      simp [access]
  · show access name texts ≠ ""
    simp [access]

/-- What can be expressed of a tree is some text. -/
theorem text_ne_empty {tree : Tree} (wf : tree.WellFormed) (supports : Supports tree)
    (spelled : ∀ token, tree = .leaf token → token.text ≠ "") : ruby.text tree ≠ "" := by
  cases wf with
  | @leaf token =>
    show ((value token).run #[]).1 ≠ ""
    unfold value
    split
    · split
      · show "nil" ≠ ""
        decide
      · show "_abstract[" ++ String.ofList _ ++ "]" ≠ ""
        simp
    · exact spelled token rfl
  | @operator op operands _ length _ =>
    match operands, length with
    | [x, y], _ =>
      show ((operator op (ruby.pieces [x, y])).run #[]).1 ≠ ""
      unfold operator
      split
      · rename_i assigns
        obtain ⟨token, leaf⟩ := supports.2.1 assigns
        cases leaf
        show token.text ++ " = " ++ ruby.text y ≠ ""
        simp
      · rename_i other
        split
        · rename_i symbol connective
          show symbol.intercalate [_, _] ≠ ""
          rw [String.intercalate_cons_cons]
          simp [(mem_of_connective? connective).2]
        · rename_i none
          exact absurd ((List.mem_cons.1 supports.1).resolve_left other) (not_mem_of_connective? none)
  | @unary op operands _ length _ =>
    match operands, length with
    | [x], _ =>
      show ((unary op (ruby.piece x)).run #[]).1 ≠ ""
      unfold unary
      rw [if_pos supports.1]
      have some_ : op.text ≠ "" := by
        intro none
        have sign := supports.1
        rw [none] at sign
        exact absurd sign (by decide)
      show op.text ++ _ ≠ ""
      simp [some_]
  | @lambda body =>
    show "lambda \x7b |*args|\n_abstract=[nil,*args]\n" ++ _ ++ "\n\x7d" ≠ ""
    simp
  | @array elements =>
    show "[" ++ _ ++ "]" ≠ ""
    simp
  | @call callee arguments =>
    show ((applied _ _).run _).1 ≠ ""
    exact applied_ne_empty _ _ _

end Target.Ruby

/-! ## Source texts -/

/-- The operands of a source text are spelled somehow, and placeholders not as words are. -/
theorem Token.IsScanned.text_ne {token : Token} (scanned : token.IsScanned) :
    token.text ≠ "" ∧ (token.kind = .placeholder → token.text ≠ "If") := by
  obtain ⟨context, offset, c, cs, rfl⟩ := scanned
  refine ⟨Lexer.text_token_ne_empty context offset c cs, fun placeholder text => ?_⟩
  have kind : (Lexer.scan context c cs).1 = .placeholder := placeholder
  have begins := Lexer.begins_of_isData (show (Lexer.scan context c cs).1.isData = true by rw [kind]; rfl)
  rw [kind] at begins
  have chars := congrArg String.toList text
  rw [Lexer.token, String.toList_ofList] at chars
  cases begins
  cases chars

/-- The leaves of a forest are tokens of its source text. -/
theorem Forest.isScanned_of_part {source : String} {forest : Forest} (h : ofSource source = .ok forest)
    {tree : Tree} (mem : tree ∈ forest.trees) {token : Token} (isPart : Tree.Part (.leaf token) tree) :
    token.IsScanned := by
  obtain ⟨shunted, built, shunts, builds, rfl⟩ := ofSource_eq_ok_iff.1 h
  exact isScanned_of_mem_tokenize (Postfix.mem_of_ofTokens shunts (mem_of_has builds mem ⟨_, isPart, rfl⟩))

/-- The trees of a source text are emitted without a report exactly if all that they are made of, at
every depth, can be expressed. Then no part of them is emitted as the empty text. -/
theorem reports_nothing_iff_covers {source : String} {forest : Forest}
    (h : Forest.ofSource source = .ok forest) :
    ((∀ d ∈ ((Target.ruby.generate forest.trees).run #[]).2, d.stage ≠ .generate) ↔
      ∀ tree ∈ forest.trees, Target.Ruby.Covers tree) ∧
    ((∀ d ∈ ((Target.ruby.generate forest.trees).run #[]).2, d.stage ≠ .generate) →
      ∀ tree ∈ forest.trees, ∀ node, Tree.Part node tree → ∀ diagnostics,
        ((Target.ruby.emit node).run diagnostics).1 ≠ "") := by
  have wf : ∀ tree ∈ forest.trees, tree.WellFormed := by
    obtain ⟨shunted, built, -, builds, rfl⟩ := Forest.ofSource_eq_ok_iff.1 h
    exact (Forest.flatten_of_ofItems builds).1
  have quiet := (Target.Ruby.quietIff_generate wf fun tree mem token isPart =>
    (Forest.isScanned_of_part h mem isPart).text_ne.2).iff
  refine ⟨quiet, fun none tree mem node isPart diagnostics => ?_⟩
  rw [Target.Ruby.yields_emit node diagnostics]
  refine Target.Ruby.text_ne_empty (isPart.wellFormed (wf tree mem)) ((quiet.1 none tree mem).2 node isPart) ?_
  rintro token rfl
  exact (Forest.isScanned_of_part h mem isPart).text_ne.1

/-- In `_:=If[-x,{_1},2]` nothing is reported: the placeholder without an index is assigned to, and the
conditional has three arguments. -/
theorem reports_nothing_iff_covers_conditional :
    let conditional : Tree := .call (.leaf ⟨.word, "If", 3⟩)
      [.unary ⟨.unaryOperator, "-", 6⟩ [.leaf ⟨.word, "x", 7⟩],
        .lambda [.leaf ⟨.placeholder, "_1", 10⟩], .leaf ⟨.number, "2", 14⟩]
    let tree : Tree := .operator ⟨.operator, ":=", 1⟩ [.leaf ⟨.placeholder, "_", 0⟩, conditional]
    Forest.ofSource "_:=If[-x,\x7b_1\x7d,2]" = .ok ⟨[tree], []⟩ ∧ Target.Ruby.Covers tree ∧
      ∀ diagnostics, ((Target.ruby.emit conditional).run diagnostics).1 ≠ "" := by
  intro conditional tree
  have tokens : tokenize "_:=If[-x,\x7b_1\x7d,2]" =
      [⟨.placeholder, "_", 0⟩, ⟨.operator, ":=", 1⟩, ⟨.word, "If", 3⟩, ⟨.callOpen, "[", 5⟩,
        ⟨.unaryOperator, "-", 6⟩, ⟨.word, "x", 7⟩, ⟨.comma, ",", 8⟩, ⟨.lambdaOpen, "\x7b", 9⟩,
        ⟨.placeholder, "_1", 10⟩, ⟨.lambdaClose, "\x7d", 12⟩, ⟨.comma, ",", 13⟩, ⟨.number, "2", 14⟩,
        ⟨.callClose, "]", 15⟩] := by decide +kernel
  have forest : Forest.ofSource "_:=If[-x,\x7b_1\x7d,2]" = .ok ⟨[tree], []⟩ :=
    Forest.ofSource_eq_ok_iff.2 ⟨_, _, by rw [tokens]; rfl, rfl, rfl⟩
  have reported : ((Target.ruby.generate [tree]).run #[]).2 = #[] := by decide +kernel
  have silent : ∀ d ∈ ((Target.ruby.generate [tree]).run #[]).2, d.stage ≠ .generate := by simp [reported]
  obtain ⟨covers, written⟩ := reports_nothing_iff_covers forest
  have isPart : Tree.Part conditional tree := .child (List.mem_cons_of_mem _ List.mem_cons_self) .self
  exact ⟨forest, covers.1 silent tree List.mem_cons_self,
    written silent tree List.mem_cons_self conditional isPart⟩

end ExprCompiler
