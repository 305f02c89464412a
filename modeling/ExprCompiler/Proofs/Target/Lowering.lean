import ExprCompiler.Proofs.Target.Emission
import ExprCompiler.Proofs.Token.Lexeme
import ExprCompiler.Proofs.Tree.Encoding

/-!
# Lowering to Ruby

`Target.Ruby.Lowers` is the grammar of the text that trees are emitted as when nothing is reported.
Its forms are the places where a tree can stand, which decide on parentheses:

* `Target.Ruby.lowers_row`, `Target.Ruby.lowers_call` and so on: what each hook emits in silence, from
  what its pieces emit;
* `Target.Ruby.lowers_of_silent`: a well-formed tree that is emitted in silence is lowered to what it
  emits.
-/

namespace ExprCompiler.Target.Ruby

/-- Trees in a row, between brackets or in the body of a lambda. -/
inductive Series where
  | elements
  | statements
deriving DecidableEq

/-- What stands between two trees of a row. -/
def Series.separator : Series → String
  | elements => ", "
  | statements => ";"

/-- What stands behind the last tree of a row. -/
def Series.closing : Series → String
  | elements => "]"
  | statements => "\n\x7d"

/-- The places where trees stand in the text. -/
inductive Form where
  /-- By itself, and never in need of parentheses. -/
  | primary
  /-- In front of arguments. -/
  | callee
  /-- Next to an operator. -/
  | operand
  /-- Anywhere else. -/
  | expression
  /-- Any number of expressions in a row. -/
  | row (series : Series)
deriving DecidableEq

/-- An operator with its operands. -/
def isOperation : Tree → Bool
  | .operator _ _ | .unary _ _ => true
  | _ => false

/-- An operand by itself. -/
def isLeaf : Tree → Bool
  | .leaf _ => true
  | _ => false

/-- The text of a lambda's body up to its first statement, behind its first word. -/
def header : String := " \x7b |*args|\n_abstract=[nil,*args]\n"

/-- In a place of the form, the trees are lowered to the text. -/
inductive Lowers : Form → List Tree → String → Prop
  | leaf {token : Token} {c : Char} {cs : List Char} :
      token.Rereads c cs → token.kind ≠ .placeholder → Lowers .primary [.leaf token] token.text
  | placeholder {token : Token} {c : Char} {cs : List Char} {index : List Char} :
      token.Rereads c cs → token.kind = .placeholder →
      token.text.toList.dropWhile (· = '_') = index → index ≠ [] →
      Lowers .primary [.leaf token] ("_abstract[" ++ String.ofList index ++ "]")
  | array {elements : List Tree} {text : String} : Lowers (.row .elements) elements text →
      Lowers .primary [.array elements] ("[" ++ text ++ "]")
  | lambda {body : List Tree} {text : String} : Lowers (.row .statements) body text →
      Lowers .primary [.lambda body] ("lambda" ++ header ++ text ++ "\n\x7d")
  | conditional {token : Token} {c : Char} {cs : List Char} {x y z : Tree}
      {condition positive negative : String} : token.Rereads c cs → token.text = "If" →
      Lowers .expression [x] condition → Lowers .expression [y] positive →
      Lowers .expression [z] negative →
      Lowers .primary [.call (.leaf token) [x, y, z]] (Ruby.conditional condition positive negative)
  | call {callee : Tree} {arguments : List Tree} {name text : String} :
      Lowers .callee [callee] name → name ≠ "If" → Lowers (.row .elements) arguments text →
      Lowers .primary [.call callee arguments] (name ++ "[" ++ text ++ "]")
  | named {token : Token} {text : String} :
      Lowers .primary [.leaf token] text → Lowers .callee [.leaf token] text
  | called {tree : Tree} {text : String} : isLeaf tree = false →
      Lowers .expression [tree] text → Lowers .callee [tree] (parenthesized text)
  | single {tree : Tree} {text : String} :
      Lowers .primary [tree] text → Lowers .operand [tree] text
  | group {tree : Tree} {text : String} : isOperation tree = true →
      Lowers .expression [tree] text → Lowers .operand [tree] (parenthesized text)
  | unary {op : Token} {tree : Tree} {text : String} : op.kind = .unaryOperator →
      op.text ∈ ["-", "~", "*"] → Lowers .operand [tree] text →
      Lowers .expression [.unary op [tree]] (op.text ++ text)
  | operator {op : Token} {symbol : String} {x y : Tree} {left right : String} :
      op.kind = .operator → connective? op.text = some symbol → Lowers .operand [x] left →
      Lowers .operand [y] right → Lowers .expression [.operator op [x, y]] (left ++ symbol ++ right)
  | assignment {op token : Token} {c : Char} {cs : List Char} {tree : Tree} {text : String} :
      op.kind = .operator → op.text = ":=" → token.Rereads c cs → Lowers .expression [tree] text →
      Lowers .expression [.operator op [.leaf token, tree]] (token.text ++ " = " ++ text)
  | expression {tree : Tree} {text : String} :
      Lowers .primary [tree] text → Lowers .expression [tree] text
  | none {series : Series} : Lowers (.row series) [] ""
  | last {series : Series} {tree : Tree} {text : String} :
      Lowers .expression [tree] text → Lowers (.row series) [tree] text
  | more {series : Series} {tree next : Tree} {trees : List Tree} {text rest : String} :
      Lowers .expression [tree] text → Lowers (.row series) (next :: trees) rest →
      Lowers (.row series) (tree :: next :: trees) (text ++ series.separator ++ rest)

/-- The form that a tree has without parentheses. -/
def formOf (tree : Tree) : Form :=
  if isOperation tree then .expression else .primary

theorem Lowers.of_formOf {tree : Tree} {text : String} (h : Lowers (formOf tree) [tree] text) :
    Lowers .expression [tree] text := by
  unfold formOf at h
  split at h
  · exact h
  · exact .expression h

/-! ## What the hooks emit in silence -/

/-- In silence, the tree is lowered to what it emits. -/
def Faithful (tree : Tree) : Prop :=
  ∀ {text : String}, (ruby.emit tree).Silent text → Lowers (formOf tree) [tree] text

theorem lowers_value {token : Token} {c : Char} {cs : List Char} {text : String}
    (rereads : token.Rereads c cs) (h : (value token).Silent text) :
    Lowers .primary [.leaf token] text := by
  unfold value at h
  split at h
  · rename_i kind
    split at h
    · exact absurd h (Emit.not_silent_warn (.pure _))
    · rename_i nonempty
      rw [← Emit.silent_pure_iff.1 h]
      exact .placeholder rereads kind rfl nonempty
  · rename_i kind
    rw [← Emit.silent_pure_iff.1 h]
    exact .leaf rereads kind

theorem lowers_operand {tree : Tree} {text : String} (faithful : Faithful tree)
    (h : (operand ⟨tree, ruby.emit tree⟩).Silent text) : Lowers .operand [tree] text := by
  obtain ⟨inner, silent, h⟩ := h.of_bind (appends_emit tree) fun _ => by split <;> exact .pure _
  have lowers := faithful silent
  cases tree with
  | operator op operands | unary op operands =>
    rw [← Emit.silent_pure_iff.1 h]
    exact .group rfl lowers
  | leaf token | lambda body | array elements | call callee arguments =>
    rw [← Emit.silent_pure_iff.1 h]
    exact .single lowers

/-- A leaf in front of arguments emits what it emits elsewhere. -/
theorem callee_leaf (token : Token) :
    callee ⟨.leaf token, ruby.emit (.leaf token)⟩ = ruby.emit (.leaf token) := by
  simp only [callee]
  split
  · rfl
  · rename_i kind
    have plain : value token = return token.text := by
      unfold value
      split
      · contradiction
      · rfl
    exact plain.symm

theorem lowers_callee {tree : Tree} {text : String} (faithful : Faithful tree)
    (h : (callee ⟨tree, ruby.emit tree⟩).Silent text) : Lowers .callee [tree] text := by
  cases tree with
  | leaf token =>
    rw [callee_leaf] at h
    exact .named (faithful h)
  | operator | unary | lambda | array | call =>
    obtain ⟨inner, silent, rfl⟩ := h.of_map (appends_emit _)
    exact .called rfl (faithful silent).of_formOf

theorem lowers_row (series : Series) {trees : List Tree} {texts : List String}
    (faithful : ∀ tree ∈ trees, Faithful tree)
    (h : (Piece.emitAll (ruby.pieces trees)).Silent texts) :
    Lowers (.row series) trees (series.separator.intercalate texts) := by
  induction trees generalizing texts with
  | nil =>
    rw [Emit.Silent.of_mapM_nil h, String.intercalate_nil]
    exact .none
  | cons tree trees ih =>
    obtain ⟨head, tail⟩ := List.forall_mem_cons.1 faithful
    obtain ⟨text, rest, silent, silents, rfl⟩ := h.of_mapM_cons (appends_pieces (tree :: trees))
    have lowers := (head silent).of_formOf
    have row := ih tail silents
    cases trees with
    | nil =>
      rw [Emit.Silent.of_mapM_nil silents, String.intercalate_singleton]
      exact .last lowers
    | cons next trees =>
      obtain ⟨_, _, -, -, rfl⟩ := silents.of_mapM_cons (appends_pieces (next :: trees))
      rw [String.intercalate_cons_cons]
      exact .more lowers row

/-- Pieces are silent one by one. -/
theorem silent_of_emitAll {trees : List Tree} {texts : List String}
    (h : (Piece.emitAll (ruby.pieces trees)).Silent texts) :
    trees.length = texts.length ∧ ∀ pair ∈ trees.zip texts, (ruby.emit pair.1).Silent pair.2 := by
  induction trees generalizing texts with
  | nil =>
    rw [Emit.Silent.of_mapM_nil h]
    exact ⟨rfl, nofun⟩
  | cons tree trees ih =>
    obtain ⟨text, rest, silent, silents, rfl⟩ := h.of_mapM_cons (appends_pieces (tree :: trees))
    obtain ⟨length, each⟩ := ih silents
    exact ⟨congrArg (· + 1) length, List.forall_mem_cons.2 ⟨silent, each⟩⟩

/-- Only a name is written like the name of conditionals. -/
theorem Lowers.leaf_of_if {tree : Tree} {name : String} (h : Lowers .callee [tree] name)
    (eq : name = "If") :
    ∃ token c cs, tree = .leaf token ∧ token.Rereads c cs ∧ token.text = "If" := by
  have chars := congrArg String.toList eq
  cases h with
  | named h =>
    cases h with
    | leaf rereads _ => exact ⟨_, _, _, rfl, rereads, eq⟩
    | placeholder => simp at chars
  | called => simp [parenthesized] at chars

theorem lowers_call {callee : Tree} {arguments : List Tree} {text : String}
    (faithful : Faithful callee) (each : ∀ tree ∈ arguments, Faithful tree)
    (h : (ruby.emit (.call callee arguments)).Silent text) :
    Lowers .primary [.call callee arguments] text := by
  obtain ⟨texts, silents, rest⟩ := h.of_bind (appends_emitAll arguments)
    fun texts => (appends_callee callee).bind fun name => appends_applied name texts
  obtain ⟨name, silent, last⟩ := rest.of_bind (appends_callee callee) fun name =>
    appends_applied name texts
  have lowers := lowers_callee faithful silent
  split at last
  · rename_i conditional
    obtain ⟨token, c, cs, rfl, rereads, eq⟩ := lowers.leaf_of_if conditional
    -- With any other number of arguments a conditional is reported, so it is not silent.
    split at last
    · obtain ⟨length, all⟩ := silent_of_emitAll silents
      match arguments, length with
      | [x, y, z], _ =>
        simp only [List.zip_cons_cons, List.zip_nil_left, List.forall_mem_cons] at all each
        rw [← Emit.silent_pure_iff.1 last]
        exact .conditional rereads eq (each.1 all.1).of_formOf (each.2.1 all.2.1).of_formOf
          (each.2.2.1 all.2.2.1).of_formOf
    · exact absurd last (Emit.not_silent_warn (.pure _))
  · rename_i other
    rw [← Emit.silent_pure_iff.1 last]
    exact .call lowers other (lowers_row .elements each silents)

theorem lowers_assignment {op : Token} {x y : Tree} {text : String} (kind : op.kind = .operator)
    (assigns : op.text = ":=") (rereads : ∀ token, x = .leaf token → ∃ c cs, token.Rereads c cs)
    (faithful : Faithful y) (h : (assignment op (ruby.pieces [x, y])).Silent text) :
    Lowers .expression [.operator op [x, y]] text := by
  simp only [assignment, pieces] at h
  -- Only a token can be assigned to without a report.
  split at h
  · rename_i token
    obtain ⟨c, cs, rereads⟩ := rereads token rfl
    rw [pure_bind] at h
    obtain ⟨value, silent, h⟩ := h.of_bind (appends_emit y) fun _ => .pure _
    rw [← Emit.silent_pure_iff.1 h]
    exact .assignment kind assigns rereads (faithful silent).of_formOf
  · refine absurd h (Emit.not_silent_warn ?_)
    exact (appends_emit x).bind fun _ => (appends_emit y).bind fun _ => .pure _

theorem lowers_operator {op : Token} {x y : Tree} {text : String} (kind : op.kind = .operator)
    (rereads : ∀ token, x = .leaf token → ∃ c cs, token.Rereads c cs) (left : Faithful x)
    (right : Faithful y) (h : (ruby.emit (.operator op [x, y])).Silent text) :
    Lowers .expression [.operator op [x, y]] text := by
  have h : (operator op (ruby.pieces [x, y])).Silent text := h
  unfold operator at h
  split at h
  · exact lowers_assignment kind ‹_› rereads right h
  split at h
  · rename_i symbol connective
    have appends : ∀ piece ∈ ruby.pieces [x, y], (operand piece).Appends := by
      rw [pieces_eq_map]
      exact List.forall_mem_map.2 fun tree _ => appends_operand tree
    obtain ⟨texts, silents, h⟩ := h.of_bind (.mapM appends) fun _ => .pure _
    obtain ⟨first, rest, silent, tail, rfl⟩ := silents.of_mapM_cons appends
    obtain ⟨second, rest, silent', none, rfl⟩ :=
      tail.of_mapM_cons fun piece mem => appends piece (List.mem_cons_of_mem _ mem)
    rw [Emit.Silent.of_mapM_nil none, String.intercalate_cons_cons,
      String.intercalate_singleton, Emit.silent_pure_iff] at h
    rw [← h]
    exact .operator kind connective (lowers_operand left silent) (lowers_operand right silent')
  · exact absurd h (Emit.not_silent_warn (.pure _))

theorem lowers_unary {op : Token} {tree : Tree} {text : String} (kind : op.kind = .unaryOperator)
    (faithful : Faithful tree) (h : (ruby.emit (.unary op [tree])).Silent text) :
    Lowers .expression [.unary op [tree]] text := by
  have h : (unary op ⟨tree, ruby.emit tree⟩).Silent text := h
  unfold unary at h
  split at h
  · rename_i sign
    obtain ⟨inner, silent, h⟩ := h.of_bind (appends_operand tree) fun _ => .pure _
    rw [← Emit.silent_pure_iff.1 h]
    exact .unary kind sign (lowers_operand faithful silent)
  · exact absurd h (Emit.not_silent_warn (.pure _))

/-! ## Whole trees -/

/-- Every operand of the items is read again. -/
def Rereadable (items : List Item) : Prop :=
  ∀ token, token.kind.isData = true → .token token ∈ items → ∃ c cs, token.Rereads c cs

theorem Rereadable.mono {items fewer : List Item} (h : Rereadable items)
    (subset : ∀ item ∈ fewer, item ∈ items) : Rereadable fewer :=
  fun token data mem => h token data (subset _ mem)

theorem Rereadable.of_mem {trees : List Tree} {tree : Tree} (h : Rereadable (Tree.flattenAll trees))
    (mem : tree ∈ trees) : Rereadable tree.flatten := by
  rw [Tree.flattenAll_eq_flatMap] at h
  exact h.mono fun item mem' => List.mem_flatMap.2 ⟨tree, mem, mem'⟩

/-- A well-formed tree that is emitted in silence is lowered to what it emits. -/
theorem lowers_of_silent {tree : Tree} (wf : tree.WellFormed) (rereads : Rereadable tree.flatten) :
    Faithful tree := by
  induction wf with
  | leaf data =>
    intro text silent
    obtain ⟨c, cs, rereads⟩ := rereads _ data List.mem_cons_self
    exact lowers_value rereads silent
  | @operator op operands kind length wf ih =>
    intro text silent
    obtain ⟨x, y, rfl⟩ : ∃ x y, operands = [x, y] := by
      match operands, length with
      | [x, y], _ => exact ⟨x, y, rfl⟩
    have inner : Rereadable (Tree.flattenAll [x, y]) := rereads.mono fun _ => List.mem_append_left _
    have each : ∀ tree ∈ [x, y], Faithful tree := fun tree mem => ih tree mem (inner.of_mem mem)
    refine lowers_operator kind ?_ (each x (by simp)) (each y (by simp)) silent
    rintro token rfl
    cases wf (.leaf token) List.mem_cons_self with
    | leaf data => exact inner token data List.mem_cons_self
  | unary kind length wf ih =>
    intro text silent
    obtain ⟨x, rfl⟩ := List.length_eq_one_iff.1 length
    have inner : Rereadable (Tree.flattenAll [x]) := rereads.mono fun _ => List.mem_append_left _
    exact lowers_unary kind (ih x List.mem_cons_self (inner.of_mem List.mem_cons_self)) silent
  | lambda wf ih =>
    intro text silent
    have inner : Rereadable (Tree.flattenAll _) := rereads.mono fun _ mem =>
      List.mem_cons_of_mem _ (List.mem_append_left _ mem)
    obtain ⟨texts, silents, rest⟩ :=
      silent.of_bind (appends_emitAll _) fun _ => .pure _
    have row := lowers_row .statements (fun tree mem => ih tree mem (inner.of_mem mem)) silents
    have lowers := Lowers.lambda row
    rw [← Emit.silent_pure_iff.1 rest]
    exact lowers
  | array wf ih =>
    intro text silent
    have inner : Rereadable (Tree.flattenAll _) := rereads.mono fun _ => List.mem_append_left _
    obtain ⟨texts, silents, rest⟩ :=
      silent.of_bind (appends_emitAll _) fun _ => .pure _
    have row := lowers_row .elements (fun tree mem => ih tree mem (inner.of_mem mem)) silents
    rw [← Emit.silent_pure_iff.1 rest]
    exact .array row
  | call wfc wf ihc ih =>
    intro text silent
    have inner : Rereadable (Tree.flattenAll _) := rereads.mono fun _ mem =>
      List.mem_append_right _ (List.mem_append_left _ mem)
    have callee : Faithful _ := ihc (rereads.mono fun _ => List.mem_append_left _)
    exact lowers_call callee (fun tree mem => ih tree mem (inner.of_mem mem)) silent

end ExprCompiler.Target.Ruby
