import ExprCompiler.Proofs.Compilation
import ExprCompiler.Proofs.Postfix.Yard
import ExprCompiler.Proofs.Tree.Encoding

/-!
# Where tokens come from

No stage makes tokens up. What waits in a yard or leaves it has been read, and what a tree is made of
was an item:

* `Yard.Reads.tokens`, `Yard.Runs.tokens`: what holds of the tokens that are read holds of those that
  wait and of those that leave;
* `Yard.Reads.isHandled`, `Postfix.isHandled_of_ofTokens`: what leaves is what builders have a handling
  for;
* `Postfix.mem_of_ofTokens`, `Item.mem_of_bare`, `Forest.mem_of_ofItems`: of whole postfix forms and
  forests;
* `Forest.mem_tokenize`: the tokens of a forest are tokens of its source text.
-/

namespace ExprCompiler

namespace Yard

/-- What holds of the waiting tokens and of the one that is read holds of those that wait after it
and of those that leave. -/
theorem Reads.tokens {p : Token → Prop} {yard : Yard} {token : Token} {move : Move}
    (h : yard.Reads token move) (waiting : ∀ t ∈ yard.operators, p t) (read : p token) :
    (∀ t ∈ move.yard.operators, p t) ∧ ∀ t, .token t ∈ move.items → p t := by
  cases h with
  | data | lambdaOpen => simp_all
  | blank | other | unary | parenOpen | bracketOpen => simp_all
  | operator =>
    simp only [addOperator]
    split
    · refine ⟨List.forall_mem_cons.2 ⟨read, fun t mem => ?_⟩, fun t mem => ?_⟩
      · exact waiting t ((List.dropWhile_sublist _).subset mem)
      · obtain ⟨_, mem', ⟨⟩⟩ := List.mem_map.1 mem
        exact waiting t ((List.takeWhile_sublist _).subset mem')
    · simp_all
  | separator _ eq | comma _ _ _ eq | parenClose _ eq | bracketClose _ _ _ eq | lambdaClose _ eq =>
    rw [eq] at waiting
    constructor <;> grind

theorem remember_operators (yard : Yard) (kind : Kind) :
    (yard.remember kind).operators = yard.operators := by
  unfold remember
  split <;> rfl

/-- The same of a run. -/
theorem Runs.tokens {p : Token → Prop} {yard : Yard} {tokens : List Token} {move : Move}
    (h : yard.Runs tokens move) (waiting : ∀ t ∈ yard.operators, p t) (read : ∀ t ∈ tokens, p t) :
    (∀ t ∈ move.yard.operators, p t) ∧ ∀ t, .token t ∈ move.items → p t := by
  induction h with
  | nil => exact ⟨waiting, nofun⟩
  | cons step _ ih =>
    obtain ⟨first, reads, rfl⟩ := step_eq_ok_iff.1 step
    obtain ⟨head, tail⟩ := List.forall_mem_cons.1 read
    obtain ⟨waits, leaves⟩ := reads.tokens waiting head
    rw [← remember_operators _ (Token.kind _)] at waits
    obtain ⟨waits', leaves'⟩ := ih waits tail
    exact ⟨waits', fun t mem => (List.mem_append.1 mem).elim (leaves t) (leaves' t)⟩

/-- What waits is an operator or an opening delimiter. -/
def Waits (operators : List Token) : Prop :=
  ∀ t ∈ operators, isPending t = true → t.kind.isOperator = true

/-- Operators that wait are handled when they leave. -/
theorem Waits.isHandled {pending below : List Token} (h : Waits (pending ++ below))
    (all : ∀ t ∈ pending, isPending t = true) :
    Waits below ∧ ∀ item ∈ pending.map Item.token, item.isHandled = true := by
  refine ⟨fun t mem => h t (List.mem_append_right _ mem), List.forall_mem_map.2 fun t mem => ?_⟩
  simp [Item.isHandled, h t (List.mem_append_left _ mem) (all t mem)]

theorem Waits.cons {token : Token} {operators : List Token} (h : Waits operators)
    (kind : isPending token = true → token.kind.isOperator = true) : Waits (token :: operators) :=
  List.forall_mem_cons.2 ⟨kind, h⟩

/-- No token leaves that builders have no handling for. -/
theorem Reads.isHandled {yard : Yard} {token : Token} {move : Move} (h : yard.Reads token move)
    (waits : Waits yard.operators) :
    Waits move.yard.operators ∧ ∀ item ∈ move.items, item.isHandled = true := by
  cases h with
  | data data => exact ⟨waits, by simp [Item.isHandled, data]⟩
  | blank | other => exact ⟨waits, List.forall_mem_nil _⟩
  | unary kind => exact ⟨waits.cons fun _ => by rw [kind]; rfl, List.forall_mem_nil _⟩
  | parenOpen kind => exact ⟨waits.cons (by simp [isPending, kind, Kind.opens?]), List.forall_mem_nil _⟩
  | bracketOpen gathering kind =>
    exact ⟨waits.cons (by cases gathering <;> simp [isPending, kind, Kind.opens?, Gathering.delimiter,
      Delimiter.opener]), List.forall_mem_nil _⟩
  | lambdaOpen kind =>
    exact ⟨waits.cons (by simp [isPending, kind, Kind.opens?]), by simp [Item.isHandled, kind]⟩
  | operator kind =>
    simp only [addOperator]
    split
    · rename_i binding _
      have split := List.takeWhile_append_dropWhile (p := yields binding.level) (l := yard.operators)
      rw [← split] at waits
      obtain ⟨kept, leaves⟩ := waits.isHandled fun t mem =>
        isPending_of_yields (List.all_eq_true.1 List.all_takeWhile t mem)
      exact ⟨kept.cons fun _ => by rw [kind]; rfl, leaves⟩
    · exact ⟨waits.cons fun _ => by rw [kind]; rfl, List.forall_mem_nil _⟩
  | separator _ eq all | comma _ _ _ eq all =>
    rw [eq] at waits
    exact waits.isHandled all
  | parenClose _ eq all =>
    rw [eq] at waits
    obtain ⟨kept, leaves⟩ := waits.isHandled all
    exact ⟨(List.forall_mem_cons.1 kept).2, leaves⟩
  | bracketClose _ _ _ eq all =>
    rw [eq] at waits
    obtain ⟨kept, leaves⟩ := waits.isHandled all
    exact ⟨(List.forall_mem_cons.1 kept).2, List.forall_mem_append.2 ⟨leaves, by simp [Item.isHandled]⟩⟩
  | lambdaClose kind eq all =>
    rw [eq] at waits
    obtain ⟨kept, leaves⟩ := waits.isHandled all
    exact ⟨(List.forall_mem_cons.1 kept).2,
      List.forall_mem_append.2 ⟨leaves, by simp [Item.isHandled, kind]⟩⟩

theorem Runs.isHandled {yard : Yard} {tokens : List Token} {move : Move} (h : yard.Runs tokens move)
    (waits : Waits yard.operators) :
    Waits move.yard.operators ∧ ∀ item ∈ move.items, item.isHandled = true := by
  induction h with
  | nil => exact ⟨waits, List.forall_mem_nil _⟩
  | cons step _ ih =>
    obtain ⟨first, reads, rfl⟩ := step_eq_ok_iff.1 step
    obtain ⟨kept, leaves⟩ := reads.isHandled waits
    rw [← remember_operators _ (Token.kind _)] at kept
    obtain ⟨kept', leaves'⟩ := ih kept
    exact ⟨kept', List.forall_mem_append.2 ⟨leaves, leaves'⟩⟩

end Yard

/-- Builders have a handling for all items of a postfix form. -/
theorem Postfix.isHandled_of_ofTokens {tokens : List Token} {result : Postfix}
    (h : Postfix.ofTokens tokens = .ok result) : ∀ item ∈ result.items, item.isHandled = true := by
  obtain ⟨move, items, below, runs, flush, rfl⟩ := ofTokens_eq_ok_iff.1 h
  obtain ⟨waits, leaves⟩ := runs.isHandled nofun
  obtain ⟨pending, eq, all, -, rfl⟩ := Yard.flush_eq_ok_iff.1 flush
  rw [eq] at waits
  exact List.forall_mem_append.2 ⟨leaves, (waits.isHandled all).2⟩

/-- The tokens of a postfix form are among those it was made from. -/
theorem Postfix.mem_of_ofTokens {tokens : List Token} {result : Postfix}
    (h : Postfix.ofTokens tokens = .ok result) {token : Token} (mem : .token token ∈ result.items) :
    token ∈ tokens := by
  obtain ⟨move, items, below, runs, flush, rfl⟩ := ofTokens_eq_ok_iff.1 h
  obtain ⟨waits, leaves⟩ := runs.tokens (p := (· ∈ tokens)) nofun fun _ mem => mem
  obtain ⟨pending, eq, -, -, rfl⟩ := Yard.flush_eq_ok_iff.1 flush
  obtain left | flushed := List.mem_append.1 mem
  · exact leaves token left
  · obtain ⟨_, mem', ⟨⟩⟩ := List.mem_map.1 flushed
    exact waits token (eq ▸ List.mem_append_left below mem')

/-- An operand or an operator among the bare forms of items is one of the items. -/
theorem Item.mem_of_bare {items : List Item} {token : Token}
    (kind : token.kind.isData = true ∨ token.kind.isOperator = true)
    (mem : .token token ∈ (items.filter Item.isHandled).map Item.bare) : .token token ∈ items := by
  obtain ⟨item, mem', bare⟩ := List.mem_map.1 mem
  have same : item = .token token := by
    cases item with
    | arity => cases bare
    | token t =>
      simp only [Item.bare] at bare
      split at bare <;> cases bare
      · exact absurd kind (by decide)
      · exact absurd kind (by decide)
      · rfl
  exact same ▸ (List.mem_filter.1 mem').1

/-- The operands of a forest are among the items that it was built from. -/
theorem Forest.mem_of_ofItems {items : List Item} {forest : Forest} (h : ofItems items = .ok forest)
    {token : Token} (data : token.kind.isData = true)
    (mem : .token token ∈ Tree.flattenAll forest.trees) : .token token ∈ items := by
  obtain ⟨-, flat, -⟩ := flatten_of_ofItems h
  exact Item.mem_of_bare (.inl data) (flat ▸ mem)

/-- The operands of a forest are tokens of its source text. -/
theorem Forest.mem_tokenize {source : String} {forest : Forest} (h : ofSource source = .ok forest)
    {token : Token} (data : token.kind.isData = true)
    (mem : .token token ∈ Tree.flattenAll forest.trees) : token ∈ tokenize source := by
  obtain ⟨shunted, built, shunts, builds, rfl⟩ := ofSource_eq_ok_iff.1 h
  exact Postfix.mem_of_ofTokens shunts (mem_of_ofItems builds data mem)

end ExprCompiler
