import ExprCompiler.Proofs.Postfix.Frame
import ExprCompiler.Proofs.Postfix.Grammar
import ExprCompiler.Proofs.Token.Lexeme
import Mathlib.Data.List.Chain

/-!
# How operators wait

What waits in a yard is stacked by how tight it binds:

* `Yard.Tighter`, `Yard.Layered`: between two open delimiters there are operators between operands, each
  tighter than the one below it, and above these only operators before an operand;
* `Yard.Above`: the same, token by token. Every token that comes to wait stands rightly above the one
  below it, and tokens leave from above, so that a yard keeps to this (`Yard.Reads.orderly`,
  `Yard.Runs.orderly`);
* `Yard.layered_of_chain`: tokens that stand rightly above each other are layered;
* `Yard.Stacked`: the layers, and a counter for each bracket;
* `stacked_of_run`: every yard that is reached is stacked, and has a counter for every marker.
-/

namespace ExprCompiler

/-- The token is no operator, or one of the table. -/
def Token.IsKnown (token : Token) : Prop :=
  token.kind.isOperator = true → ∃ entry ∈ Operator.table, token.text = entry.symbol

namespace Yard

/-! ## Layers -/

/-- The operator `upper` binds at least as tight as `lower`, and equally tight only on a level that
associates to the right. -/
def Tighter (upper lower : Token) : Prop :=
  ∃ high low, upper.binding? = some high ∧ lower.binding? = some low ∧ low.level ≤ high.level ∧
    (low.level = high.level → ∀ entry ∈ Operator.table, entry.binding.level = low.level →
      entry.binding.associativity = .right)

/-- Waiting operators, the latest first: some before an operand, and below them some between operands,
each tighter than the one below it. -/
def Layered (segment : List Token) : Prop :=
  ∃ unary binary, segment = unary ++ binary ∧ (∀ op ∈ unary, op.kind = .unaryOperator) ∧
    (∀ op ∈ binary, op.kind = .operator) ∧ binary.IsChain Tighter

/-- What a yard keeps to. -/
structure Stacked (yard : Yard) : Prop where
  /-- Operators and opening delimiters wait, and nothing else. -/
  entries : ∀ token ∈ yard.operators, token.kind = .operator ∨ token.kind = .unaryOperator ∨
    ∃ delimiter, token.kind.opens? = some delimiter
  /-- What waits without an open delimiter in between is layered. -/
  layered : ∀ segment, segment <:+: yard.operators → (∀ token ∈ segment, isPending token = true) →
    Layered segment
  /-- There is a counter for every call and every array that is open. -/
  counts : yard.counts.length = (yard.operators.filter isBracket).length
  /-- The counters begin at one and never fall. -/
  positive : ∀ count ∈ yard.counts, 1 ≤ count

/-! ## Neighbours -/

/-- The token `upper` may wait directly above `lower`. -/
inductive Above (upper lower : Token) : Prop
  | opening : isPending upper = false → Above upper lower
  | inside : isPending lower = false → Above upper lower
  | unary : upper.kind = .unaryOperator → Above upper lower
  | binary : upper.kind = .operator → lower.kind = .operator → Tighter upper lower → Above upper lower

/-- Pending tokens that stand rightly above each other are layered. -/
theorem layered_of_chain {segment : List Token} (chain : segment.IsChain Above)
    (pending : ∀ token ∈ segment, isPending token = true)
    (operators : ∀ token ∈ segment, token.kind.isOperator = true) : Layered segment := by
  induction segment with
  | nil => exact ⟨[], [], rfl, nofun, nofun, .nil⟩
  | cons top segment ih =>
    obtain ⟨head, tail⟩ := List.isChain_cons.1 chain
    obtain ⟨topPending, pending⟩ := List.forall_mem_cons.1 pending
    obtain ⟨topOperator, operators⟩ := List.forall_mem_cons.1 operators
    obtain ⟨unary, binary, rfl, allUnary, allBinary, tighter⟩ := ih tail pending operators
    cases kind : top.kind <;> simp only [kind, Kind.isOperator, Bool.false_eq_true] at topOperator
    case unaryOperator =>
      exact ⟨top :: unary, binary, rfl, List.forall_mem_cons.2 ⟨kind, allUnary⟩, allBinary, tighter⟩
    case operator =>
      -- Nothing but an operator between operands can be directly below another one.
      have below : ∀ lower ∈ (unary ++ binary).head?, lower.kind = .operator ∧ Tighter top lower := by
        intro lower mem
        cases head lower mem with
        | opening h => rw [topPending] at h; cases h
        | inside h => rw [pending lower (List.mem_of_mem_head? mem)] at h; cases h
        | unary h => rw [kind] at h; cases h
        | binary _ lowerKind tight => exact ⟨lowerKind, tight⟩
      cases unary with
      | cons first unary =>
        have first' := (below first rfl).1
        rw [allUnary first List.mem_cons_self] at first'
        cases first'
      | nil =>
        exact ⟨[], top :: binary, rfl, nofun, List.forall_mem_cons.2 ⟨kind, allBinary⟩,
          tighter.cons fun lower mem => (below lower mem).2⟩

/-! ## What one token does -/

/-- What waits in a yard is made of known operators and opening delimiters that stand rightly above
each other, and no counter is at zero. -/
structure Orderly (yard : Yard) : Prop where
  waits : Waits yard.operators
  known : ∀ token ∈ yard.operators, token.IsKnown
  chain : yard.operators.IsChain Above
  positive : ∀ count ∈ yard.counts, 1 ≤ count

theorem Orderly.empty : Orderly .empty :=
  ⟨nofun, nofun, .nil, nofun⟩

/-- An operator that stays where one between operands is added is one between operands itself, below
which the new one is tighter. -/
theorem above_of_not_yields {token top : Token} {binding : Binding} (kind : token.kind = .operator)
    (known : token.IsKnown) (eq : token.binding? = some binding) (topKnown : top.IsKnown)
    (waits : isPending top = true → top.kind.isOperator = true)
    (stays : ¬ yields binding.level top = true) : Above token top := by
  cases pending : isPending top with
  | false => exact .inside pending
  | true =>
    obtain ⟨entry, mem, text⟩ := known (by rw [kind]; rfl)
    have level : binding = entry.binding :=
      Option.some.inj (eq.symm.trans (Grammar.binding?_operator kind mem text))
    have operator := waits pending
    obtain ⟨entry', mem', text'⟩ := topKnown operator
    cases topKind : top.kind <;> simp only [topKind, Kind.isOperator, Bool.false_eq_true] at operator
    case unaryOperator =>
      -- An operator before an operand binds tighter than any of the table, and leaves.
      have lt := Grammar.level_lt mem
      simp [yields, Grammar.binding?_unary topKind mem' text', level, lt] at stays
    case operator =>
      have below := Grammar.binding?_operator topKind mem' text'
      simp only [yields, below, Bool.or_eq_true, decide_eq_true_eq, Bool.and_eq_true, beq_iff_eq,
        not_or, not_and] at stays
      refine .binary kind topKind ⟨binding, _, eq, below, Nat.le_of_not_lt stays.1, fun same => ?_⟩
      intro other memOther sameOther
      have right : entry'.binding.associativity = .right := by
        cases associativity : entry'.binding.associativity with
        | right => rfl
        | left => exact absurd associativity (stays.2 same.symm)
      rw [← right]
      exact Grammar.associativity_eq memOther mem' sameOther

/-- A token that is added stands rightly above what it does not make leave. -/
theorem Orderly.addOperator {yard : Yard} {token : Token} (h : yard.Orderly)
    (kind : token.kind = .operator) (known : token.IsKnown) :
    (yard.addOperator token).yard.operators.IsChain Above := by
  obtain ⟨entry, mem, text⟩ := known (by rw [kind]; rfl)
  have eq := Grammar.binding?_operator kind mem text
  obtain ⟨leaving, kept, split, all, stop⟩ := exists_yielding entry.binding.level yard.operators
  simp only [Yard.addOperator, eq, split, Run.span_append all stop]
  have below : kept <:+ yard.operators := ⟨leaving, split.symm⟩
  refine (h.chain.suffix below).cons fun top first => ?_
  have mem' := below.subset (List.mem_of_mem_head? first)
  exact above_of_not_yields kind known eq (h.known top mem') (h.waits top mem') (stop top first)

/-- Reading a token keeps what waits in order. -/
theorem Reads.orderly {yard : Yard} {token : Token} {move : Move} (reads : yard.Reads token move)
    (h : yard.Orderly) (known : token.IsKnown) : move.yard.Orderly := by
  refine ⟨(reads.isHandled h.waits).1, (reads.tokens h.known known).1, ?_, ?_⟩
  · cases reads with
    | data | blank | other => exact h.chain
    | operator kind => exact h.addOperator kind known
    | unary kind => exact h.chain.cons fun _ _ => .unary kind
    | parenOpen kind | lambdaOpen kind =>
      exact h.chain.cons fun _ _ => .opening (by simp [isPending, kind, Kind.opens?])
    | bracketOpen gathering kind =>
      refine h.chain.cons fun _ _ => .opening ?_
      cases gathering <;> simp [isPending, kind, Kind.opens?, Gathering.delimiter, Delimiter.opener]
    | separator _ split | comma _ _ _ split =>
      exact h.chain.suffix ⟨_, split.symm⟩
    | parenClose _ split | lambdaClose _ split | bracketClose _ _ _ split =>
      exact (h.chain.suffix ⟨_, split.symm⟩).tail
  · have positive := h.positive
    cases reads with
    | operator =>
      obtain ⟨_, eq, -⟩ := yard.addOperator_yard token
      rw [eq]
      exact positive
    | comma _ _ counts =>
      rw [counts] at positive
      exact List.forall_mem_cons.2 ⟨by omega, (List.forall_mem_cons.1 positive).2⟩
    | bracketOpen => exact List.forall_mem_cons.2 ⟨Nat.le_refl 1, positive⟩
    | bracketClose => exact fun count mem => positive count (List.mem_of_mem_tail mem)
    | _ => exact positive

theorem Orderly.remember {yard : Yard} (h : yard.Orderly) (kind : Kind) :
    (yard.remember kind).Orderly := by
  unfold Yard.remember
  split
  · exact ⟨h.waits, h.known, h.chain, h.positive⟩
  · exact h

/-- Reading tokens keeps what waits in order. -/
theorem Runs.orderly {yard : Yard} {tokens : List Token} {move : Move} (run : yard.Runs tokens move)
    (h : yard.Orderly) (known : ∀ token ∈ tokens, token.IsKnown) : move.yard.Orderly := by
  induction run with
  | nil => exact h
  | cons step _ ih =>
    obtain ⟨first, reads, rfl⟩ := step_eq_ok_iff.1 step
    obtain ⟨head, tail⟩ := List.forall_mem_cons.1 known
    exact ih ((reads.orderly h head).remember _) tail

/-! ## Whole yards -/

/-- An orderly yard that follows some tokens is stacked. -/
theorem Orderly.stacked {yard : Yard} {read : List Token} (h : yard.Orderly)
    (follows : yard.Follows read) : yard.Stacked where
  entries := by
    intro token mem
    cases pending : isPending token with
    | false =>
      exact .inr (.inr (not_isPending_iff.1 (by rw [pending]; exact Bool.false_ne_true)))
    | true =>
      have operator := h.waits token mem pending
      cases kind : token.kind <;> simp only [kind, Kind.isOperator, Bool.false_eq_true] at operator
      · exact .inl rfl
      · exact .inr (.inl rfl)
  layered := by
    intro segment part pending
    have operators (token : Token) (mem : token ∈ segment) : token.kind.isOperator = true :=
      h.waits token (part.subset mem) (pending token mem)
    obtain ⟨above, below, eq⟩ := part
    have chain := h.chain
    rw [← eq] at chain
    exact layered_of_chain chain.left_of_append.right_of_append pending operators
  counts := by
    rw [follows.counts, ← follows.openers, Yard.openers, List.filter_filter]
    refine congrArg List.length (List.filter_congr fun token _ => ?_)
    cases kind : token.kind <;> simp [isBracket, isPending, Kind.opens?, kind]
  positive := h.positive

/-- A marker that leaves says what the counter of its bracket does, or that there are no elements. -/
theorem Follows.marker {yard : Yard} {read : List Token} {token : Token} {move : Move}
    {gathering : Gathering} {count : Nat} (follows : yard.Follows read) (reads : yard.Reads token move)
    (mem : .arity gathering count ∈ move.items) : ∃ top counts, yard.counts = top :: counts ∧
      count = if yard.last = some gathering.delimiter.opener then 0 else top := by
  cases reads with
  | bracketClose gathering' _ _ split all opens =>
    obtain ⟨top, counts, eq⟩ :=
      List.exists_cons_of_ne_nil (follows.counts_ne_nil gathering' split all opens)
    simp only [List.mem_append, List.mem_map, reduceCtorEq, and_false, exists_false,
      List.mem_singleton, Item.arity.injEq, false_or] at mem
    obtain ⟨rfl, rfl⟩ := mem
    exact ⟨top, counts, eq, by rw [eq]; rfl⟩
  | operator =>
    simp only [addOperator] at mem
    split at mem <;> simp at mem
  | _ => simp at mem

end Yard

/-- The operators of a source text are known. Where known operators are read, every yard that is reached
is stacked, and a marker that leaves it was counted. -/
theorem stacked_of_run :
    (∀ source : String, ∀ token ∈ tokenize source, token.IsKnown) ∧
      ∀ (tokens : List Token) (shunting : Shunting), (∀ token ∈ tokens, token.IsKnown) →
        tokens.foldlM Shunting.step .initial = .ok shunting →
        shunting.yard.Stacked ∧
          ∀ token move, shunting.yard.step token = .ok move →
            ∀ gathering count, .arity gathering count ∈ move.items →
              ∃ top counts, shunting.yard.counts = top :: counts ∧
                count = if shunting.yard.last = some gathering.delimiter.opener then 0 else top := by
  refine ⟨fun source token mem => (isScanned_of_mem_tokenize mem).exists_entry, ?_⟩
  intro tokens shunting known run
  obtain ⟨last, runs, rfl⟩ := Shunting.run_iff.1 run
  have follows := Yard.Follows.empty.runs runs
  refine ⟨(runs.orderly .empty known).stacked follows, ?_⟩
  intro token move step gathering count mem
  obtain ⟨read, reads, rfl⟩ := Yard.step_eq_ok_iff.1 step
  exact follows.marker reads mem

/-- In `x:=-f[1,2^3^-4` the second power waits above the first, both inside of the bracket, which is of
two arguments so far. -/
theorem stacked_of_run_powers :
    let assignment : Token := ⟨.operator, ":=", 1⟩
    let sign : Token := ⟨.unaryOperator, "-", 3⟩
    let opening : Token := ⟨.callOpen, "[", 5⟩
    let power : Token := ⟨.operator, "^", 9⟩
    let power' : Token := ⟨.operator, "^", 11⟩
    let sign' : Token := ⟨.unaryOperator, "-", 12⟩
    ∃ shunting, (tokenize "x:=-f[1,2^3^-4").foldlM Shunting.step .initial = .ok shunting ∧
      shunting.yard.operators = [sign', power', power, opening, sign, assignment] ∧
      shunting.yard.counts = [2] ∧ shunting.yard.Stacked ∧ Yard.Layered [sign', power', power] := by
  intro assignment sign opening power power' sign'
  have tokens : tokenize "x:=-f[1,2^3^-4" = [⟨.word, "x", 0⟩, assignment, sign, ⟨.word, "f", 4⟩,
      opening, ⟨.number, "1", 6⟩, ⟨.comma, ",", 7⟩, ⟨.number, "2", 8⟩, power, ⟨.number, "3", 10⟩, power',
      sign', ⟨.number, "4", 13⟩] := by decide +kernel
  have known := stacked_of_run.1 "x:=-f[1,2^3^-4"
  rw [tokens] at known ⊢
  obtain ⟨stacked, -⟩ := stacked_of_run.2 _ _ known rfl
  refine ⟨_, rfl, rfl, rfl, stacked, stacked.layered _ ⟨[], [opening, sign, assignment], rfl⟩ ?_⟩
  decide

end ExprCompiler
