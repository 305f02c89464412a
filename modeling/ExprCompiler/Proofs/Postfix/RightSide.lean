import ExprCompiler.Proofs.Postfix.Frame
import ExprCompiler.Proofs.Postfix.Grammar

/-!
# The right side of an operator

Where an operator stands in the postfix form of a program:

* `Token.rightSide`: the tokens behind an operator up to the first one outside of their delimiters
  that makes the operator leave;
* `Yard.Runs.outermost`: what waits when nothing is open was read where nothing was open;
* `Yard.Runs.leaving`: the tokens that a token makes leave could as well have left before it;
* `Postfix.exists_rightSide`: the operator stands right behind the postfix form of its right side, if
  that side has one by itself, and behind nothing else that is written after it.
-/

namespace ExprCompiler

theorem Kind.isOperator_of_isData {kind : Kind} (data : kind.isData = true) : kind.isOperator = false := by
  cases kind <;> first | rfl | cases data

namespace Token

/-- The right side of the operator ends before the token, if no delimiter is open there: a separator,
a comma, or an operator that makes this one leave. -/
def endsAt (op token : Token) : Bool :=
  token.kind = .separator || token.kind = .comma ||
    token.kind = .operator && token.binding?.any fun binding => Yard.yields binding.level op

/-- The right side of an operator at the beginning of the tokens, where those of `opened` are open. -/
def rightSide (op : Token) (opened : List Token) : List Token → List Token
  | [] => []
  | token :: tokens =>
    if opened.isEmpty && (token.kind.closes?.isSome || op.endsAt token) then []
    else token :: op.rightSide (openNext opened token) tokens

/-- The right side is cut off where its end is reached. -/
theorem exists_rest (op : Token) (opened tokens : List Token) :
    ∃ rest, tokens = op.rightSide opened tokens ++ rest ∧ ∀ token ∈ rest.head?,
      token.kind.closes? ≠ none ∨ op.endsAt token = true := by
  induction tokens generalizing opened with
  | nil => exact ⟨[], rfl, nofun⟩
  | cons token tokens ih =>
    rw [rightSide]
    split
    · rename_i ends
      rw [Bool.and_eq_true, Bool.or_eq_true, Option.isSome_iff_ne_none] at ends
      refine ⟨token :: tokens, rfl, ?_⟩
      rintro _ ⟨⟩
      exact ends.2
    · obtain ⟨rest, eq, stop⟩ := ih (openNext opened token)
      refine ⟨rest, ?_, stop⟩
      rw [List.cons_append, ← eq]

/-- Inside of the right side its end is not reached. -/
theorem endsAt_eq_false {op token : Token} {opened tokens before after : List Token}
    (split : op.rightSide opened tokens = before ++ token :: after)
    (closed : before.foldl openNext opened = []) : op.endsAt token = false := by
  induction tokens generalizing opened before with
  | nil => simp [rightSide] at split
  | cons first tokens ih =>
    rw [rightSide] at split
    split at split
    · simp at split
    · rename_i goesOn
      cases before with
      | nil =>
        obtain ⟨rfl, -⟩ := List.cons.inj split
        rw [List.foldl_nil] at closed
        simp [closed] at goesOn
        exact goesOn.2
      | cons _ before =>
        obtain ⟨rfl, split'⟩ := List.cons.inj split
        exact ih split' closed

end Token

namespace Yard

/-! ## What waits outside of all delimiters -/

/-- A token that is read lets some of what waits leave, and may come to wait above the rest. -/
theorem Reads.operators {yard : Yard} {token : Token} {move : Move} (h : yard.Reads token move) :
    move.yard.operators <:+ yard.operators ∨ ∃ kept, move.yard.operators = token :: kept ∧
      kept <:+ yard.operators ∧ openers kept = openers yard.operators ∧
      (token.kind.opens? ≠ none ∨ token.kind.isOperator = true) := by
  cases h with
  | data | blank | other => exact .inl List.suffix_rfl
  | separator _ split | comma _ _ _ split =>
    exact .inl (split ▸ List.suffix_append _ _)
  | parenClose _ split | bracketClose _ _ _ split | lambdaClose _ split =>
    exact .inl (split ▸ (List.suffix_cons _ _).trans (List.suffix_append _ _))
  | unary kind => exact .inr ⟨_, rfl, List.suffix_rfl, rfl, .inr (by rw [kind]; rfl)⟩
  | parenOpen kind | lambdaOpen kind =>
    exact .inr ⟨_, rfl, List.suffix_rfl, rfl, .inl (by rw [kind]; exact nofun)⟩
  | bracketOpen gathering kind =>
    exact .inr ⟨_, rfl, List.suffix_rfl, rfl, .inl (by rw [kind]; cases gathering <;> exact nofun)⟩
  | operator kind =>
    have isOperator : token.kind.isOperator = true := by rw [kind]; rfl
    simp only [addOperator]
    split
    · exact .inr ⟨_, rfl, List.dropWhile_suffix _, openers_dropWhile_yields _ _, .inr isOperator⟩
    · exact .inr ⟨_, rfl, List.suffix_rfl, rfl, .inr isOperator⟩

/-- What waits below all open delimiters was read where nothing was open. -/
def Outermost (read operators : List Token) : Prop :=
  ∀ token below, token :: below <:+ operators → openers below = [] →
    (token.kind.opens? ≠ none ∨ token.kind.isOperator = true) ∧
      ∃ before after, read = before ++ token :: after ∧ openAfter before = []

theorem Outermost.reads {yard : Yard} {read : List Token} {token : Token} {move : Move}
    (h : Outermost read yard.operators) (follows : yard.Follows read)
    (reads : yard.Reads token move) : Outermost (read ++ [token]) move.yard.operators := by
  -- What has been waiting was read earlier.
  have earlier {top : Token} {below : List Token} (waits : top :: below <:+ yard.operators)
      (closed : openers below = []) : (top.kind.opens? ≠ none ∨ top.kind.isOperator = true) ∧
        ∃ before after, read ++ [token] = before ++ top :: after ∧ openAfter before = [] := by
    obtain ⟨kind, before, after, rfl, outside⟩ := h top below waits closed
    exact ⟨kind, before, after ++ [token], by simp, outside⟩
  intro top below waits closed
  obtain kept | ⟨kept, eq, suffix, openers, kind⟩ := reads.operators
  · exact earlier (waits.trans kept) closed
  · rw [eq, List.suffix_cons_iff] at waits
    obtain same | waits := waits
    · obtain ⟨rfl, rfl⟩ := List.cons.inj same
      rw [openers, follows.openers] at closed
      exact ⟨kind, read, [], rfl, closed⟩
    · exact earlier (waits.trans suffix) closed

/-- What waits when nothing is open are operators that were read where nothing was open. -/
theorem Runs.outermost {tokens : List Token} {move : Move} (run : Yard.empty.Runs tokens move)
    (closed : openAfter tokens = []) : ∀ token ∈ move.yard.operators,
      token.kind.isOperator = true ∧
        ∃ before after, tokens = before ++ token :: after ∧ openAfter before = [] := by
  have keep {yard : Yard} {read tokens : List Token} {move : Move} (h : Outermost read yard.operators)
      (follows : yard.Follows read) (run : yard.Runs tokens move) :
      Outermost (read ++ tokens) move.yard.operators := by
    induction run generalizing read with
    | nil => rwa [List.append_nil]
    | cons step _ ih =>
      obtain ⟨reading, reads, rfl⟩ := step_eq_ok_iff.1 step
      have next := h.reads follows reads
      rw [← remember_operators _ (Token.kind _)] at next
      rw [List.append_cons]
      exact ih next (follows.reads reads).2
  have initial : Outermost [] Yard.empty.operators := fun _ _ waits => by simp [empty] at waits
  have outermost := keep initial .empty run
  have pending := ((Follows.empty.runs run).pending_of_closed closed).1
  intro token mem
  obtain ⟨above, below, split⟩ := List.append_of_mem mem
  have waits : token :: below <:+ move.yard.operators := ⟨above, split.symm⟩
  obtain ⟨kind, read⟩ := outermost token below waits
    (openers_of_pending fun t ht => pending t (waits.subset (List.mem_cons_of_mem _ ht)))
  refine ⟨kind.resolve_left fun opens => opens ?_, read⟩
  simpa [isPending] using pending token mem

/-! ## What leaves together -/

/-- What leaves where the waiting tokens are cut begins with any pending ones at their front. -/
theorem exists_append_of_pending {waiting kept pending below : List Token}
    (split : waiting ++ kept = pending ++ below) (all : ∀ t ∈ waiting, isPending t = true)
    (stop : ∀ top ∈ below.head?, ¬ isPending top = true) :
    ∃ rest, pending = waiting ++ rest ∧ kept = rest ++ below := by
  obtain ⟨rest, rfl, rfl⟩ | ⟨rest, rfl, rfl⟩ := List.append_eq_append_iff.1 split
  · exact ⟨rest, rfl, rfl⟩
  · cases rest with
    | nil => exact ⟨[], by simp, by simp⟩
    | cons top rest => exact absurd (all top (by simp)) (stop top rfl)

/-- The token makes the waiting ones leave. -/
inductive Dismisses (token : Token) (waiting : List Token) : Prop
  | closes : token.kind.closes? ≠ none → Dismisses token waiting
  | separator : token.kind = .separator → Dismisses token waiting
  | comma : token.kind = .comma → Dismisses token waiting
  | operator {binding : Binding} : token.kind = .operator → token.binding? = some binding →
      (∀ t ∈ waiting, yields binding.level t = true) → Dismisses token waiting

theorem Dismisses.kind {token : Token} {waiting : List Token} (h : Dismisses token waiting) :
    (token.kind.closes?.isSome || token.kind = .separator || token.kind = .comma ||
      token.kind = .operator) = true := by
  cases h with
  | closes closes => simp [Option.isSome_iff_ne_none.2 closes]
  | separator kind | comma kind | operator kind => simp [kind]

/-- What a token makes leave could as well have left before it. -/
theorem Reads.leaving {yard : Yard} {token : Token} {move : Move} {waiting kept : List Token}
    (reads : yard.Reads token move) (split : yard.operators = waiting ++ kept)
    (all : ∀ t ∈ waiting, isPending t = true) (dismisses : Dismisses token waiting) :
    ∃ move', Reads { yard with operators := kept } token move' ∧
      move = { move' with items := waiting.map .token ++ move'.items } := by
  have rest {pending below : List Token} (eq : yard.operators = pending ++ below)
      (stop : ∀ top ∈ below.head?, ¬ isPending top = true) :=
    exists_append_of_pending (split.symm.trans eq) all stop
  have stop {top : Token} {outer : List Token} {delimiter : Delimiter}
      (opens : top.kind.opens? = some delimiter) :
      ∀ t ∈ (top :: outer).head?, ¬ isPending t = true := by
    rintro _ ⟨⟩
    exact not_isPending_iff.2 ⟨delimiter, opens⟩
  cases reads with
  | separator kind eq pending stands =>
    obtain ⟨more, rfl, rfl⟩ := rest eq stands.not_isPending
    refine ⟨_, .separator kind rfl (fun t ht => pending t (by simp [ht])) stands, ?_⟩
    simp
  | comma kind last counts eq pending stands =>
    obtain ⟨more, rfl, rfl⟩ := rest eq stands.not_isPending
    refine ⟨_, .comma kind last counts rfl (fun t ht => pending t (by simp [ht])) stands, ?_⟩
    simp
  | parenClose kind eq pending opens =>
    obtain ⟨more, rfl, rfl⟩ := rest eq (stop opens)
    refine ⟨_, .parenClose kind rfl (fun t ht => pending t (by simp [ht])) opens, ?_⟩
    simp
  | lambdaClose kind eq pending opens =>
    obtain ⟨more, rfl, rfl⟩ := rest eq (stop opens)
    refine ⟨_, .lambdaClose kind rfl (fun t ht => pending t (by simp [ht])) opens, ?_⟩
    simp
  | bracketClose gathering kind last eq pending opens =>
    obtain ⟨more, rfl, rfl⟩ := rest eq (stop opens)
    refine ⟨_, .bracketClose gathering kind last rfl (fun t ht => pending t (by simp [ht])) opens, ?_⟩
    simp
  | operator kind =>
    refine ⟨_, .operator kind, ?_⟩
    cases dismisses with
    | operator _ binding yields =>
      simp only [addOperator, binding, split, List.takeWhile_append_of_pos yields,
        List.dropWhile_append_of_pos yields, List.map_append]
    | closes closes => rw [kind] at closes; exact absurd rfl closes
    | separator other | comma other => rw [kind] at other; cases other
  | data data =>
    have kind := dismisses.kind
    cases eq : token.kind <;> rw [eq] at data kind <;> simp [Kind.isData, Kind.closes?] at data kind
  | bracketOpen gathering kind =>
    have dismisses := dismisses.kind
    rw [kind] at dismisses
    cases gathering <;> cases dismisses
  | blank kind | other kind | unary kind | parenOpen kind | lambdaOpen kind =>
    have dismisses := dismisses.kind
    rw [kind] at dismisses
    cases dismisses

/-- What is made to leave next, by a token or by the end, could as well have left before. -/
theorem Runs.leaving {yard : Yard} {tokens : List Token} {move : Move} {waiting kept : List Token}
    (run : yard.Runs tokens move) (split : yard.operators = waiting ++ kept)
    (all : ∀ t ∈ waiting, isPending t = true)
    (dismisses : ∀ token ∈ tokens.head?, Dismisses token waiting) :
    ∃ move', Runs { yard with operators := kept } tokens move' ∧
      move.items ++ move.yard.operators.map .token =
        waiting.map .token ++ (move'.items ++ move'.yard.operators.map .token) := by
  cases run with
  | nil => exact ⟨_, .nil _, by simp [split]⟩
  | @cons _ token tokens first rest step run =>
    obtain ⟨reading, reads, rfl⟩ := step_eq_ok_iff.1 step
    obtain ⟨reading', reads', rfl⟩ := reads.leaving split all (dismisses token rfl)
    exact ⟨_, .cons (step_eq_ok_iff.2 ⟨_, reads', rfl⟩) run, by simp⟩

/-! ## Operators above others -/

/-- An operator that does not make another one leave itself leaves wherever that one does. -/
theorem yields_of_not_yields {op token : Token} {binding : Binding} {level : Nat}
    (eq : token.binding? = some binding) (stays : ¬ yields binding.level op = true)
    (leaves : yields level op = true) : yields level token = true := by
  unfold yields at stays leaves ⊢
  rw [eq]
  cases below : op.binding? with
  | none => rw [below] at leaves; cases leaves
  | some binding' =>
    rw [below] at stays leaves
    simp only [Bool.or_eq_true, decide_eq_true_eq, Bool.and_eq_true, beq_iff_eq, not_or, not_and]
      at stays leaves ⊢
    obtain lt | ⟨rfl, left⟩ := leaves
    · omega
    · have other : binding.level ≠ binding'.level := fun same => stays.2 same left
      omega

/-- What waits above an operator when its right side is read leaves where the operator does. -/
theorem Runs.yields_of_rightSide {op token : Token} {after : List Token} {level : Nat} {move : Move}
    (run : Yard.empty.Runs (op.rightSide [] after) move) (closed : openAfter (op.rightSide [] after) = [])
    (lexed : ∀ t ∈ after, t.kind.isOperator = true → ∃ entry ∈ Operator.table, t.text = entry.symbol)
    (lt : level < Operator.unaryLevel) (leaves : yields level op = true)
    (mem : token ∈ move.yard.operators) : yields level token = true := by
  obtain ⟨isOperator, before, rest, split, outside⟩ := run.outermost closed token mem
  have goesOn := Token.endsAt_eq_false split outside
  obtain ⟨behind, eq, -⟩ := op.exists_rest [] after
  obtain ⟨entry, inTable, text⟩ := lexed token (by rw [eq, split]; simp) isOperator
  cases kind : token.kind <;> rw [kind] at isOperator <;> try cases isOperator
  case operator =>
    have binding := Grammar.binding?_operator kind inTable text
    refine yields_of_not_yields binding ?_ leaves
    simpa [Token.endsAt, kind, binding] using goesOn
  case unaryOperator =>
    have binding := Grammar.binding?_unary kind inTable text
    simp [yields, binding, lt]

/-- The token behind a right side makes the operator leave, with what waits above it. -/
theorem Runs.dismisses {op token : Token} {after : List Token} {move : Move}
    (run : Yard.empty.Runs (op.rightSide [] after) move) (closed : openAfter (op.rightSide [] after) = [])
    (lexed : ∀ t ∈ after, t.kind.isOperator = true → ∃ entry ∈ Operator.table, t.text = entry.symbol)
    (mem : token ∈ after) (ends : token.kind.closes? ≠ none ∨ op.endsAt token = true) :
    Dismisses token (move.yard.operators ++ [op]) := by
  obtain closes | ends := ends
  · exact .closes closes
  simp only [Token.endsAt, Bool.or_eq_true, decide_eq_true_eq, Bool.and_eq_true, Option.any_eq_true]
    at ends
  obtain (separator | comma) | ⟨kind, binding, eq, leaves⟩ := ends
  · exact .separator separator
  · exact .comma comma
  · obtain ⟨entry, inTable, text⟩ := lexed token mem (by rw [kind]; rfl)
    have lt : binding.level < Operator.unaryLevel := by
      rw [Grammar.binding?_operator kind inTable text] at eq
      cases eq
      exact Grammar.level_lt inTable
    refine .operator kind eq (List.forall_mem_append.2 ⟨fun t waits => ?_, by simpa using leaves⟩)
    exact run.yields_of_rightSide closed lexed lt leaves waits

/-- An operator that is read comes to wait above what it does not make leave. -/
theorem Reads.of_isOperator {yard : Yard} {token : Token} {move : Move} (reads : yard.Reads token move)
    (kind : token.kind.isOperator = true) : ∃ leaving kept, yard.operators = leaving ++ kept ∧
      move = { yard := { yard with operators := token :: kept }, items := leaving.map .token } := by
  cases reads with
  | unary => exact ⟨[], yard.operators, rfl, rfl⟩
  | operator =>
    simp only [addOperator]
    split
    · exact ⟨_, _, List.takeWhile_append_dropWhile.symm, rfl⟩
    · exact ⟨[], yard.operators, rfl, rfl⟩
  | data data => rw [Kind.isOperator_of_isData data] at kind; cases kind
  | bracketOpen gathering eq | bracketClose gathering eq =>
    rw [eq] at kind
    cases gathering <;> cases kind
  | _ eq => rw [eq] at kind; cases kind

theorem Runs.unique {yard : Yard} {tokens : List Token} {move move' : Move} (h : yard.Runs tokens move)
    (h' : yard.Runs tokens move') : move = move' := by
  induction h generalizing move' with
  | nil => cases h'; rfl
  | cons step _ ih =>
    cases h' with
    | cons step' rest' =>
      rw [step] at step'
      cases step'
      cases ih rest'
      rfl

theorem isPending_of_isOperator {token : Token} (kind : token.kind.isOperator = true) :
    isPending token = true := by
  cases eq : token.kind <;> simp [eq, Kind.isOperator, isPending, Kind.opens?] at kind ⊢

/-- Behind an operator its right side is read as it is read alone. Then the operator leaves, and what
leaves behind it is from below it or from after its right side. -/
theorem Runs.rightSide {p : Token → Prop} {yard : Yard} {op : Token} {kept after : List Token}
    {move inner : Move} (run : yard.Runs after move) (top : yard.operators = op :: kept)
    (kind : op.kind.isOperator = true)
    (lexed : ∀ t ∈ after, t.kind.isOperator = true → ∃ entry ∈ Operator.table, t.text = entry.symbol)
    (alone : Yard.empty.Runs (op.rightSide [] after) inner)
    (closed : openAfter (op.rightSide [] after) = [])
    (keeps : ∀ t ∈ kept, p t) (reads : ∀ t ∈ after, p t) :
    ∃ back, move.items ++ move.yard.operators.map .token =
        inner.items ++ (inner.yard.operators.map .token ++ .token op :: back) ∧
      ∀ t, .token t ∈ back → p t := by
  obtain ⟨rest, eq, ends⟩ := op.exists_rest [] after
  rw [eq] at run
  obtain ⟨middle, last, runMiddle, runLast, rfl⟩ := run.of_append
  have bears (xs : List Token) (token : Token) (ys : List Token)
      (eq : op.rightSide [] after = xs ++ token :: ys) (outside : openAfter xs = []) :
      yard.Bears token := by
    have goesOn := Token.endsAt_eq_false eq outside
    simp only [Token.endsAt, Bool.or_eq_false_iff, decide_eq_false_iff_not, Bool.and_eq_false_imp,
      decide_eq_true_eq] at goesOn
    refine ⟨fun separator => absurd separator goesOn.1.1, fun operator binding found top' mem => ?_⟩
    have stays := goesOn.2 operator
    rw [Option.mem_def.1 found, Option.any_some] at stays
    rw [top] at mem
    cases mem
    exact Bool.eq_false_iff.1 stays
  obtain ⟨middle', runMiddle', stacked⟩ := alone.over bears
  cases runMiddle.unique runMiddle'
  have waiting : middle.yard.operators = inner.yard.operators ++ [op] ++ kept := by
    rw [stacked.yard.operators, top, List.append_assoc]
    rfl
  have pending := ((Follows.empty.runs alone).pending_of_closed closed).1
  have mem {token : Token} (mem : token ∈ rest) : token ∈ after := by
    rw [eq]
    exact List.mem_append_right _ mem
  obtain ⟨last', runLast', items⟩ := runLast.leaving waiting
    (List.forall_mem_append.2 ⟨pending, by simpa using isPending_of_isOperator kind⟩)
    fun token head => alone.dismisses closed lexed (mem (List.mem_of_mem_head? head)) (ends token head)
  obtain ⟨waits, leaves⟩ := runLast'.tokens keeps fun t ht => reads t (mem ht)
  refine ⟨last'.items ++ last'.yard.operators.map .token, ?_, fun t ht => ?_⟩
  · simp only [List.append_assoc, items, stacked.items, List.map_append, List.map_singleton,
      List.singleton_append]
  · obtain ht | ht := List.mem_append.1 ht
    · exact leaves t ht
    · obtain ⟨_, ht, ⟨⟩⟩ := List.mem_map.1 ht
      exact waits t ht

end Yard

/-- In the postfix form of a program an operator stands right behind that of its right side. Before
the two come tokens that are written in front of the operator, and behind them come others. -/
theorem Postfix.exists_rightSide {before after : List Token} {op : Token} {result shunted : Postfix}
    (shunts : Postfix.ofTokens (before ++ op :: after) = .ok result) (kind : op.kind.isOperator = true)
    (lexed : ∀ t ∈ after, t.kind.isOperator = true → ∃ entry ∈ Operator.table, t.text = entry.symbol)
    (alone : Postfix.ofTokens (op.rightSide [] after) = .ok shunted) :
    ∃ front back, result.items = front ++ (shunted.items ++ .token op :: back) ∧
      (∀ t, .token t ∈ front → t ∈ before) ∧ ∀ t, .token t ∈ back → t ∈ before ∨ t ∈ after := by
  have closed := (nested_iff.1 (nested_of_ofTokens alone).1).2
  obtain ⟨move, runs, -, rfl⟩ := ofTokens_eq_ok_iff_runs.1 shunts
  obtain ⟨inner, runInner, -, rfl⟩ := ofTokens_eq_ok_iff_runs.1 alone
  obtain ⟨first, _, runBefore, runBehind, rfl⟩ := runs.of_append
  obtain ⟨waits, leaves⟩ := runBefore.tokens (p := (· ∈ before)) nofun fun _ mem => mem
  cases runBehind with
  | cons step runAfter =>
  obtain ⟨_, reads, rfl⟩ := Yard.step_eq_ok_iff.1 step
  obtain ⟨leaving, kept, split, rfl⟩ := reads.of_isOperator kind
  rw [split] at waits
  obtain ⟨back, items, from_⟩ := runAfter.rightSide (p := fun t => t ∈ before ∨ t ∈ after)
    (Yard.remember_operators _ _) kind lexed runInner closed
    (fun t mem => .inl (waits t (List.mem_append_right _ mem))) fun t mem => .inr mem
  refine ⟨first.items ++ leaving.map .token, back, ?_, fun t mem => ?_, from_⟩
  · simp only [List.append_assoc, items]
  · obtain mem | mem := List.mem_append.1 mem
    · exact leaves t mem
    · obtain ⟨_, mem, ⟨⟩⟩ := List.mem_map.1 mem
      exact waits t (List.mem_append_left _ mem)

end ExprCompiler
