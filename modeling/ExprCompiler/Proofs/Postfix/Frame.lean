import ExprCompiler.Proofs.Origin
import ExprCompiler.Proofs.Postfix.Delimiters

/-!
# Tokens that are read above others

What waits in a yard does not change how further tokens are read, as long as these stay among
themselves:

* `Yard.Over`: a yard with what waits in another one below it;
* `Yard.Over.reads`: a token that is read in a yard is read alike above another one, and the same
  items leave. Outside of all delimiters it must not make anything below leave (`Yard.Bears`);
* `Yard.Runs.over`: the same of a list of tokens, from an empty yard;
* `Postfix.ofTokens_eq_ok_iff_runs`: postfix forms by what leaves and what waits at the end.
-/

namespace ExprCompiler

namespace Yard

theorem remember_counts (yard : Yard) (kind : Kind) : (yard.remember kind).counts = yard.counts := by
  unfold remember
  split <;> rfl

theorem remember_last (yard : Yard) (kind : Kind) :
    (yard.remember kind).last = if kind.isSignificant then some kind else yard.last := by
  unfold remember
  split <;> rfl

theorem Runs.of_append {yard : Yard} {xs ys : List Token} {move : Move}
    (h : yard.Runs (xs ++ ys) move) : ∃ first rest, yard.Runs xs first ∧ first.yard.Runs ys rest ∧
      move = ⟨rest.yard, first.items ++ rest.items, first.diagnostics ++ rest.diagnostics⟩ := by
  induction xs generalizing yard move with
  | nil => exact ⟨_, move, .nil _, h, rfl⟩
  | cons x xs ih =>
    rw [List.cons_append] at h
    cases h with
    | cons step rest =>
      obtain ⟨first, rest, runs, runs', rfl⟩ := ih rest
      exact ⟨_, _, .cons step runs, runs', by simp⟩

/-- At the end everything that waits leaves, and no delimiter may be among it. -/
theorem flush_nil_eq_ok_iff {operators below : List Token} {items : List Item} :
    flush [] operators = .ok (items, below) ↔
      (∀ t ∈ operators, isPending t = true) ∧ items = operators.map .token ∧ below = [] := by
  rw [flush_eq_ok_iff]
  constructor
  · rintro ⟨pending, rfl, all, stands, rfl⟩
    cases below with
    | nil => simpa using all
    | cons top below =>
      obtain ⟨_, mem, _⟩ := stands top rfl
      cases mem
  · rintro ⟨all, rfl, rfl⟩
    exact ⟨operators, (List.append_nil _).symm, all, nofun, rfl⟩

/-- A yard in which nothing is open holds only pending operators, and no counters. -/
theorem Follows.pending_of_closed {yard : Yard} {read : List Token} (h : yard.Follows read)
    (closed : openAfter read = []) :
    (∀ t ∈ yard.operators, isPending t = true) ∧ yard.counts = [] := by
  constructor
  · have none := h.openers.trans closed
    simpa [Yard.openers] using none
  · have length := h.counts
    rw [closed] at length
    exact List.length_eq_zero_iff.1 length

/-- A yard follows the tokens of a run. -/
theorem Follows.runs {yard : Yard} {read tokens : List Token} {move : Move}
    (h : yard.Follows read) (run : yard.Runs tokens move) : move.yard.Follows (read ++ tokens) := by
  induction run generalizing read with
  | nil => rwa [List.append_nil]
  | cons step _ ih =>
    obtain ⟨reading, reads, rfl⟩ := step_eq_ok_iff.1 step
    rw [List.append_cons]
    exact ih (h.reads reads).2

/-- The yard `framed` has what waits in `base` below what waits in `yard`. The kinds of the last
tokens agree while a call or an array of `yard` is open, and matter only then. -/
structure Over (base yard framed : Yard) : Prop where
  operators : framed.operators = yard.operators ++ base.operators
  counts : framed.counts = yard.counts ++ base.counts
  last : yard.counts ≠ [] → framed.last = yard.last

theorem Over.empty (base : Yard) : Over base .empty base :=
  ⟨rfl, rfl, fun open_ => absurd rfl open_⟩

/-- What is below a cut of `yard` is, in `framed`, above what waits in `base`. -/
theorem Over.operators_append {base yard framed : Yard} {pending below : List Token}
    (h : Over base yard framed) (split : yard.operators = pending ++ below) :
    framed.operators = pending ++ (below ++ base.operators) := by
  rw [h.operators, split, List.append_assoc]

/-- What waits in `base` stays where it is when the token is read directly above it. -/
structure Bears (base : Yard) (token : Token) : Prop where
  separator : token.kind = .separator → Stands [.lambda] base.operators
  operator : token.kind = .operator → ∀ binding ∈ token.binding?, ∀ top ∈ base.operators.head?,
    ¬ yields binding.level top = true

theorem Stands.append {within : List Delimiter} {below base : List Token} (h : Stands within below)
    (hb : below = [] → Stands within base) : Stands within (below ++ base) := by
  cases below with
  | nil => exact hb rfl
  | cons top below => exact h

/-- The kinds agree behind a significant token, and behind another one if they did before. -/
theorem Over.remember {base yard framed next next' : Yard} {kind : Kind} (h : Over base yard framed)
    (operators : next'.operators = next.operators ++ base.operators)
    (counts : next'.counts = next.counts ++ base.counts)
    (plain : kind.isSignificant = false → next.counts = yard.counts ∧ next.last = yard.last ∧
      next'.last = framed.last := by decide) :
    Over base (next.remember kind) (next'.remember kind) := by
  refine ⟨?_, ?_, ?_⟩
  · rw [remember_operators, remember_operators, operators]
  · rw [remember_counts, remember_counts, counts]
  · rw [remember_counts, remember_last, remember_last]
    intro open_
    cases significant : kind.isSignificant with
    | true => rfl
    | false =>
      obtain ⟨same, last, last'⟩ := plain significant
      simp only [Bool.false_eq_true, if_false]
      rw [last, last', h.last (same ▸ open_)]

/-- The operators that yield, and what stays below them. -/
theorem exists_yielding (level : Nat) (operators : List Token) : ∃ leaving kept,
    operators = leaving ++ kept ∧ (∀ t ∈ leaving, yields level t = true) ∧
      ∀ top ∈ kept.head?, ¬ yields level top = true := by
  refine ⟨operators.takeWhile (yields level), operators.dropWhile (yields level),
    List.takeWhile_append_dropWhile.symm, List.all_eq_true.1 List.all_takeWhile, fun top mem => ?_⟩
  have stop := List.head?_dropWhile_not (yields level) operators
  rw [Option.mem_def.1 mem] at stop
  simpa using stop

/-- An operator that comes above others makes leave what it makes leave alone. -/
theorem addOperator_over {base yard framed : Yard} {token : Token} {read : List Token}
    (h : Over base yard framed) (follows : yard.Follows read) (kind : token.kind = .operator)
    (bears : openAfter read = [] → Bears base token) :
    (framed.addOperator token).items = (yard.addOperator token).items ∧
      (framed.addOperator token).yard.operators =
        (yard.addOperator token).yard.operators ++ base.operators := by
  cases binding : token.binding? with
  | none => simp [addOperator, binding, h.operators]
  | some b =>
    obtain ⟨leaving, kept, split, all, stop⟩ := exists_yielding b.level yard.operators
    have stop' : ∀ top ∈ (kept ++ base.operators).head?, ¬ yields b.level top = true := by
      cases kept with
      | cons top kept => exact stop
      | nil =>
        -- Nothing is open where everything leaves.
        have closed : openAfter read = [] := by
          rw [← follows.openers, split, List.append_nil]
          exact openers_of_pending fun t mem => isPending_of_yields (all t mem)
        exact fun top mem => (bears closed).operator kind b binding top mem
    have span := Run.span_append all stop
    have span' := Run.span_append all stop'
    simp only [addOperator, binding, h.operators, split, List.append_assoc, span, span',
      List.cons_append, and_self]

/-- The second move does what the first one does, above `base`. -/
structure Move.Over (base : Yard) (move framed : Move) : Prop where
  yard : Yard.Over base move.yard framed.yard
  items : framed.items = move.items
  diagnostics : framed.diagnostics = move.diagnostics

theorem addOperator_diagnostics (yard : Yard) (token : Token) :
    (yard.addOperator token).diagnostics = [] := by
  unfold addOperator
  split <;> rfl

/-- A bracket that is open in a yard has its counter there. -/
theorem Follows.counts_ne_nil {yard : Yard} {read pending outer : List Token} {top : Token}
    (h : yard.Follows read) (gathering : Gathering) (split : yard.operators = pending ++ top :: outer)
    (all : ∀ t ∈ pending, isPending t = true)
    (opens : top.kind.opens? = some gathering.delimiter) : yard.counts ≠ [] := by
  rw [h.counts_ne_nil_iff, h.tail split all opens]
  refine ⟨top, List.mem_cons_self, ?_⟩
  rw [Kind.opens?_eq_some_iff.1 opens]
  cases gathering
  · exact .inl rfl
  · exact .inr rfl

/-- A delimiter is open where there is a counter. -/
theorem Follows.below_ne_nil {yard : Yard} {read pending below : List Token} {count : Nat}
    {counts : List Nat} (h : yard.Follows read) (eq : yard.counts = count :: counts)
    (split : yard.operators = pending ++ below) (all : ∀ t ∈ pending, isPending t = true) :
    below ≠ [] := by
  rintro rfl
  have closed : openAfter read = [] := (h.below split all).symm
  obtain ⟨opener, mem, -⟩ := h.counts_ne_nil_iff.1 (by rw [eq]; exact List.cons_ne_nil _ _)
  rw [closed] at mem
  cases mem

/-- A token is read above other tokens as it is read alone. -/
theorem Over.reads {base yard framed : Yard} {token : Token} {read : List Token} {move : Move}
    (h : Over base yard framed) (follows : yard.Follows read)
    (bears : openAfter read = [] → Bears base token) (reads : yard.Reads token move) :
    ∃ move', framed.Reads token move' ∧
      Move.Over base { move with yard := move.yard.remember token.kind }
        { move' with yard := move'.yard.remember token.kind } := by
  cases reads with
  | data data =>
    exact ⟨_, .data data, h.remember h.operators h.counts fun _ => ⟨rfl, rfl, rfl⟩, rfl, rfl⟩
  | blank kind =>
    exact ⟨_, .blank kind, h.remember h.operators h.counts fun _ => ⟨rfl, rfl, rfl⟩, rfl, rfl⟩
  | other kind =>
    exact ⟨_, .other kind, h.remember h.operators h.counts fun _ => ⟨rfl, rfl, rfl⟩, rfl, rfl⟩
  | operator kind =>
    obtain ⟨items, operators⟩ := addOperator_over h follows kind bears
    obtain ⟨kept, eq, -⟩ := yard.addOperator_yard token
    obtain ⟨kept', eq', -⟩ := framed.addOperator_yard token
    refine ⟨_, .operator kind, h.remember operators ?_ ?_, items, ?_⟩
    · rw [eq, eq', h.counts]
    · rw [eq, eq']
      exact fun _ => ⟨rfl, rfl, rfl⟩
    · rw [addOperator_diagnostics, addOperator_diagnostics]
  | unary kind =>
    exact ⟨_, .unary kind, h.remember (by rw [h.operators]; rfl) h.counts fun _ => ⟨rfl, rfl, rfl⟩,
      rfl, rfl⟩
  | parenOpen kind =>
    exact ⟨_, .parenOpen kind, h.remember (by rw [h.operators]; rfl) h.counts
      fun _ => ⟨rfl, rfl, rfl⟩, rfl, rfl⟩
  | lambdaOpen kind =>
    exact ⟨_, .lambdaOpen kind, h.remember (by rw [h.operators]; rfl) h.counts
      fun _ => ⟨rfl, rfl, rfl⟩, rfl, rfl⟩
  | bracketOpen gathering kind =>
    refine ⟨_, .bracketOpen gathering kind, h.remember (by rw [h.operators]; rfl)
      (by rw [h.counts]; rfl) ?_, rfl, rfl⟩
    rw [kind]
    cases gathering <;> exact nofun
  | @separator pending below kind split all stands =>
    have stands' : Stands [.lambda] (below ++ base.operators) := by
      refine stands.append fun nothing => ?_
      rw [nothing] at split
      exact (bears (follows.below split all).symm).separator kind
    exact ⟨_, .separator kind (h.operators_append split) all stands',
      h.remember rfl h.counts fun _ => ⟨rfl, rfl, rfl⟩, rfl, rfl⟩
  | @comma pending below count counts kind last eq split all stands =>
    have inside := follows.below_ne_nil eq split all
    have stands' : Stands [.lambda, .array, .call] (below ++ base.operators) :=
      stands.append fun nothing => absurd nothing inside
    have eq' : framed.counts = count :: (counts ++ base.counts) := by rw [h.counts, eq]; rfl
    rw [← h.last (by rw [eq]; exact List.cons_ne_nil _ _)] at last
    refine ⟨_, .comma kind last eq' (h.operators_append split) all stands',
      h.remember rfl rfl ?_, rfl, rfl⟩
    rw [kind]
    exact nofun
  | @parenClose pending outer top kind split all opens =>
    exact ⟨_, .parenClose kind (h.operators_append split) all opens,
      h.remember rfl h.counts fun _ => ⟨rfl, rfl, rfl⟩, rfl, rfl⟩
  | @lambdaClose pending outer top kind split all opens =>
    exact ⟨_, .lambdaClose kind (h.operators_append split) all opens,
      h.remember rfl h.counts fun _ => ⟨rfl, rfl, rfl⟩, rfl, rfl⟩
  | @bracketClose gathering pending outer top kind last split all opens =>
    have inside := follows.counts_ne_nil gathering split all opens
    have same := h.last inside
    have tail : framed.counts.tail = yard.counts.tail ++ base.counts := by
      rw [h.counts, List.tail_append_of_ne_nil inside]
    have head : framed.counts.headD 0 = yard.counts.headD 0 := by
      obtain ⟨count, counts, eq⟩ := List.exists_cons_of_ne_nil inside
      rw [h.counts, eq]
      rfl
    refine ⟨_, .bracketClose gathering kind (same ▸ last) (h.operators_append split) all opens,
      h.remember rfl tail ?_, ?_, rfl⟩
    · rw [kind]
      cases gathering <;> exact nofun
    · rw [same, head]

/-- A list of tokens that is read alone is read above other tokens with the same result. -/
theorem Runs.over_of {base yard framed : Yard} {read tokens : List Token} {move : Move}
    (h : Over base yard framed) (follows : yard.Follows read)
    (bears : ∀ before token after, tokens = before ++ token :: after →
      openAfter (read ++ before) = [] → Bears base token)
    (run : yard.Runs tokens move) : ∃ move', framed.Runs tokens move' ∧ Move.Over base move move' := by
  induction run generalizing read framed with
  | nil => exact ⟨_, .nil _, h, rfl, rfl⟩
  | @cons yard token tokens first rest step _ ih =>
    obtain ⟨reading, reads, rfl⟩ := step_eq_ok_iff.1 step
    have head : openAfter read = [] → Bears base token := by
      simpa using bears [] token tokens rfl
    obtain ⟨reading', reads', stacked⟩ := h.reads follows head reads
    obtain ⟨rest', runs', stacked'⟩ := ih stacked.yard (follows.reads reads).2 fun before t after eq closed =>
      bears (token :: before) t after (by rw [eq]; rfl) (by simpa using closed)
    refine ⟨_, .cons (step_eq_ok_iff.2 ⟨reading', reads', rfl⟩) runs', stacked'.yard, ?_, ?_⟩
    · rw [stacked.items, stacked'.items]
    · rw [stacked.diagnostics, stacked'.diagnostics]

/-- A list of tokens that is read from the beginning is read from any yard with the same result, if
that yard bears those of them that stand outside of all delimiters. -/
theorem Runs.over {base : Yard} {tokens : List Token} {move : Move}
    (bears : ∀ before token after, tokens = before ++ token :: after → openAfter before = [] →
      Bears base token)
    (run : Yard.empty.Runs tokens move) : ∃ move', base.Runs tokens move' ∧ Move.Over base move move' :=
  run.over_of (.empty base) .empty bears

end Yard

/-- A program has a postfix form when its tokens are read and no delimiter is left open. What waits at
the end leaves then. -/
theorem Postfix.ofTokens_eq_ok_iff_runs {tokens : List Token} {result : Postfix} :
    Postfix.ofTokens tokens = .ok result ↔ ∃ move, Yard.empty.Runs tokens move ∧
      (∀ t ∈ move.yard.operators, Yard.isPending t = true) ∧
      result = ⟨move.items ++ move.yard.operators.map .token, move.diagnostics⟩ := by
  rw [Postfix.ofTokens_eq_ok_iff]
  constructor
  · rintro ⟨move, items, below, runs, flushed, rfl⟩
    obtain ⟨pending, rfl, -⟩ := Yard.flush_nil_eq_ok_iff.1 flushed
    exact ⟨move, runs, pending, rfl⟩
  · rintro ⟨move, runs, pending, rfl⟩
    exact ⟨move, _, _, runs, Yard.flush_nil_eq_ok_iff.2 ⟨pending, rfl, rfl⟩, rfl⟩

end ExprCompiler
