import ExprCompiler.Proofs.Postfix.Frame

/-!
# What markers count

The marker behind a pair of brackets, against the trees that the brackets hold:

* `asStatements`, `elementCount`: the elements of a pair of brackets taken for statements, and how
  many are written;
* `emitted`: what has left the yard when some tokens are read;
* `Yard.Runs.inside`: the tokens inside a pair of brackets are read above the opening side as they are
  read alone, among statements, and its counter counts the commas that divide its elements;
* `arity_eq_length_iff`: the marker holds how many elements are written, so it tells how many trees
  its brackets hold exactly when the elements are a program of as many statements.
-/

namespace ExprCompiler

/-! ## The elements of a pair of brackets -/

/-- A comma divides the elements of a pair of brackets if no bracket inside of that pair is open at
it, whatever else is open. -/
def isDivider (opened : List Token) (token : Token) : Bool :=
  token.kind = .comma && !opened.any Yard.isBracket

/-- A token of a pair of brackets with dividing commas taken for separators. -/
def asStatement (opened : List Token) (token : Token) : Token :=
  if isDivider opened token then { token with kind := .separator } else token

/-- The tokens inside a pair of brackets with its elements taken for statements. -/
def asStatements (opened : List Token) : List Token → List Token
  | [] => []
  | token :: tokens => asStatement opened token :: asStatements (openNext opened token) tokens

/-- How many commas divide the elements. -/
def dividers (opened : List Token) : List Token → Nat
  | [] => 0
  | token :: tokens =>
    (if isDivider opened token then 1 else 0) + dividers (openNext opened token) tokens

/-- How many elements are written inside a pair of brackets: none if only blanks stand there, and
otherwise one more than there are commas between them. -/
def elementCount (tokens : List Token) : Nat :=
  if tokens.any fun token => token.kind.isSignificant then dividers [] tokens + 1 else 0

/-- What has left the yard when the tokens are read. -/
def emitted (tokens : List Token) : Except SyntaxError (List Item) :=
  (tokens.foldlM Shunting.step .initial).map fun shunting => shunting.items.toList

theorem openNext_asStatement (opened : List Token) (token : Token) :
    openNext opened (asStatement opened token) = openNext opened token := by
  unfold asStatement
  split
  · rename_i divider
    simp only [isDivider, Bool.and_eq_true, decide_eq_true_eq] at divider
    rw [openNext_of_plain rfl rfl, openNext_of_plain (by rw [divider.1]; rfl) (by rw [divider.1]; rfl)]
  · rfl

theorem foldl_openNext_asStatements (opened tokens : List Token) :
    (asStatements opened tokens).foldl openNext opened = tokens.foldl openNext opened := by
  induction tokens generalizing opened with
  | nil => rfl
  | cons token tokens ih =>
    rw [asStatements, List.foldl_cons, List.foldl_cons, openNext_asStatement, ih]

namespace Yard

theorem emitted_eq_ok_iff {tokens : List Token} {items : List Item} :
    emitted tokens = .ok items ↔ ∃ move, Yard.empty.Runs tokens move ∧ items = move.items := by
  constructor
  · intro h
    cases run : tokens.foldlM Shunting.step .initial with
    | error error => rw [emitted, run] at h; cases h
    | ok shunting =>
      rw [emitted, run] at h
      obtain ⟨move, runs, rfl⟩ := Shunting.run_iff.1 run
      cases h
      exact ⟨move, runs, by simp [Shunting.initial]⟩
  · rintro ⟨move, runs, rfl⟩
    rw [emitted, Shunting.run_iff.2 ⟨move, runs, rfl⟩]
    simp [Except.map, Shunting.initial]

/-- What is pending above an open delimiter is pending in the yard above it. -/
theorem Over.cut {base yard framed : Yard} {opening : Token} {outer pending below : List Token}
    (h : Over base yard framed) (top : base.operators = opening :: outer)
    (notPending : ¬ isPending opening = true)
    (split : framed.operators = pending ++ below) (all : ∀ t ∈ pending, isPending t = true)
    (stop : ∀ top ∈ below.head?, ¬ isPending top = true) :
    ∃ inner, yard.operators = pending ++ inner ∧ below = inner ++ base.operators := by
  obtain ⟨pending', inner, eq, all', stop'⟩ := exists_cut yard.operators
  have stopBase : ∀ top ∈ (inner ++ base.operators).head?, ¬ isPending top = true := by
    cases inner with
    | cons => exact stop'
    | nil =>
      rw [List.nil_append, top]
      rintro _ ⟨⟩
      exact notPending
  have cut := Run.span_append all stop
  have cut' := Run.span_append all' stopBase
  rw [← List.append_assoc, ← eq, ← h.operators, split] at cut'
  obtain rfl : pending = pending' := cut.1.symm.trans cut'.1
  exact ⟨inner, eq, cut.2.symm.trans cut'.2⟩

/-- Counters are there for the brackets that are open, and no comma divides elements inside them. -/
theorem Follows.isDivider_iff {yard : Yard} {read : List Token} {token : Token}
    (h : yard.Follows read) :
    isDivider (openAfter read) token = true ↔ token.kind = .comma ∧ yard.counts = [] := by
  have brackets : (openAfter read).any isBracket = true ↔ yard.counts ≠ [] := by
    rw [h.counts_ne_nil_iff, List.any_eq_true]
    simp [isBracket]
  rw [isDivider, Bool.and_eq_true, decide_eq_true_eq, Bool.not_eq_true', ← Bool.not_eq_true, brackets,
    Decidable.not_not]

/-- What is directly inside a pair of brackets: the opening side with its counter is the innermost
part of `base`. -/
structure Encloses (base : Yard) (opening : Token) (outer : List Token) (count : Nat)
    (counts : List Nat) : Prop where
  operators : base.operators = opening :: outer
  counts : base.counts = count :: counts
  bracket : isBracket opening = true

section Inside

variable {base yard framed : Yard} {opening token : Token} {outer read : List Token} {count : Nat}
  {counts : List Nat}

theorem Encloses.opens (h : Encloses base opening outer count counts) :
    ∃ delimiter, opening.kind.opens? = some delimiter ∧ delimiter ≠ .lambda := by
  have bracket := h.bracket
  simp only [isBracket, Bool.or_eq_true, decide_eq_true_eq] at bracket
  obtain call | array := bracket
  · exact ⟨.call, by rw [call]; rfl, by decide⟩
  · exact ⟨.array, by rw [array]; rfl, by decide⟩

theorem Encloses.not_isPending (h : Encloses base opening outer count counts) :
    ¬ isPending opening = true := by
  obtain ⟨delimiter, opens, -⟩ := h.opens
  exact not_isPending_iff.2 ⟨delimiter, opens⟩

/-- A dividing comma is read above the opening side as a separator is read alone. -/
theorem Over.reads_divider {move' : Move} (h : Over base yard framed) (follows : yard.Follows read)
    (encloses : Encloses base opening outer count counts)
    (divider : isDivider (openAfter read) token = true) (reads : framed.Reads token move') :
    ∃ move, yard.Reads { token with kind := .separator } move ∧
      Move.Over { base with counts := (count + 1) :: counts }
        { move with yard := move.yard.remember .separator }
        { move' with yard := move'.yard.remember token.kind } := by
  obtain ⟨kind, closed⟩ := follows.isDivider_iff.1 divider
  cases reads with
  | @comma pending below count' counts' _ last eq split all stands =>
    obtain ⟨inner, split', rfl⟩ :=
      h.cut encloses.operators encloses.not_isPending split all stands.not_isPending
    have stands' : Stands [.lambda] inner := by
      intro top mem
      cases inner with
      | nil => cases mem
      | cons top' inner =>
        cases mem
        obtain ⟨delimiter, mem, opens⟩ := stands top rfl
        cases delimiter with
        | lambda => exact ⟨.lambda, List.mem_singleton_self _, opens⟩
        | paren => simp at mem
        | call => exact absurd closed (follows.counts_ne_nil .call split' all opens)
        | array => exact absurd closed (follows.counts_ne_nil .array split' all opens)
    have same : count' = count ∧ counts' = counts := by
      rw [h.counts, closed, List.nil_append, encloses.counts] at eq
      exact ⟨(List.cons.inj eq).1.symm, (List.cons.inj eq).2.symm⟩
    refine ⟨_, .separator rfl split' all stands', ⟨?_, ?_, ?_⟩, rfl, rfl⟩
    · rw [remember_operators, remember_operators]
    · rw [remember_counts, remember_counts, closed, same.1, same.2]
      rfl
    · rw [remember_counts]
      exact fun open_ => absurd closed open_
  | data data => rw [kind] at data; cases data
  | bracketOpen gathering kind' | bracketClose gathering kind' =>
    rw [kind] at kind'
    cases gathering <;> cases kind'
  | _ => simp_all

/-- The cut at the innermost open delimiter, where one is open inside the pair of brackets. -/
theorem Over.cut_inside {delimiter : Delimiter} {pending outer' : List Token} {top : Token}
    (h : Over base yard framed) (follows : yard.Follows read)
    (encloses : Encloses base opening outer count counts) (inside : openAfter read ≠ [])
    (split : framed.operators = pending ++ top :: outer') (all : ∀ t ∈ pending, isPending t = true)
    (opens : top.kind.opens? = some delimiter) :
    ∃ inner, yard.operators = pending ++ top :: inner := by
  have stop : ∀ t ∈ (top :: outer').head?, ¬ isPending t = true := by
    rintro _ ⟨⟩
    exact not_isPending_iff.2 ⟨delimiter, opens⟩
  obtain ⟨inner, split', eq⟩ := h.cut encloses.operators encloses.not_isPending split all stop
  cases inner with
  | nil => exact absurd (follows.below split' all).symm inside
  | cons top' inner =>
    obtain ⟨rfl, -⟩ := List.cons.inj eq
    exact ⟨inner, split'⟩

/-- A separator does not stand directly inside a pair of brackets. -/
theorem Over.inside_of_separator {pending below : List Token} (h : Over base yard framed)
    (follows : yard.Follows read) (encloses : Encloses base opening outer count counts)
    (split : framed.operators = pending ++ below) (all : ∀ t ∈ pending, isPending t = true)
    (stands : Stands [.lambda] below) :
    openAfter read ≠ [] ∧ ∃ inner, yard.operators = pending ++ inner ∧ Stands [.lambda] inner := by
  obtain ⟨inner, split', rfl⟩ :=
    h.cut encloses.operators encloses.not_isPending split all stands.not_isPending
  cases inner with
  | nil =>
    obtain ⟨delimiter, opens, other⟩ := encloses.opens
    obtain ⟨d, mem, opens'⟩ := stands opening (by rw [encloses.operators]; rfl)
    rw [List.mem_singleton.1 mem, opens, Option.some.injEq] at opens'
    exact absurd opens' other
  | cons top inner =>
    obtain ⟨d, mem, opens⟩ := stands top rfl
    refine ⟨?_, top :: inner, split', stands⟩
    rw [follows.tail split' all opens]
    exact List.cons_ne_nil _ _

/-- What is read inside a pair of brackets, its dividing commas apart, can be read alone. -/
theorem Over.exists_reads {move' : Move} (h : Over base yard framed) (follows : yard.Follows read)
    (encloses : Encloses base opening outer count counts)
    (divider : ¬ isDivider (openAfter read) token = true)
    (closes : token.kind.closes? ≠ none → openAfter read ≠ []) (reads : framed.Reads token move') :
    ∃ move, yard.Reads token move := by
  cases reads with
  | data data => exact ⟨_, .data data⟩
  | blank kind => exact ⟨_, .blank kind⟩
  | other kind => exact ⟨_, .other kind⟩
  | operator kind => exact ⟨_, .operator kind⟩
  | unary kind => exact ⟨_, .unary kind⟩
  | parenOpen kind => exact ⟨_, .parenOpen kind⟩
  | bracketOpen gathering kind => exact ⟨_, .bracketOpen gathering kind⟩
  | lambdaOpen kind => exact ⟨_, .lambdaOpen kind⟩
  | separator kind split all stands =>
    obtain ⟨-, inner, split', stands'⟩ := h.inside_of_separator follows encloses split all stands
    exact ⟨_, .separator kind split' all stands'⟩
  | @comma pending below _ _ kind last _ split all stands =>
    have open_ : yard.counts ≠ [] := fun closed => divider (follows.isDivider_iff.2 ⟨kind, closed⟩)
    obtain ⟨count', counts', eq⟩ := List.exists_cons_of_ne_nil open_
    obtain ⟨inner, split', rfl⟩ :=
      h.cut encloses.operators encloses.not_isPending split all stands.not_isPending
    obtain ⟨top, inner, rfl⟩ := List.exists_cons_of_ne_nil (follows.below_ne_nil eq split' all)
    rw [h.last open_] at last
    exact ⟨_, .comma kind last eq split' all stands⟩
  | parenClose kind split all opens =>
    have inside := closes (by rw [kind]; exact nofun)
    obtain ⟨inner, split'⟩ := h.cut_inside follows encloses inside split all opens
    exact ⟨_, .parenClose kind split' all opens⟩
  | lambdaClose kind split all opens =>
    have inside := closes (by rw [kind]; exact nofun)
    obtain ⟨inner, split'⟩ := h.cut_inside follows encloses inside split all opens
    exact ⟨_, .lambdaClose kind split' all opens⟩
  | bracketClose gathering kind last split all opens =>
    have inside := closes (by rw [kind]; cases gathering <;> exact nofun)
    obtain ⟨inner, split'⟩ := h.cut_inside follows encloses inside split all opens
    rw [h.last (follows.counts_ne_nil gathering split' all opens)] at last
    exact ⟨_, .bracketClose gathering kind last split' all opens⟩

/-- It is read above the opening side as it is read alone. -/
theorem Over.reads_inside {move' : Move} (h : Over base yard framed) (follows : yard.Follows read)
    (encloses : Encloses base opening outer count counts)
    (divider : ¬ isDivider (openAfter read) token = true)
    (closes : token.kind.closes? ≠ none → openAfter read ≠ []) (reads : framed.Reads token move') :
    ∃ move, yard.Reads token move ∧
      Move.Over base { move with yard := move.yard.remember token.kind }
        { move' with yard := move'.yard.remember token.kind } := by
  have bears (closed : openAfter read = []) : Bears base token := by
    constructor
    · intro kind
      cases reads with
      | separator _ split all stands =>
        exact absurd closed (h.inside_of_separator follows encloses split all stands).1
      | data data => rw [kind] at data; cases data
      | bracketOpen gathering kind' | bracketClose gathering kind' =>
        rw [kind] at kind'
        cases gathering <;> cases kind'
      | _ => simp_all
    · intro _ binding _ top mem yields
      rw [encloses.operators] at mem
      cases mem
      exact encloses.not_isPending (isPending_of_yields yields)
  obtain ⟨move, reads'⟩ := h.exists_reads follows encloses divider closes reads
  obtain ⟨framedMove, framedReads, stacked⟩ := h.reads follows bears reads'
  obtain rfl : move' = framedMove := by
    rw [← Except.ok.injEq (ε := SyntaxError), ← reads.read_eq, framedReads.read_eq]
  exact ⟨move, reads', stacked⟩

/-- A token inside a pair of brackets is read above the opening side as it is read alone, among
statements. A dividing comma is counted. -/
theorem Over.reads_element {move' : Move} (h : Over base yard framed) (follows : yard.Follows read)
    (encloses : Encloses base opening outer count counts)
    (closes : token.kind.closes? ≠ none → openAfter read ≠ []) (reads : framed.Reads token move') :
    ∃ move, yard.Reads (asStatement (openAfter read) token) move ∧
      Move.Over
        { base with counts := (count + if isDivider (openAfter read) token then 1 else 0) :: counts }
        { move with yard := move.yard.remember (asStatement (openAfter read) token).kind }
        { move' with yard := move'.yard.remember token.kind } := by
  by_cases divider : isDivider (openAfter read) token = true
  · rw [asStatement, if_pos divider, if_pos divider]
    exact h.reads_divider follows encloses divider reads
  · rw [asStatement, if_neg divider, if_neg divider, Nat.add_zero, ← encloses.counts]
    exact h.reads_inside follows encloses divider closes reads

end Inside

/-- The tokens inside a pair of brackets are read alone, among statements, as they are read above the
opening side. The counter of the pair goes up by one for each comma that divides its elements. -/
theorem Runs.inside {base yard framed : Yard} {opening : Token} {outer read tokens : List Token}
    {count : Nat} {counts : List Nat} {move' : Move} (h : Over base yard framed)
    (follows : yard.Follows read) (encloses : Encloses base opening outer count counts)
    (closing : Closing (openAfter read) tokens) (run : framed.Runs tokens move') :
    ∃ move, yard.Runs (asStatements (openAfter read) tokens) move ∧
      Move.Over { base with counts := (count + dividers (openAfter read) tokens) :: counts } move
        move' := by
  induction run generalizing base yard read count with
  | nil =>
    refine ⟨_, .nil _, ⟨h.operators, ?_, h.last⟩, rfl, rfl⟩
    rw [h.counts, encloses.counts]
    rfl
  | @cons framed token tokens first rest step _ ih =>
    obtain ⟨reading', reads', rfl⟩ := step_eq_ok_iff.1 step
    obtain ⟨head, tail⟩ := closing_cons_iff.1 closing
    have closes (ne : token.kind.closes? ≠ none) : openAfter read ≠ [] := by
      obtain ⟨delimiter, eq⟩ := Option.ne_none_iff_exists'.1 ne
      obtain ⟨top, mem, -⟩ := head delimiter eq
      intro empty
      rw [empty] at mem
      cases mem
    obtain ⟨reading, reads, stacked⟩ := h.reads_element follows encloses closes reads'
    have next : openAfter (read ++ [asStatement (openAfter read) token]) =
        openNext (openAfter read) token := by
      rw [openAfter_concat, openNext_asStatement]
    rw [← next] at tail
    obtain ⟨more, runs, stacked'⟩ := ih stacked.yard (follows.reads reads).2
      ⟨encloses.operators, rfl, encloses.bracket⟩ tail
    rw [next, Nat.add_assoc] at stacked'
    rw [next] at runs
    refine ⟨_, .cons (step_eq_ok_iff.2 ⟨reading, reads, rfl⟩) runs, stacked'.yard, ?_, ?_⟩
    · rw [stacked.items, stacked'.items]
    · rw [stacked.diagnostics, stacked'.diagnostics]

end Yard

/-! ## Markers -/

/-- A delimiter is open behind tokens the last significant one of which opens it. -/
theorem openAfter_ne_nil {tokens : List Token} {delimiter : Delimiter}
    (h : lastSignificant tokens = some delimiter.opener) : openAfter tokens ≠ [] := by
  -- The induction takes tokens off the end, where blanks and separators open and close nothing.
  induction length : tokens.length generalizing tokens with
  | zero =>
    rw [List.length_eq_zero_iff.1 length] at h
    cases h
  | succ n ih =>
    obtain rfl | ⟨tokens, token, rfl⟩ := List.eq_nil_or_concat tokens
    · cases length
    rw [List.concat_eq_append, List.length_append, List.length_singleton] at length
    rw [List.concat_eq_append, lastSignificant_concat] at h
    rw [List.concat_eq_append, openAfter_concat]
    cases significant : token.kind.isSignificant with
    | true =>
      rw [significant, if_pos rfl] at h
      rw [openNext_of_opens (Kind.opens?_eq_some_iff.2 (Option.some.inj h))]
      exact List.cons_ne_nil _ _
    | false =>
      rw [significant, if_neg Bool.false_ne_true] at h
      have plain : token.kind.opens? = none ∧ token.kind.closes? = none := by
        cases kind : token.kind <;> simp_all [Kind.isSignificant, Kind.opens?, Kind.closes?]
      rw [openNext_of_plain plain.1 plain.2]
      exact ih h (Nat.succ.inj length)

/-- What a closing bracket counts: the elements that were written. -/
theorem count_eq_elementCount {before inner : List Token} {opening : Token} {gathering : Gathering}
    (opener : opening.kind = gathering.delimiter.opener) (nested : Nested inner) :
    (if lastSignificant (before ++ opening :: inner) = some gathering.delimiter.opener then 0
      else 1 + dividers [] inner) = elementCount inner := by
  have significant : opening.kind.isSignificant = true := by rw [opener]; cases gathering <;> rfl
  have last : lastSignificant (before ++ opening :: inner) =
      (lastSignificant inner).or (some opening.kind) := by
    rw [List.append_cons, lastSignificant_append, lastSignificant_concat, if_pos significant]
  rw [last, elementCount]
  cases inside : lastSignificant inner with
  | none =>
    rw [lastSignificant_eq_none_iff.1 inside, opener]
    simp
  | some kind =>
    have some_ : (inner.any fun token => token.kind.isSignificant) = true := by
      rw [← Bool.not_eq_false, ← lastSignificant_eq_none_iff, inside]
      exact nofun
    have other : some kind ≠ some gathering.delimiter.opener := by
      intro eq
      rw [← inside] at eq
      exact openAfter_ne_nil eq (nested_iff.1 nested).2
    rw [some_, Option.some_or, if_neg other, if_pos rfl, Nat.add_comm]

/-- Reading the opening side of a pair of brackets. -/
theorem Yard.step_opening {yard : Yard} {opening : Token} {gathering : Gathering} {move : Move}
    (opener : opening.kind = gathering.delimiter.opener) (step : yard.step opening = .ok move) :
    move = ⟨⟨opening :: yard.operators, 1 :: yard.counts, some opening.kind⟩, [], []⟩ := by
  have significant : opening.kind.isSignificant = true := by rw [opener]; cases gathering <;> rfl
  have reads : yard.Reads opening _ := .bracketOpen gathering opener
  have expected := step_eq_ok_iff.2 ⟨_, reads, rfl⟩
  rw [step] at expected
  cases expected
  simp [remember, significant]

/-- Reading the closing side, with the pending operators above the opening one. -/
theorem Yard.step_closing {yard : Yard} {closing opening : Token} {pending outer : List Token}
    {gathering : Gathering} {move : Move} (closer : closing.kind = gathering.closer)
    (split : yard.operators = pending ++ opening :: outer) (all : ∀ t ∈ pending, isPending t = true)
    (opener : opening.kind = gathering.delimiter.opener) (step : yard.step closing = .ok move) :
    move.items = pending.map .token ++ [.arity gathering
      (if yard.last = some gathering.delimiter.opener then 0 else yard.counts.headD 0)] := by
  obtain ⟨read, reads, rfl⟩ := step_eq_ok_iff.1 step
  have closed := reads.read_eq
  rw [read_of_closer closer, closeBracket_eq_ok_iff] at closed
  obtain ⟨-, items, outer', closed, rfl⟩ := closed
  have expected : close gathering.delimiter closing yard.operators = .ok (pending.map .token, outer) :=
    close_eq_ok_iff.2 ⟨pending, opening, split, all, Kind.opens?_eq_some_iff.2 opener, rfl⟩
  rw [expected] at closed
  cases closed
  rfl

/-- What a pair of brackets lets leave: the postfix form of its elements, taken for statements, and a
marker with their number. -/
theorem Yard.Runs.pair {yard : Yard} {read inner : List Token} {opening closing : Token}
    {gathering : Gathering} {move : Move} (follows : yard.Follows read)
    (opener : opening.kind = gathering.delimiter.opener) (closer : closing.kind = gathering.closer)
    (nested : Nested inner) (run : yard.Runs (opening :: (inner ++ [closing])) move) :
    ∃ shunted, Postfix.ofTokens (asStatements [] inner) = .ok shunted ∧
      move.items = shunted.items ++ [.arity gathering (elementCount inner)] := by
  obtain ⟨closes, closed⟩ := nested_iff.1 nested
  cases run with
  | @cons _ _ _ first rest stepOpening run =>
  obtain rfl := step_opening opener stepOpening
  obtain ⟨inside, final, runInside, runClosing, rfl⟩ := run.of_append
  -- Alone, the tokens inside leave only operators waiting, which the closing side lets leave.
  have encloses : Encloses ⟨opening :: yard.operators, 1 :: yard.counts, some opening.kind⟩ opening
      yard.operators 1 yard.counts :=
    ⟨rfl, rfl, by rw [isBracket, opener]; cases gathering <;> rfl⟩
  obtain ⟨alone, runAlone, stacked⟩ := runInside.inside (.empty _) .empty encloses closes
  obtain ⟨pending, counts⟩ := (Follows.empty.runs runAlone).pending_of_closed
    ((foldl_openNext_asStatements [] inner).trans closed)
  have last := (follows.runs (.cons stepOpening runInside)).last
  have count : inside.yard.counts = (1 + dividers [] inner) :: yard.counts := by
    rw [stacked.yard.counts, counts]
    rfl
  refine ⟨_, Postfix.ofTokens_eq_ok_iff_runs.2 ⟨_, runAlone, pending, rfl⟩, ?_⟩
  cases runClosing with
  | cons stepClosing done =>
  cases done
  rw [step_closing closer stacked.yard.operators pending opener stepClosing, last, count, List.headD_cons,
    count_eq_elementCount opener nested, stacked.items]
  simp

/-- A pair of brackets in a list of tokens with a postfix form: what leaves between reading the
opening side and the marker of the pair is the postfix form of the elements, taken for statements,
and the marker holds how many elements are written. So the marker tells how many trees its brackets
hold exactly when the elements are a program of as many statements. -/
theorem arity_eq_length_iff {before inner after : List Token} {opening closing : Token}
    {gathering : Gathering} {result : Postfix}
    (shunts : Postfix.ofTokens (before ++ opening :: (inner ++ closing :: after)) = .ok result)
    (opener : opening.kind = gathering.delimiter.opener) (closer : closing.kind = gathering.closer)
    (nested : Nested inner) :
    ∃ front slice back, emitted (before ++ [opening]) = .ok front ∧
      emitted (before ++ opening :: (inner ++ [closing])) =
        .ok (front ++ slice ++ [.arity gathering (elementCount inner)]) ∧
      result.items = front ++ slice ++ .arity gathering (elementCount inner) :: back ∧
      ((∃ forest, Forest.ofItems slice = .ok forest ∧ forest.trees.length = elementCount inner) ↔
        ∃ trees, HasStatements (asStatements [] inner) trees ∧ trees.length = elementCount inner) := by
  obtain ⟨move, items, below, runs, flush, rfl⟩ := Postfix.ofTokens_eq_ok_iff.1 shunts
  have split : before ++ opening :: (inner ++ closing :: after) =
      before ++ (opening :: (inner ++ [closing]) ++ after) := by simp
  rw [split] at runs
  obtain ⟨first, rest, runBefore, runsBehind, rfl⟩ := runs.of_append
  obtain ⟨pair, last, runPair, runAfter, rfl⟩ := runsBehind.of_append
  have follows := Yard.Follows.empty.runs runBefore
  obtain ⟨shunted, alone, eq⟩ := runPair.pair follows opener closer nested
  refine ⟨first.items, shunted.items, last.items ++ items, ?_, ?_, ?_, ?_⟩
  · have reads : first.yard.Reads opening _ := .bracketOpen gathering opener
    have runOpening := Yard.Runs.singleton (Yard.step_eq_ok_iff.2 ⟨_, reads, rfl⟩)
    exact Yard.emitted_eq_ok_iff.2 ⟨_, runBefore.append runOpening, (List.append_nil _).symm⟩
  · refine Yard.emitted_eq_ok_iff.2 ⟨_, runBefore.append runPair, ?_⟩
    rw [eq, List.append_assoc]
  · simp [eq]
  · constructor
    · rintro ⟨forest, builds, length⟩
      exact ⟨_, ⟨shunted, forest, alone, builds, rfl⟩, length⟩
    · rintro ⟨trees, ⟨shunted', forest, alone', builds, rfl⟩, length⟩
      rw [alone] at alone'
      cases alone'
      exact ⟨forest, builds, length⟩

/-- In `f[1, -x]` the marker counts the two arguments. -/
theorem arity_eq_length_iff_two_arguments :
    let f : Token := ⟨.word, "f", 0⟩
    let opening : Token := ⟨.callOpen, "[", 1⟩
    let inner : List Token := [⟨.number, "1", 2⟩, ⟨.comma, ",", 3⟩, ⟨.whitespace, " ", 4⟩,
      ⟨.unaryOperator, "-", 5⟩, ⟨.word, "x", 6⟩]
    let closing : Token := ⟨.callClose, "]", 7⟩
    ∃ front slice, emitted [f, opening] = .ok front ∧
      emitted (f :: opening :: (inner ++ [closing])) = .ok (front ++ slice ++ [.arity .call 2]) ∧
      ∃ forest, Forest.ofItems slice = .ok forest ∧ forest.trees.length = 2 := by
  intro f opening inner closing
  have shunts : ∃ result, Postfix.ofTokens ([f] ++ opening :: (inner ++ closing :: [])) = .ok result :=
    ⟨_, rfl⟩
  obtain ⟨result, shunts⟩ := shunts
  have nested : Nested inner := .plain rfl rfl (.plain rfl rfl (.plain rfl rfl (.plain rfl rfl
    (.plain rfl rfl .nil))))
  have statements : HasStatements (asStatements [] inner)
      [.leaf ⟨.number, "1", 2⟩, .unary ⟨.unaryOperator, "-", 5⟩ [.leaf ⟨.word, "x", 6⟩]] :=
    ⟨_, _, rfl, rfl, rfl⟩
  have opener : opening.kind = Gathering.call.delimiter.opener := rfl
  obtain ⟨front, slice, -, first, second, -, truthful⟩ := arity_eq_length_iff shunts opener rfl nested
  exact ⟨front, slice, first, second, truthful.2 ⟨_, statements, rfl⟩⟩

/-- In `a; f[()]` nothing leaves between the brackets, and still the marker counts an element. The
call takes `f` for it, and `a` for what is called. -/
theorem arity_ne_length_of_empty_group :
    let a : Token := ⟨.word, "a", 0⟩
    let f : Token := ⟨.word, "f", 3⟩
    let before : List Token := [a, ⟨.separator, ";", 1⟩, ⟨.whitespace, " ", 2⟩, f]
    let opening : Token := ⟨.callOpen, "[", 4⟩
    let inner : List Token := [⟨.parenOpen, "(", 5⟩, ⟨.parenClose, ")", 6⟩]
    let closing : Token := ⟨.callClose, "]", 7⟩
    tokenize "a; f[()]" = before ++ opening :: (inner ++ [closing]) ∧ Nested inner ∧
      HasStatements (tokenize "a; f[()]") [.call (.leaf a) [.leaf f]] ∧
      emitted (before ++ [opening]) = .ok [.token a, .token f] ∧
      emitted (before ++ opening :: (inner ++ [closing])) =
        .ok ([.token a, .token f] ++ [] ++ [.arity .call 1]) ∧
      ∀ forest, Forest.ofItems [] = .ok forest → forest.trees.length ≠ 1 := by
  intro a f before opening inner closing
  have tokens : tokenize "a; f[()]" = before ++ opening :: (inner ++ [closing]) := by decide +kernel
  have nested : Nested inner := .pair rfl rfl .nil .nil
  refine ⟨tokens, nested, ?_, rfl, rfl, ?_⟩
  · rw [tokens]
    exact ⟨_, _, rfl, rfl, rfl⟩
  · rintro forest ⟨⟩
    exact nofun

end ExprCompiler
