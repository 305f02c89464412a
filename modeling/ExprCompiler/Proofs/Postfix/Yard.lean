import ExprCompiler.Postfix.Yard
import ExprCompiler.Proofs.Run

/-!
# What the yard does

What every proof about the yard needs of it, so that none of them opens its definitions:

* `Yard.flush_eq_ok_iff`, `Yard.flush_eq_error_iff`, `Yard.close_eq_ok_iff`,
  `Yard.close_eq_error_iff`: flushing and closing, with the waiting operators cut at the innermost
  open delimiter;
* `Yard.Reads`, `Yard.Reads.of_read`, `Yard.Reads.read_eq`: everything that reading a token can do;
* `Yard.Runs`, `Shunting.run_iff`: reading a list of tokens, with all that leaves the yard.
-/

namespace ExprCompiler

/-- The kind that opens a pair. -/
def Delimiter.opener : Delimiter → Kind
  | paren => .parenOpen
  | call => .callOpen
  | array => .arrayOpen
  | lambda => .lambdaOpen

theorem Kind.opens?_eq_some_iff {kind : Kind} {delimiter : Delimiter} :
    kind.opens? = some delimiter ↔ kind = delimiter.opener := by
  cases kind <;> cases delimiter <;> decide

namespace Gathering

/-- The pair of brackets around what is gathered. -/
def delimiter : Gathering → Delimiter
  | call => .call
  | array => .array

/-- The kind that closes that pair. -/
def closer : Gathering → Kind
  | call => .callClose
  | array => .arrayClose

end Gathering

namespace Yard

/-! ## Flushing and closing -/

/-- The innermost open delimiter of a yard whose waiting operators have left, if there is one, is
one of `within`. -/
def Stands (within : List Delimiter) (below : List Token) : Prop :=
  ∀ top ∈ below.head?, ∃ delimiter ∈ within, top.kind.opens? = some delimiter

theorem not_isPending_iff {token : Token} :
    ¬ isPending token = true ↔ ∃ delimiter, token.kind.opens? = some delimiter := by
  cases h : token.kind.opens? <;> simp [isPending, h]

theorem Stands.not_isPending {within : List Delimiter} {below : List Token}
    (h : Stands within below) : ∀ top ∈ below.head?, ¬ isPending top = true := by
  intro top ht
  obtain ⟨delimiter, -, opens⟩ := h top ht
  exact not_isPending_iff.2 ⟨delimiter, opens⟩

/-- An open delimiter that is none of `within` is reported where the cut stands. -/
theorem unclosed?_eq_none_iff {within : List Delimiter} {below : List Token}
    (stop : ∀ top ∈ below.head?, ¬ isPending top = true) :
    unclosed? within below = none ↔ Stands within below := by
  cases below with
  | nil => exact ⟨fun _ => nofun, fun _ => rfl⟩
  | cons top below =>
    obtain ⟨delimiter, opens⟩ := not_isPending_iff.1 (stop top rfl)
    by_cases mem : delimiter ∈ within <;> simp [unclosed?, Stands, opens, mem]

theorem unclosed?_eq_some_iff {within : List Delimiter} {below : List Token} {error : SyntaxError} :
    unclosed? within below = some error ↔ ∃ top ∈ below.head?, ∃ delimiter, delimiter ∉ within ∧
      top.kind.opens? = some delimiter ∧ error = ⟨.unclosed delimiter.closing, some top.offset⟩ := by
  cases below with
  | nil => exact ⟨nofun, fun ⟨_, h, _⟩ => nomatch h⟩
  | cons top below =>
    cases opens : top.kind.opens? with
    | none => simp [unclosed?, opens]
    | some delimiter =>
      simp only [unclosed?, List.head?_cons, Option.bind_some, opens, Option.mem_def,
        Option.some.injEq, exists_eq_left']
      by_cases mem : delimiter ∈ within
      · rw [if_pos mem]
        exact ⟨nofun, fun ⟨_, not, rfl, _⟩ => absurd mem not⟩
      · rw [if_neg mem, Option.some.injEq]
        exact ⟨fun h => ⟨_, mem, rfl, h.symm⟩, fun ⟨_, _, eq, h⟩ => by rw [eq, h]⟩

/-- The operators, cut at the innermost open delimiter. -/
theorem exists_cut (operators : List Token) : ∃ pending below, operators = pending ++ below ∧
    (∀ t ∈ pending, isPending t = true) ∧ ∀ top ∈ below.head?, ¬ isPending top = true := by
  refine ⟨operators.takeWhile isPending, operators.dropWhile isPending,
    List.takeWhile_append_dropWhile.symm, ?_, ?_⟩
  · intro t ht
    exact List.all_eq_true.1 List.all_takeWhile t ht
  · intro top ht
    have h := List.head?_dropWhile_not isPending operators
    rw [Option.mem_def.1 ht] at h
    simpa using h

/-- Flushing lets what is pending leave, up to an open delimiter that may stand there. -/
theorem flush_eq_ok_iff {within : List Delimiter} {operators below : List Token}
    {items : List Item} :
    flush within operators = .ok (items, below) ↔ ∃ pending, operators = pending ++ below ∧
      (∀ t ∈ pending, isPending t = true) ∧ Stands within below ∧ items = pending.map .token := by
  obtain ⟨pending, below', rfl, all, stop⟩ := exists_cut operators
  have cut := Run.span_append all stop
  simp only [flush, cut]
  constructor
  · intro h
    split at h
    · cases h
    · rename_i stands
      cases h
      exact ⟨pending, rfl, all, (unclosed?_eq_none_iff stop).1 stands, rfl⟩
  · rintro ⟨pending', eq, all', stands, rfl⟩
    have cut' := Run.span_append all' stands.not_isPending
    rw [← eq] at cut'
    obtain rfl : pending = pending' := cut.1.symm.trans cut'.1
    obtain rfl : below' = below := cut.2.symm.trans cut'.2
    rw [(unclosed?_eq_none_iff stop).2 stands]

/-- Flushing fails at an open delimiter that may not stand there. -/
theorem flush_eq_error_iff {within : List Delimiter} {pending below : List Token}
    {error : SyntaxError} (all : ∀ t ∈ pending, isPending t = true)
    (stop : ∀ top ∈ below.head?, ¬ isPending top = true) :
    flush within (pending ++ below) = .error error ↔ ∃ top ∈ below.head?, ∃ delimiter,
      delimiter ∉ within ∧ top.kind.opens? = some delimiter ∧
        error = ⟨.unclosed delimiter.closing, some top.offset⟩ := by
  rw [← unclosed?_eq_some_iff]
  simp only [flush, Run.span_append all stop]
  split
  · rename_i e found
    rw [found, Option.some.injEq, Except.error.injEq]
  · rename_i none
    rw [none]
    exact ⟨nofun, nofun⟩

/-- Closing takes away the innermost open delimiter, which is of the pair closed. -/
theorem close_eq_ok_iff {delimiter : Delimiter} {closing : Token} {operators outer : List Token}
    {items : List Item} :
    close delimiter closing operators = .ok (items, outer) ↔ ∃ pending top,
      operators = pending ++ top :: outer ∧ (∀ t ∈ pending, isPending t = true) ∧
        top.kind.opens? = some delimiter ∧ items = pending.map .token := by
  rw [close, Run.bind_eq_ok_iff]
  constructor
  · rintro ⟨⟨items', below⟩, flushed, closed⟩
    obtain ⟨pending, rfl, all, stands, rfl⟩ := flush_eq_ok_iff.1 flushed
    cases below with
    | nil => cases closed
    | cons top below =>
      cases closed
      obtain ⟨d, mem, opens⟩ := stands top rfl
      rw [List.mem_singleton.1 mem] at opens
      exact ⟨pending, top, rfl, all, opens, rfl⟩
  · rintro ⟨pending, top, rfl, all, opens, rfl⟩
    refine ⟨(pending.map .token, top :: outer), flush_eq_ok_iff.2 ⟨pending, rfl, all, ?_, rfl⟩, rfl⟩
    rintro _ ⟨⟩
    exact ⟨delimiter, List.mem_singleton_self _, opens⟩

/-- Closing fails at an innermost open delimiter of another pair, or where nothing is open. -/
theorem close_eq_error_iff {delimiter : Delimiter} {closing : Token} {pending below : List Token}
    {error : SyntaxError} (all : ∀ t ∈ pending, isPending t = true)
    (stop : ∀ top ∈ below.head?, ¬ isPending top = true) :
    close delimiter closing (pending ++ below) = .error error ↔
      (∃ top ∈ below.head?, ∃ d, d ≠ delimiter ∧ top.kind.opens? = some d ∧
        error = ⟨.unclosed d.closing, some top.offset⟩) ∨
      below = [] ∧ error = ⟨.unopened delimiter.opening closing.text, some closing.offset⟩ := by
  rw [close, Run.bind_eq_error_iff, flush_eq_error_iff all stop]
  simp only [List.mem_singleton]
  refine or_congr_right ⟨?_, ?_⟩
  · rintro ⟨⟨items, below'⟩, flushed, failed⟩
    obtain ⟨pending', eq, all', stands, -⟩ := flush_eq_ok_iff.1 flushed
    cases below' with
    | nil =>
      cases failed
      have cut := Run.span_append all stop
      rw [eq] at cut
      exact ⟨cut.2.symm.trans (Run.span_append all' stands.not_isPending).2, rfl⟩
    | cons top below' => cases failed
  · rintro ⟨rfl, rfl⟩
    exact ⟨(pending.map .token, []), flush_eq_ok_iff.2 ⟨pending, rfl, all, nofun, rfl⟩, rfl⟩

/-- Only operators yield to an operator. -/
theorem isPending_of_yields {level : Nat} {token : Token} (h : yields level token = true) :
    isPending token = true := by
  cases kind : token.kind <;> simp [yields, Token.binding?, isPending, Kind.opens?, kind] at h ⊢

/-! ## What one token does -/

/-- Everything that reading a token can do, the memory of its kind apart. -/
inductive Reads (yard : Yard) (token : Token) : Move → Prop
  | data : token.kind.isData = true → Reads yard token { yard, items := [.token token] }
  | blank : token.kind = .whitespace → Reads yard token { yard }
  | other : token.kind = .other →
      Reads yard token { yard, diagnostics :=
        [⟨.shunt, "Unhandled token type " ++ token.kind.name ++ " (" ++ Text.quoted token.text ++ ")",
          some token.offset⟩] }
  | operator : token.kind = .operator → Reads yard token (yard.addOperator token)
  | unary : token.kind = .unaryOperator →
      Reads yard token { yard := { yard with operators := token :: yard.operators } }
  | separator {pending below : List Token} : token.kind = .separator →
      yard.operators = pending ++ below → (∀ t ∈ pending, isPending t = true) →
      Stands [.lambda] below →
      Reads yard token { yard := { yard with operators := below }, items := pending.map .token }
  | comma {pending below : List Token} {count : Nat} {counts : List Nat} : token.kind = .comma →
      (yard.last ≠ some .comma ∧ yard.last ≠ some .callOpen ∧ yard.last ≠ some .arrayOpen) →
      yard.counts = count :: counts → yard.operators = pending ++ below →
      (∀ t ∈ pending, isPending t = true) → Stands [.lambda, .array, .call] below →
      Reads yard token { yard := { yard with operators := below, counts := (count + 1) :: counts },
                         items := pending.map .token }
  | parenOpen : token.kind = .parenOpen →
      Reads yard token { yard := { yard with operators := token :: yard.operators } }
  | bracketOpen (gathering : Gathering) : token.kind = gathering.delimiter.opener →
      Reads yard token
        { yard := { yard with operators := token :: yard.operators, counts := 1 :: yard.counts } }
  | lambdaOpen : token.kind = .lambdaOpen →
      Reads yard token
        { yard := { yard with operators := token :: yard.operators }, items := [.token token] }
  | parenClose {pending outer : List Token} {top : Token} : token.kind = .parenClose →
      yard.operators = pending ++ top :: outer → (∀ t ∈ pending, isPending t = true) →
      top.kind.opens? = some .paren →
      Reads yard token { yard := { yard with operators := outer }, items := pending.map .token }
  | bracketClose (gathering : Gathering) {pending outer : List Token} {top : Token} :
      token.kind = gathering.closer → yard.last ≠ some .comma →
      yard.operators = pending ++ top :: outer → (∀ t ∈ pending, isPending t = true) →
      top.kind.opens? = some gathering.delimiter →
      Reads yard token
        { yard := { yard with operators := outer, counts := yard.counts.tail },
          items := pending.map .token ++ [.arity gathering
            (if yard.last = some gathering.delimiter.opener then 0 else yard.counts.headD 0)] }
  | lambdaClose {pending outer : List Token} {top : Token} : token.kind = .lambdaClose →
      yard.operators = pending ++ top :: outer → (∀ t ∈ pending, isPending t = true) →
      top.kind.opens? = some .lambda →
      Reads yard token { yard := { yard with operators := outer },
                         items := pending.map .token ++ [.token token] }

/-- A comma that is read follows an element of an open call or array. -/
theorem addComma_eq_ok_iff {yard : Yard} {token : Token} {move : Move} :
    yard.addComma token = .ok move ↔
      (yard.last ≠ some .comma ∧ yard.last ≠ some .callOpen ∧ yard.last ≠ some .arrayOpen) ∧
      ∃ count counts items below, yard.counts = count :: counts ∧
        flush [.lambda, .array, .call] yard.operators = .ok (items, below) ∧
        move = { yard := { yard with operators := below, counts := (count + 1) :: counts }, items } := by
  rw [addComma]
  split
  · rename_i bad
    refine ⟨nofun, fun ⟨⟨h₁, h₂, h₃⟩, _⟩ => ?_⟩
    rcases bad with h | h | h
    · exact absurd h h₁
    · exact absurd h h₂
    · exact absurd h h₃
  · rename_i good
    simp only [not_or] at good
    refine Iff.trans ?_ (and_iff_right good).symm
    split
    · rename_i none
      refine ⟨nofun, fun ⟨_, _, _, _, counts, _⟩ => ?_⟩
      rw [none] at counts
      cases counts
    · rename_i count counts eq
      rw [Run.bind_eq_ok_iff]
      constructor
      · rintro ⟨⟨items, below⟩, flushed, moved⟩
        cases moved
        exact ⟨count, counts, items, below, eq, flushed, rfl⟩
      · rintro ⟨_, _, items, below, eq', flushed, rfl⟩
        rw [eq] at eq'
        cases eq'
        exact ⟨(items, below), flushed, rfl⟩

/-- A closing bracket that is read follows no comma, and closes its opening side. -/
theorem closeBracket_eq_ok_iff {yard : Yard} {token : Token} {delimiter : Delimiter} {opener : Kind}
    {gathering : Gathering} {move : Move} :
    yard.closeBracket token delimiter opener gathering = .ok move ↔ yard.last ≠ some .comma ∧
      ∃ items outer, close delimiter token yard.operators = .ok (items, outer) ∧
        move = { yard := { yard with operators := outer, counts := yard.counts.tail },
                 items := items ++
                   [.arity gathering (if yard.last = some opener then 0 else yard.counts.headD 0)] } := by
  rw [closeBracket]
  split
  · rename_i comma
    exact ⟨nofun, fun ⟨h, _⟩ => absurd comma h⟩
  · rename_i good
    rw [Run.bind_eq_ok_iff]
    constructor
    · rintro ⟨⟨items, outer⟩, closed, moved⟩
      cases moved
      exact ⟨good, items, outer, closed, rfl⟩
    · rintro ⟨-, items, outer, closed, rfl⟩
      exact ⟨(items, outer), closed, rfl⟩

/-- Both closing brackets are read alike. -/
theorem read_of_closer {yard : Yard} {token : Token} {gathering : Gathering}
    (kind : token.kind = gathering.closer) :
    yard.read token =
      yard.closeBracket token gathering.delimiter gathering.delimiter.opener gathering := by
  cases gathering <;> simp only [Yard.read, kind, Gathering.closer] <;> rfl

/-- A token that is read does one of these things. -/
theorem Reads.of_read {yard : Yard} {token : Token} {move : Move} (h : yard.read token = .ok move) :
    yard.Reads token move := by
  have bracket (gathering : Gathering) (kind : token.kind = gathering.closer) :
      yard.Reads token move := by
    rw [read_of_closer kind] at h
    obtain ⟨last, items, outer, closed, rfl⟩ := closeBracket_eq_ok_iff.1 h
    obtain ⟨pending, top, split, all, opens, rfl⟩ := close_eq_ok_iff.1 closed
    exact .bracketClose gathering kind last split all opens
  cases kind : token.kind <;> simp only [Yard.read, kind] at h
  case separator =>
    obtain ⟨⟨items, below⟩, flushed, moved⟩ := Run.bind_eq_ok_iff.1 h
    obtain ⟨pending, split, all, stands, rfl⟩ := flush_eq_ok_iff.1 flushed
    cases moved
    exact .separator kind split all stands
  case comma =>
    obtain ⟨last, count, counts, items, below, eq, flushed, rfl⟩ := addComma_eq_ok_iff.1 h
    obtain ⟨pending, split, all, stands, rfl⟩ := flush_eq_ok_iff.1 flushed
    exact .comma kind last eq split all stands
  case callClose => exact bracket .call kind
  case arrayClose => exact bracket .array kind
  case parenClose =>
    obtain ⟨⟨items, outer⟩, closed, moved⟩ := Run.bind_eq_ok_iff.1 h
    obtain ⟨pending, top, split, all, opens, rfl⟩ := close_eq_ok_iff.1 closed
    cases moved
    exact .parenClose kind split all opens
  case lambdaClose =>
    obtain ⟨⟨items, outer⟩, closed, moved⟩ := Run.bind_eq_ok_iff.1 h
    obtain ⟨pending, top, split, all, opens, rfl⟩ := close_eq_ok_iff.1 closed
    cases moved
    exact .lambdaClose kind split all opens
  case operator => cases h; exact .operator kind
  case unaryOperator => cases h; exact .unary kind
  case whitespace => cases h; exact .blank kind
  case other => cases h; rw [← kind]; exact .other kind
  case parenOpen => cases h; exact .parenOpen kind
  case callOpen => cases h; exact .bracketOpen .call kind
  case arrayOpen => cases h; exact .bracketOpen .array kind
  case lambdaOpen => cases h; exact .lambdaOpen kind
  all_goals cases h; exact .data (by rw [kind]; rfl)

/-- Each of these things is what reading the token does. -/
theorem Reads.read_eq {yard : Yard} {token : Token} {move : Move} (h : yard.Reads token move) :
    yard.read token = .ok move := by
  cases h with
  | data data =>
    cases kind : token.kind <;> simp only [kind, Kind.isData, Bool.false_eq_true] at data <;>
    simp only [Yard.read, kind]
  | separator kind split all stands =>
    simp only [Yard.read, kind]
    exact Run.bind_eq_ok_iff.2 ⟨_, flush_eq_ok_iff.2 ⟨_, split, all, stands, rfl⟩, rfl⟩
  | comma kind last counts split all stands =>
    simp only [Yard.read, kind]
    exact addComma_eq_ok_iff.2
      ⟨last, _, _, _, _, counts, flush_eq_ok_iff.2 ⟨_, split, all, stands, rfl⟩, rfl⟩
  | parenClose kind split all opens =>
    simp only [Yard.read, kind]
    exact Run.bind_eq_ok_iff.2 ⟨_, close_eq_ok_iff.2 ⟨_, _, split, all, opens, rfl⟩, rfl⟩
  | lambdaClose kind split all opens =>
    simp only [Yard.read, kind]
    exact Run.bind_eq_ok_iff.2 ⟨_, close_eq_ok_iff.2 ⟨_, _, split, all, opens, rfl⟩, rfl⟩
  | bracketClose gathering kind last split all opens =>
    rw [read_of_closer kind]
    exact closeBracket_eq_ok_iff.2
      ⟨last, _, _, close_eq_ok_iff.2 ⟨_, _, split, all, opens, rfl⟩, rfl⟩
  | bracketOpen gathering kind =>
    cases gathering <;> simp only [Yard.read, kind, Gathering.delimiter, Delimiter.opener]
  | _ => simp only [Yard.read, *]

/-! ## What a list of tokens does -/

/-- Reading one token with the memory of its kind. -/
theorem step_eq_ok_iff {yard : Yard} {token : Token} {move : Move} :
    yard.step token = .ok move ↔ ∃ read, yard.Reads token read ∧
      move = { read with yard := read.yard.remember token.kind } := by
  rw [step, Run.bind_eq_ok_iff]
  constructor
  · rintro ⟨read, h, moved⟩
    cases moved
    exact ⟨read, .of_read h, rfl⟩
  · rintro ⟨read, h, rfl⟩
    exact ⟨read, h.read_eq, rfl⟩

/-- Reading tokens one after the other: the last yard, and all that has left. -/
inductive Runs : Yard → List Token → Move → Prop
  | nil (yard : Yard) : Runs yard [] { yard }
  | cons {yard : Yard} {token : Token} {tokens : List Token} {first rest : Move} :
      yard.step token = .ok first → Runs first.yard tokens rest →
      Runs yard (token :: tokens)
        ⟨rest.yard, first.items ++ rest.items, first.diagnostics ++ rest.diagnostics⟩

theorem Runs.append {yard : Yard} {xs ys : List Token} {first rest : Move}
    (hx : Runs yard xs first) (hy : Runs first.yard ys rest) :
    Runs yard (xs ++ ys)
      ⟨rest.yard, first.items ++ rest.items, first.diagnostics ++ rest.diagnostics⟩ := by
  induction hx with
  | nil => exact hy
  | cons step _ ih =>
    simp only [List.append_assoc]
    exact .cons step (ih hy)

theorem Runs.singleton {yard : Yard} {token : Token} {move : Move}
    (h : yard.step token = .ok move) : Runs yard [token] move := by
  have run := Runs.cons h (.nil _)
  simp only [List.append_nil] at run
  exact run

end Yard

namespace Shunting

theorem append_append {α : Type} (kept : Array α) (xs ys : List α) :
    kept ++ xs ++ ys = kept ++ (xs ++ ys) :=
  Array.ext' (by simp)

/-- What has left the yard is kept, and never looked at. -/
theorem run_iff {tokens : List Token} {shunting last : Shunting} :
    tokens.foldlM step shunting = .ok last ↔ ∃ move, shunting.yard.Runs tokens move ∧
      last = ⟨move.yard, shunting.items ++ move.items, shunting.diagnostics ++ move.diagnostics⟩ := by
  induction tokens generalizing shunting with
  | nil =>
    rw [Run.nil_eq_ok_iff]
    constructor
    · rintro rfl
      exact ⟨_, .nil _, by simp⟩
    · rintro ⟨_, ⟨⟩, rfl⟩
      simp
  | cons token tokens ih =>
    rw [Run.cons_eq_ok_iff]
    constructor
    · rintro ⟨next, stepped, rest⟩
      obtain ⟨first, step, moved⟩ := Run.bind_eq_ok_iff.1 stepped
      cases moved
      obtain ⟨move, runs, rfl⟩ := ih.1 rest
      exact ⟨_, .cons step runs, by rw [append_append, append_append]⟩
    · rintro ⟨_, runs, rfl⟩
      cases runs with
      | @cons _ _ _ first rest step runs =>
        refine ⟨_, Run.bind_eq_ok_iff.2 ⟨first, step, rfl⟩, ih.2 ⟨rest, runs, ?_⟩⟩
        rw [append_append, append_append]

end Shunting

/-- A program's postfix form: what leaves while its tokens are read, then what waits at the end. -/
theorem Postfix.ofTokens_eq_ok_iff {tokens : List Token} {result : Postfix} :
    Postfix.ofTokens tokens = .ok result ↔ ∃ move items below, Yard.empty.Runs tokens move ∧
      Yard.flush [] move.yard.operators = .ok (items, below) ∧
      result = ⟨move.items ++ items, move.diagnostics⟩ := by
  rw [ofTokens, Run.bind_eq_ok_iff]
  constructor
  · rintro ⟨last, run, finished⟩
    obtain ⟨move, runs, rfl⟩ := Shunting.run_iff.1 run
    obtain ⟨⟨items, below⟩, flushed, finished⟩ := Run.bind_eq_ok_iff.1 finished
    cases finished
    exact ⟨move, items, below, runs, flushed, by simp [Shunting.initial]⟩
  · rintro ⟨move, items, below, runs, flushed, rfl⟩
    refine ⟨_, Shunting.run_iff.2 ⟨move, runs, rfl⟩, Run.bind_eq_ok_iff.2 ⟨_, flushed, ?_⟩⟩
    simp [Shunting.initial]
    rfl

end ExprCompiler
