import ExprCompiler.Proofs.Postfix.Arity
import ExprCompiler.Proofs.Postfix.RightSide

/-!
# Nothing gets lost

A postfix form holds what is written, in another order:

* `Yard.Passes`, `Yard.Reads.exists_passes`: what any token does to those that wait: some operators
  leave, an open delimiter is closed, the token leaves an item itself or comes to wait;
* `Postfix.outline_of_ofTokens`, `Postfix.perm_operators`: apart from its operators a postfix form has
  an item for each token that stands for one, in order, and its operators are those written;
* `Postfix.diagnostics_of_ofTokens`: the tokens of no known kind are reported;
* `Yard.Runs.exists_opening`: the marker of a pair of brackets holds how many elements are written.
-/

namespace ExprCompiler

/-! ## Items and the tokens they come from -/

namespace Item

/-- The item is an operator. -/
def isOperator : Item → Bool
  | .token t => t.kind.isOperator
  | .arity _ _ => false

/-- The item without the number that a marker holds. -/
def uncounted : Item → Item
  | .token t => .token t
  | .arity gathering _ => .arity gathering 0

/-- The items apart from the operators, their numbers left out. -/
def outline (items : List Item) : List Item :=
  (items.filter fun item => !item.isOperator).map uncounted

/-- The operators among the items. -/
def operators (items : List Item) : List Token :=
  (items.filterMap token?).filter fun token => token.kind.isOperator

end Item

namespace Token

/-- The item that a token other than an operator stands for, without a number: operands and the sides
of lambdas stand for themselves, closing brackets for markers. -/
def outline? (token : Token) : Option Item :=
  match token.kind with
  | .number | .string | .word | .placeholder | .lambdaOpen | .lambdaClose => some (.token token)
  | .callClose => some (.arity .call 0)
  | .arrayClose => some (.arity .array 0)
  | _ => none

/-- The token stands for an item, sooner or later. -/
def standsForItem (token : Token) : Bool :=
  token.outline?.isSome || token.kind.isOperator

/-- The token comes to wait when it is read. -/
def comesToWait (token : Token) : Bool :=
  token.kind.isOperator || token.kind.opens?.isSome

/-- The operators among the tokens. -/
def operators (tokens : List Token) : List Token :=
  tokens.filter fun token => token.kind.isOperator

/-- The report of a token of no known kind. -/
def unknown (token : Token) : Diagnostic :=
  ⟨.shunt, "Unhandled token type " ++ token.kind.name ++ " (" ++ Text.quoted token.text ++ ")",
    some token.offset⟩

theorem outline?_of_isOperator {token : Token} (h : token.kind.isOperator = true) :
    token.outline? = none := by
  cases kind : token.kind <;> simp [kind, Kind.isOperator, outline?] at h ⊢

end Token

namespace Yard

/-! ## What a token does to those that wait -/

/-- The operators of `leaving` leave, the delimiter of `closed` is closed, and what waits below stays.
Then the token itself leaves the items of `own`, or it comes to wait. -/
structure Passes (yard : Yard) (token : Token) (move : Move) (leaving closed kept : List Token)
    (own : List Item) : Prop where
  operators : yard.operators = leaving ++ (closed ++ kept)
  isOperator : ∀ t ∈ leaving, t.kind.isOperator = true
  opener : closed.map Token.kind = (token.kind.closes?.map Delimiter.opener).toList
  items : move.items = leaving.map .token ++ own
  outline : own.map Item.uncounted = token.outline?.toList
  waiting : move.yard.operators = if token.comesToWait then token :: kept else kept

/-- Pending tokens are operators. -/
theorem Waits.isOperator {pending below : List Token} (h : Waits (pending ++ below))
    (all : ∀ t ∈ pending, isPending t = true) : ∀ t ∈ pending, t.kind.isOperator = true :=
  fun t mem => h t (List.mem_append_left _ mem) (all t mem)

/-- Every token that is read passes those that wait in this way. -/
theorem Reads.exists_passes {yard : Yard} {token : Token} {move : Move} (h : yard.Reads token move)
    (waits : Waits yard.operators) :
    ∃ leaving closed kept own, yard.Passes token move leaving closed kept own := by
  cases h with
  | data data =>
    refine ⟨[], [], yard.operators, [.token token], ⟨rfl, nofun, ?_, rfl, ?_, ?_⟩⟩ <;>
    cases kind : token.kind <;> simp [kind, Kind.isData, Kind.closes?, Token.outline?, Item.uncounted,
      Token.comesToWait, Kind.isOperator, Kind.opens?] at data ⊢
  | blank kind | other kind | unary kind | parenOpen kind =>
    refine ⟨[], [], yard.operators, [], ⟨rfl, nofun, ?_, rfl, ?_, ?_⟩⟩ <;>
    simp [kind, Kind.closes?, Token.outline?, Token.comesToWait, Kind.isOperator, Kind.opens?]
  | lambdaOpen kind =>
    refine ⟨[], [], yard.operators, [.token token], ⟨rfl, nofun, ?_, rfl, ?_, ?_⟩⟩ <;>
    simp [kind, Kind.closes?, Token.outline?, Item.uncounted, Token.comesToWait, Kind.opens?]
  | bracketOpen gathering kind =>
    refine ⟨[], [], yard.operators, [], ⟨rfl, nofun, ?_, rfl, ?_, ?_⟩⟩ <;> cases gathering <;>
    simp [kind, Gathering.delimiter, Delimiter.opener, Kind.closes?, Token.outline?,
      Token.comesToWait, Kind.opens?]
  | operator kind =>
    have own : token.outline? = none ∧ token.kind.closes? = none ∧ token.comesToWait = true := by
      simp [kind, Token.outline?, Kind.closes?, Token.comesToWait, Kind.isOperator]
    simp only [addOperator]
    split
    · rename_i binding _
      have split := List.takeWhile_append_dropWhile (p := yields binding.level) (l := yard.operators)
      refine ⟨_, [], _, [], ⟨split.symm, ?_, by simp [own], (List.append_nil _).symm, by simp [own],
        by simp [own]⟩⟩
      rw [← split] at waits
      exact waits.isOperator fun t mem =>
        isPending_of_yields (List.all_eq_true.1 List.all_takeWhile t mem)
    · exact ⟨[], [], _, [], ⟨rfl, nofun, by simp [own], rfl, by simp [own], by simp [own]⟩⟩
  | @separator pending below kind split all | @comma pending below _ _ kind _ _ split all =>
    rw [split] at waits
    refine ⟨pending, [], below, [], ⟨split, waits.isOperator all, ?_, (List.append_nil _).symm, ?_, ?_⟩⟩ <;>
    simp [kind, Kind.closes?, Token.outline?, Token.comesToWait, Kind.isOperator, Kind.opens?]
  | @parenClose pending outer top kind split all opens =>
    have opener := Kind.opens?_eq_some_iff.1 opens
    rw [split] at waits
    refine ⟨pending, [top], outer, [], ⟨split, waits.isOperator all, ?_, (List.append_nil _).symm, ?_, ?_⟩⟩ <;>
    simp [kind, opener, Kind.closes?, Token.outline?, Token.comesToWait, Kind.isOperator, Kind.opens?]
  | @lambdaClose pending outer top kind split all opens =>
    have opener := Kind.opens?_eq_some_iff.1 opens
    rw [split] at waits
    refine ⟨pending, [top], outer, [.token token], ⟨split, waits.isOperator all, ?_, rfl, ?_, ?_⟩⟩ <;>
    simp [kind, opener, Kind.closes?, Token.outline?, Item.uncounted, Token.comesToWait,
      Kind.isOperator, Kind.opens?]
  | @bracketClose gathering pending outer top kind _ split all opens =>
    have opener := Kind.opens?_eq_some_iff.1 opens
    rw [split] at waits
    refine ⟨pending, [top], outer, [.arity gathering _], ⟨split, waits.isOperator all, ?_, rfl, ?_, ?_⟩⟩ <;>
    cases gathering <;> simp [kind, opener, Gathering.closer, Gathering.delimiter, Kind.closes?,
      Token.outline?, Item.uncounted, Token.comesToWait, Kind.isOperator, Kind.opens?]

section Passes

variable {yard : Yard} {token : Token} {move : Move} {leaving closed kept : List Token}
  {own : List Item}

/-- What a token leaves itself is no operator. -/
theorem Passes.not_isOperator (h : yard.Passes token move leaving closed kept own) :
    ∀ item ∈ own, item.isOperator = false := by
  intro item mem
  have found : item.uncounted ∈ token.outline?.toList := h.outline ▸ List.mem_map_of_mem mem
  cases item with
  | arity => rfl
  | token t =>
    rw [Option.mem_toList] at found
    cases kind : token.kind <;> simp [Token.outline?, kind, Item.uncounted] at found <;>
    simp [Item.isOperator, ← found, kind, Kind.isOperator]

/-- What is closed is an opening side. -/
theorem Passes.closed_opens (h : yard.Passes token move leaving closed kept own) :
    ∀ t ∈ closed, t.kind.opens?.isSome = true := by
  intro t mem
  have found : t.kind ∈ (token.kind.closes?.map Delimiter.opener).toList :=
    h.opener ▸ List.mem_map_of_mem mem
  rw [Option.mem_toList] at found
  obtain ⟨delimiter, -, eq⟩ := Option.map_eq_some_iff.1 found
  rw [Kind.opens?_eq_some_iff.2 eq.symm]
  rfl

theorem Passes.closed_not_isOperator (h : yard.Passes token move leaving closed kept own) :
    ∀ t ∈ closed, t.kind.isOperator = false := by
  intro t mem
  have opens := h.closed_opens t mem
  rw [Bool.eq_false_iff]
  intro isOperator
  have pending := isPending_of_isOperator isOperator
  rw [isPending, Option.isNone_iff_eq_none] at pending
  simp [pending] at opens

end Passes

end Yard

namespace Item

theorem outline_append (xs ys : List Item) : outline (xs ++ ys) = outline xs ++ outline ys := by
  rw [outline, List.filter_append, List.map_append]
  rfl

theorem operators_append (xs ys : List Item) :
    operators (xs ++ ys) = operators xs ++ operators ys := by
  rw [operators, List.filterMap_append, List.filter_append]
  rfl

theorem outline_of_operators {tokens : List Token} (h : ∀ t ∈ tokens, t.kind.isOperator = true) :
    outline (tokens.map .token) = [] := by
  rw [outline, List.filter_eq_nil_iff.2]
  · rfl
  · exact List.forall_mem_map.2 fun t mem => by simp [isOperator, h t mem]

theorem operators_of_operators {tokens : List Token} (h : ∀ t ∈ tokens, t.kind.isOperator = true) :
    operators (tokens.map .token) = tokens := by
  rw [operators, List.filterMap_map]
  have same : token? ∘ Item.token = some := rfl
  rw [same, List.filterMap_some, List.filter_eq_self.2 h]

theorem outline_of_others {items : List Item} (h : ∀ item ∈ items, item.isOperator = false) :
    outline items = items.map uncounted := by
  rw [outline, List.filter_eq_self.2 fun item mem => by simp [h item mem]]

theorem operators_of_others {items : List Item} (h : ∀ item ∈ items, item.isOperator = false) :
    operators items = [] := by
  rw [operators, List.filter_eq_nil_iff]
  intro t mem
  obtain ⟨item, mem, eq⟩ := List.mem_filterMap.1 mem
  cases item with
  | arity => cases eq
  | token =>
    cases eq
    exact Bool.eq_false_iff.1 (h _ mem)

end Item

namespace Yard

/-- A token lets its own item leave where it stands, and all operators are there before and after. -/
theorem Passes.conserves {yard : Yard} {token : Token} {move : Move} {leaving closed kept : List Token}
    {own : List Item} (h : yard.Passes token move leaving closed kept own) :
    Item.outline move.items = token.outline?.toList ∧
      (Item.operators move.items ++ Token.operators move.yard.operators).Perm
        (Token.operators yard.operators ++ Token.operators [token]) := by
  constructor
  · rw [h.items, Item.outline_append, Item.outline_of_operators h.isOperator,
      Item.outline_of_others h.not_isOperator, h.outline]
    rfl
  · have opener : Token.operators closed = [] :=
      List.filter_eq_nil_iff.2 fun t mem => Bool.eq_false_iff.1 (h.closed_not_isOperator t mem)
    have left : Token.operators leaving = leaving := List.filter_eq_self.2 h.isOperator
    have waiting : Token.operators move.yard.operators = Token.operators [token] ++ Token.operators kept := by
      rw [h.waiting]
      cases wait : token.comesToWait with
      | true => rw [if_pos rfl, Token.operators, ← List.singleton_append, List.filter_append]; rfl
      | false =>
        have other : token.kind.isOperator = false := by
          rw [Token.comesToWait, Bool.or_eq_false_iff] at wait
          exact wait.1
        simp [Token.operators, other]
    have before : Token.operators yard.operators = leaving ++ Token.operators kept := by
      rw [h.operators, Token.operators, List.filter_append, List.filter_append]
      show Token.operators leaving ++ (Token.operators closed ++ Token.operators kept) = _
      rw [left, opener]
      rfl
    rw [h.items, Item.operators_append, Item.operators_of_operators h.isOperator,
      Item.operators_of_others h.not_isOperator, waiting, before, List.append_nil, List.append_assoc]
    exact List.perm_append_comm.append_left leaving

/-- The same of a run. -/
theorem Runs.conserves {yard : Yard} {tokens : List Token} {move : Move} (h : yard.Runs tokens move)
    (waits : Waits yard.operators) :
    Item.outline move.items = tokens.filterMap Token.outline? ∧
      (Item.operators move.items ++ Token.operators move.yard.operators).Perm
        (Token.operators yard.operators ++ Token.operators tokens) := by
  induction h with
  | nil => exact ⟨rfl, by simp [Item.operators, Token.operators]⟩
  | @cons yard token tokens first rest step _ ih =>
    obtain ⟨reading, reads, rfl⟩ := step_eq_ok_iff.1 step
    obtain ⟨_, _, _, _, passes⟩ := reads.exists_passes waits
    obtain ⟨outline, perm⟩ := passes.conserves
    rw [remember_operators] at ih
    obtain ⟨outlines, perms⟩ := ih (reads.isHandled waits).1
    constructor
    · rw [Item.outline_append, outline, outlines]
      cases found : token.outline? with
      | none => rw [List.filterMap_cons_none found]; rfl
      | some item => rw [List.filterMap_cons_some found]; rfl
    · rw [Item.operators_append, List.append_assoc]
      refine (perms.append_left _).trans ?_
      rw [← List.append_assoc]
      refine (perm.append_right _).trans (List.Perm.of_eq ?_)
      rw [List.append_assoc]
      exact congrArg _ (List.filter_append [token] tokens).symm

/-- Only tokens of no known kind are reported. -/
theorem Reads.diagnostics {yard : Yard} {token : Token} {move : Move} (h : yard.Reads token move) :
    move.diagnostics = if token.kind = .other then [token.unknown] else [] := by
  cases h with
  | data data => cases kind : token.kind <;> simp [kind, Kind.isData] at data ⊢
  | bracketOpen gathering kind | bracketClose gathering kind =>
    cases gathering <;> simp [kind, Gathering.delimiter, Gathering.closer, Delimiter.opener]
  | operator kind => rw [addOperator_diagnostics, kind]; rfl
  | other kind => rw [if_pos kind]; rfl
  | _ => simp [*]

theorem Runs.diagnostics {yard : Yard} {tokens : List Token} {move : Move} (h : yard.Runs tokens move) :
    move.diagnostics = (tokens.filter fun token => token.kind = .other).map Token.unknown := by
  induction h with
  | nil => rfl
  | @cons _ token _ _ _ step _ ih =>
    obtain ⟨reading, reads, rfl⟩ := step_eq_ok_iff.1 step
    rw [ih, reads.diagnostics, List.filter_cons]
    by_cases other : token.kind = .other <;> simp [other]

end Yard

namespace Postfix

variable {tokens : List Token} {result : Postfix}

/-- Apart from its operators a postfix form has an item for each token that stands for one, in order. -/
theorem outline_of_ofTokens (h : ofTokens tokens = .ok result) :
    Item.outline result.items = tokens.filterMap Token.outline? := by
  obtain ⟨move, runs, pending, rfl⟩ := ofTokens_eq_ok_iff_runs.1 h
  have waits := (runs.isHandled nofun).1
  rw [Item.outline_append, (runs.conserves nofun).1,
    Item.outline_of_operators fun t mem => waits t mem (pending t mem), List.append_nil]

/-- The operators of a postfix form are those written. -/
theorem perm_operators (h : ofTokens tokens = .ok result) :
    (Item.operators result.items).Perm (Token.operators tokens) := by
  obtain ⟨move, runs, pending, rfl⟩ := ofTokens_eq_ok_iff_runs.1 h
  have all (t : Token) (mem : t ∈ move.yard.operators) : t.kind.isOperator = true :=
    (runs.isHandled nofun).1 t mem (pending t mem)
  have perm := (runs.conserves nofun).2
  rw [Item.operators_append, Item.operators_of_operators all]
  rw [Token.operators, List.filter_eq_self.2 all] at perm
  exact perm

/-- The tokens of no known kind are reported, in order. -/
theorem diagnostics_of_ofTokens (h : ofTokens tokens = .ok result) :
    result.diagnostics = (tokens.filter fun token => token.kind = .other).map Token.unknown := by
  obtain ⟨move, runs, -, rfl⟩ := ofTokens_eq_ok_iff_runs.1 h
  exact runs.diagnostics

end Postfix

/-! ## Markers -/

/-- The innermost open delimiter has only nested tokens behind it. -/
theorem exists_opening {tokens outer : List Token} {top : Token} (closing : Closing [] tokens)
    (h : openAfter tokens = top :: outer) :
    ∃ before inner, tokens = before ++ top :: inner ∧ Nested inner := by
  induction length : tokens.length using Nat.strongRecOn generalizing tokens top outer with
  | ind n ih =>
  obtain rfl | ⟨tokens, token, rfl⟩ := List.eq_nil_or_concat tokens
  · cases h
  rw [List.concat_eq_append] at closing h length ⊢
  rw [openAfter_concat] at h
  have closing' := (closing_append_iff.1 closing).1
  have shorter : tokens.length < n := by rw [← length]; simp
  cases opens : token.kind.opens? with
  | some =>
    rw [openNext_of_opens opens] at h
    obtain ⟨rfl, -⟩ := List.cons.inj h
    exact ⟨tokens, [], rfl, .nil⟩
  | none =>
  cases closes : token.kind.closes? with
  | none =>
    rw [openNext_of_plain opens closes] at h
    obtain ⟨before, inner, rfl, nested⟩ := ih _ shorter closing' h rfl
    exact ⟨before, inner ++ [token], by simp, nested.append (.plain opens closes .nil)⟩
  | some delimiter =>
    -- The token closes a pair inside of `top`, in front of which `top` was the innermost one.
    rw [openNext_of_closes closes] at h
    obtain ⟨inside, mem, opens'⟩ := closing tokens token [] rfl delimiter closes
    have opened : openAfter tokens = inside :: top :: outer := by
      obtain ⟨rest, eq⟩ : ∃ rest, openAfter tokens = inside :: rest := List.head?_eq_some_iff.1 mem
      rw [eq, List.tail_cons] at h
      rw [eq, h]
    obtain ⟨before, inner, rfl, nested⟩ := ih _ shorter closing' opened rfl
    have opened' : openAfter before = top :: outer := by
      rw [openAfter, List.foldl_append, List.foldl_cons, (nested.closing _).2,
        openNext_of_opens opens'] at opened
      exact (List.cons.inj opened).2
    have shorter' : before.length < n := by
      rw [List.length_append] at shorter
      omega
    obtain ⟨before', inner', rfl, nested'⟩ := ih _ shorter' (closing_append_iff.1 closing').1 opened' rfl
    exact ⟨before', inner' ++ inside :: (inner ++ token :: []), by simp,
      nested'.append (.pair opens' closes nested .nil)⟩

/-- A yard has read what fits. -/
theorem Yard.Runs.fit {tokens : List Token} {move : Move} (run : Yard.empty.Runs tokens move) :
    Fit tokens :=
  (Shunting.follows (Shunting.run_iff.2 ⟨move, run, rfl⟩)).2

/-- A closing bracket that is read closes a pair, and leaves a marker that holds how many elements are
written inside of it. -/
theorem Yard.Runs.exists_opening {read : List Token} {closing : Token} {gathering : Gathering}
    {first move : Move} (run : Yard.empty.Runs read first) (closer : closing.kind = gathering.closer)
    (step : first.yard.step closing = .ok move) :
    ∃ before opening inner items, read = before ++ opening :: inner ∧
      opening.kind = gathering.delimiter.opener ∧ Nested inner ∧
      move.items = items ++ [.arity gathering (elementCount inner)] := by
  have closes : closing.kind.closes? = some gathering.delimiter := by
    rw [closer]; cases gathering <;> rfl
  have fit := (run.append (.singleton step)).fit
  obtain ⟨opening, mem, opens⟩ := (fit read closing [] rfl).closes _ closes
  have closing' : Closing [] read := fun before t after eq delimiter closes =>
    (run.fit before t after eq).closes delimiter closes
  obtain ⟨outer, opened⟩ := List.head?_eq_some_iff.1 mem
  obtain ⟨before, inner, rfl, nested⟩ := ExprCompiler.exists_opening closing' opened
  have opener := Kind.opens?_eq_some_iff.1 opens
  obtain ⟨start, inside, runBefore, runInside, rfl⟩ := run.of_append
  -- The pair by itself, in a yard that has read what stands in front of it.
  obtain ⟨shunted, -, items⟩ := (runInside.append (.singleton step)).pair
    (Follows.empty.runs runBefore) opener closer nested
  obtain ⟨reading, reads, rfl⟩ := step_eq_ok_iff.1 step
  have closed := reads.read_eq
  rw [read_of_closer closer, closeBracket_eq_ok_iff] at closed
  obtain ⟨-, left, _, -, rfl⟩ := closed
  rw [← List.append_assoc] at items
  obtain ⟨-, marker⟩ := List.append_inj' items rfl
  exact ⟨before, opening, inner, left, rfl, opener, nested, congrArg (left ++ ·) marker⟩

end ExprCompiler
