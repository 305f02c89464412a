import ExprCompiler.Proofs.Postfix.Conservation

/-!
# How building a postfix form can fail

Builders have a handling for every item of a postfix form, and its lambdas are balanced, so operands
are all that can be missing:

* `Item.Lacks`, `Builder.step_eq_error_iff`: everything that reading an item can fail with;
* `Builder.enclosing_run`, `countP_openAfter`: the lambdas that are open, in a builder and among
  tokens, are those that have been opened and not closed;
* `Postfix.enclosing_ne_nil`, `Postfix.enclosing_eq_nil`: a builder that reads a postfix form is inside
  of a lambda where one ends, and outside of all of them at the end;
* `Postfix.ofItems_eq_error_iff`: where building a postfix form fails;
* `ofItems_ofTokens`: a postfix form has trees, reporting nothing, or an item that lacks operands.
-/

namespace ExprCompiler

/-- With `found` operands the item lacks some, or a call what is called. -/
inductive Item.Lacks (found : Nat) : Item → SyntaxError → Prop
  | operator {op : Token} : op.kind = .operator → found < 2 →
      Lacks found (.token op) ⟨.missingOperands 2 (.operator op.text) found, some op.offset⟩
  | unary {op : Token} : op.kind = .unaryOperator → found < 1 →
      Lacks found (.token op) ⟨.missingOperands 1 (.operator op.text) found, some op.offset⟩
  | array {count : Nat} : found < count →
      Lacks found (.arity .array count) ⟨.missingOperands count .array found, none⟩
  | call {count : Nat} : found < count →
      Lacks found (.arity .call count) ⟨.missingOperands count .call found, none⟩
  | callee {count : Nat} : found = count → Lacks found (.arity .call count) ⟨.missingCallee, none⟩

namespace Builder

/-! ## What a step can fail with -/

/-- Taking fails exactly when there are too few operands. -/
theorem take_eq_error_iff {operands : List Tree} {count : Nat} {taker : Taker} {offset : Option Nat}
    {error : SyntaxError} : take operands count taker offset = .error error ↔
      operands.length < count ∧ error = ⟨.missingOperands count taker operands.length, offset⟩ := by
  have few : (operands.take count).length < count ↔ operands.length < count := by
    rw [List.length_take]
    omega
  simp only [take, few]
  split
  · rename_i h
    rw [Except.error.injEq, and_iff_right h, eq_comm]
  · rename_i h
    constructor
    · intro failed
      cases failed
    · intro failed
      exact absurd failed.1 h

/-- What is made of operands fails to be made for want of these only. -/
theorem apply_eq_error_iff {operands : List Tree} {count : Nat} {taker : Taker} {offset : Option Nat}
    {apply : List Tree × List Tree → Builder} {error : SyntaxError} :
    (do return apply (← take operands count taker offset)) = .error error ↔
      operands.length < count ∧ error = ⟨.missingOperands count taker operands.length, offset⟩ := by
  rw [Run.bind_eq_error_iff, ← take_eq_error_iff]
  constructor
  · rintro (failed | ⟨_, _, done⟩)
    · exact failed
    · cases done
  · exact .inl

/-- A call lacks arguments, or has all of them and lacks what is called. -/
theorem step_call_eq_error_iff {builder : Builder} {count : Nat} {error : SyntaxError} :
    builder.step (.arity .call count) = .error error ↔
      Item.Lacks builder.operands.length (.arity .call count) error := by
  simp only [step, Run.bind_eq_error_iff]
  constructor
  · rintro (failed | ⟨⟨arguments, rest⟩, taken, none⟩)
    · obtain ⟨few, rfl⟩ := take_eq_error_iff.1 failed
      exact .call few
    · obtain ⟨split, length⟩ := take_eq_ok_iff.1 taken
      cases rest with
      | cons => cases none
      | nil =>
        cases none
        exact .callee (by rw [split, List.append_nil, List.length_reverse, length])
  · intro lacks
    cases lacks with
    | call few => exact .inl (take_eq_error_iff.2 ⟨few, rfl⟩)
    | callee all =>
      have taken := take_reverse_append builder.operands.reverse [] (by rw [List.length_reverse, all])
        .call none
      rw [List.reverse_reverse, List.append_nil] at taken
      exact .inr ⟨_, taken, rfl⟩

/-- Reading an item fails when it lacks operands, or ends a lambda that was not begun. -/
theorem step_eq_error_iff {builder : Builder} {item : Item} {error : SyntaxError} :
    builder.step item = .error error ↔ Item.Lacks builder.operands.length item error ∨
      ∃ token, item = .token token ∧ token.kind = .lambdaClose ∧ builder.enclosing = [] ∧
        error = ⟨.unmatchedLambda, some token.offset⟩ := by
  constructor
  · intro h
    match item with
    | .arity .call count => exact .inl (step_call_eq_error_iff.1 h)
    | .arity .array count =>
      simp only [step] at h
      obtain ⟨few, rfl⟩ := apply_eq_error_iff.1 h
      exact .inl (.array few)
    | .token token =>
      cases kind : token.kind <;> simp only [step, kind, reduceCtorEq] at h
      case operator =>
        obtain ⟨few, rfl⟩ := apply_eq_error_iff.1 h
        exact .inl (.operator kind few)
      case unaryOperator =>
        obtain ⟨few, rfl⟩ := apply_eq_error_iff.1 h
        exact .inl (.unary kind few)
      case lambdaClose =>
        split at h
        · rename_i outside
          cases h
          exact .inr ⟨token, rfl, kind, outside, rfl⟩
        · cases h
  · rintro (lacks | ⟨token, rfl, kind, outside, rfl⟩)
    · cases lacks with
      | operator kind few | unary kind few =>
        simp only [step, kind]
        exact apply_eq_error_iff.2 ⟨few, rfl⟩
      | array few =>
        simp only [step]
        exact apply_eq_error_iff.2 ⟨few, rfl⟩
      | call few => exact step_call_eq_error_iff.2 (.call few)
      | callee all => exact step_call_eq_error_iff.2 (.callee all)
    · simp only [step, kind, outside]

end Builder

/-! ## Lambdas -/

/-- The item is a token of that kind. -/
def Item.isKind (kind : Kind) : Item → Bool
  | .token t => t.kind = kind
  | .arity _ _ => false

namespace Builder

/-- A lambda that begins is one more to be inside of, and one that ends is one less. -/
theorem Reads.enclosing {builder next : Builder} {item : Item} (h : builder.Reads item next) :
    next.enclosing.length + [item].countP (Item.isKind .lambdaClose) =
      builder.enclosing.length + [item].countP (Item.isKind .lambdaOpen) := by
  cases h with
  | @leaf token data =>
    cases kind : token.kind <;> simp [kind, Kind.isData, Item.isKind] at data ⊢
  | operator kind | unary kind | lambdaOpen kind => simp [Item.isKind, kind]
  | array | call => simp [Item.isKind]
  | lambdaClose kind inside => simp [Item.isKind, kind, inside]
  | @unhandled token unhandled =>
    cases kind : token.kind <;>
      simp [kind, Item.isHandled, Kind.isData, Kind.isOperator, Item.isKind] at unhandled ⊢

/-- A builder is inside of the lambdas that have begun and not ended. -/
theorem enclosing_run {items : List Item} {builder : Builder}
    (run : items.foldlM step .initial = .ok builder) :
    builder.enclosing.length + items.countP (Item.isKind .lambdaClose) =
      items.countP (Item.isKind .lambdaOpen) := by
  let inside (before : List Item) (b : Builder) : Prop :=
    b.enclosing.length + before.countP (Item.isKind .lambdaClose) =
      before.countP (Item.isKind .lambdaOpen)
  have keep (before : List Item) (b : Builder) (item : Item) (next : Builder) (h : inside before b)
      (stepped : b.step item = .ok next) : inside (before ++ [item]) next := by
    have enclosing := (Reads.of_step stepped).enclosing
    simp only [inside, List.countP_append] at h ⊢
    omega
  have start : inside [] .initial := rfl
  exact Run.invariant keep start run

end Builder

/-- The lambdas that are open after some tokens have begun and not ended. -/
theorem countP_openAfter {tokens : List Token} (closing : Closing [] tokens) :
    (openAfter tokens).countP (·.kind = .lambdaOpen) + tokens.countP (·.kind = .lambdaClose) =
      tokens.countP (·.kind = .lambdaOpen) := by
  induction length : tokens.length generalizing tokens with
  | zero =>
    rw [List.length_eq_zero_iff.1 length]
    rfl
  | succ n ih =>
    obtain rfl | ⟨tokens, token, rfl⟩ := List.eq_nil_or_concat tokens
    · cases length
    rw [List.concat_eq_append] at closing length ⊢
    have before := ih (closing_append_iff.1 closing).1 (by simpa using length)
    rw [openAfter_concat, List.countP_append, List.countP_append]
    cases opens : token.kind.opens? with
    | some delimiter =>
      have kind := Kind.opens?_eq_some_iff.1 opens
      rw [openNext_of_opens opens, List.countP_cons]
      cases delimiter <;> simp [kind, Delimiter.opener] <;> omega
    | none =>
      cases closes : token.kind.closes? with
      | none =>
        rw [openNext_of_plain opens closes]
        cases kind : token.kind <;> simp [kind, Kind.opens?, Kind.closes?] at opens closes ⊢ <;> omega
      | some delimiter =>
        -- The delimiter that is closed is that of the token, a lambda's or another.
        obtain ⟨top, mem, opened⟩ := closing tokens token [] rfl delimiter closes
        obtain ⟨outer, eq⟩ : ∃ outer, openAfter tokens = top :: outer := List.head?_eq_some_iff.1 mem
        have opener := Kind.opens?_eq_some_iff.1 opened
        rw [openNext_of_closes closes, eq, List.tail_cons]
        rw [eq, List.countP_cons] at before
        cases kind : token.kind <;> rw [kind] at closes <;> cases closes <;>
          simp [opener, Delimiter.opener, kind] at before ⊢ <;> omega

theorem Item.countP_outline (items : List Item) {kind : Kind} (other : kind.isOperator = false) :
    (Item.outline items).countP (Item.isKind kind) = items.countP (Item.isKind kind) := by
  rw [outline, List.countP_map, List.countP_filter]
  refine List.countP_congr fun item _ => ?_
  cases item with
  | arity => simp [isKind, uncounted]
  | token t =>
    simp only [Function.comp, isKind, uncounted, isOperator, Bool.and_eq_true, decide_eq_true_eq]
    exact ⟨fun h => h.1, fun h => ⟨h, by rw [h, other]; rfl⟩⟩

theorem Token.countP_outline? (tokens : List Token) {kind : Kind}
    (side : kind = .lambdaOpen ∨ kind = .lambdaClose) :
    (tokens.filterMap outline?).countP (Item.isKind kind) = tokens.countP (·.kind = kind) := by
  rw [List.countP_filterMap]
  refine List.countP_congr fun token _ => ?_
  obtain rfl | rfl := side <;> cases kind : token.kind <;> simp [outline?, kind, Item.isKind]

namespace Postfix

/-- A part of a postfix form has the lambdas of the tokens that it comes from. -/
theorem countP_front {front : List Item} {before : List Token}
    (outline : Item.outline front = before.filterMap Token.outline?) {kind : Kind}
    (side : kind = .lambdaOpen ∨ kind = .lambdaClose) :
    front.countP (Item.isKind kind) = before.countP (·.kind = kind) := by
  rw [← Item.countP_outline front (by obtain rfl | rfl := side <;> rfl), outline,
    Token.countP_outline? before side]

variable {tokens : List Token} {result : Postfix}

/-- A builder is inside of a lambda where one ends. -/
theorem enclosing_ne_nil (h : ofTokens tokens = .ok result) {front back : List Item} {closing : Token}
    (split : result.items = front ++ .token closing :: back) (kind : closing.kind = .lambdaClose)
    {builder : Builder} (run : front.foldlM Builder.step .initial = .ok builder) :
    builder.enclosing ≠ [] := by
  have closer : Item.outline (.token closing :: back) = .token closing :: Item.outline back := by
    rw [Item.outline, List.filter_cons_of_pos (by rw [Item.isOperator, kind]; rfl)]
    rfl
  have outline := outline_of_ofTokens h
  rw [split, Item.outline_append, closer] at outline
  -- The tokens up to the one that the lambda is ended by.
  obtain ⟨before, rest, rfl, front_, rest_⟩ := List.filterMap_eq_append_iff.1 outline.symm
  obtain ⟨skipped, token, after, rfl, none, some_, -⟩ := List.filterMap_eq_cons_iff.1 rest_
  have same : token = closing := by
    cases kind : token.kind <;> simp [Token.outline?, kind] at some_ <;> exact some_
  rw [same] at h
  have front_ : Item.outline front = (before ++ skipped).filterMap Token.outline? := by
    rw [List.filterMap_append, List.filterMap_eq_nil_iff.2 none, List.append_nil, front_]
  obtain ⟨nested, fit⟩ := nested_of_ofTokens h
  have eq : before ++ (skipped ++ closing :: after) = (before ++ skipped) ++ closing :: after := by simp
  rw [eq] at fit nested
  obtain ⟨top, mem, opens⟩ := (fit _ closing after rfl).closes .lambda (by rw [kind]; rfl)
  have opened : 0 < (openAfter (before ++ skipped)).countP (·.kind = .lambdaOpen) :=
    List.countP_pos_iff.2 ⟨top, List.mem_of_mem_head? mem, by simp [Kind.opens?_eq_some_iff.1 opens,
      Delimiter.opener]⟩
  have counted := countP_openAfter (closing_append_iff.1 (nested_iff.1 nested).1).1
  have enclosing := Builder.enclosing_run run
  rw [countP_front front_ (.inl rfl), countP_front front_ (.inr rfl)] at enclosing
  intro outside
  rw [outside, List.length_nil] at enclosing
  omega

/-- A builder is outside of all lambdas at the end. -/
theorem enclosing_eq_nil (h : ofTokens tokens = .ok result) {builder : Builder}
    (run : result.items.foldlM Builder.step .initial = .ok builder) : builder.enclosing = [] := by
  obtain ⟨closing, closed⟩ := nested_iff.1 (nested_of_ofTokens h).1
  have outline := outline_of_ofTokens h
  have counted := countP_openAfter closing
  have enclosing := Builder.enclosing_run run
  rw [countP_front outline (.inl rfl), countP_front outline (.inr rfl)] at enclosing
  rw [closed, List.countP_nil] at counted
  exact List.length_eq_zero_iff.1 (by omega)

/-- A builder reports nothing while it reads a postfix form. -/
theorem reports_eq_nil (h : ofTokens tokens = .ok result) {front back : List Item}
    (split : result.items = front ++ back) : Item.reports front = [] := by
  rw [Item.reports, List.filterMap_eq_nil_iff.2]
  · rfl
  · intro item mem
    have handled := isHandled_of_ofTokens h item (by rw [split]; exact List.mem_append_left _ mem)
    rw [Item.unhandled?, if_pos handled]

/-- Building a postfix form fails exactly at an item that lacks operands. -/
theorem ofItems_eq_error_iff (h : ofTokens tokens = .ok result) {error : SyntaxError} :
    Forest.ofItems result.items = .error error ↔ ∃ front item back builder,
      result.items = front ++ item :: back ∧ front.foldlM Builder.step .initial = .ok builder ∧
      Item.Lacks builder.operands.length item error := by
  rw [Forest.ofItems, Run.bind_eq_error_iff]
  constructor
  · rintro (failed | ⟨builder, run, failed⟩)
    · obtain ⟨front, item, back, builder, split, run, failed⟩ := Run.eq_error_iff.1 failed
      obtain lacks | ⟨token, rfl, kind, outside, -⟩ := Builder.step_eq_error_iff.1 failed
      · exact ⟨front, item, back, builder, split, run, lacks⟩
      · exact absurd outside (enclosing_ne_nil h split kind run)
    · rw [Builder.finish, enclosing_eq_nil h run] at failed
      cases failed
  · rintro ⟨front, item, back, builder, split, run, lacks⟩
    exact .inl (Run.eq_error_iff.2
      ⟨front, item, back, builder, split, run, Builder.step_eq_error_iff.2 (.inl lacks)⟩)

end Postfix

/-- Building a postfix form reports nothing, however far it gets, and fails only at an operator, a
call or an array that lacks operands, or at a call that lacks what is called. So what is reported
about the trees of a source text is what is reported about its postfix form. -/
theorem ofItems_ofTokens :
    (∀ tokens shunted, Postfix.ofTokens tokens = .ok shunted →
      (∀ front back builder, shunted.items = front ++ back →
        front.foldlM Builder.step .initial = .ok builder → builder.diagnostics = #[]) ∧
      (∀ forest, Forest.ofItems shunted.items = .ok forest → forest.diagnostics = []) ∧
      ∀ error, Forest.ofItems shunted.items = .error error ↔ ∃ front item back builder,
        shunted.items = front ++ item :: back ∧ front.foldlM Builder.step .initial = .ok builder ∧
        Item.Lacks builder.operands.length item error) ∧
      ∀ source forest, Forest.ofSource source = .ok forest →
        ∃ shunted, Postfix.ofSource source = .ok shunted ∧ forest.diagnostics = shunted.diagnostics := by
  have silent (tokens : List Token) (shunted : Postfix) (h : Postfix.ofTokens tokens = .ok shunted)
      (forest : Forest) (builds : Forest.ofItems shunted.items = .ok forest) :
      forest.diagnostics = [] := by
    rw [(Forest.flatten_of_ofItems builds).2.2]
    exact Postfix.reports_eq_nil h (List.append_nil _).symm
  refine ⟨fun tokens shunted h => ⟨fun front back builder split run => ?_, silent tokens shunted h,
    fun error => Postfix.ofItems_eq_error_iff h⟩, fun source forest h => ?_⟩
  · have reports := (Builder.Encodes.run run).diagnostics
    rw [Postfix.reports_eq_nil h split] at reports
    exact Array.toList_eq_nil_iff.1 reports
  · obtain ⟨shunted, built, shunts, builds, rfl⟩ := Forest.ofSource_eq_ok_iff.1 h
    refine ⟨shunted, shunts, ?_⟩
    rw [silent _ _ shunts _ builds, List.append_nil]

/-- In `{}+` the lambda is balanced and the operator lacks an operand; `{}@` has a tree, and the token
of no known kind is reported once. -/
theorem ofItems_ofTokens_lambda :
    let opening : Token := ⟨.lambdaOpen, "\x7b", 0⟩
    let closing : Token := ⟨.lambdaClose, "\x7d", 1⟩
    (∃ shunted front item back builder,
        Postfix.ofTokens [opening, closing, ⟨.operator, "+", 2⟩] = .ok shunted ∧
        shunted.items = front ++ item :: back ∧ front.foldlM Builder.step .initial = .ok builder ∧
        Item.Lacks builder.operands.length item ⟨.missingOperands 2 (.operator "+") 1, some 2⟩) ∧
      ∃ forest shunted, Forest.ofSource "\x7b\x7d@" = .ok forest ∧ forest.trees = [.lambda []] ∧
        Postfix.ofSource "\x7b\x7d@" = .ok shunted ∧ forest.diagnostics = shunted.diagnostics ∧
        forest.diagnostics = [(⟨.other, "@", 2⟩ : Token).unknown] := by
  intro opening closing
  constructor
  · have shunts : ∃ shunted, Postfix.ofTokens [opening, closing, ⟨.operator, "+", 2⟩] = .ok shunted ∧
        Forest.ofItems shunted.items = .error ⟨.missingOperands 2 (.operator "+") 1, some 2⟩ :=
      ⟨_, rfl, rfl⟩
    obtain ⟨shunted, shunts, fails⟩ := shunts
    obtain ⟨front, item, back, builder, lacks⟩ := ((ofItems_ofTokens.1 _ _ shunts).2.2 _).1 fails
    exact ⟨shunted, front, item, back, builder, shunts, lacks⟩
  · have tokens : tokenize "\x7b\x7d@" = [opening, closing, ⟨.other, "@", 2⟩] := by decide +kernel
    have builds : Forest.ofSource "\x7b\x7d@" =
        .ok ⟨[.lambda []], [(⟨.other, "@", 2⟩ : Token).unknown]⟩ := by
      rw [Forest.ofSource, Postfix.ofSource, tokens]
      rfl
    obtain ⟨shunted, shunts, same⟩ := ofItems_ofTokens.2 _ _ builds
    exact ⟨_, shunted, builds, rfl, shunts, same, rfl⟩

end ExprCompiler
