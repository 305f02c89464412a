import ExprCompiler.Proofs.Tree.Encoding

/-!
# Missing operands

All statements of a scope share their operands: nothing tells a builder where one of them ends. How
many operands a list of items lacks can be counted without building anything:

* `Item.effect`: what an item does to the number of operands;
* `Tally`, `shortage`: the operands that are there, and those that were missing outside of all
  lambdas. What is missing inside of a lambda cannot come from outside;
* `Builder.step_of_takes`, `Builder.step_fails_of_takes`: an item is read exactly when there are as
  many operands as it takes;
* `Tally.Counts.step`, `Tally.Counts.run`: a builder goes on exactly as long as what was there at
  first makes up for what is missing;
* `Forest.exists_ofItems_append_iff`: items are built behind others exactly when those leave as many
  trees as the items lack.
-/

namespace ExprCompiler

/-! ## Counting operands -/

/-- What an item does to the number of operands. -/
inductive Effect where
  /-- Takes that many and leaves one. -/
  | takes (count : Nat)
  /-- Sets those outside of a lambda aside. -/
  | opens
  /-- Returns to them, and leaves the lambda as one more. -/
  | closes
  /-- Leaves all of them as they are. -/
  | keeps
deriving Repr, DecidableEq

/-- The effect of an item. The callee of a call is one more operand than its marker counts. -/
def Item.effect : Item → Effect
  | .arity .call count => .takes (count + 1)
  | .arity .array count => .takes count
  | .token t =>
    match t.kind with
    | .number | .string | .word | .placeholder => .takes 0
    | .operator => .takes 2
    | .unaryOperator => .takes 1
    | .lambdaOpen => .opens
    | .lambdaClose => .closes
    | _ => .keeps

/-- The number of operands while items are read. -/
structure Tally where
  /-- How many were missing, outside of all lambdas. -/
  missing : Nat
  /-- How many there are in the innermost scope. -/
  ready : Nat
  /-- How many there are outside of each open lambda, the innermost lambda first. -/
  enclosing : List Nat
deriving Repr, DecidableEq

namespace Tally

/-- Nothing read. -/
def initial : Tally := ⟨0, 0, []⟩

/-- Reads one item. Operands may be missing, but not inside of a lambda. -/
def step (tally : Tally) (item : Item) : Option Tally :=
  match item.effect with
  | .takes count =>
    if count ≤ tally.ready then some { tally with ready := tally.ready - count + 1 }
    else if tally.enclosing = [] then
      some { tally with missing := tally.missing + (count - tally.ready), ready := 1 }
    else none
  | .opens => some { tally with ready := 0, enclosing := tally.ready :: tally.enclosing }
  | .closes =>
    match tally.enclosing with
    | [] => none
    | outer :: enclosing => some { tally with ready := outer + 1, enclosing }
  | .keeps => some tally

/-- Ends the items: no lambda may be open. -/
def finish (tally : Tally) : Option Nat :=
  if tally.enclosing = [] then some tally.missing else none

end Tally

/-- How many operands the items lack, if operands before them could make them a program at all. -/
def shortage (items : List Item) : Option Nat :=
  (items.foldlM Tally.step .initial).bind Tally.finish

namespace Tally

/-- What is missing stays missing. -/
theorem missing_le_of_step {tally next : Tally} {item : Item} (h : tally.step item = some next) :
    tally.missing ≤ next.missing := by
  unfold step at h
  split at h
  · split at h
    · cases h
      exact Nat.le_refl _
    · split at h <;> cases h
      exact Nat.le_add_right _ _
  · cases h
    exact Nat.le_refl _
  · split at h <;> cases h
    exact Nat.le_refl _
  · cases h
    exact Nat.le_refl _

theorem missing_le_of_run {items : List Item} {tally last : Tally}
    (h : items.foldlM step tally = some last) : tally.missing ≤ last.missing := by
  induction items generalizing tally with
  | nil =>
    cases h
    exact Nat.le_refl _
  | cons item items ih =>
    rw [List.foldlM_cons] at h
    obtain ⟨next, first, rest⟩ := Option.bind_eq_some_iff.1 h
    exact Nat.le_trans (missing_le_of_step first) (ih rest)

end Tally

/-! ## When an item is read -/

namespace Builder

/-- Among enough operands there are as many as an item takes. -/
theorem exists_taken {operands : List Tree} {count : Nat} (enough : count ≤ operands.length) :
    ∃ taken : List Tree, operands = taken.reverse ++ operands.drop count ∧ taken.length = count := by
  refine ⟨(operands.take count).reverse, ?_, ?_⟩
  · rw [List.reverse_reverse, List.take_append_drop]
  · rw [List.length_reverse, List.length_take, Nat.min_eq_left enough]

/-- An item that takes operands is read when they are there. -/
theorem exists_reads_of_takes {builder : Builder} {item : Item} {count : Nat}
    (h : item.effect = .takes count) (enough : count ≤ builder.operands.length) :
    ∃ next, builder.Reads item next := by
  obtain ⟨taken, split, length⟩ := exists_taken enough
  match item with
  | .arity .call arguments =>
    cases h
    -- The callee is the first of the operands that are taken.
    obtain ⟨callee, taken, rfl⟩ := List.exists_cons_of_length_eq_add_one length
    rw [List.reverse_cons, List.append_assoc, List.singleton_append] at split
    obtain rfl : taken.length = arguments := by simpa using length
    exact ⟨_, .call split⟩
  | .arity .array elements =>
    cases h
    subst length
    exact ⟨_, .array split⟩
  | .token t =>
    cases kind : t.kind <;> simp only [Item.effect, kind, reduceCtorEq, Effect.takes.injEq] at h
    case operator => exact ⟨_, .operator kind split (by omega)⟩
    case unaryOperator => exact ⟨_, .unary kind split (by omega)⟩
    all_goals exact ⟨_, .leaf (by rw [kind]; rfl)⟩

/-- An item that is read finds what it takes, and puts one operand in its place. -/
theorem Reads.of_takes {builder next : Builder} {item : Item} {count : Nat}
    (h : builder.Reads item next) (effect : item.effect = .takes count) :
    count ≤ builder.operands.length ∧
      ∃ tree, next = { builder with operands := tree :: builder.operands.drop count } := by
  have replaced {taken rest : List Tree} (split : builder.operands = taken.reverse ++ rest) :
      taken.length ≤ builder.operands.length ∧ rest = builder.operands.drop taken.length := by
    rw [split, List.length_append, List.length_reverse]
    exact ⟨Nat.le_add_right _ _, by rw [← List.length_reverse, List.drop_left]⟩
  cases h with
  | @leaf token data =>
    cases kind : token.kind <;> simp [Item.effect, kind, Kind.isData] at effect data
    all_goals
      subst effect
      exact ⟨Nat.zero_le _, _, rfl⟩
  | operator kind split length | unary kind split length =>
    simp only [Item.effect, kind, Effect.takes.injEq] at effect
    obtain ⟨enough, rest⟩ := replaced split
    rw [length, effect] at enough rest
    exact ⟨enough, _, by rw [rest]⟩
  | array split =>
    cases effect
    obtain ⟨enough, rest⟩ := replaced split
    exact ⟨enough, _, by rw [rest]⟩
  | @call callee taken rest split =>
    cases effect
    have split' : builder.operands = (callee :: taken).reverse ++ rest := by simpa using split
    obtain ⟨enough, rest⟩ := replaced split'
    exact ⟨enough, _, by rw [rest]; rfl⟩
  | lambdaOpen kind | lambdaClose kind => simp [Item.effect, kind] at effect
  | @unhandled token unhandled =>
    cases kind : token.kind <;>
      simp [Item.effect, kind, Item.isHandled, Kind.isData, Kind.isOperator] at effect unhandled

/-- The token of an item that opens or closes a lambda, or that nothing is made of. -/
theorem exists_token_of_effect {item : Item} (h : ∀ count, item.effect ≠ .takes count) :
    ∃ token, item = .token token ∧
      (item.effect = .opens → token.kind = .lambdaOpen) ∧
      (item.effect = .closes → token.kind = .lambdaClose) ∧
      (item.effect = .keeps → (Item.token token).isHandled = false) := by
  match item with
  | .arity .call _ | .arity .array _ => exact absurd rfl (h _)
  | .token t =>
    refine ⟨t, rfl, ?_, ?_, ?_⟩ <;> intro effect <;> cases kind : t.kind <;>
      simp [Item.effect, kind] at effect <;>
      simp [Item.isHandled, kind, Kind.isData, Kind.isOperator]

end Builder

/-! ## Counting and building -/

namespace Tally

/-- The operands of all scopes, the innermost first, are as many as counted, and `spare` more of them
lie at the bottom of the outermost scope. -/
inductive Heights (spare : Nat) : List Nat → List (List Tree) → Prop
  | outermost {count : Nat} {trees : List Tree} : trees.length = count + spare →
      Heights spare [count] [trees]
  | inside {count : Nat} {counts : List Nat} {trees : List Tree} {outer : List (List Tree)} :
      trees.length = count → Heights spare counts outer → Heights spare (count :: counts) (trees :: outer)

theorem Heights.ne_nil {spare : Nat} {counts : List Nat} {scopes : List (List Tree)}
    (h : Heights spare counts scopes) : counts ≠ [] ∧ scopes ≠ [] := by
  cases h <;> exact ⟨nofun, nofun⟩

/-- The innermost scope is the outermost one, or nothing is spare in it. -/
theorem heights_cons_iff {spare count : Nat} {counts : List Nat} {trees : List Tree}
    {scopes : List (List Tree)} : Heights spare (count :: counts) (trees :: scopes) ↔
      counts = [] ∧ scopes = [] ∧ trees.length = count + spare ∨
      trees.length = count ∧ Heights spare counts scopes := by
  constructor
  · intro h
    cases h with
    | outermost length => exact .inl ⟨rfl, rfl, length⟩
    | inside length rest => exact .inr ⟨length, rest⟩
  · rintro (⟨rfl, rfl, length⟩ | ⟨length, rest⟩)
    · exact .outermost length
    · exact .inside length rest

/-- The builder holds as many operands as counted, and those of the `base` operands there were at
first that have not made up for missing ones. -/
structure Counts (base : Nat) (tally : Tally) (builder : Builder) : Prop where
  missing : tally.missing ≤ base
  heights : Heights (base - tally.missing) (tally.ready :: tally.enclosing)
    (builder.operands :: builder.enclosing)

variable {base : Nat} {tally : Tally} {builder : Builder}

/-- Both are outside of all lambdas, or both are not. -/
theorem Counts.enclosing (h : Counts base tally builder) :
    builder.enclosing = [] ↔ tally.enclosing = [] := by
  obtain ⟨counts, scopes, -⟩ | ⟨-, rest⟩ := heights_cons_iff.1 h.heights
  · exact iff_of_true scopes counts
  · exact iff_of_false rest.ne_nil.2 rest.ne_nil.1

/-- Nothing is spare inside of a lambda. -/
theorem Counts.length (h : Counts base tally builder) : builder.operands.length =
    if tally.enclosing = [] then tally.ready + (base - tally.missing) else tally.ready := by
  obtain ⟨counts, -, length⟩ | ⟨length, rest⟩ := heights_cons_iff.1 h.heights
  · rw [if_pos counts, length]
  · rw [if_neg rest.ne_nil.1, length]

/-- The operands of the innermost scope change, and nothing outside of it. -/
theorem Counts.replace (h : Counts base tally builder) {missing ready : Nat} {operands : List Tree}
    (enough : missing ≤ base) (same : tally.enclosing ≠ [] → missing = tally.missing)
    (length : operands.length =
      if tally.enclosing = [] then ready + (base - missing) else ready) :
    Counts base { tally with missing, ready } { builder with operands } := by
  refine ⟨enough, heights_cons_iff.2 ?_⟩
  obtain ⟨counts, scopes, -⟩ | ⟨-, rest⟩ := heights_cons_iff.1 h.heights
  · rw [if_pos counts] at length
    exact .inl ⟨counts, scopes, length⟩
  · rw [if_neg rest.ne_nil.1] at length
    refine .inr ⟨length, ?_⟩
    show Heights (base - missing) tally.enclosing builder.enclosing
    rw [same rest.ne_nil.1]
    exact rest

/-- An item that takes operands is read together with the tally, or not read where more is missing
than there was. -/
theorem Counts.step_of_takes (h : Counts base tally builder) {item : Item} {count : Nat}
    (effect : item.effect = .takes count) :
    (∃ counted next, tally.step item = some counted ∧ builder.Reads item next ∧
      Counts base counted next) ∨
    (∀ next, ¬ builder.Reads item next) ∧
      ∀ counted, tally.step item = some counted → base < counted.missing := by
  have length := h.length
  have enough := h.missing
  simp only [Tally.step, effect]
  by_cases there : count ≤ builder.operands.length
  · obtain ⟨next, reads⟩ := Builder.exists_reads_of_takes effect there
    obtain ⟨-, tree, rfl⟩ := reads.of_takes effect
    refine .inl ?_
    by_cases ready : count ≤ tally.ready
    · rw [if_pos ready]
      refine ⟨_, _, rfl, reads, h.replace enough (fun _ => rfl) ?_⟩
      rw [List.length_cons, List.length_drop, length]
      split <;> omega
    · -- More is taken than was counted, so some of the spare operands are.
      have outside : tally.enclosing = [] := by
        apply Classical.byContradiction
        intro inside
        rw [if_neg inside] at length
        omega
      rw [if_pos outside] at length
      rw [if_neg ready, if_pos outside]
      refine ⟨_, _, rfl, reads, h.replace (by omega) (fun inside => absurd outside inside) ?_⟩
      rw [List.length_cons, List.length_drop, if_pos outside]
      omega
  · refine .inr ⟨fun next reads => there (reads.of_takes effect).1, fun counted counts => ?_⟩
    split at counts
    · split at length <;> omega
    · split at counts <;> cases counts
      rename_i outside
      rw [if_pos outside] at length
      show base < tally.missing + (count - tally.ready)
      omega

/-- A builder reads an item together with the tally, or not where more is missing than there was. -/
theorem Counts.step (h : Counts base tally builder) (item : Item) :
    (∃ counted next, tally.step item = some counted ∧ builder.Reads item next ∧
      Counts base counted next) ∨
    (∀ next, ¬ builder.Reads item next) ∧
      ∀ counted, tally.step item = some counted → base < counted.missing := by
  by_cases takes : ∃ count, item.effect = .takes count
  · obtain ⟨count, effect⟩ := takes
    exact h.step_of_takes effect
  obtain ⟨token, rfl, opens, closes, keeps⟩ :=
    Builder.exists_token_of_effect fun count effect => takes ⟨count, effect⟩
  have enough := h.missing
  have heights := h.heights
  simp only [Tally.step]
  cases effect : (Item.token token).effect with
  | takes count => exact absurd ⟨count, effect⟩ takes
  | opens => exact .inl ⟨_, _, rfl, .lambdaOpen (opens effect), enough, .inside rfl heights⟩
  | keeps => exact .inl ⟨_, _, rfl, .unhandled (keeps effect), enough, heights⟩
  | closes =>
    have kind := closes effect
    obtain ⟨counts, scopes, -⟩ | ⟨-, rest⟩ := heights_cons_iff.1 heights
    · rw [counts]
      refine .inr ⟨fun next reads => ?_, nofun⟩
      cases reads with
      | lambdaClose _ outer => simp [scopes] at outer
      | leaf data => simp [kind, Kind.isData] at data
      | operator other | unary other | lambdaOpen other => simp [kind] at other
      | unhandled other => simp [Item.isHandled, kind] at other
    · obtain ⟨count, counts, outside⟩ := List.exists_cons_of_ne_nil rest.ne_nil.1
      obtain ⟨outer, scopes, outer_⟩ := List.exists_cons_of_ne_nil rest.ne_nil.2
      rw [outside, outer_, heights_cons_iff] at rest
      rw [outside]
      refine .inl ⟨_, _, rfl, .lambdaClose kind outer_, enough, heights_cons_iff.2 ?_⟩
      simp only [List.length_cons]
      obtain ⟨empty, empty', length⟩ | ⟨length, rest⟩ := rest
      · exact .inl ⟨empty, empty', by omega⟩
      · exact .inr ⟨by omega, rest⟩

/-- Items are read to the end of all lambdas exactly when no more is missing than there was. -/
theorem Counts.run (h : Counts base tally builder) (items : List Item) :
    (∃ last, items.foldlM Builder.step builder = .ok last ∧ last.enclosing = []) ↔
      ∃ missing, (items.foldlM Tally.step tally).bind Tally.finish = some missing ∧ missing ≤ base := by
  induction items generalizing tally builder with
  | nil =>
    constructor
    · rintro ⟨last, ⟨⟩, closed⟩
      exact ⟨tally.missing, if_pos (h.enclosing.1 closed), h.missing⟩
    · rintro ⟨missing, finished, -⟩
      have closed : tally.enclosing = [] := by
        apply Classical.byContradiction
        intro open_
        have none : tally.finish = none := if_neg open_
        exact nomatch none.symm.trans finished
      exact ⟨builder, rfl, h.enclosing.2 closed⟩
  | cons item items ih =>
    rw [List.foldlM_cons, List.foldlM_cons]
    obtain ⟨counted, next, counts, reads, h⟩ | ⟨fails, short⟩ := h.step item
    · rw [counts, reads.step_eq]
      exact ih h
    · constructor
      · rintro ⟨last, run, -⟩
        obtain ⟨next, step, -⟩ := Run.bind_eq_ok_iff.1 run
        exact absurd (.of_step step) (fails next)
      rintro ⟨missing, run, le⟩
      obtain ⟨last, run, finished⟩ := Option.bind_eq_some_iff.1 run
      obtain ⟨counted, counts, run⟩ := Option.bind_eq_some_iff.1 run
      have more := missing_le_of_run run
      have less := short counted counts
      unfold finish at finished
      split at finished <;> cases finished
      omega

end Tally

namespace Forest

/-- Building succeeds when all items are read and no lambda is left open. -/
theorem exists_ofItems_iff {items : List Item} : (∃ forest, ofItems items = .ok forest) ↔
    ∃ last, items.foldlM Builder.step .initial = .ok last ∧ last.enclosing = [] := by
  constructor
  · rintro ⟨forest, h⟩
    obtain ⟨last, run, finish⟩ := Run.bind_eq_ok_iff.1 h
    refine ⟨last, run, ?_⟩
    unfold Builder.finish at finish
    split at finish
    · assumption
    · cases finish
  · rintro ⟨last, run, closed⟩
    exact ⟨_, Run.bind_eq_ok_iff.2 ⟨last, run, by simp only [Builder.finish, closed]; rfl⟩⟩

/-- Behind items that leave trees, others are built exactly when those are as many as they lack. -/
theorem exists_ofItems_append_iff {xs ys : List Item} {first : Forest} (hx : ofItems xs = .ok first) :
    (∃ forest, ofItems (xs ++ ys) = .ok forest) ↔
      ∃ missing ∈ shortage ys, missing ≤ first.trees.length := by
  have front := Builder.foldlM_of_ofItems hx .initial
  have counts : Tally.Counts first.trees.length .initial
      ⟨first.trees.reverse ++ [], [], Builder.initial.diagnostics ++ Item.reports xs⟩ :=
    ⟨Nat.zero_le _, .outermost (by simp [Tally.initial])⟩
  rw [exists_ofItems_iff]
  refine Iff.trans ?_ (counts.run ys)
  constructor
  · rintro ⟨last, run, closed⟩
    obtain ⟨middle, run, rest⟩ := Run.append_eq_ok_iff.1 run
    rw [front] at run
    cases run
    exact ⟨last, rest, closed⟩
  · rintro ⟨last, run, closed⟩
    exact ⟨last, Run.append_eq_ok_iff.2 ⟨_, front, run⟩, closed⟩

/-- Items are built with nothing before them exactly when they lack nothing. -/
theorem exists_ofItems_iff_shortage (items : List Item) :
    (∃ forest, ofItems items = .ok forest) ↔ shortage items = some 0 := by
  have nothing : ofItems [] = .ok ⟨[], []⟩ := rfl
  have alone : (∃ forest, ofItems ([] ++ items) = .ok forest) ↔ _ := exists_ofItems_append_iff nothing
  rw [List.nil_append] at alone
  rw [alone]
  constructor
  · rintro ⟨missing, found, le⟩
    rw [Option.mem_def.1 found, Nat.le_zero.1 le]
  · exact fun found => ⟨0, found, Nat.le_refl _⟩

/-- What an operator lacks inside of a lambda no operand outside of it can be. -/
example : shortage [.lambdaOpen, .token ⟨.number, "1", 1⟩, .token ⟨.operator, "+", 2⟩, .lambdaClose] =
    none := by decide

end Forest

end ExprCompiler
