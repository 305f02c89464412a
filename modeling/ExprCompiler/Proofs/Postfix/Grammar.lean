import ExprCompiler.Proofs.Postfix.Yard
import ExprCompiler.Proofs.Tree.Encoding

/-!
# The grammar of programs

`Grammar.Derives` is the grammar of expressions, with the trees that a derivation denotes, and
`Grammar.Program` that of programs, in which blanks stand anywhere. Putting a program into postfix
form and building trees from it finds the trees of its derivation:

* `Grammar.Binds.yields_left`, `Grammar.Binds.yields_of_lt`: which waiting operators leave when an
  operator comes, from the levels of the table;
* `Grammar.Reading`: what the yard does with the tokens of each category, from any yard that it can
  stand in;
* `Grammar.Derives.reading`: it does so for every derivation, by induction on it;
* `build_ofTokens_of_program`: every program has a postfix form, which is built into its trees.
-/

namespace ExprCompiler

namespace Grammar

/-! ## Derivations -/

/-- The categories of the grammar. -/
inductive Category where
  /-- An operand by itself, a group, an array or a lambda. -/
  | primary
  /-- A primary with argument lists behind it. -/
  | application
  /-- Operators before their operand. -/
  | unary
  /-- Operators of the level and above between operands. -/
  | binary (level : Nat)
  /-- Expressions with commas between them. -/
  | list
  /-- A list or nothing. -/
  | elements
  /-- Statements with separators between and around them. -/
  | body
deriving DecidableEq

/-- Any expression. -/
abbrev Category.expression : Category := .binary 0

/-- The tokens are of the category, and denote the trees: one tree where the category is one of
expressions. -/
inductive Derives : Category → List Token → List Tree → Prop
  | data {token : Token} : token.kind.isData = true → Derives .primary [token] [.leaf token]
  | group {opening closing : Token} {tokens : List Token} {tree : Tree} :
      opening.kind = .parenOpen → Derives .expression tokens [tree] → closing.kind = .parenClose →
      Derives .primary (opening :: (tokens ++ [closing])) [tree]
  | array {opening closing : Token} {tokens : List Token} {trees : List Tree} :
      opening.kind = .arrayOpen → Derives .elements tokens trees → closing.kind = .arrayClose →
      Derives .primary (opening :: (tokens ++ [closing])) [.array trees]
  | lambda {opening closing : Token} {tokens : List Token} {trees : List Tree} :
      opening.kind = .lambdaOpen → Derives .body tokens trees → closing.kind = .lambdaClose →
      Derives .primary (opening :: (tokens ++ [closing])) [.lambda trees]
  | primary {tokens : List Token} {tree : Tree} :
      Derives .primary tokens [tree] → Derives .application tokens [tree]
  | call {opening closing : Token} {called tokens : List Token} {callee : Tree}
      {trees : List Tree} : Derives .application called [callee] → opening.kind = .callOpen →
      Derives .elements tokens trees → closing.kind = .callClose →
      Derives .application (called ++ opening :: (tokens ++ [closing])) [.call callee trees]
  | application {tokens : List Token} {tree : Tree} :
      Derives .application tokens [tree] → Derives .unary tokens [tree]
  | unary {op : Token} {entry : Operator} {tokens : List Token} {tree : Tree} :
      op.kind = .unaryOperator → entry ∈ Operator.table → op.text = entry.symbol →
      Derives .unary tokens [tree] → Derives .unary (op :: tokens) [.unary op [tree]]
  | operand {level : Nat} {tokens : List Token} {tree : Tree} :
      Derives .unary tokens [tree] → Derives (.binary level) tokens [tree]
  | left {level : Nat} {op : Token} {entry : Operator} {xs ys : List Token} {x y : Tree} :
      op.kind = .operator → entry ∈ Operator.table → op.text = entry.symbol →
      entry.binding.associativity = .left → level ≤ entry.binding.level →
      Derives (.binary entry.binding.level) xs [x] →
      Derives (.binary (entry.binding.level + 1)) ys [y] →
      Derives (.binary level) (xs ++ op :: ys) [.operator op [x, y]]
  | right {level : Nat} {op : Token} {entry : Operator} {xs ys : List Token} {x y : Tree} :
      op.kind = .operator → entry ∈ Operator.table → op.text = entry.symbol →
      entry.binding.associativity = .right → level ≤ entry.binding.level →
      Derives (.binary (entry.binding.level + 1)) xs [x] →
      Derives (.binary entry.binding.level) ys [y] →
      Derives (.binary level) (xs ++ op :: ys) [.operator op [x, y]]
  | single {tokens : List Token} {tree : Tree} :
      Derives .expression tokens [tree] → Derives .list tokens [tree]
  | comma {comma : Token} {tokens rest : List Token} {tree : Tree} {trees : List Tree} :
      Derives .expression tokens [tree] → comma.kind = .comma → Derives .list rest trees →
      Derives .list (tokens ++ comma :: rest) (tree :: trees)
  | none : Derives .elements [] []
  | elements {tokens : List Token} {trees : List Tree} :
      Derives .list tokens trees → Derives .elements tokens trees
  | empty : Derives .body [] []
  | separator {separator : Token} {tokens : List Token} {trees : List Tree} :
      separator.kind = .separator → Derives .body tokens trees →
      Derives .body (separator :: tokens) trees
  | statement {tokens : List Token} {tree : Tree} :
      Derives .expression tokens [tree] → Derives .body tokens [tree]
  | statements {separator : Token} {tokens rest : List Token} {tree : Tree} {trees : List Tree} :
      Derives .expression tokens [tree] → separator.kind = .separator → Derives .body rest trees →
      Derives .body (tokens ++ separator :: rest) (tree :: trees)

/-- A program: its statements, with blanks anywhere. -/
def Program (tokens : List Token) (trees : List Tree) : Prop :=
  Derives .body (tokens.filter fun token => token.kind ≠ .whitespace) trees

/-- Derivations denote well-formed trees. -/
theorem Derives.wellFormed {category : Category} {tokens : List Token} {trees : List Tree}
    (h : Derives category tokens trees) : ∀ tree ∈ trees, tree.WellFormed := by
  induction h with
  | data data => simpa using Tree.WellFormed.leaf data
  | array _ _ _ ih => simpa using Tree.WellFormed.array ih
  | lambda _ _ _ ih => simpa using Tree.WellFormed.lambda ih
  | call _ _ _ _ ihc ih => simpa using Tree.WellFormed.call (ihc _ List.mem_cons_self) ih
  | unary kind _ _ _ ih => simpa using Tree.WellFormed.unary kind rfl ih
  | left kind _ _ _ _ _ _ ihx ihy | right kind _ _ _ _ _ _ ihx ihy =>
    have operands := List.forall_mem_append.2 ⟨ihx, ihy⟩
    simpa using Tree.WellFormed.operator kind rfl operands
  | comma _ _ _ iht ih | statements _ _ _ iht ih =>
    exact List.forall_mem_cons.2 ⟨iht _ List.mem_cons_self, ih⟩
  | none | empty => nofun
  | group _ _ _ ih => exact ih
  | separator _ _ ih => exact ih
  | primary _ ih | application _ ih | operand _ ih | single _ ih | elements _ ih | statement _ ih => exact ih

/-! ## Which operators leave -/

/-- An operator of the table is found by its symbol. -/
theorem find?_symbol {entry : Operator} (mem : entry ∈ Operator.table) :
    Operator.find? entry.symbol = some entry := by
  have all : ∀ entry ∈ Operator.table, Operator.find? entry.symbol = some entry := by decide
  exact all entry mem

/-- Operators of one level associate alike. -/
theorem associativity_eq {entry other : Operator} (mem : entry ∈ Operator.table)
    (mem' : other ∈ Operator.table) (level : entry.binding.level = other.binding.level) :
    entry.binding.associativity = other.binding.associativity := by
  have all : ∀ entry ∈ Operator.table, ∀ other ∈ Operator.table,
      entry.binding.level = other.binding.level →
      entry.binding.associativity = other.binding.associativity := by decide
  exact all entry mem other mem' level

/-- Operators between operands bind less tight than those before one. -/
theorem level_lt {entry : Operator} (mem : entry ∈ Operator.table) :
    entry.binding.level < Operator.unaryLevel := by
  have all : ∀ entry ∈ Operator.table, entry.binding.level < Operator.unaryLevel := by decide
  exact all entry mem

theorem binding?_operator {op : Token} {entry : Operator} (kind : op.kind = .operator)
    (mem : entry ∈ Operator.table) (text : op.text = entry.symbol) :
    op.binding? = some entry.binding := by
  simp [Token.binding?, kind, text, find?_symbol mem]

theorem binding?_unary {op : Token} {entry : Operator} (kind : op.kind = .unaryOperator)
    (mem : entry ∈ Operator.table) (text : op.text = entry.symbol) :
    op.binding? = some ⟨Operator.unaryLevel, entry.binding.associativity⟩ := by
  simp [Token.binding?, kind, text, find?_symbol mem]

/-- A waiting operator of the level or above, which associates as the table says. -/
structure Binds (level : Nat) (op : Token) : Prop where
  pending : Yard.isPending op = true
  binding : ∃ binding, op.binding? = some binding ∧ level ≤ binding.level ∧
    ∀ entry ∈ Operator.table, entry.binding.level = binding.level →
      entry.binding.associativity = binding.associativity

theorem Binds.operator {op : Token} {entry : Operator} {level : Nat} (kind : op.kind = .operator)
    (mem : entry ∈ Operator.table) (text : op.text = entry.symbol)
    (le : level ≤ entry.binding.level) : Binds level op where
  pending := by simp [Yard.isPending, kind, Kind.opens?]
  binding := ⟨_, binding?_operator kind mem text, le, fun _ mem' => associativity_eq mem' mem⟩

theorem Binds.unary {op : Token} {entry : Operator} (kind : op.kind = .unaryOperator)
    (mem : entry ∈ Operator.table) (text : op.text = entry.symbol) :
    Binds Operator.unaryLevel op where
  pending := by simp [Yard.isPending, kind, Kind.opens?]
  binding := ⟨_, binding?_unary kind mem text, Nat.le_refl _,
    fun _ mem' level => absurd level (Nat.ne_of_lt (level_lt mem'))⟩

theorem Binds.mono {level level' : Nat} {op : Token} (h : Binds level op) (le : level' ≤ level) :
    Binds level' op := by
  obtain ⟨pending, binding, eq, le', consistent⟩ := h
  exact ⟨pending, binding, eq, Nat.le_trans le le', consistent⟩

/-- Operators of a level that associates to the left leave for another of that level. -/
theorem Binds.yields_left {op : Token} {entry : Operator} (h : Binds entry.binding.level op)
    (mem : entry ∈ Operator.table) (left : entry.binding.associativity = .left) :
    Yard.yields entry.binding.level op = true := by
  obtain ⟨-, binding, eq, le, consistent⟩ := h
  obtain lt | level := Nat.lt_or_eq_of_le le
  · simp [Yard.yields, eq, lt]
  · have associativity := consistent entry mem level
    simp [Yard.yields, eq, ← level, ← associativity, left]

/-- Operators of a higher level leave for any operator. -/
theorem Binds.yields_of_lt {op : Token} {level : Nat} (h : Binds (level + 1) op) :
    Yard.yields level op = true := by
  obtain ⟨-, binding, eq, le, -⟩ := h
  have lt : level < binding.level := le
  simp [Yard.yields, eq, lt]

/-- What waits in a yard keeps waiting while operators of the level and above are read. -/
def Holds (level : Nat) (operators : List Token) : Prop :=
  ∀ top ∈ operators.head?, ∀ above, level ≤ above → ¬ Yard.yields above top = true

theorem Holds.mono {level level' : Nat} {operators : List Token} (h : Holds level operators)
    (le : level ≤ level') : Holds level' operators :=
  fun top mem above le' => h top mem above (Nat.le_trans le le')

/-- Open delimiters never leave. -/
theorem holds_of_stands {within : List Delimiter} {operators : List Token}
    (h : Yard.Stands within operators) (level : Nat) : Holds level operators := by
  intro top mem above _ yields
  obtain ⟨delimiter, -, opens⟩ := h top mem
  have kind := Kind.opens?_eq_some_iff.1 opens
  cases delimiter <;> simp [Yard.yields, Token.binding?, kind, Delimiter.opener] at yields

/-- An operator waits while operators that bind tighter are read. -/
theorem holds_left {op : Token} {entry : Operator} {operators : List Token}
    (kind : op.kind = .operator) (mem : entry ∈ Operator.table) (text : op.text = entry.symbol) :
    Holds (entry.binding.level + 1) (op :: operators) := by
  rintro _ ⟨⟩ above le
  simp [Yard.yields, binding?_operator kind mem text]
  omega

/-- An operator that associates to the right waits also while others of its level are read. -/
theorem holds_right {op : Token} {entry : Operator} {operators : List Token}
    (kind : op.kind = .operator) (mem : entry ∈ Operator.table) (text : op.text = entry.symbol)
    (right : entry.binding.associativity = .right) :
    Holds entry.binding.level (op :: operators) := by
  rintro _ ⟨⟩ above le
  simp [Yard.yields, binding?_operator kind mem text, right]
  omega

/-! ## What the yard does with each category -/

/-- From the yard, the tokens lead to the next one without a report, and the items leave. -/
def Leads (yard : Yard) (tokens : List Token) (next : Yard) (items : List Item) : Prop :=
  yard.Runs tokens { yard := next, items }

theorem Leads.append {first second third : Yard} {xs ys : List Token} {items more : List Item}
    (hx : Leads first xs second items) (hy : Leads second ys third more) :
    Leads first (xs ++ ys) third (items ++ more) :=
  Yard.Runs.append hx hy

theorem Leads.token {yard next : Yard} {token : Token} {items : List Item}
    (reads : yard.Reads token { yard := next, items })
    (significant : token.kind.isSignificant = true) :
    Leads yard [token] { next with last := some token.kind } items := by
  have step := Yard.step_eq_ok_iff.2 ⟨_, reads, rfl⟩
  simp only [Yard.remember, significant] at step
  exact .singleton step

section Token

variable {token opening : Token} {pending operators : List Token} {counts : List Nat}
  {last : Option Kind}

theorem leads_data (yard : Yard) (data : token.kind.isData = true) :
    Leads yard [token] { yard with last := some token.kind } [.token token] := by
  refine Leads.token (.data data) ?_
  cases kind : token.kind <;> simp only [kind, Kind.isData, Bool.false_eq_true] at data <;> rfl

theorem leads_unary (yard : Yard) (kind : token.kind = .unaryOperator) :
    Leads yard [token] ⟨token :: yard.operators, yard.counts, some .unaryOperator⟩ [] :=
  kind ▸ Leads.token (.unary kind) (by rw [kind]; rfl)

theorem leads_parenOpen (yard : Yard) (kind : token.kind = .parenOpen) :
    Leads yard [token] ⟨token :: yard.operators, yard.counts, some .parenOpen⟩ [] :=
  kind ▸ Leads.token (.parenOpen kind) (by rw [kind]; rfl)

theorem leads_bracketOpen (yard : Yard) (gathering : Gathering)
    (kind : token.kind = gathering.delimiter.opener) :
    Leads yard [token]
      ⟨token :: yard.operators, 1 :: yard.counts, some gathering.delimiter.opener⟩ [] :=
  kind ▸ Leads.token (.bracketOpen gathering kind) (by rw [kind]; cases gathering <;> rfl)

theorem leads_lambdaOpen (yard : Yard) (kind : token.kind = .lambdaOpen) :
    Leads yard [token] ⟨token :: yard.operators, yard.counts, some .lambdaOpen⟩ [.token token] :=
  kind ▸ Leads.token (.lambdaOpen kind) (by rw [kind]; rfl)

theorem leads_parenClose (all : ∀ op ∈ pending, Yard.isPending op = true)
    (opener : opening.kind = .parenOpen) (kind : token.kind = .parenClose) :
    Leads ⟨pending ++ opening :: operators, counts, last⟩ [token]
      ⟨operators, counts, some .parenClose⟩ (pending.map .token) :=
  kind ▸ Leads.token (.parenClose kind rfl all (by rw [opener]; rfl)) (by rw [kind]; rfl)

theorem leads_lambdaClose (all : ∀ op ∈ pending, Yard.isPending op = true)
    (opener : opening.kind = .lambdaOpen) (kind : token.kind = .lambdaClose) :
    Leads ⟨pending ++ opening :: operators, counts, last⟩ [token]
      ⟨operators, counts, some .lambdaClose⟩ (pending.map .token ++ [.token token]) :=
  kind ▸ Leads.token (.lambdaClose kind rfl all (by rw [opener]; rfl)) (by rw [kind]; rfl)

/-- A closing bracket gathers as many elements as were counted, or none right behind the opening one. -/
theorem leads_bracketClose {gathering : Gathering} {count : Nat}
    (all : ∀ op ∈ pending, Yard.isPending op = true)
    (opener : opening.kind = gathering.delimiter.opener) (kind : token.kind = gathering.closer)
    (comma : last ≠ some .comma) :
    Leads ⟨pending ++ opening :: operators, count :: counts, last⟩ [token]
      ⟨operators, counts, some gathering.closer⟩ (pending.map .token ++
        [.arity gathering (if last = some gathering.delimiter.opener then 0 else count)]) :=
  kind ▸ Leads.token (.bracketClose gathering kind comma rfl all (Kind.opens?_eq_some_iff.2 opener))
    (by rw [kind]; cases gathering <;> rfl)

theorem leads_comma {count : Nat} (kind : token.kind = .comma)
    (all : ∀ op ∈ pending, Yard.isPending op = true)
    (stands : Yard.Stands [.lambda, .array, .call] operators)
    (element : last ≠ some .comma ∧ last ≠ some .callOpen ∧ last ≠ some .arrayOpen) :
    Leads ⟨pending ++ operators, count :: counts, last⟩ [token]
      ⟨operators, (count + 1) :: counts, some .comma⟩ (pending.map .token) :=
  kind ▸ Leads.token (.comma kind element rfl rfl all stands) (by rw [kind]; rfl)

/-- A separator is not remembered. -/
theorem leads_separator (kind : token.kind = .separator)
    (all : ∀ op ∈ pending, Yard.isPending op = true) (stands : Yard.Stands [.lambda] operators) :
    Leads ⟨pending ++ operators, counts, last⟩ [token] ⟨operators, counts, last⟩
      (pending.map .token) := by
  have reads : Yard.Reads ⟨pending ++ operators, counts, last⟩ token _ :=
    .separator kind rfl all stands
  have step := Yard.step_eq_ok_iff.2 ⟨_, reads, rfl⟩
  simp only [Yard.remember, kind, Kind.isSignificant] at step
  exact .singleton step

/-- An operator comes in front of what holds, and what yields to it leaves. -/
theorem leads_operator {entry : Operator} (kind : token.kind = .operator)
    (mem : entry ∈ Operator.table) (text : token.text = entry.symbol)
    (all : ∀ op ∈ pending, Yard.yields entry.binding.level op = true)
    (holds : Holds entry.binding.level operators) :
    Leads ⟨pending ++ operators, counts, last⟩ [token] ⟨token :: operators, counts, some .operator⟩
      (pending.map .token) := by
  have span := Run.span_append all fun top mem => holds top mem _ (Nat.le_refl _)
  have reads : Yard.Reads ⟨pending ++ operators, counts, last⟩ token _ := .operator kind
  simp only [Yard.addOperator, binding?_operator kind mem text, span] at reads
  exact kind ▸ Leads.token reads (by rw [kind]; rfl)

theorem stands_cons (delimiter : Delimiter) {within : List Delimiter}
    (opener : opening.kind = delimiter.opener) (mem : delimiter ∈ within) :
    Yard.Stands within (opening :: operators) := by
  rintro _ ⟨⟩
  exact ⟨delimiter, mem, Kind.opens?_eq_some_iff.2 opener⟩

end Token

/-- The tokens leave the pending operators in front of what waited before. The items that leave, with
those operators behind them, encode the trees. -/
def Leaves (yard : Yard) (tokens : List Token) (trees : List Tree) (pending : List Token)
    (counts : List Nat) (last : Option Kind) : Prop :=
  ∃ items, Leads yard tokens ⟨pending ++ yard.operators, counts, last⟩ items ∧
    (items ++ pending.map Item.token).map Item.bare = Tree.flattenAll trees

/-- What the yard does with the tokens of a category that denote the trees. -/
def Reading : Category → List Token → List Tree → Prop
  | .primary, tokens, trees | .application, tokens, trees =>
    ∀ yard : Yard, ∃ kind : Kind, kind.isDataSignifier = true ∧
      Leaves yard tokens trees [] yard.counts (some kind)
  | .unary, tokens, trees =>
    ∀ yard : Yard, ∃ pending, ∃ kind : Kind, (∀ op ∈ pending, Binds Operator.unaryLevel op) ∧
      kind.isDataSignifier = true ∧ Leaves yard tokens trees pending yard.counts (some kind)
  | .binary level, tokens, trees =>
    level ≤ Operator.unaryLevel → ∀ yard : Yard, Holds level yard.operators →
      ∃ pending, ∃ kind : Kind, (∀ op ∈ pending, Binds level op) ∧ kind.isDataSignifier = true ∧
        Leaves yard tokens trees pending yard.counts (some kind)
  | .list, tokens, trees =>
    ∀ (yard : Yard) count counts, yard.counts = (count + 1) :: counts →
      Yard.Stands [.lambda, .array, .call] yard.operators →
      ∃ pending, ∃ kind : Kind, (∀ op ∈ pending, Yard.isPending op = true) ∧
        kind.isDataSignifier = true ∧
        Leaves yard tokens trees pending ((count + trees.length) :: counts) (some kind)
  | .elements, tokens, trees =>
    ∀ (gathering : Gathering) (opening closing : Token),
      opening.kind = gathering.delimiter.opener → closing.kind = gathering.closer →
      ∀ yard : Yard, ∃ items,
        Leads yard (opening :: (tokens ++ [closing]))
          ⟨yard.operators, yard.counts, some gathering.closer⟩ items ∧
        items.map Item.bare = Tree.flattenAll trees ++ [.arity gathering trees.length]
  | .body, tokens, trees =>
    ∀ yard : Yard, Yard.Stands [.lambda] yard.operators →
      ∃ pending last, (∀ op ∈ pending, Yard.isPending op = true) ∧
        Leaves yard tokens trees pending yard.counts last

/-- A token that makes the pending operators leave completes the encoding. -/
theorem Leaves.complete {yard next : Yard} {tokens : List Token} {trees : List Tree}
    {pending : List Token} {counts : List Nat} {last : Option Kind} {token : Token}
    {behind : List Item} (h : Leaves yard tokens trees pending counts last)
    (step : Leads ⟨pending ++ yard.operators, counts, last⟩ [token] next
      (pending.map .token ++ behind)) :
    ∃ items, Leads yard (tokens ++ [token]) next items ∧
      items.map Item.bare = Tree.flattenAll trees ++ behind.map Item.bare := by
  obtain ⟨items, leads, flat⟩ := h
  refine ⟨_, leads.append step, ?_⟩
  rw [← List.append_assoc, List.map_append, flat]

/-- A token that makes the pending operators leave, and nothing else. -/
theorem Leaves.flushed {yard next : Yard} {tokens : List Token} {trees : List Tree}
    {pending : List Token} {counts : List Nat} {last : Option Kind} {token : Token}
    (h : Leaves yard tokens trees pending counts last)
    (step : Leads ⟨pending ++ yard.operators, counts, last⟩ [token] next (pending.map .token)) :
    ∃ items, Leads yard (tokens ++ [token]) next items ∧
      items.map Item.bare = Tree.flattenAll trees := by
  rw [← List.append_nil (pending.map Item.token)] at step
  obtain ⟨items, leads, flat⟩ := h.complete step
  exact ⟨items, leads, by rw [flat, List.map_nil, List.append_nil]⟩

/-- What is read before is encoded before. -/
theorem Leaves.behind {yard mid : Yard} {xs ys : List Token} {front : List Item}
    {before trees : List Tree} {pending : List Token} {counts : List Nat} {last : Option Kind}
    (leads : Leads yard xs mid front) (operators : mid.operators = yard.operators)
    (flat : front.map Item.bare = Tree.flattenAll before)
    (h : Leaves mid ys trees pending counts last) :
    Leaves yard (xs ++ ys) (before ++ trees) pending counts last := by
  obtain ⟨items, leads', flat'⟩ := h
  rw [operators] at leads'
  refine ⟨_, leads.append leads', ?_⟩
  rw [List.append_assoc, List.map_append, flat, flat', Tree.flattenAll_append]

theorem bare_of_isData {token : Token} (h : token.kind.isData = true) :
    (Item.token token).bare = .token token := by
  cases kind : token.kind <;> simp only [kind, Kind.isData, Bool.false_eq_true] at h <;>
  simp only [Item.bare, kind]

/-- An operator that waits behind the others leaves behind them. -/
theorem map_bare_concat {op : Token} (h : op.kind.isOperator = true) (items : List Item)
    (pending : List Token) :
    (items ++ (pending ++ [op]).map Item.token).map Item.bare =
      (items ++ pending.map Item.token).map Item.bare ++ [.token op] := by
  have bare : (Item.token op).bare = .token op := by
    cases kind : op.kind <;> simp only [kind, Kind.isOperator, Bool.false_eq_true] at h <;>
    simp only [Item.bare, kind]
  simp [bare]

/-! ## One production after the other -/

theorem reading_data {token : Token} (data : token.kind.isData = true) :
    Reading .primary [token] [.leaf token] := by
  intro yard
  refine ⟨token.kind, ?_, [.token token], leads_data yard data, ?_⟩
  · cases kind : token.kind <;> simp only [kind, Kind.isData, Bool.false_eq_true] at data <;> rfl
  · simp only [List.map_nil, List.append_nil, List.map_cons, bare_of_isData data]
    rfl

theorem reading_group {opening closing : Token} {tokens : List Token} {tree : Tree}
    (opener : opening.kind = .parenOpen) (h : Reading .expression tokens [tree])
    (closer : closing.kind = .parenClose) :
    Reading .primary (opening :: (tokens ++ [closing])) [tree] := by
  intro yard
  have stands : Yard.Stands [.paren] (opening :: yard.operators) :=
    stands_cons .paren opener (List.mem_singleton_self _)
  obtain ⟨pending, kind, binds, -, leaves⟩ := h (Nat.zero_le _)
    ⟨opening :: yard.operators, yard.counts, some .parenOpen⟩ (holds_of_stands stands 0)
  obtain ⟨items, leads, flat⟩ := leaves.flushed
    (leads_parenClose (fun op mem => (binds op mem).pending) opener closer)
  exact ⟨.parenClose, rfl, items, (leads_parenOpen yard opener).append leads, by simpa using flat⟩

theorem reading_lambda {opening closing : Token} {tokens : List Token} {trees : List Tree}
    (opener : opening.kind = .lambdaOpen) (h : Reading .body tokens trees)
    (closer : closing.kind = .lambdaClose) :
    Reading .primary (opening :: (tokens ++ [closing])) [.lambda trees] := by
  intro yard
  obtain ⟨pending, last, all, leaves⟩ := h
    ⟨opening :: yard.operators, yard.counts, some .lambdaOpen⟩
    (stands_cons .lambda opener (List.mem_singleton_self _))
  obtain ⟨items, leads, flat⟩ := leaves.complete (leads_lambdaClose all opener closer)
  refine ⟨.lambdaClose, rfl, _, (leads_lambdaOpen yard opener).append leads, ?_⟩
  simp [flat, Item.bare, opener, closer, Tree.flattenAll_singleton, Tree.flatten]

theorem reading_none : Reading .elements [] [] := by
  intro gathering opening closing opener closer yard
  have comma : some gathering.delimiter.opener ≠ some Kind.comma := by cases gathering <;> decide
  have none : ∀ op ∈ ([] : List Token), Yard.isPending op = true := nofun
  have leads := (leads_bracketOpen yard gathering opener).append
    (leads_bracketClose none opener closer comma)
  exact ⟨_, leads, by simp [Tree.flattenAll, Item.bare]⟩

/-- The kinds that end an expression are none of those that begin a list or divide it. -/
theorem some_ne_of_isDataSignifier {kind : Kind} (h : kind.isDataSignifier = true) :
    some kind ≠ some .comma ∧ some kind ≠ some .callOpen ∧ some kind ≠ some .arrayOpen := by
  cases kind <;> simp_all [Kind.isDataSignifier, Kind.isData]

theorem reading_elements {tokens : List Token} {trees : List Tree}
    (h : Reading .list tokens trees) : Reading .elements tokens trees := by
  intro gathering opening closing opener closer yard
  obtain ⟨pending, kind, all, signifier, leaves⟩ := h
    ⟨opening :: yard.operators, 1 :: yard.counts, some gathering.delimiter.opener⟩ 0 yard.counts rfl
    (stands_cons gathering.delimiter opener (by cases gathering <;> decide))
  obtain ⟨comma, call, array⟩ := some_ne_of_isDataSignifier signifier
  obtain ⟨items, leads, flat⟩ := leaves.complete (leads_bracketClose all opener closer comma)
  have notOpener : some kind ≠ some gathering.delimiter.opener := by cases gathering <;> assumption
  rw [if_neg notOpener, Nat.zero_add] at flat
  exact ⟨items, (leads_bracketOpen yard gathering opener).append leads, flat⟩

theorem reading_array {opening closing : Token} {tokens : List Token} {trees : List Tree}
    (opener : opening.kind = .arrayOpen) (h : Reading .elements tokens trees)
    (closer : closing.kind = .arrayClose) :
    Reading .primary (opening :: (tokens ++ [closing])) [.array trees] := by
  intro yard
  obtain ⟨items, leads, flat⟩ := h .array opening closing opener closer yard
  refine ⟨.arrayClose, rfl, items, leads, ?_⟩
  rw [List.map_nil, List.append_nil, flat, Tree.flattenAll_singleton, Tree.flatten]

theorem reading_call {opening closing : Token} {called tokens : List Token} {callee : Tree}
    {trees : List Tree} (hc : Reading .application called [callee])
    (opener : opening.kind = .callOpen) (h : Reading .elements tokens trees)
    (closer : closing.kind = .callClose) :
    Reading .application (called ++ opening :: (tokens ++ [closing])) [.call callee trees] := by
  intro yard
  obtain ⟨kind, -, front, first, flat⟩ := hc yard
  obtain ⟨items, leads, flat'⟩ := h .call opening closing opener closer
    ⟨yard.operators, yard.counts, some kind⟩
  refine ⟨.callClose, rfl, _, first.append leads, ?_⟩
  rw [List.map_nil, List.append_nil, Tree.flattenAll_singleton] at flat
  rw [List.map_nil, List.append_nil, List.map_append, flat, flat', Tree.flattenAll_singleton,
    Tree.flatten]

theorem reading_unary {op : Token} {entry : Operator} {tokens : List Token} {tree : Tree}
    (kind : op.kind = .unaryOperator) (mem : entry ∈ Operator.table) (text : op.text = entry.symbol)
    (h : Reading .unary tokens [tree]) : Reading .unary (op :: tokens) [.unary op [tree]] := by
  intro yard
  obtain ⟨pending, last, binds, signifier, items, leads, flat⟩ := h
    ⟨op :: yard.operators, yard.counts, some .unaryOperator⟩
  refine ⟨pending ++ [op], last, ?_, signifier, items, ?_, ?_⟩
  · exact List.forall_mem_append.2 ⟨binds, by simpa using Binds.unary kind mem text⟩
  · rw [List.append_assoc]
    exact (leads_unary yard kind).append leads
  · rw [map_bare_concat (by rw [kind]; rfl), flat, Tree.flattenAll_singleton (.unary op [tree]),
      Tree.flatten]

/-- An operator between two operands that it takes, the first complete when it comes. -/
theorem reading_operator {level : Nat} {op : Token} {entry : Operator} {xs ys : List Token}
    {x y : Tree} {leftLevel rightLevel : Nat} (kind : op.kind = .operator)
    (mem : entry ∈ Operator.table) (text : op.text = entry.symbol)
    (le : level ≤ entry.binding.level) (leLeft : entry.binding.level ≤ leftLevel)
    (leRight : entry.binding.level ≤ rightLevel)
    (yields : ∀ t, Binds leftLevel t → Yard.yields entry.binding.level t = true)
    (holds : ∀ operators, Holds rightLevel (op :: operators))
    (leftBound : leftLevel ≤ Operator.unaryLevel) (rightBound : rightLevel ≤ Operator.unaryLevel)
    (hx : Reading (.binary leftLevel) xs [x]) (hy : Reading (.binary rightLevel) ys [y]) :
    Reading (.binary level) (xs ++ op :: ys) [.operator op [x, y]] := by
  intro _ yard holdsYard
  have holdsEntry := holdsYard.mono le
  obtain ⟨pending, last, binds, -, leaves⟩ := hx leftBound yard (holdsEntry.mono leLeft)
  obtain ⟨front, first, flat⟩ := leaves.flushed
    (leads_operator kind mem text (fun t ht => yields t (binds t ht)) holdsEntry)
  obtain ⟨waiting, last', binds', signifier, items, leads, flat'⟩ := hy rightBound
    ⟨op :: yard.operators, yard.counts, some .operator⟩ (holds _)
  refine ⟨waiting ++ [op], last', ?_, signifier, front ++ items, ?_, ?_⟩
  · refine List.forall_mem_append.2 ⟨fun t ht => (binds' t ht).mono (Nat.le_trans le leRight), ?_⟩
    simpa using Binds.operator kind mem text le
  · rw [List.append_assoc, List.append_cons]
    exact first.append leads
  · rw [map_bare_concat (by rw [kind]; rfl), List.append_assoc, List.map_append, flat, flat',
      ← Tree.flattenAll_append, Tree.flattenAll_singleton, Tree.flatten]
    rfl

theorem reading_comma {comma : Token} {tokens rest : List Token} {tree : Tree} {trees : List Tree}
    (h : Reading .expression tokens [tree]) (kind : comma.kind = .comma)
    (hr : Reading .list rest trees) : Reading .list (tokens ++ comma :: rest) (tree :: trees) := by
  intro yard count counts eq stands
  obtain ⟨pending, last, binds, signifier, leaves⟩ := h (Nat.zero_le _) yard (holds_of_stands stands 0)
  rw [eq] at leaves
  obtain ⟨front, first, flat⟩ := leaves.flushed (leads_comma kind
    (fun op mem => (binds op mem).pending) stands (some_ne_of_isDataSignifier signifier))
  obtain ⟨waiting, last', all, signifier', leaves'⟩ := hr
    ⟨yard.operators, (count + 1 + 1) :: counts, some .comma⟩ (count + 1) counts rfl stands
  refine ⟨waiting, last', all, signifier', ?_⟩
  rw [List.append_cons, List.length_cons, Nat.add_comm trees.length, ← Nat.add_assoc]
  exact Leaves.behind first rfl flat leaves'

theorem reading_single {tokens : List Token} {tree : Tree} (h : Reading .expression tokens [tree]) :
    Reading .list tokens [tree] := by
  intro yard count counts eq stands
  obtain ⟨pending, last, binds, signifier, leaves⟩ := h (Nat.zero_le _) yard (holds_of_stands stands 0)
  rw [eq] at leaves
  exact ⟨pending, last, fun op mem => (binds op mem).pending, signifier, leaves⟩

theorem reading_separator {separator : Token} {tokens : List Token} {trees : List Tree}
    (kind : separator.kind = .separator) (h : Reading .body tokens trees) :
    Reading .body (separator :: tokens) trees := by
  intro yard stands
  obtain ⟨pending, last, all, leaves⟩ := h yard stands
  have none : ∀ op ∈ ([] : List Token), Yard.isPending op = true := nofun
  have first : Leads yard [separator] yard [] := leads_separator kind none stands
  have flat : ([] : List Item).map Item.bare = Tree.flattenAll [] := rfl
  exact ⟨pending, last, all, Leaves.behind first rfl flat leaves⟩

theorem reading_statement {tokens : List Token} {tree : Tree}
    (h : Reading .expression tokens [tree]) : Reading .body tokens [tree] := by
  intro yard stands
  obtain ⟨pending, last, binds, -, leaves⟩ := h (Nat.zero_le _) yard (holds_of_stands stands 0)
  exact ⟨pending, some last, fun op mem => (binds op mem).pending, leaves⟩

theorem reading_statements {separator : Token} {tokens rest : List Token} {tree : Tree}
    {trees : List Tree} (h : Reading .expression tokens [tree])
    (kind : separator.kind = .separator) (hr : Reading .body rest trees) :
    Reading .body (tokens ++ separator :: rest) (tree :: trees) := by
  intro yard stands
  obtain ⟨pending, last, binds, -, leaves⟩ := h (Nat.zero_le _) yard (holds_of_stands stands 0)
  obtain ⟨front, first, flat⟩ := leaves.flushed
    (leads_separator kind (fun op mem => (binds op mem).pending) stands)
  obtain ⟨waiting, last', all, leaves'⟩ := hr ⟨yard.operators, yard.counts, some last⟩ stands
  refine ⟨waiting, last', all, ?_⟩
  rw [List.append_cons]
  exact Leaves.behind first rfl flat leaves'

/-- The yard reads what a derivation derives as the category says. -/
theorem Derives.reading {category : Category} {tokens : List Token} {trees : List Tree}
    (h : Derives category tokens trees) : Reading category tokens trees := by
  induction h with
  | data data => exact reading_data data
  | group opener _ closer ih => exact reading_group opener ih closer
  | array opener _ closer ih => exact reading_array opener ih closer
  | lambda opener _ closer ih => exact reading_lambda opener ih closer
  | primary _ ih => exact ih
  | call _ opener _ closer ihc ih => exact reading_call ihc opener ih closer
  | application _ ih =>
    intro yard
    obtain ⟨kind, signifier, leaves⟩ := ih yard
    exact ⟨[], kind, nofun, signifier, leaves⟩
  | unary kind mem text _ ih => exact reading_unary kind mem text ih
  | operand _ ih =>
    intro le yard _
    obtain ⟨pending, kind, binds, rest⟩ := ih yard
    exact ⟨pending, kind, fun op mem => (binds op mem).mono le, rest⟩
  -- Operators of the same level stand in the left operand and leave, or stand in the right one and
  -- find the operator still waiting, by how it associates.
  | left kind mem text left le _ _ ihx ihy =>
    exact reading_operator kind mem text le (Nat.le_refl _) (Nat.le_succ _)
      (fun t binds => binds.yields_left mem left) (fun _ => holds_left kind mem text)
      (Nat.le_of_lt (level_lt mem)) (level_lt mem) ihx ihy
  | right kind mem text right le _ _ ihx ihy =>
    exact reading_operator kind mem text le (Nat.le_succ _) (Nat.le_refl _)
      (fun t binds => binds.yields_of_lt) (fun _ => holds_right kind mem text right)
      (level_lt mem) (Nat.le_of_lt (level_lt mem)) ihx ihy
  | single _ ih => exact reading_single ih
  | comma _ kind _ iht ih => exact reading_comma iht kind ih
  | none => exact reading_none
  | elements _ ih => exact reading_elements ih
  | empty => exact fun yard _ => ⟨[], yard.last, nofun, [], .nil _, rfl⟩
  | separator kind _ ih => exact reading_separator kind ih
  | statement _ ih => exact reading_statement ih
  | statements _ kind _ iht ih => exact reading_statements iht kind ih

/-! ## Whole programs -/

/-- Blanks leave the yard as it is. -/
theorem runs_of_filter {yard : Yard} {tokens : List Token} {move : Yard.Move}
    (h : yard.Runs (tokens.filter fun token => token.kind ≠ .whitespace) move) :
    yard.Runs tokens move := by
  induction tokens generalizing yard move with
  | nil => exact h
  | cons token tokens ih =>
    by_cases blank : token.kind = .whitespace
    · rw [List.filter_cons_of_neg (by simpa using blank)] at h
      have step : yard.step token = .ok { yard } := by
        rw [Yard.step_eq_ok_iff]
        exact ⟨_, .blank blank, by simp [Yard.remember, blank, Kind.isSignificant]⟩
      exact .cons step (ih h)
    · rw [List.filter_cons_of_pos (by simpa using blank)] at h
      cases h with
      | cons step rest => exact .cons step (ih rest)

theorem isHandled_bare (item : Item) : item.bare.isHandled = item.isHandled := by
  cases item with
  | arity => rfl
  | token token => cases kind : token.kind <;> simp [Item.bare, Item.isHandled, kind] <;> rfl

/-- The encoding of a well-formed tree has no item without handling. -/
theorem isHandled_flatten {tree : Tree} (h : tree.WellFormed) :
    ∀ item ∈ tree.flatten, item.isHandled = true := by
  induction h with
  | leaf data => simp [Tree.flatten, Item.isHandled, data]
  | operator kind _ _ ih | unary kind _ _ ih =>
    simp only [Tree.flatten, Tree.flattenAll_eq_flatMap]
    grind [Item.isHandled, Kind.isOperator]
  | lambda _ ih =>
    simp only [Tree.flatten, Tree.flattenAll_eq_flatMap]
    grind [Item.isHandled, Item.lambdaOpen, Item.lambdaClose]
  | array _ ih =>
    simp only [Tree.flatten, Tree.flattenAll_eq_flatMap]
    grind [Item.isHandled]
  | call _ _ ihc ih =>
    simp only [Tree.flatten, Tree.flattenAll_eq_flatMap]
    grind [Item.isHandled]

/-- Items that encode well-formed trees are built into them without a report. -/
theorem ofItems_of_bare {items : List Item} {trees : List Tree}
    (wf : ∀ tree ∈ trees, tree.WellFormed) (flat : items.map Item.bare = Tree.flattenAll trees) :
    Forest.ofItems items = .ok ⟨trees, []⟩ := by
  have handled : ∀ item ∈ items, item.isHandled = true := by
    intro item mem
    have bare : item.bare ∈ Tree.flattenAll trees := flat ▸ List.mem_map_of_mem mem
    obtain ⟨tree, ht, hi⟩ := List.mem_flatMap.1 (Tree.flattenAll_eq_flatMap trees ▸ bare)
    rw [← isHandled_bare item]
    exact isHandled_flatten (wf tree ht) _ hi
  have silent : Item.reports items = [] := by
    simp only [Item.reports, List.map_eq_nil_iff, List.filterMap_eq_nil_iff]
    intro item mem
    rw [Item.unhandled?, handled item mem, if_pos rfl]
  rw [← List.filter_eq_self.2 handled] at flat
  rw [Forest.ofItems_of_flatten wf flat, silent]

end Grammar

/-- A program has a postfix form, which is built into the trees of its derivation, and nothing is
reported on the way. -/
theorem build_ofTokens_of_program {tokens : List Token} {trees : List Tree}
    (h : Grammar.Program tokens trees) :
    ∃ items, Postfix.ofTokens tokens = .ok ⟨items, []⟩ ∧ Forest.ofItems items = .ok ⟨trees, []⟩ := by
  obtain ⟨pending, last, all, items, leads, flat⟩ := h.reading Yard.empty nofun
  have flush : Yard.flush [] (pending ++ []) = .ok (pending.map .token, []) :=
    Yard.flush_eq_ok_iff.2 ⟨pending, rfl, all, nofun, rfl⟩
  have postfixed := Postfix.ofTokens_eq_ok_iff.2 ⟨_, _, _, Grammar.runs_of_filter leads, flush, rfl⟩
  exact ⟨_, postfixed, Grammar.ofItems_of_bare h.wellFormed flat⟩

/-- The program `-f[(a + b) * 2] ;{c}`. -/
theorem build_ofTokens_of_program_call_lambda :
    let minus : Token := ⟨.unaryOperator, "-", 0⟩
    let f : Token := ⟨.word, "f", 1⟩
    let a : Token := ⟨.word, "a", 4⟩
    let plus : Token := ⟨.operator, "+", 6⟩
    let b : Token := ⟨.word, "b", 8⟩
    let times : Token := ⟨.operator, "*", 11⟩
    let two : Token := ⟨.number, "2", 13⟩
    let c : Token := ⟨.word, "c", 18⟩
    ∃ items,
      Postfix.ofTokens [minus, f, ⟨.callOpen, "[", 2⟩, ⟨.parenOpen, "(", 3⟩, a,
        ⟨.whitespace, " ", 5⟩, plus, ⟨.whitespace, " ", 7⟩, b, ⟨.parenClose, ")", 9⟩,
        ⟨.whitespace, " ", 10⟩, times, ⟨.whitespace, " ", 12⟩, two, ⟨.callClose, "]", 14⟩,
        ⟨.whitespace, " ", 15⟩, ⟨.separator, ";", 16⟩, ⟨.lambdaOpen, "\x7b", 17⟩, c,
        ⟨.lambdaClose, "\x7d", 19⟩] = .ok ⟨items, []⟩ ∧
      Forest.ofItems items = .ok ⟨[.unary minus [.call (.leaf f)
        [.operator times [.operator plus [.leaf a, .leaf b], .leaf two]]], .lambda [.leaf c]], []⟩ := by
  intro minus f a plus b times two c
  have plusMem : (⟨"+", 50, .left⟩ : Operator) ∈ Operator.table := by decide
  have timesMem : (⟨"*", 60, .left⟩ : Operator) ∈ Operator.table := by decide
  have minusMem : (⟨"-", 50, .left⟩ : Operator) ∈ Operator.table := by decide
  have operand (token : Token) (level : Nat) (data : token.kind.isData = true) :
      Grammar.Derives (.binary level) [token] [.leaf token] :=
    .operand (.application (.primary (.data data)))
  have sum : Grammar.Derives .expression [a, plus, b] _ :=
    .left rfl plusMem rfl rfl (Nat.zero_le _) (operand a _ rfl) (operand b _ rfl)
  have group : Grammar.Derives .primary [⟨.parenOpen, "(", 3⟩, a, plus, b, ⟨.parenClose, ")", 9⟩] _ :=
    .group rfl sum rfl
  have product : Grammar.Derives .expression [⟨.parenOpen, "(", 3⟩, a, plus, b,
      ⟨.parenClose, ")", 9⟩, times, two] _ :=
    .left rfl timesMem rfl rfl (Nat.zero_le _) (.operand (.application (.primary group)))
      (operand two _ rfl)
  have call : Grammar.Derives .application [f, ⟨.callOpen, "[", 2⟩, ⟨.parenOpen, "(", 3⟩, a, plus,
      b, ⟨.parenClose, ")", 9⟩, times, two, ⟨.callClose, "]", 14⟩] _ :=
    .call (.primary (.data rfl)) rfl (.elements (.single product)) rfl
  have lambda : Grammar.Derives .primary [⟨.lambdaOpen, "\x7b", 17⟩, c, ⟨.lambdaClose, "\x7d", 19⟩] _ :=
    .lambda rfl (.statement (operand c _ rfl)) rfl
  exact build_ofTokens_of_program (.statements (.operand (.unary rfl minusMem rfl (.application call)))
    rfl (.statement (.operand (.application (.primary lambda)))))

end ExprCompiler
