import ExprCompiler.Proofs.Text.Quoted
import ExprCompiler.Proofs.Tree.Order
import ExprCompiler.Tree.Dump

/-!
# Reading dumps

A dump shows which tree it is of, if every call in the tree is of a leaf and has arguments. A call
without arguments is dumped like its callee, and the lines of a callee that is no leaf are not told
apart from those of the arguments.

* `Text.toList_trim`: what trimming leaves;
* `Token.display_inj`: a token is known by its text in dumps;
* `Tree.Shows`, `Tree.Shows.eq_tree`: a tree is known by its heading and the trees listed below it;
* `Tree.Shows.dump_eq`: a nested dump is the heading, and a line for each tree below it;
* `Tree.Legible.determined`: a nested dump shows the tree, and where its lines end;
* `display_injective_of_source`: trees of source texts are known by what is shown of them.
-/

namespace ExprCompiler

/-! ## Trimming -/

namespace Text

/-- There is no white space at either end, and something between. -/
structure IsTrimmed (cs : List Char) : Prop where
  head : ∃ c ∈ cs.head?, isSpace c = false
  last : ∃ c ∈ cs.getLast?, isSpace c = false

theorem IsTrimmed.append {xs ys : List Char} (h : IsTrimmed xs) (h' : IsTrimmed ys)
    (between : List Char) : IsTrimmed (xs ++ (between ++ ys)) := by
  obtain ⟨first, head, solid⟩ := h.head
  obtain ⟨last, tail, solid'⟩ := h'.last
  refine ⟨⟨first, ?_, solid⟩, ⟨last, ?_, solid'⟩⟩
  · rw [List.head?_append, Option.mem_def.1 head]
    rfl
  · rw [List.getLast?_append, List.getLast?_append, Option.mem_def.1 tail]
    rfl

/-- Trimming takes the white space off both ends, and nothing else. -/
theorem toList_trim {text : String} {before core after : List Char} (h : IsTrimmed core)
    (eq : text.toList = before ++ (core ++ after)) (all : ∀ c ∈ before, isSpace c = true)
    (all' : ∀ c ∈ after, isSpace c = true) : (trim text).toList = core := by
  obtain ⟨first, head, solid⟩ := h.head
  obtain ⟨last, tail, solid'⟩ := h.last
  have start : (trimStart text).toList = core ++ after := by
    rw [trimStart, String.toList_ofList, eq]
    refine (Run.span_append all ?_).2
    rw [List.head?_append, Option.mem_def.1 head]
    rintro _ ⟨⟩
    rw [solid]
    exact Bool.false_ne_true
  have ends : (core ++ after).reverse.dropWhile isSpace = core.reverse := by
    rw [List.reverse_append]
    refine (Run.span_append (fun c mem => all' c (List.mem_reverse.1 mem)) ?_).2
    rw [List.head?_reverse, Option.mem_def.1 tail]
    rintro _ ⟨⟩
    rw [solid']
    exact Bool.false_ne_true
  rw [trim, trimEnd, String.toList_ofList, start, ends, List.reverse_reverse]

end Text

/-! ## Tokens -/

/-- Every kind. -/
def Kind.all : List Kind :=
  [number, string, word, placeholder, operator, unaryOperator, whitespace, separator, callOpen,
    arrayOpen, callClose, arrayClose, parenOpen, parenClose, comma, lambdaOpen, lambdaClose, other]

theorem Kind.name_inj {kind kind' : Kind} (eq : kind.name = kind'.name) : kind = kind' := by
  have found (kind : Kind) : all.find? (fun named => named.name = kind.name) = some kind := by
    cases kind <;> decide +kernel
  have same := found kind
  rw [eq, found kind'] at same
  exact (Option.some.inj same).symm

/-- Neither the comma behind the name of a kind nor the end of a line is part of a name. -/
theorem Kind.not_mem_name (kind : Kind) : ',' ∉ kind.name.toList ∧ '\n' ∉ kind.name.toList := by
  cases kind <;> decide +kernel

namespace Token

theorem toList_display (token : Token) : token.display.toList =
    "Token(".toList ++ (token.kind.name.toList ++ (", ".toList ++ ((Text.quoted token.text).toList ++
      (", ".toList ++ (Nat.toDigits 10 token.offset ++ [')']))))) := by
  simp only [display, String.toList_append, Nat.toList_repr, List.append_assoc]
  rfl

/-- A token is known by its text in dumps. -/
theorem display_inj {token token' : Token} (eq : token.display = token'.display) : token = token' := by
  have eq := congrArg String.toList eq
  rw [toList_display, toList_display] at eq
  have comma (rest : List Char) : ∀ c ∈ (", ".toList ++ rest).head?, c = ',' := by
    rintro _ ⟨⟩
    rfl
  obtain ⟨kind, eq⟩ := Run.append_inj_of_not_mem (List.append_cancel_left eq) token.kind.not_mem_name.1
    (comma _) token'.kind.not_mem_name.1 (comma _)
  obtain ⟨text, eq⟩ := Text.quoted_append_inj (List.append_cancel_left eq)
  have digits := List.append_cancel_right (List.append_cancel_left eq)
  cases token
  cases token'
  cases Kind.name_inj (String.toList_inj.1 kind)
  cases text
  cases Text.toDigits_inj (by decide) (by decide) digits
  rfl

theorem newline_not_mem_display (token : Token) : '\n' ∉ token.display.toList := by
  rw [toList_display]
  simp only [List.mem_append, not_or]
  refine ⟨by decide, token.kind.not_mem_name.2, by decide, Text.newline_not_mem_quoted _, by decide,
    ?_, by decide⟩
  exact Text.not_mem_toDigits (by decide) fun _ => Nat.digitChar_ne _ (by decide)

theorem isTrimmed_display (token : Token) : Text.IsTrimmed token.display.toList := by
  rw [toList_display]
  refine ⟨⟨'T', rfl, by decide⟩, ⟨')', ?_, by decide⟩⟩
  simp only [List.getLast?_append]
  rfl

theorem trim_display (token : Token) : Text.trim token.display = token.display := by
  have whole : token.display.toList = [] ++ (token.display.toList ++ []) := by
    rw [List.nil_append, List.append_nil]
  exact String.toList_inj.1 (Text.toList_trim token.isTrimmed_display whole nofun nofun)

end Token

namespace Tree

/-! ## Headings -/

/-- What stands on the first line of a tree. -/
inductive Heading where
  | token (token : Token)
  | lambda
  | array

namespace Heading

/-- The text of a heading. -/
def text : Heading → String
  | .token t => t.display
  | .lambda => "lambda"
  | .array => "array"

/-- The tree with a heading and the trees listed below it. A token has the form that its kind asks for;
an operand with trees below it is called. -/
def tree : Heading → List Tree → Tree
  | .lambda, body => .lambda body
  | .array, elements => .array elements
  | .token t, children =>
    if t.kind.isData then if children = [] then .leaf t else .call (.leaf t) children
    else if t.kind = .operator then .operator t children
    else .unary t children

theorem text_inj {heading heading' : Heading} (eq : heading.text = heading'.text) :
    heading = heading' := by
  have capital {token : Token} {text : String} (small : text.toList.head? ≠ some 'T') :
      token.display ≠ text := by
    rintro rfl
    exact small (by rw [Token.toList_display]; rfl)
  cases heading <;> cases heading'
  case token.token => rw [Token.display_inj eq]
  case token.lambda | token.array => exact absurd eq (capital (by decide))
  case lambda.token | array.token => exact absurd eq.symm (capital (by decide))
  case lambda.lambda | array.array => rfl
  case lambda.array | array.lambda => exact absurd eq (by decide)

theorem newline_not_mem_text (heading : Heading) : '\n' ∉ heading.text.toList := by
  cases heading with
  | token token => exact token.newline_not_mem_display
  | lambda | array => decide

theorem isTrimmed_text (heading : Heading) : Text.IsTrimmed heading.text.toList := by
  cases heading with
  | token token => exact token.isTrimmed_display
  | lambda => exact ⟨⟨'l', by decide, by decide⟩, ⟨'a', by decide, by decide⟩⟩
  | array => exact ⟨⟨'a', by decide, by decide⟩, ⟨'y', by decide, by decide⟩⟩

end Heading

/-- The heading of a tree and the trees listed below it. Calls have to be of a leaf and with arguments. -/
inductive Shows : Tree → Heading → List Tree → Prop
  | leaf {token : Token} : token.kind.isData = true → Shows (.leaf token) (.token token) []
  | operator {op : Token} {operands : List Tree} : op.kind = .operator →
      Shows (.operator op operands) (.token op) operands
  | unary {op : Token} {operands : List Tree} : op.kind = .unaryOperator →
      Shows (.unary op operands) (.token op) operands
  | lambda {body : List Tree} : Shows (.lambda body) .lambda body
  | array {elements : List Tree} : Shows (.array elements) .array elements
  | call {token : Token} {arguments : List Tree} : token.kind.isData = true → arguments ≠ [] →
      Shows (.call (.leaf token) arguments) (.token token) arguments

/-- A tree is known by its heading and the trees listed below it. -/
theorem Shows.eq_tree {tree : Tree} {heading : Heading} {children : List Tree}
    (h : Shows tree heading children) : tree = heading.tree children := by
  cases h with
  | leaf data => rw [Heading.tree, if_pos data, if_pos rfl]
  | operator kind | unary kind =>
    simp only [Heading.tree, kind]
    rfl
  | lambda | array => rfl
  | call data some_ => rw [Heading.tree, if_pos data, if_neg some_]

/-! ## Lines -/

/-- What stands between the line before and the text of a tree that is listed at a depth. -/
def margin (depth : Nat) : List Char :=
  '\n' :: (List.replicate (2 * depth + 1) ' ' ++ ['-', '-', ' '])

/-- A tree's own lines, from its heading to its last line, without what is around them. -/
def dump (depth : Nat) (tree : Tree) : List Char :=
  (Text.trim (tree.render depth)).toList

/-- The lines of trees that are listed at a depth. -/
def dumpAll (depth : Nat) (trees : List Tree) : List Char :=
  trees.flatMap fun tree => margin depth ++ tree.dump (depth + 1)

theorem dumpAll_cons_append (depth : Nat) (tree : Tree) (trees : List Tree) (rest : List Char) :
    dumpAll depth (tree :: trees) ++ rest =
      margin depth ++ (tree.dump (depth + 1) ++ (dumpAll depth trees ++ rest)) := by
  rw [dumpAll, List.flatMap_cons, List.append_assoc, List.append_assoc]
  rfl

theorem margin_inj {depth depth' : Nat} {rest rest' : List Char}
    (eq : margin depth ++ rest = margin depth' ++ rest') : depth = depth' := by
  have blank (count : Nat) : ∀ c ∈ List.replicate count ' ', (c == ' ') = true := by
    intro c mem
    rw [List.eq_of_mem_replicate mem]
    rfl
  have dash (rest : List Char) : ∀ c ∈ (['-', '-', ' '] ++ rest).head?, ¬ (c == ' ') = true := by
    rintro _ ⟨⟩
    decide
  simp only [margin, List.cons_append, List.append_assoc, List.cons.injEq, true_and] at eq
  obtain ⟨same, -⟩ := Run.append_inj eq (blank _) (dash _) (blank _) (dash _)
  have length := congrArg List.length same
  rw [List.length_replicate, List.length_replicate] at length
  omega

/-- The newline at the end of a line can be read as the beginning of the next one. -/
theorem toList_lines (depth : Nat) (head : String) (children : List String) :
    (lines depth head children).toList = List.replicate (2 * depth) ' ' ++
      (head.toList ++ (children.flatMap fun child => margin depth ++ child.toList) ++ ['\n']) := by
  have moved : '\n' :: (children.flatMap fun child =>
        List.replicate (2 * depth) ' ' ++ ([' ', '-', '-', ' '] ++ (child.toList ++ ['\n']))) =
      (children.flatMap fun child => margin depth ++ child.toList) ++ ['\n'] := by
    induction children with
    | nil => rfl
    | cons child children ih =>
      rw [List.flatMap_cons, List.flatMap_cons, List.append_assoc (margin depth ++ _), ← ih]
      simp [margin, List.replicate_succ']
  rw [lines, String.toList_join, List.flatMap_cons, List.flatMap_map]
  simp only [indent, String.toList_append, String.toList_ofList, List.append_assoc, ← moved]
  rfl

theorem renderChildren_eq_map (depth : Nat) (trees : List Tree) :
    renderChildren depth trees = trees.map fun tree => Text.trim (tree.render (depth + 1)) := by
  induction trees with
  | nil => rfl
  | cons tree trees ih =>
    cases tree with
    | leaf token =>
      change token.display :: _ = Text.trim token.display :: _
      rw [token.trim_display, ih]
    | operator | unary | lambda | array | call => exact congrArg (_ :: ·) ih

/-- A tree is rendered as its heading and its lines, with at most an indentation before and a newline
behind them. -/
theorem Shows.toList_render {tree : Tree} {heading : Heading} {children : List Tree}
    (h : Shows tree heading children) (depth : Nat) :
    ∃ count ≤ 2 * depth, ∃ after, (after = [] ∨ after = ['\n']) ∧ (tree.render depth).toList =
      List.replicate count ' ' ++ (heading.text.toList ++ dumpAll depth children ++ after) := by
  have body : (children.map fun tree => Text.trim (tree.render (depth + 1))).flatMap
      (fun child => margin depth ++ child.toList) = dumpAll depth children := List.flatMap_map ..
  cases h with
  | leaf =>
    refine ⟨0, Nat.zero_le _, [], .inl rfl, ?_⟩
    simp [render, dumpAll, Heading.text]
  | operator | unary | lambda | array =>
    refine ⟨2 * depth, Nat.le_refl _, ['\n'], .inr rfl, ?_⟩
    rw [render, toList_lines, renderChildren_eq_map, body]
    rfl
  | @call token =>
    refine ⟨2 * depth, Nat.le_refl _, ['\n'], .inr rfl, ?_⟩
    rw [render, toList_lines, renderChildren_eq_map, body, render, token.trim_display]
    rfl

theorem isTrimmed_append_dumpAll {depth : Nat} {text : List Char} {trees : List Tree}
    (h : Text.IsTrimmed text) (all : ∀ tree ∈ trees, Text.IsTrimmed (tree.dump (depth + 1))) :
    Text.IsTrimmed (text ++ dumpAll depth trees) := by
  induction trees generalizing text with
  | nil => rwa [dumpAll, List.flatMap_nil, List.append_nil]
  | cons tree trees ih =>
    obtain ⟨head, tail⟩ := List.forall_mem_cons.1 all
    rw [dumpAll, List.flatMap_cons, ← List.append_assoc]
    exact ih (h.append head (margin depth)) tail

/-- Trimming takes nothing else than the indentation and the last newline. -/
theorem Shows.dump_eq_of_isTrimmed {tree : Tree} {heading : Heading} {children : List Tree} {depth : Nat}
    (h : Shows tree heading children)
    (all : ∀ child ∈ children, Text.IsTrimmed (child.dump (depth + 1))) :
    tree.dump depth = heading.text.toList ++ dumpAll depth children := by
  obtain ⟨count, -, after, form, eq⟩ := h.toList_render depth
  refine Text.toList_trim (isTrimmed_append_dumpAll heading.isTrimmed_text all) eq ?_ ?_
  · intro c mem
    rw [List.eq_of_mem_replicate mem]
    rfl
  · obtain rfl | rfl := form
    · exact nofun
    · exact List.forall_mem_singleton.2 rfl

/-! ## Trees that can be read back -/

/-- Trees whose calls, at every depth, are of a leaf and have arguments. -/
inductive Legible : Tree → Prop
  | of_shows {tree : Tree} {heading : Heading} {children : List Tree} : Shows tree heading children →
      (∀ child ∈ children, Legible child) → Legible tree

theorem Legible.isTrimmed {tree : Tree} (h : tree.Legible) (depth : Nat) :
    Text.IsTrimmed (tree.dump depth) := by
  induction h generalizing depth with
  | of_shows shown _ ih =>
    have all := fun child mem => ih child mem (depth + 1)
    rw [shown.dump_eq_of_isTrimmed all]
    exact isTrimmed_append_dumpAll (Heading.isTrimmed_text _) all

/-- A nested dump is the heading, and a line for each tree below it. -/
theorem Shows.dump_eq {tree : Tree} {heading : Heading} {children : List Tree}
    (h : Shows tree heading children) (legible : ∀ child ∈ children, child.Legible) (depth : Nat) :
    tree.dump depth = heading.text.toList ++ dumpAll depth children :=
  h.dump_eq_of_isTrimmed fun child mem => (legible child mem).isTrimmed (depth + 1)

/-- What can stand behind the lines of a tree at a depth: nothing, the newline of the last line, or a
tree that is listed further out. -/
inductive Ends (depth : Nat) : List Char → Prop
  | nil : Ends depth []
  | newline : Ends depth ['\n']
  | outer {outer : Nat} {rest : List Char} : outer < depth → Ends depth (margin outer ++ rest)

theorem Ends.head {depth : Nat} {rest : List Char} (h : Ends depth rest) :
    ∀ c ∈ rest.head?, c = '\n' := by
  cases h with
  | nil => exact nofun
  | newline | outer =>
    rintro _ ⟨⟩
    rfl

/-- No tree that is listed at the depth itself stands behind its lines. -/
theorem Ends.ne_margin {depth : Nat} {rest more : List Char} (h : Ends depth rest) :
    rest ≠ margin depth ++ more := by
  intro eq
  cases h with
  | nil | newline => cases eq
  | outer less =>
    have same := margin_inj eq
    omega

/-- Behind the first of the trees that are listed at a depth are the others. -/
theorem Ends.dumpAll {depth : Nat} {rest : List Char} (h : Ends depth rest) (trees : List Tree) :
    Ends (depth + 1) (dumpAll depth trees ++ rest) := by
  cases trees with
  | nil =>
    cases h with
    | nil => exact .nil
    | newline => exact .newline
    | outer less => exact .outer (Nat.lt_succ_of_lt less)
  | cons tree trees =>
    rw [dumpAll_cons_append]
    exact .outer (Nat.lt_succ_self depth)

/-- The dump of the tree at the depth shows the tree, and where its lines end. -/
def Determined (depth : Nat) (tree : Tree) : Prop :=
  ∀ tree' rest rest', tree'.Legible → Ends depth rest → Ends depth rest' →
    tree.dump depth ++ rest = tree'.dump depth ++ rest' → tree = tree' ∧ rest = rest'

/-- Trees that are listed at a depth are known by their lines, if each of them is. -/
theorem dumpAll_append_inj {depth : Nat} {trees trees' : List Tree} {rest rest' : List Char}
    (determined : ∀ tree ∈ trees, Determined (depth + 1) tree) (legible : ∀ tree ∈ trees', tree.Legible)
    (ends : Ends depth rest) (ends' : Ends depth rest')
    (eq : dumpAll depth trees ++ rest = dumpAll depth trees' ++ rest') : trees = trees' ∧ rest = rest' := by
  induction trees generalizing trees' with
  | nil =>
    cases trees' with
    | nil => exact ⟨rfl, eq⟩
    | cons tree' trees' =>
      rw [dumpAll_cons_append] at eq
      exact absurd eq ends.ne_margin
  | cons tree trees ih =>
    rw [dumpAll_cons_append] at eq
    cases trees' with
    | nil => exact absurd eq.symm ends'.ne_margin
    | cons tree' trees' =>
      rw [dumpAll_cons_append] at eq
      obtain ⟨head, tail⟩ := List.forall_mem_cons.1 determined
      obtain ⟨head', tail'⟩ := List.forall_mem_cons.1 legible
      obtain ⟨first, others⟩ := head tree' _ _ head' (ends.dumpAll trees) (ends'.dumpAll trees')
        (List.append_cancel_left eq)
      obtain ⟨same, rest⟩ := ih tail tail' others
      exact ⟨by rw [first, same], rest⟩

/-- The heading ends at the first newline, and the trees below it are known by their lines. -/
theorem Legible.determined {tree : Tree} (h : tree.Legible) (depth : Nat) : Determined depth tree := by
  induction h generalizing depth with
  | @of_shows tree heading children shown legible ih =>
    rintro tree' rest rest' ⟨shown', legible'⟩ ends ends' eq
    rw [shown.dump_eq legible, shown'.dump_eq legible', List.append_assoc, List.append_assoc] at eq
    obtain ⟨sameText, eq⟩ := Run.append_inj_of_not_mem eq (Heading.newline_not_mem_text _)
      (ends.dumpAll _).head (Heading.newline_not_mem_text _) (ends'.dumpAll _).head
    obtain ⟨rfl, same⟩ := dumpAll_append_inj (fun child mem => ih child mem _) legible' ends ends' eq
    rw [← Heading.text_inj (String.toList_inj.1 sameText)] at shown'
    exact ⟨shown.eq_tree.trans shown'.eq_tree.symm, same⟩

theorem Legible.display_inj {tree tree' : Tree} (h : tree.Legible) (h' : tree'.Legible)
    (eq : tree.display = tree'.display) : tree = tree' := by
  -- At depth zero there is no indentation, and at most a newline behind the lines.
  have form {tree : Tree} (h : tree.Legible) :
      ∃ after, Ends 0 after ∧ tree.display.toList = tree.dump 0 ++ after := by
    obtain ⟨shown, legible⟩ := h
    obtain ⟨count, none, after, form, eq⟩ := shown.toList_render 0
    rw [Nat.le_zero.1 none] at eq
    rw [shown.dump_eq legible]
    obtain rfl | rfl := form
    · exact ⟨[], .nil, eq⟩
    · exact ⟨['\n'], .newline, eq⟩
  obtain ⟨after, ends, shown⟩ := form h
  obtain ⟨after', ends', shown'⟩ := form h'
  exact (h.determined 0 tree' after after' h' ends ends' (by rw [← shown, ← shown', eq])).1

/-- The calls of a tree, at every depth, are of a leaf and have arguments. -/
def HasPlainCalls (tree : Tree) : Prop :=
  ∀ callee arguments, Part (.call callee arguments) tree →
    (∃ token, callee = .leaf token) ∧ arguments ≠ []

theorem HasPlainCalls.child {child tree : Tree} (h : tree.HasPlainCalls) (mem : child ∈ tree.children) :
    child.HasPlainCalls := fun _ _ part => h _ _ (.child mem part)

theorem Legible.of_wellFormed {tree : Tree} (wf : tree.WellFormed) (calls : tree.HasPlainCalls) :
    tree.Legible := by
  induction wf with
  | leaf data => exact .of_shows (.leaf data) (List.forall_mem_nil _)
  | operator kind _ _ ih =>
    exact .of_shows (.operator kind) fun child mem => ih child mem (calls.child mem)
  | unary kind _ _ ih =>
    exact .of_shows (.unary kind) fun child mem => ih child mem (calls.child mem)
  | lambda _ ih => exact .of_shows .lambda fun child mem => ih child mem (calls.child mem)
  | array _ ih => exact .of_shows .array fun child mem => ih child mem (calls.child mem)
  | call callee _ _ ih =>
    obtain ⟨⟨token, rfl⟩, some_⟩ := calls _ _ .self
    cases callee with
    | leaf data =>
      exact .of_shows (.call data some_) fun child mem =>
        ih child mem (calls.child (List.mem_cons_of_mem _ mem))

end Tree

/-- Two trees of source texts, each a statement or a part of one, are equal if they are shown alike and
every call in them is of a leaf and has arguments. -/
theorem display_injective_of_source {source source' : String} {forest forest' : Forest}
    {statement statement' tree tree' : Tree} (h : Forest.ofSource source = .ok forest)
    (h' : Forest.ofSource source' = .ok forest') (mem : statement ∈ forest.trees)
    (mem' : statement' ∈ forest'.trees) (part : Tree.Part tree statement)
    (part' : Tree.Part tree' statement') (calls : tree.HasPlainCalls) (calls' : tree'.HasPlainCalls)
    (eq : tree.display = tree'.display) : tree = tree' := by
  have legible {source : String} {forest : Forest} {statement tree : Tree}
      (h : Forest.ofSource source = .ok forest) (mem : statement ∈ forest.trees)
      (part : Tree.Part tree statement) (calls : tree.HasPlainCalls) : tree.Legible := by
    obtain ⟨shunted, built, -, builds, rfl⟩ := Forest.ofSource_eq_ok_iff.1 h
    exact .of_wellFormed (part.wellFormed ((Forest.flatten_of_ofItems builds).1 statement mem)) calls
  exact (legible h mem part calls).display_inj (legible h' mem' part' calls') eq

/-- The call in `f[1, -x]` and in `f[1, -x];` is shown alike, and is the same. -/
theorem display_injective_of_source_call :
    ∃ tree tree', Forest.ofSource "f[1, -x]" = .ok ⟨[tree], []⟩ ∧
      Forest.ofSource "f[1, -x];" = .ok ⟨[tree'], []⟩ ∧ tree.HasPlainCalls ∧ tree'.HasPlainCalls ∧
      tree.display = tree'.display ∧ tree = tree' := by
  let call : Tree := .call (.leaf ⟨.word, "f", 0⟩)
    [.leaf ⟨.number, "1", 2⟩, .unary ⟨.unaryOperator, "-", 5⟩ [.leaf ⟨.word, "x", 6⟩]]
  let tokens : List Token := [⟨.word, "f", 0⟩, ⟨.callOpen, "[", 1⟩, ⟨.number, "1", 2⟩, ⟨.comma, ",", 3⟩,
    ⟨.whitespace, " ", 4⟩, ⟨.unaryOperator, "-", 5⟩, ⟨.word, "x", 6⟩, ⟨.callClose, "]", 7⟩]
  have open_ : tokenize "f[1, -x]" = tokens := by decide +kernel
  have ended : tokenize "f[1, -x];" = tokens ++ [⟨.separator, ";", 8⟩] := by decide +kernel
  have forest : Forest.ofSource "f[1, -x]" = .ok ⟨[call], []⟩ :=
    Forest.ofSource_eq_ok_iff.2 ⟨_, _, by rw [open_]; rfl, rfl, rfl⟩
  have forest' : Forest.ofSource "f[1, -x];" = .ok ⟨[call], []⟩ :=
    Forest.ofSource_eq_ok_iff.2 ⟨_, _, by rw [ended]; rfl, rfl, rfl⟩
  have calls : call.HasPlainCalls := by
    intro callee arguments part
    change Tree.Part _ (.call _ _) at part
    obtain _ | ⟨mem, part⟩ := part
    · exact ⟨⟨_, rfl⟩, nofun⟩
    · simp only [Tree.children, List.mem_cons, List.not_mem_nil, or_false] at mem
      obtain rfl | rfl | rfl := mem
      · obtain _ | ⟨⟨⟩, _⟩ := part
      · obtain _ | ⟨⟨⟩, _⟩ := part
      · obtain _ | ⟨mem, part⟩ := part
        cases List.mem_singleton.1 mem
        obtain _ | ⟨⟨⟩, _⟩ := part
  exact ⟨call, call, forest, forest', calls, calls, rfl, display_injective_of_source forest forest'
    List.mem_cons_self List.mem_cons_self .self .self calls calls rfl⟩

-- Other calls are not told apart: below another tree one without arguments is shown like its callee, and
-- what a call is called with like more arguments of it.
example :
    let f : Tree := .leaf ⟨.word, "f", 0⟩
    let x : Tree := .leaf ⟨.word, "x", 2⟩
    let y : Tree := .leaf ⟨.word, "y", 5⟩
    (Tree.array [.call f []]).display = (Tree.array [f]).display ∧
      (Tree.call (.call f [x]) [y]).display = (Tree.call f [x, y]).display := by
  decide +kernel

end ExprCompiler
