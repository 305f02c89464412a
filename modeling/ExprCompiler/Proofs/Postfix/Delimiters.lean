import ExprCompiler.Proofs.Postfix.Yard

/-!
# The language of delimiters

Which lists of tokens have a postfix form depends on their delimiters, commas and separators alone:

* `Nested`: the delimiters are properly nested, by a grammar;
* `openAfter`, `Fits`: the delimiters open after some tokens, and what a token needs of the tokens
  before it;
* `nested_iff`: proper nesting, token by token;
* `Yard.Follows.reads`, `Yard.Follows.fails`: a yard keeps track of the open delimiters, and reads
  exactly the tokens that fit;
* `ofTokens_eq_ok_iff_nested`: the lists with a postfix form, and where the others are blamed.
-/

namespace ExprCompiler

/-- The pair that a kind closes. -/
def Kind.closes? : Kind → Option Delimiter
  | parenClose => some .paren
  | callClose => some .call
  | arrayClose => some .array
  | lambdaClose => some .lambda
  | _ => none

/-! ## The language -/

/-- Every opening side is closed by the closing side of its pair, with nested tokens between them. -/
inductive Nested : List Token → Prop
  | nil : Nested []
  | plain {token : Token} {tokens : List Token} : token.kind.opens? = none →
      token.kind.closes? = none → Nested tokens → Nested (token :: tokens)
  | pair {opening closing : Token} {delimiter : Delimiter} {inner rest : List Token} :
      opening.kind.opens? = some delimiter → closing.kind.closes? = some delimiter →
      Nested inner → Nested rest → Nested (opening :: (inner ++ closing :: rest))

/-- The open delimiters after one more token. -/
def openNext (opened : List Token) (token : Token) : List Token :=
  if token.kind.opens?.isSome then token :: opened
  else if token.kind.closes?.isSome then opened.tail
  else opened

/-- The delimiters that are open after the tokens, the innermost first. -/
def openAfter (tokens : List Token) : List Token :=
  tokens.foldl openNext []

/-- The kind of the last token that is neither a blank nor a separator. -/
def lastSignificant (tokens : List Token) : Option Kind :=
  ((tokens.filter fun token => token.kind.isSignificant).getLast?).map Token.kind

/-- What a token needs of the tokens before it. -/
structure Fits (before : List Token) (token : Token) : Prop where
  /-- A closing side closes the innermost open delimiter. -/
  closes : ∀ delimiter, token.kind.closes? = some delimiter →
    ∃ top ∈ (openAfter before).head?, top.kind.opens? = some delimiter
  /-- Separators stand between the statements of a lambda or of the program. -/
  separator : token.kind = .separator → ∀ top ∈ (openAfter before).head?, top.kind = .lambdaOpen
  /-- Commas stand inside of calls and arrays. -/
  comma : token.kind = .comma →
    ∃ opener ∈ openAfter before, opener.kind = .callOpen ∨ opener.kind = .arrayOpen
  /-- Commas do not stand directly in parentheses. -/
  commaParen : token.kind = .comma → ∀ top ∈ (openAfter before).head?, top.kind ≠ .parenOpen
  /-- Commas follow an element. -/
  commaElement : token.kind = .comma → ∀ kind ∈ lastSignificant before,
    kind ≠ .comma ∧ kind ≠ .callOpen ∧ kind ≠ .arrayOpen
  /-- An element follows every comma. -/
  bracketElement : token.kind = .callClose ∨ token.kind = .arrayClose →
    ∀ kind ∈ lastSignificant before, kind ≠ .comma

/-- Every token fits behind those before it. -/
def Fit (tokens : List Token) : Prop :=
  ∀ before token after, tokens = before ++ token :: after → Fits before token

/-- The offsets that a list of tokens can be blamed at: that of the first token that does not fit or
of the innermost delimiter open there, or that of the innermost delimiter left open at the end. -/
inductive Blamed (tokens : List Token) : Nat → Prop
  | token {before after : List Token} {token : Token} : tokens = before ++ token :: after →
      Fit before → ¬ Fits before token → Blamed tokens token.offset
  | innermost {before after : List Token} {token top : Token} : tokens = before ++ token :: after →
      Fit before → ¬ Fits before token → top ∈ (openAfter before).head? → Blamed tokens top.offset
  | unclosed {top : Token} : Fit tokens → top ∈ (openAfter tokens).head? → Blamed tokens top.offset

/-! ## Proper nesting, token by token -/

theorem Kind.closes?_of_opens? {kind : Kind} {delimiter : Delimiter}
    (h : kind.opens? = some delimiter) : kind.closes? = none := by
  rw [Kind.opens?_eq_some_iff.1 h]
  cases delimiter <;> rfl

theorem openNext_of_opens {opened : List Token} {token : Token} {delimiter : Delimiter}
    (h : token.kind.opens? = some delimiter) : openNext opened token = token :: opened := by
  simp [openNext, h]

theorem openNext_of_closes {opened : List Token} {token : Token} {delimiter : Delimiter}
    (h : token.kind.closes? = some delimiter) : openNext opened token = opened.tail := by
  cases opens : token.kind.opens? with
  | none => simp [openNext, opens, h]
  | some d => rw [Kind.closes?_of_opens? opens] at h; cases h

theorem openNext_of_plain {opened : List Token} {token : Token} (ho : token.kind.opens? = none)
    (hc : token.kind.closes? = none) : openNext opened token = opened := by
  simp [openNext, ho, hc]

theorem openAfter_concat (before : List Token) (token : Token) :
    openAfter (before ++ [token]) = openNext (openAfter before) token := by
  rw [openAfter, List.foldl_append]
  rfl

/-- Every closing side among the tokens closes the innermost delimiter open at it, when those of
`opened` are open at the beginning. -/
def Closing (opened tokens : List Token) : Prop :=
  ∀ before token after, tokens = before ++ token :: after →
    ∀ delimiter, token.kind.closes? = some delimiter →
      ∃ top ∈ (before.foldl openNext opened).head?, top.kind.opens? = some delimiter

theorem closing_cons_iff {opened tokens : List Token} {token : Token} :
    Closing opened (token :: tokens) ↔
      (∀ delimiter, token.kind.closes? = some delimiter →
        ∃ top ∈ opened.head?, top.kind.opens? = some delimiter) ∧
      Closing (openNext opened token) tokens := by
  constructor
  · intro h
    exact ⟨h [] token tokens rfl, fun before t after eq =>
      h (token :: before) t after (by rw [eq, List.cons_append])⟩
  · rintro ⟨head, tail⟩ before t after eq
    cases before with
    | nil =>
      obtain ⟨rfl, rfl⟩ := List.cons.inj eq
      exact head
    | cons b before =>
      rw [List.cons_append] at eq
      obtain ⟨rfl, rest⟩ := List.cons.inj eq
      exact tail before t after rest

theorem closing_append_iff {opened xs ys : List Token} :
    Closing opened (xs ++ ys) ↔ Closing opened xs ∧ Closing (xs.foldl openNext opened) ys := by
  induction xs generalizing opened with
  | nil => exact (and_iff_right (fun before t after eq => by simp at eq)).symm
  | cons x xs ih => rw [List.cons_append, closing_cons_iff, closing_cons_iff, ih, and_assoc]; rfl

/-- Nested tokens leave what is open as it was. -/
theorem Nested.closing {tokens : List Token} (h : Nested tokens) (opened : List Token) :
    Closing opened tokens ∧ tokens.foldl openNext opened = opened := by
  induction h generalizing opened with
  | nil => exact ⟨fun before t after eq => by simp at eq, rfl⟩
  | plain ho hc _ ih =>
    rw [closing_cons_iff, List.foldl_cons, openNext_of_plain ho hc]
    refine ⟨⟨fun d h => ?_, (ih opened).1⟩, (ih opened).2⟩
    rw [hc] at h; cases h
  | @pair opening closing _ inner rest ho hc _ _ ihi ihr =>
    obtain ⟨closingInner, foldInner⟩ := ihi (opening :: opened)
    rw [closing_cons_iff, closing_append_iff, closing_cons_iff, List.foldl_cons, List.foldl_append,
      List.foldl_cons, openNext_of_opens ho, foldInner, openNext_of_closes hc, List.tail_cons]
    refine ⟨⟨fun d h => ?_, closingInner, fun d h => ⟨opening, rfl, ?_⟩, (ihr opened).1⟩, (ihr opened).2⟩
    · rw [Kind.closes?_of_opens? ho] at h; cases h
    · rw [← h, hc, ho]

theorem Nested.append {xs ys : List Token} (hx : Nested xs) (hy : Nested ys) : Nested (xs ++ ys) := by
  induction hx with
  | nil => exact hy
  | plain ho hc _ ih => exact .plain ho hc ih
  | pair ho hc hi _ _ ihr =>
    rw [List.cons_append, List.append_assoc, List.cons_append]
    exact .pair ho hc hi ihr

/-- The tokens close the opened delimiters one after the other, with nested tokens before, between
and behind the closing sides. -/
def Unwinds : List Token → List Token → Prop
  | [], tokens => Nested tokens
  | top :: opened, tokens => ∃ inner closing rest delimiter, tokens = inner ++ closing :: rest ∧
      Nested inner ∧ top.kind.opens? = some delimiter ∧ closing.kind.closes? = some delimiter ∧
      Unwinds opened rest

theorem Unwinds.append {opened xs ys : List Token} (hx : Nested xs) (hy : Unwinds opened ys) :
    Unwinds opened (xs ++ ys) := by
  cases opened with
  | nil => exact hx.append hy
  | cons top opened =>
    obtain ⟨inner, closing, rest, d, rfl, nested, ho, hc, unwinds⟩ := hy
    exact ⟨xs ++ inner, closing, rest, d, by rw [List.append_assoc], hx.append nested, ho, hc, unwinds⟩

theorem Unwinds.of_closing {opened tokens : List Token} (h : Closing opened tokens)
    (closed : tokens.foldl openNext opened = []) : Unwinds opened tokens := by
  induction tokens generalizing opened with
  | nil =>
    rw [List.foldl_nil] at closed
    rw [closed]
    exact Nested.nil
  | cons token tokens ih =>
    obtain ⟨head, tail⟩ := closing_cons_iff.1 h
    have unwinds := ih tail closed
    cases ho : token.kind.opens? with
    | some d =>
      rw [openNext_of_opens ho] at unwinds
      obtain ⟨inner, closing, rest, d', rfl, nested, ho', hc, unwinds⟩ := unwinds
      have pair : Nested (token :: (inner ++ closing :: [])) := .pair ho' hc nested .nil
      have whole := unwinds.append pair
      rwa [List.cons_append, List.append_assoc, List.singleton_append] at whole
    | none =>
      cases hc : token.kind.closes? with
      | none =>
        rw [openNext_of_plain ho hc] at unwinds
        exact unwinds.append (.plain ho hc .nil)
      | some d =>
        rw [openNext_of_closes hc] at unwinds
        obtain ⟨top, mem, ho'⟩ := head d hc
        cases opened with
        | nil => cases mem
        | cons top' opened =>
          cases mem
          exact ⟨[], token, tokens, d, rfl, .nil, ho', hc, unwinds⟩

/-- Delimiters are properly nested when every closing side closes the innermost open delimiter and
none is left open. -/
theorem nested_iff {tokens : List Token} :
    Nested tokens ↔ Closing [] tokens ∧ openAfter tokens = [] :=
  ⟨fun h => h.closing [], fun ⟨closing, closed⟩ => Unwinds.of_closing closing closed⟩

/-! ## The yard keeps track of the open delimiters -/

theorem lastSignificant_concat (before : List Token) (token : Token) :
    lastSignificant (before ++ [token]) =
      if token.kind.isSignificant then some token.kind else lastSignificant before := by
  rw [lastSignificant, List.filter_append]
  cases h : token.kind.isSignificant <;> simp [h, lastSignificant]

theorem lastSignificant_append (xs ys : List Token) :
    lastSignificant (xs ++ ys) = (lastSignificant ys).or (lastSignificant xs) := by
  simp [lastSignificant, List.getLast?_append, Option.map_or]

theorem lastSignificant_eq_none_iff {tokens : List Token} :
    lastSignificant tokens = none ↔ (tokens.any fun token => token.kind.isSignificant) = false := by
  simp [lastSignificant]

theorem fit_concat_iff {tokens : List Token} {token : Token} :
    Fit (tokens ++ [token]) ↔ Fit tokens ∧ Fits tokens token := by
  constructor
  · intro h
    refine ⟨fun before t after eq => ?_, h tokens token [] rfl⟩
    exact h before t (after ++ [token]) (by rw [eq, List.append_assoc, List.cons_append])
  · rintro ⟨fit, fits⟩ before t after eq
    rcases List.eq_nil_or_concat after with rfl | ⟨after, last, rfl⟩
    · obtain ⟨rfl, last⟩ := List.append_inj' eq rfl
      obtain ⟨rfl, -⟩ := List.cons.inj last
      exact fits
    · rw [List.concat_eq_append, ← List.cons_append, ← List.append_assoc] at eq
      exact fit before t after (List.append_inj' eq rfl).1

namespace Yard

/-- The open delimiters among what waits in a yard. -/
def openers (operators : List Token) : List Token :=
  operators.filter fun token => !isPending token

theorem openers_append (xs ys : List Token) : openers (xs ++ ys) = openers xs ++ openers ys :=
  List.filter_append ..

theorem openers_of_pending {pending : List Token} (all : ∀ t ∈ pending, isPending t = true) :
    openers pending = [] :=
  List.filter_eq_nil_iff.2 fun t ht => by simp [all t ht]

theorem openers_cons_of_opens {token : Token} {operators : List Token} {delimiter : Delimiter}
    (h : token.kind.opens? = some delimiter) :
    openers (token :: operators) = token :: openers operators :=
  List.filter_cons_of_pos (by simp [isPending, h])

theorem openers_cons_of_pending {token : Token} {operators : List Token}
    (h : token.kind.opens? = none) : openers (token :: operators) = openers operators :=
  List.filter_cons_of_neg (by simp [isPending, h])

/-- The innermost open delimiter stands where the waiting operators are cut. -/
theorem head?_openers {pending below : List Token} (all : ∀ t ∈ pending, isPending t = true)
    (stop : ∀ top ∈ below.head?, ¬ isPending top = true) :
    (openers (pending ++ below)).head? = below.head? := by
  rw [openers_append, openers_of_pending all, List.nil_append]
  cases below with
  | nil => rfl
  | cons top below =>
    obtain ⟨_, opens⟩ := not_isPending_iff.1 (stop top rfl)
    rw [openers_cons_of_opens opens]
    rfl

theorem openers_dropWhile_yields (level : Nat) (operators : List Token) :
    openers (operators.dropWhile (yields level)) = openers operators := by
  have taken : openers (operators.takeWhile (yields level)) = [] := by
    refine openers_of_pending fun t ht => ?_
    exact isPending_of_yields (List.all_eq_true.1 List.all_takeWhile t ht)
  have split := openers_append (operators.takeWhile (yields level)) (operators.dropWhile (yields level))
  rw [List.takeWhile_append_dropWhile, taken, List.nil_append] at split
  exact split.symm

/-- The token opens a call or an array. -/
def isBracket (token : Token) : Bool :=
  token.kind = .callOpen || token.kind = .arrayOpen

/-- The yard keeps the delimiters that are open after the tokens read, a counter for each bracket
among them, and the kind of the last significant token. -/
structure Follows (yard : Yard) (before : List Token) : Prop where
  openers : openers yard.operators = openAfter before
  counts : yard.counts.length = ((openAfter before).filter isBracket).length
  last : yard.last = lastSignificant before

theorem Follows.empty : Follows .empty [] :=
  ⟨rfl, rfl, rfl⟩

/-- Remembering a kind keeps the last significant one. -/
theorem Follows.remember {yard next : Yard} {before : List Token} {token : Token}
    (h : yard.Follows before) (last : next.last = yard.last)
    (openers : Yard.openers next.operators = openNext (openAfter before) token)
    (counts : next.counts.length = ((openNext (openAfter before) token).filter isBracket).length) :
    (next.remember token.kind).Follows (before ++ [token]) := by
  rw [← openAfter_concat] at openers counts
  have last : (next.remember token.kind).last = lastSignificant (before ++ [token]) := by
    rw [lastSignificant_concat, ← h.last, ← last, Yard.remember]
    split <;> rfl
  unfold Yard.remember at last ⊢
  split at last
  · rename_i significant
    rw [if_pos significant]
    exact ⟨openers, counts, last⟩
  · rename_i significant
    rw [if_neg significant]
    exact ⟨openers, counts, last⟩

/-- The innermost open delimiter stands where the waiting operators are cut. -/
theorem Follows.head? {yard : Yard} {before pending below : List Token} (h : yard.Follows before)
    (split : yard.operators = pending ++ below) (all : ∀ t ∈ pending, isPending t = true)
    (stop : ∀ top ∈ below.head?, ¬ isPending top = true) :
    (openAfter before).head? = below.head? := by
  rw [← h.openers, split, head?_openers all stop]

/-- What is below a closed delimiter is what is open behind it. -/
theorem Follows.tail {yard : Yard} {before pending outer : List Token} {top : Token}
    {delimiter : Delimiter} (h : yard.Follows before)
    (split : yard.operators = pending ++ top :: outer) (all : ∀ t ∈ pending, isPending t = true)
    (opens : top.kind.opens? = some delimiter) : openAfter before = top :: Yard.openers outer := by
  rw [← h.openers, split, openers_append, openers_of_pending all, openers_cons_of_opens opens]
  rfl

/-- The delimiters do not change where only pending operators leave. -/
theorem Follows.below {yard : Yard} {before pending below : List Token} (h : yard.Follows before)
    (split : yard.operators = pending ++ below) (all : ∀ t ∈ pending, isPending t = true) :
    Yard.openers below = openAfter before := by
  rw [← h.openers, split, openers_append, openers_of_pending all, List.nil_append]

end Yard

/-- A token that is neither a closing side nor a separator nor a comma fits anywhere. -/
theorem Fits.of_kind {before : List Token} {token : Token} {kind : Kind} (eq : token.kind = kind)
    (plain : kind.closes? = none ∧ kind ≠ .separator ∧ kind ≠ .comma := by decide) :
    Fits before token where
  closes := fun d h => by rw [eq, plain.1] at h; cases h
  separator := fun h => absurd (eq.symm.trans h) plain.2.1
  comma := fun h => absurd (eq.symm.trans h) plain.2.2
  commaParen := fun h => absurd (eq.symm.trans h) plain.2.2
  commaElement := fun h => absurd (eq.symm.trans h) plain.2.2
  bracketElement := fun h => by
    rw [← eq] at plain
    rcases h with h | h <;> rw [h] at plain <;> cases plain.1

/-- A closing side other than a bracket's fits where its pair is the innermost. -/
theorem Fits.of_closes {before : List Token} {token top : Token} {delimiter : Delimiter}
    (closes : token.kind.closes? = some delimiter) (mem : top ∈ (openAfter before).head?)
    (opens : top.kind.opens? = some delimiter)
    (element : token.kind = .callClose ∨ token.kind = .arrayClose →
      ∀ kind ∈ lastSignificant before, kind ≠ .comma) : Fits before token where
  closes := fun d h => ⟨top, mem, by rw [opens, ← closes, h]⟩
  separator := fun h => by rw [h] at closes; cases closes
  comma := fun h => by rw [h] at closes; cases closes
  commaParen := fun h => by rw [h] at closes; cases closes
  commaElement := fun h => by rw [h] at closes; cases closes
  bracketElement := element

namespace Yard

/-- An operator comes to wait in front of what it does not make leave. -/
theorem addOperator_yard (yard : Yard) (token : Token) : ∃ kept,
    (yard.addOperator token).yard = { yard with operators := token :: kept } ∧
      openers kept = openers yard.operators := by
  unfold addOperator
  split
  · exact ⟨_, rfl, openers_dropWhile_yields _ _⟩
  · exact ⟨_, rfl, rfl⟩

section Follows

variable {yard next : Yard} {before pending outer : List Token} {token top : Token}

/-- There is a counter where a bracket is open. -/
theorem Follows.counts_ne_nil_iff (h : yard.Follows before) : yard.counts ≠ [] ↔
    ∃ opener ∈ openAfter before, opener.kind = .callOpen ∨ opener.kind = .arrayOpen := by
  rw [← List.length_pos_iff, h.counts, List.length_pos_iff, ne_eq, List.filter_eq_nil_iff]
  simp [isBracket, Decidable.or_iff_not_imp_left]

/-- A token that neither opens nor closes leaves the open delimiters and their counters. -/
theorem Follows.plain (h : yard.Follows before) {kind : Kind} (eq : token.kind = kind)
    (last : next.last = yard.last) (openers : Yard.openers next.operators = openAfter before)
    (counts : next.counts.length = yard.counts.length)
    (plain : kind.opens? = none ∧ kind.closes? = none := by decide) :
    (next.remember token.kind).Follows (before ++ [token]) := by
  rw [← eq] at plain
  refine h.remember last ?_ ?_ <;> rw [openNext_of_plain plain.1 plain.2]
  · exact openers
  · rw [counts, h.counts]

/-- An opening side is one more open delimiter, and a bracket one more counter. -/
theorem Follows.opened (h : yard.Follows before) {delimiter : Delimiter}
    (eq : token.kind = delimiter.opener) {counts : List Nat}
    (length : counts.length = yard.counts.length + if isBracket token then 1 else 0) :
    Fits before token ∧
      (Yard.remember ⟨token :: yard.operators, counts, yard.last⟩ token.kind).Follows
        (before ++ [token]) := by
  have opens := Kind.opens?_eq_some_iff.2 eq
  refine ⟨.of_kind eq (by cases delimiter <;> decide), h.remember rfl ?_ ?_⟩ <;>
  rw [openNext_of_opens opens]
  · rw [openers_cons_of_opens opens, h.openers]
  · rw [length, h.counts, List.filter_cons]
    split <;> rfl

/-- A closing side takes the innermost open delimiter away, and a bracket's its counter. -/
theorem Follows.closed (h : yard.Follows before) {delimiter : Delimiter}
    (closes : token.kind.closes? = some delimiter)
    (split : yard.operators = pending ++ top :: outer) (all : ∀ t ∈ pending, isPending t = true)
    (opens : top.kind.opens? = some delimiter) {counts : List Nat}
    (length : counts.length = yard.counts.length - if isBracket top then 1 else 0)
    (element : token.kind = .callClose ∨ token.kind = .arrayClose → yard.last ≠ some .comma) :
    Fits before token ∧
      (Yard.remember ⟨outer, counts, yard.last⟩ token.kind).Follows (before ++ [token]) := by
  have opened := h.tail split all opens
  refine ⟨.of_closes closes (by rw [opened]; rfl) opens fun bracket kind mem comma => ?_,
    h.remember rfl ?_ ?_⟩
  · rw [← h.last, comma] at mem
    exact element bracket mem
  · rw [openNext_of_closes closes, opened]
    rfl
  · rw [openNext_of_closes closes, length, h.counts, opened, List.filter_cons, List.tail_cons]
    split <;> rfl

end Follows

/-- A token that is read fits, and the yard follows it. -/
theorem Follows.reads {yard : Yard} {before : List Token} {token : Token} {move : Move}
    (h : yard.Follows before) (reads : yard.Reads token move) :
    Fits before token ∧ (move.yard.remember token.kind).Follows (before ++ [token]) := by
  cases reads with
  | data data =>
    cases kind : token.kind <;> simp only [kind, Kind.isData, Bool.false_eq_true] at data <;>
    exact ⟨.of_kind kind, kind ▸ h.plain kind rfl h.openers rfl⟩
  | blank kind => exact ⟨.of_kind kind, h.plain kind rfl h.openers rfl⟩
  | other kind => exact ⟨.of_kind kind, h.plain kind rfl h.openers rfl⟩
  | operator kind =>
    have pending : token.kind.opens? = none := by rw [kind]; rfl
    obtain ⟨kept, eq, openers⟩ := yard.addOperator_yard token
    rw [h.openers, ← openers_cons_of_pending pending] at openers
    rw [eq]
    exact ⟨.of_kind kind, h.plain kind rfl openers rfl⟩
  | unary kind =>
    have pending : token.kind.opens? = none := by rw [kind]; rfl
    exact ⟨.of_kind kind, h.plain kind rfl ((openers_cons_of_pending pending).trans h.openers) rfl⟩
  | separator kind split all stands =>
    refine ⟨⟨?_, ?_, ?_, ?_, ?_, ?_⟩, h.plain kind rfl (h.below split all) rfl⟩
    case refine_2 =>
      intro _ top mem
      rw [h.head? split all stands.not_isPending] at mem
      obtain ⟨d, hd, opens⟩ := stands top mem
      rw [List.mem_singleton.1 hd] at opens
      exact Kind.opens?_eq_some_iff.1 opens
    all_goals simp [kind, Kind.closes?]
  | comma kind last counts split all stands =>
    refine ⟨⟨?_, ?_, fun _ => ?_, ?_, ?_, ?_⟩, h.plain kind rfl (h.below split all) (by rw [counts]; rfl)⟩
    case refine_3 => exact h.counts_ne_nil_iff.1 (by rw [counts]; exact List.cons_ne_nil _ _)
    case refine_4 =>
      intro _ top mem paren
      rw [h.head? split all stands.not_isPending] at mem
      obtain ⟨d, hd, opens⟩ := stands top mem
      rw [paren] at opens
      cases opens
      simp at hd
    case refine_5 =>
      intro _ kind mem
      rw [← h.last] at mem
      rw [Option.mem_def.1 mem] at last
      simpa using last
    all_goals simp [kind, Kind.closes?]
  | parenOpen kind =>
    have opener : token.kind = Delimiter.paren.opener := kind
    exact h.opened opener (by simp [isBracket, kind])
  | lambdaOpen kind =>
    have opener : token.kind = Delimiter.lambda.opener := kind
    exact h.opened opener (by simp [isBracket, kind])
  | bracketOpen gathering kind =>
    exact h.opened kind (by cases gathering <;> simp [isBracket, kind, Gathering.delimiter, Delimiter.opener])
  | parenClose kind split all opens =>
    have top := Kind.opens?_eq_some_iff.1 opens
    exact h.closed (by rw [kind]; rfl) split all opens (by simp [isBracket, top, Delimiter.opener])
      (by simp [kind])
  | lambdaClose kind split all opens =>
    have top := Kind.opens?_eq_some_iff.1 opens
    exact h.closed (by rw [kind]; rfl) split all opens (by simp [isBracket, top, Delimiter.opener])
      (by simp [kind])
  | bracketClose gathering kind last split all opens =>
    have top := Kind.opens?_eq_some_iff.1 opens
    refine h.closed (by rw [kind]; cases gathering <;> rfl) split all opens ?_ fun _ => last
    cases gathering <;> simp [isBracket, top, Gathering.delimiter, Delimiter.opener]

/-- The error is at the token read or at the innermost delimiter open before it. -/
def At (before : List Token) (token : Token) (error : SyntaxError) : Prop :=
  ∃ offset, error.offset = some offset ∧
    (offset = token.offset ∨ ∃ top ∈ (openAfter before).head?, offset = top.offset)

section Fails

variable {yard : Yard} {before : List Token} {token : Token} {error : SyntaxError}

/-- Flushing fails at the innermost open delimiter. -/
theorem Follows.flush_fails (h : yard.Follows before) {within : List Delimiter}
    (failed : flush within yard.operators = .error error) :
    ∃ top ∈ (openAfter before).head?, ∃ delimiter, delimiter ∉ within ∧
      top.kind.opens? = some delimiter ∧ error.offset = some top.offset := by
  obtain ⟨pending, below, split, all, stop⟩ := exists_cut yard.operators
  rw [split, flush_eq_error_iff all stop] at failed
  obtain ⟨top, mem, delimiter, not, opens, rfl⟩ := failed
  rw [← h.head? split all stop] at mem
  exact ⟨top, mem, delimiter, not, opens, rfl⟩

/-- Closing fails where the innermost open delimiter is of another pair, or nothing is open. -/
theorem Follows.close_fails (h : yard.Follows before) {delimiter : Delimiter}
    (closes : token.kind.closes? = some delimiter)
    (failed : close delimiter token yard.operators = .error error) :
    ¬ Fits before token ∧ At before token error := by
  obtain ⟨pending, below, split, all, stop⟩ := exists_cut yard.operators
  have head := h.head? split all stop
  rw [split, close_eq_error_iff all stop] at failed
  obtain ⟨top, mem, d, other, opens, rfl⟩ | ⟨rfl, rfl⟩ := failed
  · rw [← head] at mem
    refine ⟨fun fits => ?_, _, rfl, .inr ⟨top, mem, rfl⟩⟩
    obtain ⟨top', mem', opens'⟩ := fits.closes delimiter closes
    cases Option.mem_unique mem mem'
    rw [opens] at opens'
    exact other (Option.some.inj opens')
  · refine ⟨fun fits => ?_, _, rfl, .inl rfl⟩
    obtain ⟨top, mem, -⟩ := fits.closes delimiter closes
    rw [head] at mem
    cases mem

/-- A comma fails directly in parentheses, outside of brackets and where no element precedes it. -/
theorem Follows.comma_fails (h : yard.Follows before) (kind : token.kind = .comma)
    (failed : yard.addComma token = .error error) : ¬ Fits before token ∧ At before token error := by
  unfold addComma at failed
  split at failed
  · rename_i bad
    cases failed
    refine ⟨fun fits => ?_, _, rfl, .inl rfl⟩
    have element := fits.commaElement kind
    rw [← h.last] at element
    rcases bad with last | last | last
    · exact (element _ last).1 rfl
    · exact (element _ last).2.1 rfl
    · exact (element _ last).2.2 rfl
  · split at failed
    · rename_i none
      cases failed
      exact ⟨fun fits => h.counts_ne_nil_iff.2 (fits.comma kind) none, _, rfl, .inl rfl⟩
    · obtain failed | ⟨_, _, moved⟩ := Run.bind_eq_error_iff.1 failed
      · obtain ⟨top, mem, delimiter, not, opens, offset⟩ := h.flush_fails failed
        refine ⟨fun fits => fits.commaParen kind top mem ?_, _, offset, .inr ⟨top, mem, rfl⟩⟩
        rw [Kind.opens?_eq_some_iff.1 opens]
        cases delimiter <;> simp at not
        rfl
      · cases moved

/-- A closing bracket fails behind a comma, or where it closes nothing. -/
theorem Follows.bracket_fails (h : yard.Follows before) {gathering : Gathering}
    (kind : token.kind = gathering.closer) (failed : yard.read token = .error error) :
    ¬ Fits before token ∧ At before token error := by
  rw [read_of_closer kind, closeBracket] at failed
  have bracket : token.kind = .callClose ∨ token.kind = .arrayClose := by
    rw [kind]; cases gathering <;> simp [Gathering.closer]
  split at failed
  · rename_i comma
    cases failed
    refine ⟨fun fits => ?_, _, rfl, .inl rfl⟩
    rw [h.last] at comma
    exact fits.bracketElement bracket _ comma rfl
  · obtain failed | ⟨_, _, moved⟩ := Run.bind_eq_error_iff.1 failed
    · exact h.close_fails (by rw [kind]; cases gathering <;> rfl) failed
    · cases moved

/-- A token that is not read does not fit, and the error is at that token or at the innermost open
delimiter. -/
theorem Follows.fails (h : yard.Follows before) (failed : yard.read token = .error error) :
    ¬ Fits before token ∧ At before token error := by
  have bracket (gathering : Gathering) (kind : token.kind = gathering.closer) :=
    h.bracket_fails kind failed
  cases kind : token.kind
  case callClose => exact bracket .call kind
  case arrayClose => exact bracket .array kind
  all_goals simp only [Yard.read, kind] at failed
  case comma => exact h.comma_fails kind failed
  case separator =>
    obtain failed | ⟨_, _, moved⟩ := Run.bind_eq_error_iff.1 failed
    · obtain ⟨top, mem, delimiter, not, opens, offset⟩ := h.flush_fails failed
      refine ⟨fun fits => not ?_, _, offset, .inr ⟨top, mem, rfl⟩⟩
      rw [fits.separator kind top mem] at opens
      cases opens
      exact List.mem_singleton_self _
    · cases moved
  case parenClose =>
    obtain failed | ⟨_, _, moved⟩ := Run.bind_eq_error_iff.1 failed
    · exact h.close_fails (by rw [kind]; rfl) failed
    · cases moved
  case lambdaClose =>
    obtain failed | ⟨_, _, moved⟩ := Run.bind_eq_error_iff.1 failed
    · exact h.close_fails (by rw [kind]; rfl) failed
    · cases moved
  all_goals cases failed

end Fails

end Yard

/-! ## Programs -/

/-- A yard follows the tokens that it has read, which all fit. -/
theorem Shunting.follows {tokens : List Token} {shunting : Shunting}
    (run : tokens.foldlM Shunting.step .initial = .ok shunting) :
    shunting.yard.Follows tokens ∧ Fit tokens := by
  have keep (before : List Token) (s : Shunting) (token : Token) (s' : Shunting)
      (h : s.yard.Follows before ∧ Fit before) (step : s.step token = .ok s') :
      s'.yard.Follows (before ++ [token]) ∧ Fit (before ++ [token]) := by
    obtain ⟨move, stepped, moved⟩ := Run.bind_eq_ok_iff.1 step
    cases moved
    obtain ⟨read, reads, rfl⟩ := Yard.step_eq_ok_iff.1 stepped
    obtain ⟨fits, follows⟩ := h.1.reads reads
    exact ⟨follows, fit_concat_iff.2 ⟨h.2, fits⟩⟩
  have fit : Fit [] := fun before t after eq => by simp at eq
  exact Run.invariant (P := fun before s => s.yard.Follows before ∧ Fit before) keep
    ⟨.empty, fit⟩ run

/-- Where there is no postfix form, a token that does not fit or a delimiter left open is blamed. -/
theorem Postfix.blamed_of_ofTokens {tokens : List Token} {error : SyntaxError}
    (h : Postfix.ofTokens tokens = .error error) :
    ∃ offset, error.offset = some offset ∧ Blamed tokens offset := by
  obtain failed | ⟨shunting, run, failed⟩ := Run.bind_eq_error_iff.1 h
  · obtain ⟨before, token, after, shunting, split, run, failed⟩ := Run.eq_error_iff.1 failed
    obtain ⟨follows, fit⟩ := Shunting.follows run
    obtain failed | ⟨_, _, moved⟩ := Run.bind_eq_error_iff.1 failed
    · obtain failed | ⟨_, _, moved⟩ := Run.bind_eq_error_iff.1 failed
      · obtain ⟨misfit, offset, eq, rfl | ⟨top, mem, rfl⟩⟩ := follows.fails failed
        · exact ⟨_, eq, .token split fit misfit⟩
        · exact ⟨_, eq, .innermost split fit misfit mem⟩
      · cases moved
    · cases moved
  · obtain ⟨follows, fit⟩ := Shunting.follows run
    obtain failed | ⟨_, _, moved⟩ := Run.bind_eq_error_iff.1 failed
    · obtain ⟨top, mem, -, -, -, offset⟩ := follows.flush_fails failed
      exact ⟨_, offset, .unclosed fit mem⟩
    · cases moved

/-- Tokens with a postfix form fit and are properly nested. -/
theorem Postfix.nested_of_ofTokens {tokens : List Token} {result : Postfix}
    (h : Postfix.ofTokens tokens = .ok result) : Nested tokens ∧ Fit tokens := by
  obtain ⟨shunting, run, finished⟩ := Run.bind_eq_ok_iff.1 h
  obtain ⟨follows, fit⟩ := Shunting.follows run
  obtain ⟨⟨items, below⟩, flushed, -⟩ := Run.bind_eq_ok_iff.1 finished
  obtain ⟨pending, split, all, stands, -⟩ := Yard.flush_eq_ok_iff.1 flushed
  refine ⟨nested_iff.2 ⟨fun before t after eq d closes => (fit before t after eq).closes d closes, ?_⟩, fit⟩
  -- Nothing may stand below the pending operators at the end.
  have head := follows.head? split all stands.not_isPending
  cases opened : openAfter tokens with
  | nil => rfl
  | cons top rest =>
    rw [opened] at head
    obtain ⟨_, mem, _⟩ := stands top head.symm
    cases mem

/-- Tokens have a postfix form exactly when their delimiters are properly nested and every separator,
comma and closing bracket stands where it may. Otherwise the error is at the first token that does
not fit, at the innermost delimiter open there, or at the innermost one left open at the end. -/
theorem ofTokens_eq_ok_iff_nested (tokens : List Token) :
    ((∃ result, Postfix.ofTokens tokens = .ok result) ↔ Nested tokens ∧ Fit tokens) ∧
      ∀ error, Postfix.ofTokens tokens = .error error →
        ∃ offset, error.offset = some offset ∧ Blamed tokens offset := by
  refine ⟨⟨fun ⟨result, h⟩ => Postfix.nested_of_ofTokens h, fun ⟨nested, fit⟩ => ?_⟩,
    fun error h => Postfix.blamed_of_ofTokens h⟩
  cases h : Postfix.ofTokens tokens with
  | ok result => exact ⟨result, rfl⟩
  | error error =>
    obtain ⟨offset, -, blamed⟩ := Postfix.blamed_of_ofTokens h
    cases blamed with
    | token split _ misfit => exact absurd (fit _ _ _ split) misfit
    | innermost split _ misfit _ => exact absurd (fit _ _ _ split) misfit
    | unclosed _ mem => rw [(nested_iff.1 nested).2] at mem; cases mem

end ExprCompiler
