import ExprCompiler.Proofs.Postfix.Conservation

/-!
# The arrangement of a postfix form

Where the items of a postfix form come from, position by position:

* `Becomes`, `Spans`: what becomes of the token at a position, and the pairs of delimiters;
* `Arranges`: items with the positions that they come from. A token is put in front of the operators
  that go on waiting (`Arranges.insert`), which keeps the order of all others;
* `Placing.step`, `Placing.runs`: the items that have left a yard, with those that wait in it, are an
  arrangement of the tokens read;
* `ofTokens_conserves`: a postfix form is an arrangement of its tokens.
-/

namespace ExprCompiler

/-! ## Positions -/

/-- The pair of delimiters that is opened at the first position and closed at the last one. -/
inductive Spans (tokens : List Token) (delimiter : Delimiter) : Nat → Nat → Prop
  | intro {before inner after : List Token} {opening closing : Token} :
      tokens = before ++ opening :: (inner ++ closing :: after) →
      opening.kind.opens? = some delimiter → closing.kind.closes? = some delimiter → Nested inner →
      Spans tokens delimiter before.length (before ++ opening :: inner).length

/-- What becomes of the token at a position: the token itself, or a marker that holds how many
elements are written in the pair of brackets that the token closes. -/
inductive Becomes (tokens : List Token) : Nat → Item → Prop
  | token {before after : List Token} {token : Token} : tokens = before ++ token :: after →
      (Item.token token).isHandled = true → Becomes tokens before.length (.token token)
  | marker {before inner after : List Token} {opening closing : Token} {gathering : Gathering} :
      tokens = before ++ opening :: (inner ++ closing :: after) →
      opening.kind = gathering.delimiter.opener → closing.kind = gathering.closer → Nested inner →
      Becomes tokens (before ++ opening :: inner).length (.arity gathering (elementCount inner))

/-- The positions of the tokens that stand for an item. -/
def itemPositions (tokens : List Token) : List Nat :=
  (List.range tokens.length).filter fun position => tokens[position]?.any Token.standsForItem

/-- The item of the first position is in front of that of the last one. -/
def Ahead (placed : List (Nat × Item)) (first last : Nat) : Prop :=
  [first, last].Sublist (placed.map Prod.fst)

/-- The items, each with the position that it comes from, are an arrangement of the tokens. -/
structure Arranges (tokens : List Token) (placed : List (Nat × Item)) : Prop where
  /-- Every item is what becomes of a token. -/
  becomes : ∀ position item, (position, item) ∈ placed → Becomes tokens position item
  /-- Every token that stands for an item does so once. -/
  positions : (placed.map Prod.fst).Perm (itemPositions tokens)
  /-- All items but the operators are in the order of the tokens. -/
  inOrder : ((placed.filter fun place => !place.2.isOperator).map Prod.fst).Pairwise (· < ·)
  /-- An operator is behind all operands that are written before it. -/
  behindData : ∀ first data last op, tokens[first]? = some data → data.kind.isData = true →
    tokens[last]? = some op → op.kind.isOperator = true → first < last → Ahead placed first last
  /-- An operator inside of a call, an array or a lambda is before the item of its end. -/
  inside : ∀ delimiter first last position op, Spans tokens delimiter first last →
    delimiter ≠ .paren → tokens[position]? = some op → op.kind.isOperator = true →
    first < position → position < last → Ahead placed position last

theorem getElem?_concat {tokens : List Token} {token found : Token} {position : Nat}
    (h : (tokens ++ [token])[position]? = some found) :
    tokens[position]? = some found ∨ position = tokens.length ∧ token = found := by
  rw [List.getElem?_append] at h
  split at h
  · exact .inl h
  · obtain ⟨bound, eq⟩ := List.getElem?_eq_some_iff.1 h
    rw [List.length_singleton] at bound
    rw [List.getElem_singleton] at eq
    exact .inr ⟨by omega, eq⟩

theorem itemPositions_concat (tokens : List Token) (token : Token) :
    itemPositions (tokens ++ [token]) =
      itemPositions tokens ++ if token.standsForItem then [tokens.length] else [] := by
  have same : (List.range tokens.length).filter
      (fun position => (tokens ++ [token])[position]?.any Token.standsForItem) = itemPositions tokens := by
    refine List.filter_congr fun position mem => ?_
    rw [List.getElem?_append_left (List.mem_range.1 mem)]
  rw [itemPositions, List.length_append, List.length_singleton, List.range_succ, List.filter_append, same]
  cases stands : token.standsForItem <;> simp [stands]

theorem mem_itemPositions {tokens : List Token} {token : Token} {position : Nat}
    (h : tokens[position]? = some token) (stands : token.standsForItem = true) :
    position ∈ itemPositions tokens := by
  obtain ⟨bound, -⟩ := List.getElem?_eq_some_iff.1 h
  rw [itemPositions, List.mem_filter, h]
  exact ⟨List.mem_range.2 bound, stands⟩

theorem Becomes.append {tokens : List Token} {position : Nat} {item : Item}
    (h : Becomes tokens position item) (more : List Token) : Becomes (tokens ++ more) position item := by
  cases h with
  | @token before after token split handled =>
    have split' : tokens ++ more = before ++ token :: (after ++ more) := by simp [split]
    exact .token split' handled
  | @marker before inner after opening closing _ split opener closer nested =>
    have split' : tokens ++ more = before ++ opening :: (inner ++ closing :: (after ++ more)) := by
      simp [split]
    exact .marker split' opener closer nested

/-- An item is an operator if its token is. -/
theorem Becomes.isOperator {tokens : List Token} {position : Nat} {item : Item}
    (h : Becomes tokens position item) :
    ∃ token, tokens[position]? = some token ∧ item.isOperator = token.kind.isOperator := by
  cases h with
  | token split =>
    refine ⟨_, ?_, rfl⟩
    rw [split, List.getElem?_append_right (Nat.le_refl _), Nat.sub_self]
    rfl
  | @marker before inner after opening closing gathering split _ closer =>
    refine ⟨closing, ?_, ?_⟩
    · rw [split]
      have eq : before ++ opening :: (inner ++ closing :: after) =
        (before ++ opening :: inner) ++ closing :: after := by simp
      rw [eq, List.getElem?_append_right (Nat.le_refl _), Nat.sub_self]
      rfl
    · rw [closer]
      cases gathering <;> rfl

/-- A pair is closed by the last token, or was closed before it. -/
theorem Spans.of_concat {tokens : List Token} {token : Token} {delimiter : Delimiter} {first last : Nat}
    (h : Spans (tokens ++ [token]) delimiter first last) : Spans tokens delimiter first last ∨
      last = tokens.length ∧ token.kind.closes? = some delimiter ∧
        ∃ before opening inner, tokens = before ++ opening :: inner ∧ first = before.length ∧
          opening.kind.opens? = some delimiter ∧ Nested inner := by
  cases h with
  | @intro before inner after opening closing split opens closes nested =>
    obtain rfl | ⟨after, end_, rfl⟩ := List.eq_nil_or_concat after
    · have eq : before ++ opening :: (inner ++ [closing]) = (before ++ opening :: inner) ++ [closing] := by
        simp
      rw [eq] at split
      obtain ⟨rfl, same⟩ := List.append_inj' split rfl
      obtain ⟨rfl, -⟩ := List.cons.inj same
      exact .inr ⟨rfl, closes, before, opening, inner, rfl, rfl, opens, nested⟩
    · have eq : before ++ opening :: (inner ++ closing :: after.concat end_) =
          (before ++ opening :: (inner ++ closing :: after)) ++ [end_] := by simp
      rw [eq] at split
      exact .inl (.intro (List.append_inj' split rfl).1 opens closes nested)

theorem Spans.lt_length {tokens : List Token} {delimiter : Delimiter} {first last : Nat}
    (h : Spans tokens delimiter first last) : last < tokens.length := by
  cases h with
  | intro split =>
    rw [split]
    simp only [List.length_append, List.length_cons]
    omega

/-- The end of a call, an array or a lambda stands for an item. -/
theorem Token.standsForItem_of_closes {token : Token} {delimiter : Delimiter}
    (h : token.kind.closes? = some delimiter) (other : delimiter ≠ .paren) :
    token.standsForItem = true ∧ token.kind.isOperator = false := by
  cases kind : token.kind <;> rw [kind] at h <;> cases h <;>
    simp [Token.standsForItem, Token.outline?, kind, Kind.isOperator] at other ⊢

theorem Token.standsForItem_of_isData {token : Token} (h : token.kind.isData = true) :
    token.standsForItem = true := by
  cases kind : token.kind <;> simp [kind, Kind.isData, Token.standsForItem, Token.outline?] at h ⊢

section Ahead

variable {placed waiting : List (Nat × Item)} {place : Nat × Item} {first last : Nat}

/-- What is put in between changes the order of nothing else. -/
theorem Ahead.insert (h : Ahead (placed ++ waiting) first last) :
    Ahead (placed ++ place :: waiting) first last :=
  h.trans (List.Sublist.map _ ((List.sublist_cons_self _ _).append_left _))

theorem ahead_of_mem (h : first ∈ placed.map Prod.fst) :
    Ahead (placed ++ place :: waiting) first place.1 := by
  rw [Ahead, List.map_append, List.map_cons]
  exact (List.singleton_sublist.2 h).append ((List.nil_sublist _).cons_cons _)

end Ahead

namespace Arranges

variable {tokens : List Token} {token : Token} {item : Item} {placed waiting : List (Nat × Item)}

theorem nil : Arranges [] [] where
  becomes _ _ mem := absurd mem List.not_mem_nil
  positions := .nil
  inOrder := .nil
  behindData _ _ _ _ found := by simp at found
  inside _ _ _ _ _ _ _ found := by simp at found

theorem lt_length (h : Arranges tokens placed) {position : Nat} (mem : position ∈ placed.map Prod.fst) :
    position < tokens.length :=
  List.mem_range.1 (List.mem_filter.1 (h.positions.mem_iff.1 mem)).1

/-- What stands for an item and does not wait is in its place. -/
theorem mem_of_not_waiting (h : Arranges tokens (placed ++ waiting)) {position : Nat}
    (found : tokens[position]? = some token) (stands : token.standsForItem = true)
    (leaves : ∀ item, (position, item) ∉ waiting) : position ∈ placed.map Prod.fst := by
  have mem := h.positions.mem_iff.2 (mem_itemPositions found stands)
  rw [List.map_append] at mem
  refine (List.mem_append.1 mem).resolve_right fun mem => ?_
  obtain ⟨⟨_, item⟩, mem', rfl⟩ := List.mem_map.1 mem
  exact leaves item mem'

/-- A token that stands for no item changes nothing. -/
theorem skip (h : Arranges tokens placed) (stands : token.standsForItem = false) :
    Arranges (tokens ++ [token]) placed where
  becomes position item mem := (h.becomes position item mem).append _
  positions := by
    rw [itemPositions_concat, stands]
    simpa using h.positions
  inOrder := h.inOrder
  behindData first data last op foundData isData foundOp isOperator lt := by
    rw [Token.standsForItem, Bool.or_eq_false_iff] at stands
    obtain foundOp | ⟨rfl, rfl⟩ := getElem?_concat foundOp
    · obtain foundData | ⟨rfl, -⟩ := getElem?_concat foundData
      · exact h.behindData first data last op foundData isData foundOp isOperator lt
      · obtain ⟨bound, -⟩ := List.getElem?_eq_some_iff.1 foundOp
        omega
    · rw [stands.2] at isOperator
      cases isOperator
  inside delimiter first last position op spans other found isOperator lt lt' := by
    obtain spans | ⟨-, closes, -⟩ := spans.of_concat
    · obtain found | ⟨rfl, -⟩ := getElem?_concat found
      · exact h.inside delimiter first last position op spans other found isOperator lt lt'
      · have bound := spans.lt_length
        omega
    · rw [(Token.standsForItem_of_closes closes other).1] at stands
      cases stands

/-- A token that stands for an item is put in front of the operators that go on waiting. Where it ends
a pair, these were read before the pair. -/
theorem insert (h : Arranges tokens (placed ++ waiting))
    (becomes : Becomes (tokens ++ [token]) tokens.length item) (stands : token.standsForItem = true)
    (operators : ∀ place ∈ waiting, place.2.isOperator = true)
    (outside : ∀ delimiter first, Spans (tokens ++ [token]) delimiter first tokens.length →
      ∀ place ∈ waiting, place.1 < first) :
    Arranges (tokens ++ [token]) (placed ++ (tokens.length, item) :: waiting) where
  becomes position item' mem := by
    obtain mem | mem := List.mem_append.1 mem
    · exact (h.becomes position item' (List.mem_append_left _ mem)).append _
    · obtain eq | mem := List.mem_cons.1 mem
      · cases eq
        exact becomes
      · exact (h.becomes position item' (List.mem_append_right _ mem)).append _
  positions := by
    rw [itemPositions_concat, stands, if_pos rfl, List.map_append, List.map_cons]
    refine List.perm_middle.trans (List.Perm.trans ?_ List.perm_append_comm)
    rw [← List.map_append]
    exact h.positions.cons _
  inOrder := by
    have none : (waiting.filter fun place => !place.2.isOperator) = [] :=
      List.filter_eq_nil_iff.2 fun place mem => by simp [operators place mem]
    have before := h.inOrder
    rw [List.filter_append, none, List.append_nil] at before
    rw [List.filter_append, List.filter_cons, none]
    split
    · rw [List.map_append, List.pairwise_append]
      refine ⟨before, List.pairwise_singleton _ _, fun position mem last mem' => ?_⟩
      rw [List.mem_singleton.1 mem']
      refine h.lt_length ?_
      rw [List.map_append]
      exact List.mem_append_left _ ((List.filter_sublist.map _).subset mem)
    · rwa [List.append_nil]
  behindData first data last op foundData isData foundOp isOperator lt := by
    obtain foundData | ⟨rfl, -⟩ := getElem?_concat foundData
    · obtain foundOp | ⟨rfl, -⟩ := getElem?_concat foundOp
      · exact (h.behindData first data last op foundData isData foundOp isOperator lt).insert
      · -- The operator is the new token. Only operators wait, so the operand has left.
        refine ahead_of_mem (h.mem_of_not_waiting foundData ?_ fun item mem => ?_)
        · exact Token.standsForItem_of_isData isData
        · obtain ⟨_, found, same⟩ := (h.becomes first item (List.mem_append_right _ mem)).isOperator
          rw [foundData] at found
          cases found
          rw [operators _ mem, Kind.isOperator_of_isData isData] at same
          cases same
    · obtain ⟨bound, -⟩ := List.getElem?_eq_some_iff.1 foundOp
      rw [List.length_append, List.length_singleton] at bound
      omega
  inside delimiter first last position op spans other found isOperator lt lt' := by
    obtain found | ⟨rfl, -⟩ := getElem?_concat found
    · obtain spans' | ⟨rfl, -⟩ := spans.of_concat
      · exact (h.inside delimiter first last position op spans' other found isOperator lt lt').insert
      · -- The pair ends at the new token. What goes on waiting was read before the pair.
        refine ahead_of_mem (h.mem_of_not_waiting found ?_ fun item mem => ?_)
        · rw [Token.standsForItem, isOperator, Bool.or_true]
        · have before := outside delimiter first spans _ mem
          simp only at before
          omega
    · have bound := spans.lt_length
      rw [List.length_append, List.length_singleton] at bound
      omega

end Arranges

/-! ## Open delimiters, by position -/

/-- The positions of the open delimiters after one more token. -/
def openAtNext (opened : List Nat) (place : Token × Nat) : List Nat :=
  if place.1.kind.opens?.isSome then place.2 :: opened
  else if place.1.kind.closes?.isSome then opened.tail
  else opened

/-- The positions of the delimiters that are open after the tokens, the innermost first. -/
def openAt (tokens : List Token) : List Nat :=
  tokens.zipIdx.foldl openAtNext []

theorem openAt_concat (tokens : List Token) (token : Token) :
    openAt (tokens ++ [token]) = openAtNext (openAt tokens) (token, tokens.length) := by
  rw [openAt, List.zipIdx_append, List.foldl_append, Nat.zero_add]
  rfl

section OpenAtNext

variable {opened : List Nat} {token : Token} {position : Nat} {delimiter : Delimiter}

theorem openAtNext_of_opens (h : token.kind.opens? = some delimiter) :
    openAtNext opened (token, position) = position :: opened := by
  simp [openAtNext, h]

theorem openAtNext_of_closes (h : token.kind.closes? = some delimiter) :
    openAtNext opened (token, position) = opened.tail := by
  cases opens : token.kind.opens? with
  | none => simp [openAtNext, opens, h]
  | some => rw [Kind.closes?_of_opens? opens] at h; cases h

theorem openAtNext_of_plain (opens : token.kind.opens? = none) (closes : token.kind.closes? = none) :
    openAtNext opened (token, position) = opened := by
  simp [openAtNext, opens, closes]

end OpenAtNext

/-- Nested tokens leave the open delimiters where they were. -/
theorem Nested.openAt {tokens : List Token} (h : Nested tokens) (opened : List Nat) (start : Nat) :
    (tokens.zipIdx start).foldl openAtNext opened = opened := by
  induction h generalizing opened start with
  | nil => rfl
  | plain opens closes _ ih =>
    rw [List.zipIdx_cons, List.foldl_cons, openAtNext_of_plain opens closes, ih]
  | pair opens closes _ _ ihInner ihRest =>
    rw [List.zipIdx_cons, List.foldl_cons, List.zipIdx_append, List.foldl_append, List.zipIdx_cons,
      List.foldl_cons, openAtNext_of_opens opens, ihInner, openAtNext_of_closes closes, ihRest,
      List.tail_cons]

theorem openAt_of_opens {before inner : List Token} {opening : Token} {delimiter : Delimiter}
    (opens : opening.kind.opens? = some delimiter) (nested : Nested inner) :
    openAt (before ++ opening :: inner) = before.length :: openAt before := by
  rw [openAt, List.zipIdx_append, List.foldl_append, List.zipIdx_cons, List.foldl_cons,
    nested.openAt, openAtNext_of_opens opens, Nat.zero_add]
  rfl

/-! ## Yards -/

/-- The operators among what waits, as they will leave. -/
def pendingItems (waiting : List (Nat × Token)) : List (Nat × Item) :=
  (waiting.filter fun place => place.2.kind.isOperator).map fun place => (place.1, .token place.2)

/-- The positions of the open delimiters among what waits. -/
def openersAt (waiting : List (Nat × Token)) : List Nat :=
  (waiting.filter fun place => place.2.kind.opens?.isSome).map Prod.fst

theorem pendingItems_append (xs ys : List (Nat × Token)) :
    pendingItems (xs ++ ys) = pendingItems xs ++ pendingItems ys := by
  rw [pendingItems, List.filter_append, List.map_append]
  rfl

theorem openersAt_append (xs ys : List (Nat × Token)) :
    openersAt (xs ++ ys) = openersAt xs ++ openersAt ys := by
  rw [openersAt, List.filter_append, List.map_append]
  rfl

theorem isOperator_of_mem_pendingItems {waiting : List (Nat × Token)} {place : Nat × Item}
    (mem : place ∈ pendingItems waiting) :
    place.2.isOperator = true ∧ place.1 ∈ waiting.map Prod.fst := by
  obtain ⟨⟨position, token⟩, found, rfl⟩ := List.mem_map.1 mem
  obtain ⟨found, isOperator⟩ := List.mem_filter.1 found
  exact ⟨isOperator, List.mem_map_of_mem found⟩

/-- Operators are pending and open nothing. -/
theorem pendingItems_of_operators {waiting : List (Nat × Token)}
    (all : ∀ t ∈ waiting.map Prod.snd, t.kind.isOperator = true) :
    (pendingItems waiting).map Prod.snd = (waiting.map Prod.snd).map .token ∧ openersAt waiting = [] := by
  rw [List.forall_mem_map] at all
  constructor
  · rw [pendingItems, List.filter_eq_self.2 all, List.map_map, List.map_map]
    rfl
  · rw [openersAt, List.filter_eq_nil_iff.2]
    · rfl
    · intro place mem
      have pending := Yard.isPending_of_isOperator (all place mem)
      simpa [Yard.isPending] using pending

/-- The items that have left a yard, with the positions that they come from, and what waits in it,
with the positions where it was read. -/
structure Placing (read : List Token) (move : Yard.Move) (left : List (Nat × Item))
    (waiting : List (Nat × Token)) : Prop where
  run : Yard.empty.Runs read move
  items : left.map Prod.snd = move.items
  operators : waiting.map Prod.snd = move.yard.operators
  arranges : Arranges read (left ++ pendingItems waiting)
  /-- What waits on top was read last. -/
  falling : (waiting.map Prod.fst).Pairwise (· > ·)
  bound : ∀ position ∈ waiting.map Prod.fst, position < read.length
  opened : openersAt waiting = openAt read

namespace Placing

/-! One token is read: what waits is cut into the operators that leave, the delimiter that is closed
and what is kept. -/

section Step

variable {read : List Token} {first reading : Yard.Move} {token : Token} {left : List (Nat × Item)}
  {leaving closed kept : List (Nat × Token)} {own : List Item}

theorem arranges_cut (h : Placing read first left (leaving ++ (closed ++ kept)))
    (passes : first.yard.Passes token reading (leaving.map Prod.snd) (closed.map Prod.snd)
      (kept.map Prod.snd) own) :
    Arranges read ((left ++ pendingItems leaving) ++ pendingItems kept) := by
  have arranges := h.arranges
  have none : pendingItems closed = [] := by
    have others := List.forall_mem_map.1 passes.closed_not_isOperator
    rw [pendingItems, List.filter_eq_nil_iff.2 fun place mem => by simp [others place mem]]
    rfl
  rwa [pendingItems_append, pendingItems_append, none, List.nil_append, ← List.append_assoc] at arranges

theorem openAt_cut (h : Placing read first left (leaving ++ (closed ++ kept)))
    (passes : first.yard.Passes token reading (leaving.map Prod.snd) (closed.map Prod.snd)
      (kept.map Prod.snd) own) :
    openAt read = closed.map Prod.fst ++ openersAt kept := by
  have all : openersAt closed = closed.map Prod.fst := by
    rw [openersAt, List.filter_eq_self.2]
    exact List.forall_mem_map.1 passes.closed_opens
  rw [← h.opened, openersAt_append, openersAt_append, (pendingItems_of_operators passes.isOperator).2,
    all, List.nil_append]

/-- What is kept when a pair ends was read before the pair. -/
theorem outside (h : Placing read first left (leaving ++ (closed ++ kept)))
    (passes : first.yard.Passes token reading (leaving.map Prod.snd) (closed.map Prod.snd)
      (kept.map Prod.snd) own) {delimiter : Delimiter} {start : Nat}
    (spans : Spans (read ++ [token]) delimiter start read.length) :
    ∀ place ∈ pendingItems kept, place.1 < start := by
  obtain spans | ⟨-, closes, before, opening, inner, rfl, rfl, opens, nested⟩ := spans.of_concat
  · have bound := spans.lt_length
    omega
  have openers := h.openAt_cut passes
  rw [openAt_of_opens opens nested] at openers
  have closed_ := passes.opener
  rw [closes] at closed_
  cases closed with
  | nil => cases closed_
  | cons place closed =>
    obtain ⟨same, -⟩ := List.cons.inj openers
    have falling := h.falling
    rw [List.map_append, List.map_append, List.map_cons, List.pairwise_append] at falling
    intro pending mem
    rw [same]
    exact List.rel_of_pairwise_cons falling.2.1
      (List.mem_append_right _ (isOperator_of_mem_pendingItems mem).2)

/-- The own item of a token is what becomes of it. -/
theorem becomes {item : Item} (h : Placing read first left (leaving ++ (closed ++ kept)))
    (reads : first.yard.Reads token reading)
    (passes : first.yard.Passes token reading (leaving.map Prod.snd) (closed.map Prod.snd)
      (kept.map Prod.snd) [item]) : Becomes (read ++ [token]) read.length item := by
  have outline : token.outline? = some item.uncounted := by
    rw [← Option.toList_eq_singleton_iff, ← passes.outline]
    rfl
  cases item with
  | token t =>
    have handled := (reads.isHandled (h.run.isHandled nofun).1).2 (.token t)
      (by rw [passes.items]; exact List.mem_append_right _ (List.mem_singleton_self _))
    have same : token = t := by
      cases kind : token.kind <;> simp [Token.outline?, kind, Item.uncounted] at outline <;> exact outline
    rw [same]
    exact .token rfl handled
  | arity gathering count =>
    have closer : token.kind = gathering.closer := by
      cases gathering <;> cases kind : token.kind <;>
        simp [Token.outline?, kind, Item.uncounted, Gathering.closer] at outline ⊢
    obtain ⟨before, opening, inner, items, rfl, opener, nested, eq⟩ :=
      h.run.exists_opening closer (Yard.step_eq_ok_iff.2 ⟨reading, reads, rfl⟩)
    have items_ : reading.items = items ++ [.arity gathering (elementCount inner)] := eq
    rw [passes.items] at items_
    obtain ⟨-, same⟩ := List.append_inj' items_ rfl
    rw [(List.cons.inj same).1]
    have split : (before ++ opening :: inner) ++ [token] = before ++ opening :: (inner ++ token :: []) := by
      simp
    exact .marker split opener closer nested

theorem arranges_step (h : Placing read first left (leaving ++ (closed ++ kept)))
    (reads : first.yard.Reads token reading)
    (passes : first.yard.Passes token reading (leaving.map Prod.snd) (closed.map Prod.snd)
      (kept.map Prod.snd) own) :
    Arranges (read ++ [token]) (left ++ pendingItems leaving ++ own.map (read.length, ·) ++
      pendingItems (if token.comesToWait then (read.length, token) :: kept else kept)) := by
  have cut := h.arranges_cut passes
  have pending (place : Nat × Item) (mem : place ∈ pendingItems kept) : place.2.isOperator = true :=
    (isOperator_of_mem_pendingItems mem).1
  cases isOperator : token.kind.isOperator with
  | true =>
    -- An operator leaves later, and all that is kept leaves behind it.
    have none : own = [] := by
      have outline := passes.outline
      rwa [Token.outline?_of_isOperator isOperator, Option.toList_none, List.map_eq_nil_iff] at outline
    have wait : token.comesToWait = true := by rw [Token.comesToWait, isOperator, Bool.true_or]
    have waiting : pendingItems ((read.length, token) :: kept) =
        (read.length, .token token) :: pendingItems kept := by
      simp [pendingItems, isOperator]
    rw [none, wait, if_pos rfl, waiting, List.map_nil, List.append_nil]
    refine cut.insert (.token rfl ?_) ?_ pending fun _ _ => h.outside passes
    · simp [Item.isHandled, isOperator]
    · rw [Token.standsForItem, isOperator, Bool.or_true]
  | false =>
    have waiting : pendingItems (if token.comesToWait then (read.length, token) :: kept else kept) =
        pendingItems kept := by
      split
      · rw [pendingItems, List.filter_cons_of_neg (by simp [isOperator])]
        rfl
      · rfl
    rw [waiting]
    have outline := passes.outline
    cases stands : token.outline? with
    | none =>
      rw [stands, Option.toList_none, List.map_eq_nil_iff] at outline
      rw [outline, List.map_nil, List.append_nil]
      exact cut.skip (by rw [Token.standsForItem, stands, isOperator]; rfl)
    | some item' =>
      rw [stands, Option.toList_some, List.map_eq_singleton_iff] at outline
      obtain ⟨item, rfl, -⟩ := outline
      rw [List.map_singleton, List.append_assoc, List.singleton_append]
      exact cut.insert (h.becomes reads passes) (by rw [Token.standsForItem, stands]; rfl) pending
        fun _ _ => h.outside passes

theorem opened_step (h : Placing read first left (leaving ++ (closed ++ kept)))
    (passes : first.yard.Passes token reading (leaving.map Prod.snd) (closed.map Prod.snd)
      (kept.map Prod.snd) own) :
    openersAt (if token.comesToWait then (read.length, token) :: kept else kept) =
      openAt (read ++ [token]) := by
  have closer := passes.opener
  rw [openAt_concat, h.openAt_cut passes]
  cases opens : token.kind.opens? with
  | some delimiter =>
    have wait : token.comesToWait = true := by
      rw [Token.comesToWait, opens, Option.isSome_some, Bool.or_true]
    rw [Kind.closes?_of_opens? opens, Option.map_none, Option.toList_none, List.map_eq_nil_iff,
      List.map_eq_nil_iff] at closer
    rw [openAtNext_of_opens opens, wait, if_pos rfl, closer, openersAt,
      List.filter_cons_of_pos (by simp [opens])]
    rfl
  | none =>
    have same : openersAt (if token.comesToWait then (read.length, token) :: kept else kept) =
        openersAt kept := by
      split
      · rw [openersAt, List.filter_cons_of_neg (by simp [opens])]
        rfl
      · rfl
    rw [same]
    cases closes : token.kind.closes? with
    | none =>
      rw [closes, Option.map_none, Option.toList_none, List.map_eq_nil_iff, List.map_eq_nil_iff] at closer
      rw [openAtNext_of_plain opens closes, closer]
      rfl
    | some delimiter =>
      rw [closes, Option.map_some, Option.toList_some, List.map_map, List.map_eq_singleton_iff] at closer
      obtain ⟨place, rfl, -⟩ := closer
      rw [openAtNext_of_closes closes]
      rfl

end Step

/-- What is placed stays placed while a token is read. -/
theorem step {read : List Token} {first move : Yard.Move} {token : Token} {left : List (Nat × Item)}
    {waiting : List (Nat × Token)} (h : Placing read first left waiting)
    (step : first.yard.step token = .ok move) :
    ∃ left' waiting', Placing (read ++ [token])
      ⟨move.yard, first.items ++ move.items, first.diagnostics ++ move.diagnostics⟩ left' waiting' := by
  have run := h.run.append (.singleton step)
  obtain ⟨reading, reads, rfl⟩ := Yard.step_eq_ok_iff.1 step
  obtain ⟨leaving, closed, kept, own, passes⟩ := reads.exists_passes (h.run.isHandled nofun).1
  obtain ⟨leaving, below, rfl, rfl, cut⟩ := List.map_eq_append_iff.1 (h.operators.trans passes.operators)
  obtain ⟨closed, kept, rfl, rfl, rfl⟩ := List.map_eq_append_iff.1 cut
  have below (position : Nat) (mem : position ∈ kept.map Prod.fst) : position < read.length :=
    h.bound position (by simp only [List.map_append, List.mem_append]; exact .inr (.inr mem))
  have falling := h.falling
  simp only [List.map_append, List.pairwise_append] at falling
  refine ⟨left ++ pendingItems leaving ++ own.map (read.length, ·),
    if token.comesToWait then (read.length, token) :: kept else kept,
    run, ?_, ?_, h.arranges_step reads passes, ?_, ?_, h.opened_step passes⟩
  · have own_ : (own.map (read.length, ·)).map Prod.snd = own := by
      rw [List.map_map]
      exact List.map_id own
    rw [List.map_append, List.map_append, h.items, (pendingItems_of_operators passes.isOperator).1, own_,
      List.append_assoc]
    exact congrArg _ passes.items.symm
  · show _ = (reading.yard.remember token.kind).operators
    rw [Yard.remember_operators, passes.waiting]
    split <;> rfl
  · split
    · exact List.pairwise_cons.2 ⟨below, falling.2.1.2.1⟩
    · exact falling.2.1.2.1
  · intro position mem
    rw [List.length_append, List.length_singleton]
    split at mem
    · obtain rfl | mem := List.mem_cons.1 mem
      · exact Nat.lt_succ_self _
      · exact Nat.lt_succ_of_lt (below position mem)
    · exact Nat.lt_succ_of_lt (below position mem)

/-- The same of a run. -/
theorem runs {read tokens : List Token} {first move : Yard.Move} {left : List (Nat × Item)}
    {waiting : List (Nat × Token)} (h : Placing read first left waiting)
    (run : first.yard.Runs tokens move) :
    ∃ left' waiting', Placing (read ++ tokens)
      ⟨move.yard, first.items ++ move.items, first.diagnostics ++ move.diagnostics⟩ left' waiting' := by
  induction tokens generalizing read first move left waiting with
  | nil =>
    cases run
    exact ⟨left, waiting, by simpa using h⟩
  | cons token tokens ih =>
    cases run with
    | cons stepped rest =>
    obtain ⟨left', waiting', placing⟩ := h.step stepped
    have more := ih placing rest
    simpa [List.append_assoc] using more

theorem empty : Placing [] ⟨.empty, [], []⟩ [] [] :=
  ⟨.nil _, rfl, rfl, .nil, .nil, nofun, rfl⟩

end Placing

/-- A postfix form has an item for each operand, each side of a lambda and each closing bracket, in
order, and its operators are those written. Every item comes from a position of its own: a marker
holds how many elements are written in the brackets that are closed there, an operator is behind the
operands written before it, and before the end of the calls, arrays and lambdas that it is in. What is
reported are the tokens of no known kind. -/
theorem ofTokens_conserves {tokens : List Token} {result : Postfix}
    (h : Postfix.ofTokens tokens = .ok result) :
    Item.outline result.items = tokens.filterMap Token.outline? ∧
      (Item.operators result.items).Perm (Token.operators tokens) ∧
      (∃ placed, placed.map Prod.snd = result.items ∧ Arranges tokens placed) ∧
      result.diagnostics = (tokens.filter fun token => token.kind = .other).map Token.unknown := by
  refine ⟨Postfix.outline_of_ofTokens h, Postfix.perm_operators h, ?_, Postfix.diagnostics_of_ofTokens h⟩
  obtain ⟨move, runs, pending, rfl⟩ := Postfix.ofTokens_eq_ok_iff_runs.1 h
  obtain ⟨left, waiting, placing⟩ := Placing.empty.runs runs
  have all (t : Token) (mem : t ∈ waiting.map Prod.snd) : t.kind.isOperator = true := by
    rw [placing.operators] at mem
    exact (runs.isHandled nofun).1 t mem (pending t mem)
  refine ⟨_, ?_, placing.arranges⟩
  rw [List.map_append, placing.items, (pendingItems_of_operators all).1, placing.operators]
  rfl

/-- In `-f[a + b]@` the sum leaves before the marker, which counts one element, and the minus behind
both. -/
theorem ofTokens_conserves_call :
    let minus : Token := ⟨.unaryOperator, "-", 0⟩
    let f : Token := ⟨.word, "f", 1⟩
    let a : Token := ⟨.word, "a", 3⟩
    let plus : Token := ⟨.operator, "+", 5⟩
    let b : Token := ⟨.word, "b", 7⟩
    let at_ : Token := ⟨.other, "@", 9⟩
    let tokens : List Token := [minus, f, ⟨.callOpen, "[", 2⟩, a, ⟨.whitespace, " ", 4⟩, plus,
      ⟨.whitespace, " ", 6⟩, b, ⟨.callClose, "]", 8⟩, at_]
    let items : List Item := [.token f, .token a, .token b, .token plus, .arity .call 1, .token minus]
    Postfix.ofTokens tokens = .ok ⟨items, [at_.unknown]⟩ ∧
      (Item.operators items).Perm [minus, plus] ∧
      ∃ placed, placed.map Prod.snd = items ∧ Arranges tokens placed := by
  intro minus f a plus b at_ tokens items
  have shunts : Postfix.ofTokens tokens = .ok ⟨items, [at_.unknown]⟩ := rfl
  obtain ⟨-, perm, placed, -⟩ := ofTokens_conserves shunts
  exact ⟨shunts, perm, placed⟩

end ExprCompiler
