import ExprCompiler.Proofs.Layout
import ExprCompiler.Proofs.Postfix.Conservation

/-!
# Reported positions

What is reported about a source text is reported where one of its tokens stands, and no token stands
in a forest twice:

* `Tree.tokens`, `Forest.perm_tokens`: the tokens of a forest are the operands and the operators of the
  source text, each of them once;
* `displaced`: all places moved, but those where a token stands. The stages treat tokens alike wherever
  they stand (`Postfix.ofTokens_relocate` and its likes), so what they report moves with the tokens,
  which stay;
* `Reported.exists_token`: every offset reported by a stage is that of a token;
* `positions_of_source`: tokens, and the offsets reported about them, in a source text.
-/

namespace ExprCompiler

/-! ## The tokens of a forest -/

/-- Trees keep operands and operators. -/
def Kind.isKept (kind : Kind) : Bool :=
  kind.isData || kind.isOperator

/-- The tokens among the items that trees keep. -/
def Item.kept (items : List Item) : List Token :=
  (items.filterMap Item.token?).filter fun token => token.kind.isKept

theorem Item.kept_append (xs ys : List Item) : kept (xs ++ ys) = kept xs ++ kept ys := by
  rw [kept, List.filterMap_append, List.filter_append]
  rfl

namespace Tree

mutual

/-- The tokens of a tree, in the order of its encoding. -/
def tokens : Tree → List Token
  | .leaf token => [token]
  | .operator op operands => tokensAll operands ++ [op]
  | .unary op operands => tokensAll operands ++ [op]
  | .lambda body => tokensAll body
  | .array elements => tokensAll elements
  | .call callee arguments => tokens callee ++ tokensAll arguments

/-- The tokens of a list of trees. -/
def tokensAll : List Tree → List Token
  | [] => []
  | tree :: trees => tokens tree ++ tokensAll trees

end

theorem tokensAll_eq_kept {trees : List Tree} (h : ∀ tree ∈ trees, tree.tokens = Item.kept tree.flatten) :
    tokensAll trees = Item.kept (flattenAll trees) := by
  induction trees with
  | nil => rfl
  | cons tree trees ih =>
    obtain ⟨head, tail⟩ := List.forall_mem_cons.1 h
    rw [tokensAll, flattenAll, Item.kept_append, head, ih tail]

/-- The tokens of a tree are those of its encoding that trees keep. -/
theorem WellFormed.tokens_eq {tree : Tree} (h : tree.WellFormed) :
    tree.tokens = Item.kept tree.flatten := by
  induction h with
  | leaf data => simp [tokens, flatten, Item.kept, Item.token?, Kind.isKept, data]
  | operator kind _ _ ih | unary kind _ _ ih =>
    rw [tokens, flatten, Item.kept_append, tokensAll_eq_kept ih]
    simp [Item.kept, Item.token?, Kind.isKept, Kind.isOperator, kind]
  | lambda _ ih =>
    rw [tokens, flatten, ← List.singleton_append, Item.kept_append, Item.kept_append, tokensAll_eq_kept ih]
    simp [Item.kept, Item.token?, Kind.isKept, Kind.isOperator, Kind.isData, Item.lambdaOpen,
      Item.lambdaClose]
  | array _ ih =>
    rw [tokens, flatten, Item.kept_append, tokensAll_eq_kept ih]
    simp [Item.kept, Item.token?]
  | call _ _ ihCallee ih =>
    rw [tokens, flatten, Item.kept_append, Item.kept_append, ihCallee, tokensAll_eq_kept ih]
    simp [Item.kept, Item.token?]

end Tree

/-- What trees do not keep of an item is no operand and no operator. -/
theorem Item.kept_bare (items : List Item) : kept ((items.filter isHandled).map bare) = kept items := by
  rw [kept, kept, List.filterMap_map, List.filterMap_filter, List.filter_filterMap, List.filter_filterMap]
  refine congrArg (List.filterMap · items) (funext fun item => ?_)
  cases item with
  | arity => rfl
  | token t =>
    cases kind : t.kind <;> simp [isHandled, bare, token?, Kind.isKept, Kind.isData, Kind.isOperator,
      kind, lambdaOpen, lambdaClose, Option.filter]

/-- Operands and operators, one behind the other. -/
theorem perm_isKept (tokens : List Token) : (tokens.filter fun token => token.kind.isKept).Perm
    ((tokens.filter fun token => token.kind.isData) ++ Token.operators tokens) := by
  have perm := List.filter_append_perm (fun token => token.kind.isData)
    (tokens.filter fun token => token.kind.isKept)
  rw [List.filter_filter, List.filter_filter] at perm
  refine perm.symm.trans (.of_eq ?_)
  congr 1 <;> refine List.filter_congr fun token _ => ?_ <;> cases token.kind <;> rfl

namespace Postfix

variable {tokens : List Token} {result : Postfix}

/-- The operands of a postfix form are those written, in order. -/
theorem filter_isData (h : ofTokens tokens = .ok result) :
    ((result.items.filterMap Item.token?).filter fun token => token.kind.isData) =
      tokens.filter fun token => token.kind.isData := by
  have outline := congrArg (fun items => (items.filterMap Item.token?).filter fun token => token.kind.isData)
    (outline_of_ofTokens h)
  simp only [Item.outline, List.filterMap_map, List.filterMap_filter, List.filterMap_filterMap,
    List.filter_filterMap] at outline
  rw [List.filter_filterMap, ← List.filterMap_eq_filter]
  refine Eq.trans (congrArg (List.filterMap · result.items) (funext fun item => ?_))
    (outline.trans (congrArg (List.filterMap · tokens) (funext fun token => ?_)))
  · cases item with
    | arity => rfl
    | token t =>
      cases kind : t.kind <;> simp [Item.token?, Item.uncounted, Item.isOperator, Kind.isData,
        Kind.isOperator, kind, Option.filter]
  · cases kind : token.kind <;> simp [Token.outline?, Item.token?, Kind.isData, kind, Option.filter,
      Option.guard]

/-- The operands and the operators of a postfix form are those written. -/
theorem perm_kept (h : ofTokens tokens = .ok result) :
    (Item.kept result.items).Perm (tokens.filter fun token => token.kind.isKept) := by
  refine (perm_isKept _).trans (List.Perm.trans ?_ (perm_isKept tokens).symm)
  rw [filter_isData h]
  exact (perm_operators h).append_left _

end Postfix

namespace Forest

variable {source : String} {forest : Forest}

/-- The tokens of a forest are the operands and the operators of the source text. -/
theorem perm_tokens (h : ofSource source = .ok forest) :
    (Tree.tokensAll forest.trees).Perm ((tokenize source).filter fun token => token.kind.isKept) := by
  obtain ⟨shunted, built, shunts, builds, rfl⟩ := ofSource_eq_ok_iff.1 h
  obtain ⟨wf, flat, -⟩ := flatten_of_ofItems builds
  rw [Tree.tokensAll_eq_kept fun tree mem => (wf tree mem).tokens_eq, ← flat, Item.kept_bare]
  exact Postfix.perm_kept shunts

/-- No token stands in a forest twice. -/
theorem nodup_tokens (h : ofSource source = .ok forest) : (Tree.tokensAll forest.trees).Nodup := by
  have nodup : (tokenize source).Nodup := by
    refine (pairwise_offset_tokenize source).imp fun lt same => ?_
    rw [same] at lt
    exact Nat.lt_irrefl _ lt
  exact (perm_tokens h).nodup_iff.2 (nodup.sublist List.filter_sublist)

end Forest

/-! ## Reported offsets -/

/-- All places but those of the tokens, moved. -/
def displaced (tokens : List Token) (offset : Nat) : Nat :=
  if offset ∈ tokens.map Token.offset then offset else offset + 1

theorem mem_of_displaced {tokens : List Token} {offset : Nat} (h : displaced tokens offset = offset) :
    offset ∈ tokens.map Token.offset := by
  rw [displaced] at h
  split at h
  · assumption
  · omega

/-- The tokens themselves stay. -/
theorem map_relocate_displaced {part tokens : List Token} (sub : ∀ token ∈ part, token ∈ tokens) :
    part.map (Token.relocate (displaced tokens)) = part := by
  refine (List.map_congr_left fun token mem => ?_).trans (List.map_id part)
  rw [Token.relocate, displaced, if_pos (List.mem_map_of_mem (sub token mem))]
  rfl

section Fixed

variable {place : Nat → Nat} {offset : Nat}

/-- An error that does not move is reported in a place that does not. -/
theorem SyntaxError.place_eq {error : SyntaxError} (fixed : error = error.relocate place)
    (h : error.offset = some offset) : place offset = offset := by
  have same := congrArg SyntaxError.offset fixed
  rw [SyntaxError.relocate, h] at same
  exact (Option.some.inj same).symm

/-- The same of diagnostics. -/
theorem Diagnostic.place_eq {diagnostics : List Diagnostic} {diagnostic : Diagnostic}
    (fixed : diagnostics = diagnostics.map (Diagnostic.relocate place)) (mem : diagnostic ∈ diagnostics)
    (h : diagnostic.offset = some offset) : place offset = offset := by
  have stays := List.map_inj_left.1 (fixed.symm.trans (List.map_id diagnostics).symm) diagnostic mem
  have same := congrArg Diagnostic.offset stays
  rw [Diagnostic.relocate, id, h] at same
  exact Option.some.inj same

end Fixed

/-- The offsets that a stage reports about a source text, in an error or in a diagnostic. -/
inductive Reported (source : String) (offset : Nat) : Prop
  | postfixError {error : SyntaxError} :
      Postfix.ofSource source = .error error → error.offset = some offset → Reported source offset
  | postfixDiagnostic {result : Postfix} {diagnostic : Diagnostic} :
      Postfix.ofSource source = .ok result → diagnostic ∈ result.diagnostics →
      diagnostic.offset = some offset → Reported source offset
  | treeError {error : SyntaxError} :
      Forest.ofSource source = .error error → error.offset = some offset → Reported source offset
  | treeDiagnostic {forest : Forest} {diagnostic : Diagnostic} :
      Forest.ofSource source = .ok forest → diagnostic ∈ forest.diagnostics →
      diagnostic.offset = some offset → Reported source offset
  | compileError {error : SyntaxError} :
      compile "ruby" source = .error (.malformed error) → error.offset = some offset →
      Reported source offset
  | compileDiagnostic {compiled : Compiled} {diagnostic : Diagnostic} :
      compile "ruby" source = .ok compiled → diagnostic ∈ compiled.diagnostics →
      diagnostic.offset = some offset → Reported source offset

/-- Every offset that is reported is that of a token. -/
theorem Reported.exists_token {source : String} {offset : Nat} (h : Reported source offset) :
    ∃ token ∈ tokenize source, token.offset = offset := by
  have stays := map_relocate_displaced fun token (mem : token ∈ tokenize source) => mem
  have unspacedStays : unspaced (tokenize source) =
      (unspaced (tokenize source)).map (Token.relocate (displaced (tokenize source))) :=
    (map_relocate_displaced fun token mem => (List.mem_filter.1 mem).1).symm
  have shunts := Postfix.ofTokens_relocate (displaced (tokenize source)) (tokenize source)
  rw [stays, ← Postfix.ofSource] at shunts
  have builds := Forest.ofSource_relocate unspacedStays
  obtain ⟨compiles, fails⟩ := compileTo_relocate unspacedStays
  rw [← List.mem_map]
  refine mem_of_displaced ?_
  cases h with
  | postfixError failed at_ =>
    rw [failed] at shunts
    exact SyntaxError.place_eq (Except.error.inj shunts) at_
  | postfixDiagnostic shunted mem at_ =>
    rw [shunted] at shunts
    exact Diagnostic.place_eq (congrArg Postfix.diagnostics (Except.ok.inj shunts)) mem at_
  | treeError failed at_ =>
    rw [failed] at builds
    exact SyntaxError.place_eq (Except.error.inj builds) at_
  | treeDiagnostic built mem at_ =>
    rw [built] at builds
    exact Diagnostic.place_eq (congrArg Forest.diagnostics (Except.ok.inj builds)) mem at_
  | compileError failed at_ =>
    obtain ⟨malformed, same, failed'⟩ := fails _ failed
    cases same
    exact SyntaxError.place_eq (CompileError.malformed.inj (Except.error.inj (failed.symm.trans failed'))) at_
  | compileDiagnostic compiled mem at_ =>
    have same := Except.ok.inj (compiled.symm.trans (compiles _ compiled))
    exact Diagnostic.place_eq (congrArg Compiled.diagnostics same) mem at_

/-- Where a token stands in its source text. -/
theorem Token.exists_split {source : String} {token : Token} (mem : token ∈ tokenize source) :
    ∃ front back, source = front ++ token.text ++ back ∧ front.utf8ByteSize = token.offset := by
  obtain ⟨before, after, eq⟩ := List.append_of_mem mem
  have tiles := tiles_tokenize source
  rw [eq] at tiles
  obtain ⟨rest, split, behind⟩ := tiles.of_append
  cases behind with
  | @cons _ _ _ cs _ begins _ =>
    refine ⟨String.join (before.map Token.text), String.ofList cs, String.toList_injective ?_, ?_⟩
    · rw [split]
      simp
    · rw [begins, Nat.zero_add]

/-- The tokens of a postfix form and those of a forest are tokens of the source text, no token stands
in a forest twice, and every offset that is reported is that of a token: it is an offset between two
characters of the text, before its end, and the text of the token stands there. -/
theorem positions_of_source (source : String) :
    (∀ result, Postfix.ofSource source = .ok result →
      ∀ token, .token token ∈ result.items → token ∈ tokenize source) ∧
      (∀ forest, Forest.ofSource source = .ok forest →
        (∀ token ∈ Tree.tokensAll forest.trees, token ∈ tokenize source) ∧
        (Tree.tokensAll forest.trees).Nodup) ∧
      ∀ offset, Reported source offset → ∃ token ∈ tokenize source, token.offset = offset ∧
        offset < source.utf8ByteSize ∧ String.Pos.Raw.IsValid source ⟨offset⟩ ∧
        ∃ front back, source = front ++ token.text ++ back ∧ front.utf8ByteSize = offset := by
  refine ⟨fun result shunts token mem => Postfix.mem_of_ofTokens shunts mem,
    fun forest builds => ⟨fun token mem => ?_, Forest.nodup_tokens builds⟩, fun offset reported => ?_⟩
  · exact (List.mem_filter.1 ((Forest.perm_tokens builds).mem_iff.1 mem)).1
  · obtain ⟨token, mem, rfl⟩ := reported.exists_token
    have bound := (tiles_tokenize source).offset_lt token mem
    rw [Nat.zero_add, String.ofList_toList] at bound
    obtain ⟨front, back, split, size⟩ := Token.exists_split mem
    refine ⟨token, mem, rfl, bound, ?_, front, back, split, size⟩
    rw [String.Pos.Raw.isValid_iff_exists_append]
    refine ⟨front, token.text ++ back, ?_, ?_⟩
    · rw [split, String.append_assoc]
    · rw [← size]
      rfl

/-- In `é@` the second character is reported at byte 2, behind the two bytes of the first. -/
theorem positions_of_source_two_bytes :
    ∃ token ∈ tokenize "é@", token.offset = 2 ∧ 2 < "é@".utf8ByteSize ∧
      String.Pos.Raw.IsValid "é@" ⟨2⟩ ∧
      ∃ front back, "é@" = front ++ token.text ++ back ∧ front.utf8ByteSize = 2 := by
  have tokens : tokenize "é@" = [⟨.other, "é", 0⟩, ⟨.other, "@", 2⟩] := by decide +kernel
  have shunts : Postfix.ofSource "é@" =
      .ok ⟨[], [Token.unknown ⟨.other, "é", 0⟩, Token.unknown ⟨.other, "@", 2⟩]⟩ := by
    rw [Postfix.ofSource, tokens]
    rfl
  exact (positions_of_source "é@").2.2 2
    (.postfixDiagnostic shunts (List.mem_cons_of_mem _ (List.mem_singleton_self _)) rfl)

end ExprCompiler
