import ExprCompiler.Proofs.Relocation
import ExprCompiler.Target.Ruby

/-!
# Emission

What an action yields does not depend on the diagnostics recorded before it, and neither does what it
records itself. Nor does the place of a tree matter to the text that is emitted of it:

* `Emit.Yields`: the value of an action and what it records, whatever was recorded before;
* `Emit.Appends`: there are such a value and such diagnostics, which actions in sequence keep;
* `Emit.Silent`: nothing is recorded. An action that is silent is so in all its parts
  (`Emit.Silent.of_bind`);
* `Emit.Alike`: two actions yield the same and record the same, in other places;
* `Target.Ruby.alike_emit`, `Target.Ruby.appends_emit`: the emissions of every tree, well formed or not,
  and of the tree in another place are alike, and so each of them appends.
-/

namespace ExprCompiler

namespace Emit

variable {α β : Type} {action : Emit α} {next : α → Emit β}

/-- Whatever was recorded before, the action yields the value and records the diagnostics behind. -/
def Yields (action : Emit α) (value : α) (reported : List Diagnostic) : Prop :=
  ∀ diagnostics : Array Diagnostic, action.run diagnostics = (value, diagnostics ++ reported)

/-- The action depends on nothing that was recorded before, and only records behind it. -/
def Appends (action : Emit α) : Prop :=
  ∃ value reported, action.Yields value reported

/-- The action records nothing. -/
def Silent (action : Emit α) (value : α) : Prop :=
  action.Yields value []

theorem yields_pure (value : α) : (pure value : Emit α).Yields value [] := by
  intro diagnostics
  rw [Array.appendList_nil]
  rfl

theorem yields_warn (message : String) (offset : Option Nat) :
    (warn message offset).Yields () [⟨.generate, message, offset⟩] := by
  intro diagnostics
  rw [Array.appendList_cons, Array.appendList_nil]
  rfl

theorem Yields.bind {value : α} {result : β} {reported more : List Diagnostic}
    (first : action.Yields value reported) (rest : (next value).Yields result more) :
    (action >>= next).Yields result (reported ++ more) := by
  intro diagnostics
  have run : (action >>= next).run diagnostics =
      (next (action.run diagnostics).1).run (action.run diagnostics).2 := rfl
  rw [run, first, rest]
  exact congrArg (Prod.mk result) (Array.ext' (by simp))

/-- An action yields one value, and records one list. -/
theorem Yields.unique {value value' : α} {reported reported' : List Diagnostic}
    (h : action.Yields value reported) (h' : action.Yields value' reported') :
    value = value' ∧ reported = reported' := by
  have same := Prod.mk.inj ((h #[]).symm.trans (h' #[]))
  simpa using same

theorem Appends.pure (value : α) : Appends (pure value) :=
  ⟨_, _, yields_pure value⟩

theorem Appends.bind (first : action.Appends) (rest : ∀ value, (next value).Appends) :
    (action >>= next).Appends := by
  obtain ⟨value, reported, first⟩ := first
  obtain ⟨result, more, rest⟩ := rest value
  exact ⟨_, _, first.bind rest⟩

theorem Appends.mapM {f : α → Emit β} {xs : List α} (h : ∀ x ∈ xs, (f x).Appends) :
    (xs.mapM f).Appends := by
  induction xs with
  | nil => exact .pure []
  | cons x xs ih =>
    obtain ⟨head, tail⟩ := List.forall_mem_cons.1 h
    rw [List.mapM_cons]
    exact head.bind fun _ => (ih tail).bind fun _ => .pure _

/-- Actions in sequence are silent only when each of them is. -/
theorem Silent.of_bind {result : β} (h : (action >>= next).Silent result) (first : action.Appends)
    (rest : ∀ value, (next value).Appends) :
    ∃ value, action.Silent value ∧ (next value).Silent result := by
  obtain ⟨value, reported, first⟩ := first
  obtain ⟨result', more, rest⟩ := rest value
  obtain ⟨rfl, nil⟩ := h.unique (first.bind rest)
  obtain ⟨rfl, rfl⟩ := List.append_eq_nil_iff.1 nil.symm
  exact ⟨value, first, rest⟩

theorem silent_pure_iff {value result : α} : Silent (pure value) result ↔ value = result :=
  ⟨fun h => (yields_pure value).unique h |>.1, fun h => h ▸ yields_pure value⟩

/-- What begins with a warning is not silent. -/
theorem not_silent_warn {message : String} {offset : Option Nat} {next : Unit → Emit β} {result : β}
    (rest : (next ()).Appends) : ¬ (warn message offset >>= next).Silent result := by
  intro h
  obtain ⟨result', more, rest⟩ := rest
  cases (h.unique ((yields_warn message offset).bind rest)).2

theorem Silent.of_map {f : α → β} {result : β} (h : (f <$> action).Silent result)
    (first : action.Appends) : ∃ value, action.Silent value ∧ f value = result := by
  rw [← bind_pure_comp] at h
  obtain ⟨value, silent, rest⟩ := h.of_bind first fun _ => .pure _
  exact ⟨value, silent, silent_pure_iff.1 rest⟩

theorem Silent.of_mapM_cons {f : α → Emit β} {x : α} {xs : List α} {results : List β}
    (h : ((x :: xs).mapM f).Silent results) (appends : ∀ y ∈ x :: xs, (f y).Appends) :
    ∃ result rest, (f x).Silent result ∧ (xs.mapM f).Silent rest ∧ results = result :: rest := by
  obtain ⟨head, tail⟩ := List.forall_mem_cons.1 appends
  rw [List.mapM_cons] at h
  obtain ⟨result, silent, h⟩ := h.of_bind head fun _ => (Appends.mapM tail).bind fun _ => .pure _
  obtain ⟨rest, silents, h⟩ := h.of_bind (.mapM tail) fun _ => .pure _
  exact ⟨result, rest, silent, silents, (silent_pure_iff.1 h).symm⟩

theorem Silent.of_mapM_nil {f : α → Emit β} {results : List β} (h : (([] : List α).mapM f).Silent results) :
    results = [] :=
  (silent_pure_iff.1 h).symm

/-- Both actions yield the same value, and the second one records what the first one does, in other
places. -/
def Alike (place : Nat → Nat) (action action' : Emit α) : Prop :=
  ∃ value reported, action.Yields value reported ∧
    action'.Yields value (reported.map (Diagnostic.relocate place))

section Alike

variable {place : Nat → Nat} {action' : Emit α} {next' : α → Emit β}

theorem Alike.appends (h : Alike place action action') : action.Appends :=
  h.imp fun _ => .imp fun _ yields => yields.1

theorem Alike.pure (value : α) : Alike place (pure value) (pure value) :=
  ⟨value, [], yields_pure value, yields_pure value⟩

theorem Alike.warn (message : String) (offset : Option Nat) :
    Alike place (warn message offset) (warn message (offset.map place)) :=
  ⟨(), _, yields_warn message offset, yields_warn message (offset.map place)⟩

theorem Alike.bind (first : Alike place action action')
    (rest : ∀ value, Alike place (next value) (next' value)) :
    Alike place (action >>= next) (action' >>= next') := by
  obtain ⟨value, reported, first, first'⟩ := first
  obtain ⟨result, more, rest, rest'⟩ := rest value
  refine ⟨result, reported ++ more, first.bind rest, ?_⟩
  rw [List.map_append]
  exact first'.bind rest'

theorem Alike.map (f : α → β) (h : Alike place action action') :
    Alike place (f <$> action) (f <$> action') := by
  rw [← bind_pure_comp, ← bind_pure_comp]
  exact h.bind fun value => .pure (f value)

theorem Alike.mapM {f f' : α → Emit β} {move : α → α} {xs : List α}
    (h : ∀ x ∈ xs, Alike place (f x) (f' (move x))) :
    Alike place (xs.mapM f) ((xs.map move).mapM f') := by
  induction xs with
  | nil => exact .pure []
  | cons x xs ih =>
    obtain ⟨head, tail⟩ := List.forall_mem_cons.1 h
    rw [List.map_cons, List.mapM_cons, List.mapM_cons]
    exact head.bind fun _ => (ih tail).bind fun _ => .pure _

end Alike

end Emit

namespace Target

/-- The piece of a tree. -/
def piece (target : Target) (tree : Tree) : Piece :=
  ⟨tree, target.emit tree⟩

namespace Ruby

open Emit

/-- The end of a call, when the texts of its parts are there. -/
def applied (name : String) (texts : List String) : Emit String := do
  if name = "If" then
    match texts with
    | [condition, positive, negative] => return conditional condition positive negative
    | _ =>
      Emit.warn ("`If` takes 3 arguments, got " ++ texts.length.repr) none
      return access name texts
  else return access name texts

theorem call_eq (called : Piece) (arguments : List Piece) : call called arguments = (do
    let texts ← Piece.emitAll arguments
    let name ← callee called
    applied name texts) :=
  rfl

/-! ## Places do not matter to any hook -/

section Alike

variable {place : Nat → Nat} {tree : Tree} {trees : List Tree}

/-- Subtrees are emitted alike one by one. -/
theorem alike_mapM {α : Type} {f : Piece → Emit α}
    (h : ∀ tree ∈ trees, Alike place (f (ruby.piece tree)) (f (ruby.piece (tree.relocate place)))) :
    Alike place ((ruby.pieces trees).mapM f) ((ruby.pieces (Tree.relocateAll place trees)).mapM f) := by
  rw [pieces_eq_map, pieces_eq_map, Tree.relocateAll_eq_map, List.mapM_map, List.mapM_map]
  exact .mapM h

theorem alike_value (token : Token) : Alike place (value token) (value (token.relocate place)) := by
  have text : (token.relocate place).text = token.text := rfl
  have kind : (token.relocate place).kind = token.kind := rfl
  unfold value
  rw [kind, text]
  split
  · split
    · exact (Alike.warn _ _).bind fun _ => .pure _
    · exact .pure _
  · exact .pure _

theorem alike_operand (h : Alike place (ruby.emit tree) (ruby.emit (tree.relocate place))) :
    Alike place (operand (ruby.piece tree)) (operand (ruby.piece (tree.relocate place))) := by
  refine h.bind fun text => ?_
  cases tree <;> exact .pure _

theorem alike_callee (h : Alike place (ruby.emit tree) (ruby.emit (tree.relocate place))) :
    Alike place (callee (ruby.piece tree)) (callee (ruby.piece (tree.relocate place))) := by
  cases tree with
  | leaf token =>
    show Alike place
      (if token.kind = .placeholder then ruby.emit (.leaf token) else pure token.text)
      (if token.kind = .placeholder then ruby.emit (.leaf (token.relocate place)) else pure token.text)
    split
    · exact h
    · exact .pure _
  | _ => exact h.map _

theorem alike_applied (name : String) (texts : List String) :
    Alike place (applied name texts) (applied name texts) := by
  unfold applied
  split
  · split
    · exact .pure _
    · exact (Alike.warn _ none).bind fun _ => .pure _
  · exact .pure _

theorem alike_assignment (op : Token)
    (h : ∀ tree ∈ trees, Alike place (ruby.emit tree) (ruby.emit (tree.relocate place))) :
    Alike place (assignment op (ruby.pieces trees))
      (assignment (op.relocate place) (ruby.pieces (Tree.relocateAll place trees))) := by
  match trees with
  | [target, value] =>
    have value := h value (by simp)
    cases target with
    | leaf token => exact (Alike.pure _).bind fun _ => value.bind fun _ => .pure _
    | _ =>
      have target := h _ List.mem_cons_self
      exact (Alike.warn _ _).bind fun _ => target.bind fun _ => value.bind fun _ => .pure _
  | [] | [_] | _ :: _ :: _ :: _ => exact (Alike.warn _ _).bind fun _ => .pure _

theorem alike_call (hc : Alike place (ruby.emit tree) (ruby.emit (tree.relocate place)))
    (h : ∀ tree ∈ trees, Alike place (ruby.emit tree) (ruby.emit (tree.relocate place))) :
    Alike place (call (ruby.piece tree) (ruby.pieces trees))
      (call (ruby.piece (tree.relocate place)) (ruby.pieces (Tree.relocateAll place trees))) := by
  rw [call_eq, call_eq]
  exact (alike_mapM h).bind fun texts => (alike_callee hc).bind fun name => alike_applied name texts

theorem alike_operator (op : Token)
    (h : ∀ tree ∈ trees, Alike place (ruby.emit tree) (ruby.emit (tree.relocate place))) :
    Alike place (operator op (ruby.pieces trees))
      (operator (op.relocate place) (ruby.pieces (Tree.relocateAll place trees))) := by
  have text : (op.relocate place).text = op.text := rfl
  unfold operator
  rw [text]
  split
  · exact alike_assignment op h
  · split
    · exact (alike_mapM fun tree mem => alike_operand (h tree mem)).bind fun _ => .pure _
    · exact (Alike.warn _ _).bind fun _ => .pure _

theorem alike_unary (op : Token) (h : Alike place (ruby.emit tree) (ruby.emit (tree.relocate place))) :
    Alike place (unary op (ruby.piece tree))
      (unary (op.relocate place) (ruby.piece (tree.relocate place))) := by
  have text : (op.relocate place).text = op.text := rfl
  unfold unary
  rw [text]
  split
  · exact (alike_operand h).bind fun _ => .pure _
  · exact (Alike.warn _ _).bind fun _ => .pure _

end Alike

/-! ## Every tree -/

mutual

/-- The text of a tree does not depend on where it stands. -/
theorem alike_emit (place : Nat → Nat) : ∀ tree : Tree,
    Alike place (ruby.emit tree) (ruby.emit (tree.relocate place))
  | .leaf token => alike_value token
  | .operator op operands => alike_operator op (alike_emit_all place operands)
  | .unary _ [] => (Alike.warn _ _).bind fun _ => .pure _
  | .unary op (operand :: _) => alike_unary op (alike_emit place operand)
  | .lambda body => (alike_mapM (alike_emit_all place body)).bind fun _ => .pure _
  | .array elements => (alike_mapM (alike_emit_all place elements)).bind fun _ => .pure _
  | .call callee arguments => alike_call (alike_emit place callee) (alike_emit_all place arguments)

theorem alike_emit_all (place : Nat → Nat) : ∀ trees : List Tree, ∀ tree ∈ trees,
    Alike place (ruby.emit tree) (ruby.emit (tree.relocate place))
  | [] => nofun
  | tree :: trees => List.forall_mem_cons.2 ⟨alike_emit place tree, alike_emit_all place trees⟩

end

theorem alike_generate (place : Nat → Nat) (trees : List Tree) :
    Alike place (ruby.generate trees) (ruby.generate (trees.map (Tree.relocate place))) :=
  (Alike.mapM fun tree _ => alike_emit place tree).bind fun _ => .pure _

/-! ## What is recorded before does not matter -/

/-- What a tree emits and records depends on the tree alone. -/
theorem appends_emit (tree : Tree) : (ruby.emit tree).Appends :=
  (alike_emit id tree).appends

theorem appends_pieces (trees : List Tree) : ∀ piece ∈ ruby.pieces trees, piece.emit.Appends := by
  rw [pieces_eq_map]
  exact List.forall_mem_map.2 fun tree _ => appends_emit tree

theorem appends_emitAll (trees : List Tree) : (Piece.emitAll (ruby.pieces trees)).Appends :=
  .mapM (appends_pieces trees)

theorem appends_operand (tree : Tree) : (operand (ruby.piece tree)).Appends :=
  (alike_operand (alike_emit id tree)).appends

theorem appends_callee (tree : Tree) : (callee (ruby.piece tree)).Appends :=
  (alike_callee (alike_emit id tree)).appends

theorem appends_applied (name : String) (texts : List String) : (applied name texts).Appends :=
  (@alike_applied id name texts).appends

end Ruby

end Target

end ExprCompiler
