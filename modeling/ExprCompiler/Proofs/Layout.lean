import ExprCompiler.Proofs.Postfix.Sequence
import ExprCompiler.Proofs.Target.Emission

/-!
# Layout does not matter

Blanks between two tokens of a source text change neither what it is compiled to nor what is reported,
but for the places behind them:

* `Lexer.unspaced_tokenize_insert`: the tokens, blanks apart, are those of the text without the blanks,
  those behind the blanks that much further on;
* `Forest.ofSource_relocate`, `compileTo_relocate`: source texts with the same tokens in other places
  have the same trees and the same text, or the same error, in other places;
* `compile_insert_blanks`: so blanks between two tokens do not matter.
-/

namespace ExprCompiler

/-- Where a byte of a text stands after `distance` bytes have been put in front of the byte at
`position`. -/
def insertedAt (position distance offset : Nat) : Nat :=
  if offset < position then offset else offset + distance

namespace Lexer

/-! ## Tokens -/

theorem unspaced_map_relocate (place : Nat → Nat) (tokens : List Token) :
    unspaced (tokens.map (Token.relocate place)) = (unspaced tokens).map (Token.relocate place) := by
  rw [unspaced, List.filter_map]
  rfl

/-- Tokens in front of what is put in stay where they are. -/
theorem map_relocate_of_lt {position distance : Nat} {tokens : List Token}
    (h : ∀ token ∈ tokens, token.offset < position) :
    tokens.map (Token.relocate (insertedAt position distance)) = tokens := by
  refine (List.map_congr_left fun token mem => ?_).trans (List.map_id tokens)
  rw [Token.relocate, insertedAt, if_pos (h token mem)]
  rfl

/-- Tokens behind it are shifted. -/
theorem map_relocate_of_le {position distance : Nat} {tokens : List Token}
    (h : ∀ token ∈ tokens, position ≤ token.offset) :
    tokens.map (Token.relocate (insertedAt position distance)) = tokens.map (Token.shift distance) := by
  refine List.map_congr_left fun token mem => ?_
  rw [Token.relocate, insertedAt, if_neg (Nat.not_lt.2 (h token mem))]
  rfl

/-- Blanks between two tokens move those behind them. -/
theorem unspaced_tokenize_insert {front back blanks : String} {before after : List Token}
    (split : tokenize (front ++ back) = before ++ after)
    (whole : String.join (before.map Token.text) = front)
    (terminated : ∀ token ∈ before.getLast?, token.isTerminated = true)
    (blank : ∀ c ∈ blanks.toList, isBlank c = true) :
    unspaced (tokenize (front ++ blanks ++ back)) = (unspaced (tokenize (front ++ back))).map
      (Token.relocate (insertedAt front.utf8ByteSize blanks.utf8ByteSize)) := by
  obtain ⟨last, cuts⟩ := cuts_tokenize (front ++ back)
  rw [split, String.toList_append] at cuts
  obtain ⟨middle, cutsFront, cutsBack⟩ := cuts.of_append (by
    rw [← whole, String.toList_join, List.flatMap_map])
  rw [Nat.zero_add, String.ofList_toList] at cutsBack
  have stay := cutsFront.tiles.offset_lt
  rw [Nat.zero_add, String.ofList_toList] at stay
  rw [split, ← unspaced_map_relocate, List.map_append, map_relocate_of_lt stay,
    map_relocate_of_le cutsBack.tiles.pairwise_offset.1]
  obtain ⟨_, cutsAll⟩ := cuts_tokenize (front ++ blanks ++ back)
  rw [String.toList_append, String.toList_append, List.append_assoc] at cutsAll
  cases chars : blanks.toList with
  | nil =>
    have none : blanks = "" := String.toList_injective chars
    rw [chars, List.nil_append] at cutsAll
    rw [cutsAll.unique cuts, none]
    exact congrArg (fun back => unspaced (before ++ back)) (List.map_id after).symm
  | cons first rest =>
    -- What stands behind the blanks is cut alike, and the first blank ends what stands in front of them.
    obtain ⟨_, shifted⟩ := cutsBack.shift rfl (.inl rfl) blanks.utf8ByteSize
    obtain ⟨spaced, cutsSpaced, same⟩ := Cuts.blanks blank (by rw [String.ofList_toList]; exact shifted)
    rw [chars] at blank cutsAll cutsSpaced
    obtain ⟨joined, cutsJoined, sameJoined⟩ := cutsFront.append
      (isStop_of_isBlank (blank first List.mem_cons_self)) terminated
      (by rw [Nat.zero_add, String.ofList_toList]; exact cutsSpaced)
    rw [cutsAll.unique cutsJoined, sameJoined, same, unspaced, unspaced, unspaced, List.filter_append]

end Lexer

/-! ## Trees and texts -/

section Relocate

variable {source source' : String} {place : Nat → Nat}

/-- Tokens in other places have the same trees, in other places, or none for the same reason. -/
theorem Forest.ofSource_relocate
    (h : unspaced (tokenize source') = (unspaced (tokenize source)).map (Token.relocate place)) :
    ofSource source' = relocated place (Forest.relocate place) (ofSource source) := by
  have shunts : Postfix.ofSource source' =
      relocated place (Postfix.relocate place) (Postfix.ofSource source) := by
    rw [Postfix.ofSource, Postfix.ofSource, ← Postfix.ofTokens_unspaced, h, Postfix.ofTokens_relocate,
      Postfix.ofTokens_unspaced]
  rw [ofSource, ofSource, shunts]
  cases shunted : Postfix.ofSource source with
  | error => rfl
  | ok shunted' =>
    have builds := ofItems_relocate place (Postfix.isHandled_of_ofTokens shunted)
    show (ofItems (shunted'.items.map (Item.relocate place)) >>= _) = relocated _ _ (ofItems _ >>= _)
    rw [builds]
    refine relocated_bind fun built => ?_
    simp [Forest.relocate, Postfix.relocate]

/-- The text and the reports of a source text whose trees emit them. -/
theorem compileTo_of_yields {target : Target} {forest : Forest} {output : String}
    {reported : List Diagnostic} (built : Forest.ofSource source = .ok forest)
    (yields : (target.generate forest.trees).Yields output reported) :
    compileTo target source = .ok ⟨output, forest.diagnostics ++ reported⟩ := by
  refine compileTo_eq_ok_iff.2 ⟨forest, built, ?_, ?_⟩ <;> rw [yields #[]]
  rw [Array.toList_appendList]
  rfl

/-- They are compiled to the same text, with the same reports in other places, or to none for the same
reason. -/
theorem compileTo_relocate
    (h : unspaced (tokenize source') = (unspaced (tokenize source)).map (Token.relocate place)) :
    (∀ compiled, compileTo .ruby source = .ok compiled → compileTo .ruby source' =
      .ok ⟨compiled.output, compiled.diagnostics.map (Diagnostic.relocate place)⟩) ∧
    ∀ error, compileTo .ruby source = .error error → ∃ malformed, error = .malformed malformed ∧
      compileTo .ruby source' = .error (.malformed (malformed.relocate place)) := by
  have builds := Forest.ofSource_relocate h
  cases built : Forest.ofSource source with
  | error malformed =>
    rw [built] at builds
    rw [compileTo, compileTo, built, builds]
    refine ⟨fun compiled compiles => ?_, fun error fails => ⟨malformed, ?_, rfl⟩⟩
    · cases compiles
    · cases fails
      rfl
  | ok forest =>
    rw [built] at builds
    obtain ⟨output, reported, yields, yields'⟩ := Target.Ruby.alike_generate place forest.trees
    have compiles := compileTo_of_yields built yields
    have compiles' := compileTo_of_yields builds yields'
    rw [compiles, compiles']
    refine ⟨fun compiled same => ?_, fun error fails => ?_⟩
    · cases same
      rw [List.map_append]
      rfl
    · cases fails

end Relocate

/-- Blanks between two tokens of a source text do not matter. With them it is compiled to the same text
with the same reports, or fails for the same reason, and only what stands behind them is reported
further on. -/
theorem compile_insert_blanks {front back blanks : String} {before after : List Token}
    (split : tokenize (front ++ back) = before ++ after)
    (whole : String.join (before.map Token.text) = front)
    (terminated : ∀ token ∈ before.getLast?, token.isTerminated = true)
    (blank : ∀ c ∈ blanks.toList, Lexer.isBlank c = true) :
    let place := insertedAt front.utf8ByteSize blanks.utf8ByteSize
    (∀ compiled, compile "ruby" (front ++ back) = .ok compiled →
      compile "ruby" (front ++ blanks ++ back) =
        .ok ⟨compiled.output, compiled.diagnostics.map (Diagnostic.relocate place)⟩) ∧
    ∀ error, compile "ruby" (front ++ back) = .error error →
      ∃ malformed, error = .malformed malformed ∧
        compile "ruby" (front ++ blanks ++ back) = .error (.malformed (malformed.relocate place)) := by
  intro place
  exact compileTo_relocate (Lexer.unspaced_tokenize_insert split whole terminated blank)

/-- A line break and a tab in front of the arguments of a call, in which the second of two reports
stands, and a blank in front of a comma that is to blame. -/
theorem compile_insert_blanks_call_comma :
    let output := "\n\n".intercalate [Target.Ruby.preamble, "nil+f[]"]
    let index : Diagnostic := ⟨.generate, "placeholder `_` has no argument index", some 0⟩
    let power : Option Nat → Diagnostic := (⟨.generate, "operator `^` has no ruby lowering", ·⟩)
    compile "ruby" ("_+f" ++ "[2^x]") = .ok ⟨output, [index, power (some 5)]⟩ ∧
      compile "ruby" ("_+f" ++ "\n\t" ++ "[2^x]") = .ok ⟨output, [index, power (some 7)]⟩ ∧
      compile "ruby" ("(a" ++ ",b)") = .error (.malformed ⟨.commaOutside, some 2⟩) ∧
      compile "ruby" ("(a" ++ " " ++ ",b)") = .error (.malformed ⟨.commaOutside, some 3⟩) := by
  intro output index power
  have split : tokenize ("_+f" ++ "[2^x]") =
      [⟨.placeholder, "_", 0⟩, ⟨.operator, "+", 1⟩, ⟨.word, "f", 2⟩] ++ [⟨.callOpen, "[", 3⟩,
        ⟨.number, "2", 4⟩, ⟨.operator, "^", 5⟩, ⟨.word, "x", 6⟩, ⟨.callClose, "]", 7⟩] := by decide +kernel
  have split' : tokenize ("(a" ++ ",b)") = [⟨.parenOpen, "(", 0⟩, ⟨.word, "a", 1⟩] ++
      [⟨.comma, ",", 2⟩, ⟨.word, "b", 3⟩, ⟨.parenClose, ")", 4⟩] := by decide +kernel
  obtain ⟨forest, built, trees, silent⟩ : ∃ forest, Forest.ofSource ("_+f" ++ "[2^x]") = .ok forest ∧
      forest.trees = [.operator ⟨.operator, "+", 1⟩ [.leaf ⟨.placeholder, "_", 0⟩,
        .call (.leaf ⟨.word, "f", 2⟩) [.operator ⟨.operator, "^", 5⟩
          [.leaf ⟨.number, "2", 4⟩, .leaf ⟨.word, "x", 6⟩]]]] ∧ forest.diagnostics = [] :=
    ⟨_, Forest.ofSource_eq_ok_iff.2 ⟨_, _, by rw [split]; rfl, rfl, rfl⟩, rfl, rfl⟩
  have built' : Forest.ofSource ("(a" ++ ",b)") = .error ⟨.commaOutside, some 2⟩ := by
    rw [Forest.ofSource, Postfix.ofSource, split']
    rfl
  have compiles : compile "ruby" ("_+f" ++ "[2^x]") = .ok ⟨output, [index, power (some 5)]⟩ := by
    refine compileTo_eq_ok_iff.2 ⟨forest, built, ?_, ?_⟩ <;> rw [trees]
    · rfl
    · rw [silent]
      rfl
  have fails : compile "ruby" ("(a" ++ ",b)") = .error (.malformed ⟨.commaOutside, some 2⟩) := by
    show compileTo .ruby _ = _
    rw [compileTo, built']
    rfl
  have same := (@compile_insert_blanks _ _ "\n\t" _ _ split (by decide +kernel)
    (by rintro _ ⟨⟩; rfl) (by simp [Lexer.isBlank])).1 _ compiles
  obtain ⟨_, ⟨⟩, same'⟩ := (@compile_insert_blanks _ _ " " _ _ split' (by decide +kernel)
    (by rintro _ ⟨⟩; rfl) (by simp [Lexer.isBlank])).2 _ fails
  exact ⟨compiles, same, fails, same'⟩

end ExprCompiler
