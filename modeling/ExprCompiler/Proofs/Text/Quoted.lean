import ExprCompiler.Proofs.Run
import ExprCompiler.Text.Quoted

/-!
# Reading quoted text

Quoted text can be read back, and shows where it ends:

* `Text.toDigits_inj`: a number is known by its digits;
* `Text.Escapes`, `Text.Escapes.append_inj`: the three ways to write a character, none of which begins
  like another;
* `Text.quoted_append_inj`: a text is known by its quoted form, whatever stands behind it;
* `Text.newline_not_mem_quoted`: quoted text stands on one line.
-/

namespace ExprCompiler.Text

/-! ## Digits -/

theorem digitChar_inj {m n : Nat} (hm : m < 16) (hn : n < 16) (eq : m.digitChar = n.digitChar) :
    m = n := by
  have all : ∀ i j : Fin 16, Nat.digitChar i = Nat.digitChar j → i = j := by decide
  exact congrArg Fin.val (all ⟨m, hm⟩ ⟨n, hn⟩ eq)

/-- A number is known by its digits. -/
theorem toDigits_inj {base m n : Nat} (two : 1 < base) (few : base ≤ 16)
    (eq : Nat.toDigits base m = Nat.toDigits base n) : m = n := by
  have longer {k : Nat} {c d : Char} : [c] ≠ Nat.toDigits base k ++ [d] := by
    intro eq
    have length := congrArg List.length eq
    have some_ := Nat.length_toDigits_pos (b := base) (n := k)
    simp only [List.length_append, List.length_singleton] at length
    omega
  induction m using Nat.strongRecOn generalizing n with
  | ind m ih =>
    rw [Nat.toDigits_eq_if (n := m) two, Nat.toDigits_eq_if (n := n) two] at eq
    split at eq <;> split at eq
    · exact digitChar_inj (by omega) (by omega) (List.cons.inj eq).1
    · exact absurd eq longer
    · exact absurd eq.symm longer
    · obtain ⟨front, last⟩ := List.append_inj' eq rfl
      have quotient : m / base = n / base := ih _ (Nat.div_lt_self (by omega) two) front
      have remainder : m % base = n % base := by
        have hm := Nat.mod_lt m (by omega : base > 0)
        have hn := Nat.mod_lt n (by omega : base > 0)
        exact digitChar_inj (by omega) (by omega) (List.cons.inj last).1
      rw [← Nat.div_add_mod m base, ← Nat.div_add_mod n base, quotient, remainder]

theorem not_mem_toDigits {base n : Nat} {c : Char} (two : 1 < base)
    (no : ∀ digit : Nat, digit.digitChar ≠ c) : c ∉ Nat.toDigits base n := by
  induction n using Nat.strongRecOn with
  | ind n ih =>
    intro mem
    rw [Nat.toDigits_eq_if two] at mem
    split at mem
    · exact no n (List.mem_singleton.1 mem).symm
    · obtain mem | mem := List.mem_append.1 mem
      · exact ih _ (Nat.div_lt_self (by omega) two) mem
      · exact no (n % base) (List.mem_singleton.1 mem).symm

/-! ## Characters -/

/-- The characters that are written as a backslash and a letter, with that letter. -/
def letters : List (Char × Char) :=
  [('"', '"'), ('\\', '\\'), ('\n', 'n'), ('\r', 'r'), ('\t', 't'), ('\x00', '0')]

/-- The ways to write a character: as it is, as a letter behind a backslash, or by its code point. -/
inductive Escapes (c : Char) : List Char → Prop
  | plain : isPrintable c = true → c ≠ '"' → c ≠ '\\' → Escapes c [c]
  | letter {letter : Char} : (c, letter) ∈ letters → Escapes c ['\\', letter]
  | code : Escapes c ('\\' :: 'u' :: '\x7b' :: (Nat.toDigits 16 c.toNat ++ ['\x7d']))

theorem escapes (c : Char) : Escapes c (escape c) := by
  unfold escape
  split
  case h_7 quote backslash _ _ _ _ =>
    split
    · rename_i printable
      exact .plain printable quote backslash
    · exact .code
  all_goals exact .letter (by decide)

/-- No way to write a character begins like another one, or like a way to write another character. -/
theorem Escapes.append_inj {c c' : Char} {text text' rest rest' : List Char} (h : Escapes c text)
    (h' : Escapes c' text') (eq : text ++ rest = text' ++ rest') : c = c' ∧ rest = rest' := by
  have noCode : ∀ pair ∈ letters, pair.2 ≠ 'u' := by decide
  cases h with
  | plain _ _ backslash =>
    cases h' with
    | plain => exact List.cons.inj eq
    | letter | code => exact absurd (List.cons.inj eq).1 backslash
  | letter mem =>
    cases h' with
    | plain _ _ backslash => exact absurd (List.cons.inj eq).1.symm backslash
    | letter mem' =>
      have same : ∀ pair ∈ letters, ∀ pair' ∈ letters, pair.2 = pair'.2 → pair.1 = pair'.1 := by decide
      obtain ⟨-, eq⟩ := List.cons.inj eq
      obtain ⟨eq, rest⟩ := List.cons.inj eq
      exact ⟨same _ mem _ mem' eq, rest⟩
    | code => exact absurd (List.cons.inj (List.cons.inj eq).2).1 (noCode _ mem)
  | code =>
    cases h' with
    | plain _ _ backslash => exact absurd (List.cons.inj eq).1.symm backslash
    | letter mem => exact absurd (List.cons.inj (List.cons.inj eq).2).1.symm (noCode _ mem)
    | code =>
      -- The code point ends at the first brace, which is no digit.
      have digits (c : Char) : '\x7d' ∉ Nat.toDigits 16 c.toNat :=
        not_mem_toDigits (by decide) fun _ => Nat.digitChar_ne _ (by decide)
      have brace (rest : List Char) : ∀ d ∈ ('\x7d' :: rest).head?, d = '\x7d' := by
        rintro _ ⟨⟩
        rfl
      simp only [List.cons_append, List.append_assoc, List.nil_append, List.cons.injEq, true_and] at eq
      obtain ⟨same, ends⟩ := Run.append_inj_of_not_mem eq (digits c) (brace rest) (digits c') (brace rest')
      exact ⟨Char.toNat_inj.1 (toDigits_inj (by decide) (by decide) same), (List.cons.inj ends).2⟩

/-- No way to write a character begins with the quote that ends a text. -/
theorem Escapes.not_quote {c : Char} {text rest rest' : List Char} (h : Escapes c text) :
    text ++ rest ≠ '"' :: rest' := by
  intro eq
  cases h with
  | plain _ quote => exact quote (List.cons.inj eq).1
  | letter | code => cases (List.cons.inj eq).1

theorem Escapes.newline_not_mem {c : Char} {text : List Char} (h : Escapes c text) : '\n' ∉ text := by
  intro mem
  cases h with
  | plain printable =>
    rw [← List.mem_singleton.1 mem] at printable
    exact absurd printable (by decide)
  | letter found =>
    have none : ∀ pair ∈ letters, '\n' ∉ ['\\', pair.2] := by decide
    exact none _ found mem
  | code =>
    simp only [List.mem_cons, List.mem_append, List.not_mem_nil, or_false] at mem
    obtain h | h | h | h | h := mem
    case inr.inr.inr.inl => exact not_mem_toDigits (by decide) (fun _ => Nat.digitChar_ne _ (by decide)) h
    all_goals cases h

/-! ## Texts -/

theorem flatMap_escape_inj {cs cs' rest rest' : List Char}
    (eq : cs.flatMap escape ++ '"' :: rest = cs'.flatMap escape ++ '"' :: rest') :
    cs = cs' ∧ rest = rest' := by
  induction cs generalizing cs' with
  | nil =>
    cases cs' with
    | nil => exact ⟨rfl, (List.cons.inj eq).2⟩
    | cons c' cs' =>
      rw [List.flatMap_cons, List.append_assoc] at eq
      exact absurd eq.symm (escapes c').not_quote
  | cons c cs ih =>
    rw [List.flatMap_cons, List.append_assoc] at eq
    cases cs' with
    | nil => exact absurd eq (escapes c).not_quote
    | cons c' cs' =>
      rw [List.flatMap_cons, List.append_assoc] at eq
      obtain ⟨first, others⟩ := (escapes c).append_inj (escapes c') eq
      obtain ⟨same, rest⟩ := ih others
      exact ⟨by rw [first, same], rest⟩

/-- A text is known by its quoted form, which shows where it ends. -/
theorem quoted_append_inj {text text' : String} {rest rest' : List Char}
    (eq : (quoted text).toList ++ rest = (quoted text').toList ++ rest') :
    text = text' ∧ rest = rest' := by
  simp only [quoted, String.toList_ofList, List.cons_append, List.append_assoc, List.nil_append,
    List.cons.injEq, true_and] at eq
  obtain ⟨same, rest⟩ := flatMap_escape_inj eq
  exact ⟨String.toList_inj.1 same, rest⟩

/-- Quoted text stands on one line. -/
theorem newline_not_mem_quoted (text : String) : '\n' ∉ (quoted text).toList := by
  rw [quoted, String.toList_ofList, List.mem_cons, List.mem_append, List.mem_flatMap]
  rintro (h | ⟨c, -, mem⟩ | h)
  · cases h
  · exact (escapes c).newline_not_mem mem
  · exact absurd (List.mem_singleton.1 h) (by decide)

end ExprCompiler.Text
