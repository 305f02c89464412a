/-!
# Runs of steps that can fail

The stages of the compiler read a list element by element with a step that can fail; a run is
`List.foldlM` of that step. What a run does follows from what a step does:

* `Run.cons_eq_ok_iff`, `Run.append_eq_ok_iff`: a run succeeds when its parts do, one after the other;
* `Run.invariant`: what holds at first and is kept by every step, given the elements read before it,
  holds after the run;
* `Run.eq_error_iff`: a run fails where its first failing step does;
* `Run.mapM_eq_ok_iff`, `Run.mapM_eq_error`: all results of a list, or the first error among them;
* `Run.span_append`, `Run.append_inj`, `Run.append_inj_of_not_mem`: where a list is cut by taking elements
  off its front.
-/

namespace ExprCompiler.Run

universe u v w

variable {ε : Type u} {σ : Type v} {α : Type w} {step : σ → α → Except ε σ}

/-- Actions in sequence succeed when both do. -/
theorem bind_eq_ok_iff {β γ : Type v} {x : Except ε β} {f : β → Except ε γ} {c : γ} :
    x >>= f = .ok c ↔ ∃ b, x = .ok b ∧ f b = .ok c := by
  cases x with
  | error e => exact ⟨nofun, fun ⟨_, h, _⟩ => nomatch h⟩
  | ok b => exact ⟨fun h => ⟨b, rfl, h⟩, fun ⟨_, h, h'⟩ => by cases h; exact h'⟩

/-- Actions in sequence fail when the first does, or the second after it. -/
theorem bind_eq_error_iff {β γ : Type v} {x : Except ε β} {f : β → Except ε γ} {e : ε} :
    x >>= f = .error e ↔ x = .error e ∨ ∃ b, x = .ok b ∧ f b = .error e := by
  cases x with
  | error e' =>
    refine ⟨fun h => .inl (by cases h; rfl), ?_⟩
    rintro (h | ⟨_, h, _⟩)
    · cases h; rfl
    · cases h
  | ok b =>
    refine ⟨fun h => .inr ⟨b, rfl, h⟩, ?_⟩
    rintro (h | ⟨_, h, h'⟩)
    · cases h
    · cases h; exact h'

theorem nil_eq_ok_iff {s s' : σ} : [].foldlM step s = .ok s' ↔ s = s' :=
  ⟨fun h => by cases h; rfl, fun h => by rw [h]; rfl⟩

theorem cons_eq_ok_iff {s s' : σ} {a : α} {as : List α} :
    (a :: as).foldlM step s = .ok s' ↔ ∃ t, step s a = .ok t ∧ as.foldlM step t = .ok s' := by
  rw [List.foldlM_cons, bind_eq_ok_iff]

theorem append_eq_ok_iff {s s' : σ} {as bs : List α} :
    (as ++ bs).foldlM step s = .ok s' ↔ ∃ t, as.foldlM step s = .ok t ∧ bs.foldlM step t = .ok s' := by
  rw [List.foldlM_append, bind_eq_ok_iff]

theorem singleton_eq_ok_iff {s s' : σ} {a : α} : [a].foldlM step s = .ok s' ↔ step s a = .ok s' := by
  rw [cons_eq_ok_iff]
  exact ⟨fun ⟨_, h, h'⟩ => by cases nil_eq_ok_iff.1 h'; exact h, fun h => ⟨s', h, rfl⟩⟩

/-- A relation between what has been read and the state, kept by every step, is kept by every run. -/
theorem invariant {P : List α → σ → Prop}
    (keep : ∀ before s a s', P before s → step s a = .ok s' → P (before ++ [a]) s')
    {before as : List α} {s s' : σ} (h : P before s) (run : as.foldlM step s = .ok s') :
    P (before ++ as) s' := by
  induction as generalizing before s with
  | nil =>
    rw [List.append_nil, ← nil_eq_ok_iff.1 run]
    exact h
  | cons a as ih =>
    obtain ⟨t, ha, has⟩ := cons_eq_ok_iff.1 run
    rw [List.append_cons]
    exact ih (keep before s a t h ha) has

/-- A failing run succeeds up to its first failing step. -/
theorem eq_error_iff {as : List α} {s : σ} {e : ε} :
    as.foldlM step s = .error e ↔ ∃ before a after t,
      as = before ++ a :: after ∧ before.foldlM step s = .ok t ∧ step t a = .error e := by
  constructor
  · intro run
    induction as generalizing s with
    | nil => cases run
    | cons a as ih =>
      rw [List.foldlM_cons, bind_eq_error_iff] at run
      obtain ha | ⟨t, ha, has⟩ := run
      · exact ⟨[], a, as, s, rfl, rfl, ha⟩
      · obtain ⟨before, b, after, t', rfl, hb, hs⟩ := ih has
        exact ⟨a :: before, b, after, t', rfl, cons_eq_ok_iff.2 ⟨t, ha, hb⟩, hs⟩
  · rintro ⟨before, a, after, t, rfl, hb, ha⟩
    rw [List.foldlM_append]
    refine bind_eq_error_iff.2 (.inr ⟨t, hb, ?_⟩)
    rw [List.foldlM_cons]
    exact bind_eq_error_iff.2 (.inl ha)

/-- All results of a list are there exactly when each of them is. -/
theorem mapM_eq_ok_iff {β : Type v} {f : α → Except ε β} {as : List α} {bs : List β} :
    as.mapM f = .ok bs ↔ as.map f = bs.map .ok := by
  induction as generalizing bs with
  | nil =>
    cases bs with
    | nil => exact ⟨fun _ => rfl, fun _ => rfl⟩
    | cons => exact ⟨nofun, nofun⟩
  | cons a as ih =>
    rw [List.mapM_cons, bind_eq_ok_iff]
    constructor
    · rintro ⟨b, first, rest⟩
      obtain ⟨bs', found, same⟩ := bind_eq_ok_iff.1 rest
      cases same
      rw [List.map_cons, List.map_cons, first, ih.1 found]
    · intro h
      cases bs with
      | nil => cases h
      | cons b bs =>
        obtain ⟨first, rest⟩ := List.cons.inj h
        exact ⟨b, first, bind_eq_ok_iff.2 ⟨bs, ih.2 rest, rfl⟩⟩

/-- The first error of a list is that of all of it. -/
theorem mapM_eq_error {β : Type v} {f : α → Except ε β} {before after : List α} {a : α} {e : ε}
    (h : ∀ b ∈ before, ∃ value, f b = .ok value) (failed : f a = .error e) :
    (before ++ a :: after).mapM f = .error e := by
  induction before with
  | nil =>
    rw [List.nil_append, List.mapM_cons]
    exact bind_eq_error_iff.2 (.inl failed)
  | cons b before ih =>
    obtain ⟨⟨value, first⟩, rest⟩ := List.forall_mem_cons.1 h
    rw [List.cons_append, List.mapM_cons]
    exact bind_eq_error_iff.2 (.inr ⟨value, first, bind_eq_error_iff.2 (.inl (ih rest))⟩)

/-- A cut at the first element that is not taken. -/
theorem span_append {takes : α → Bool} {taken rest : List α} (all : ∀ a ∈ taken, takes a = true)
    (stop : ∀ a ∈ rest.head?, ¬ takes a = true) :
    (taken ++ rest).takeWhile takes = taken ∧ (taken ++ rest).dropWhile takes = rest := by
  rw [List.takeWhile_append_of_pos all, List.dropWhile_append_of_pos all]
  cases rest with
  | nil => exact ⟨List.append_nil _, rfl⟩
  | cons a rest =>
    have first := stop a rfl
    rw [List.takeWhile_cons_of_neg first, List.dropWhile_cons_of_neg first]
    exact ⟨List.append_nil _, rfl⟩

/-- Two cuts of one list at the first element that is not taken are the same. -/
theorem append_inj {takes : α → Bool} {taken taken' rest rest' : List α}
    (eq : taken ++ rest = taken' ++ rest') (all : ∀ a ∈ taken, takes a = true)
    (stop : ∀ a ∈ rest.head?, ¬ takes a = true) (all' : ∀ a ∈ taken', takes a = true)
    (stop' : ∀ a ∈ rest'.head?, ¬ takes a = true) : taken = taken' ∧ rest = rest' := by
  obtain ⟨front, back⟩ := span_append all stop
  obtain ⟨front', back'⟩ := span_append all' stop'
  rw [eq] at front back
  exact ⟨front.symm.trans front', back.symm.trans back'⟩

/-- Two cuts of one list at the first occurrence of an element are the same. -/
theorem append_inj_of_not_mem [DecidableEq α] {stop : α} {taken taken' rest rest' : List α}
    (eq : taken ++ rest = taken' ++ rest') (none : stop ∉ taken) (head : ∀ a ∈ rest.head?, a = stop)
    (none' : stop ∉ taken') (head' : ∀ a ∈ rest'.head?, a = stop) : taken = taken' ∧ rest = rest' := by
  have before {taken : List α} (none : stop ∉ taken) : ∀ a ∈ taken, (a != stop) = true :=
    fun a mem => bne_iff_ne.2 fun same => none (same ▸ mem)
  have behind {rest : List α} (head : ∀ a ∈ rest.head?, a = stop) :
      ∀ a ∈ rest.head?, ¬ (a != stop) = true :=
    fun a mem other => bne_iff_ne.1 other (head a mem)
  exact append_inj eq (before none) (behind head) (before none') (behind head')

end ExprCompiler.Run
