import Mathlib

/-!
# Computations that succeed

A computation with several steps succeeds if every step does.  The equations below take such a
computation apart, one step at a time.
-/

namespace QuadProg

variable {ε β γ : Type}

theorem bind_eq_ok {x : Except ε β} {f : β → Except ε γ} {c : γ} :
    x >>= f = .ok c ↔ ∃ b, x = .ok b ∧ f b = .ok c := by
  cases x with
  | error e =>
      constructor
      · intro h; cases h
      · rintro ⟨_, h, -⟩; cases h
  | ok b =>
      constructor
      · exact fun h => ⟨b, rfl, h⟩
      · rintro ⟨_, h, hf⟩
        cases h
        exact hf

theorem bind_of_ok {x : Except ε β} {f : β → Except ε γ} {b : β} (h : x = .ok b) :
    x >>= f = f b := by
  rw [h]
  rfl

theorem pure_eq_ok {b c : β} : (pure b : Except ε β) = .ok c ↔ b = c :=
  ⟨Except.ok.inj, congrArg _⟩

theorem eq_ok_of_toOption {x : Except ε β} {b : β} (h : x.toOption = some b) : x = .ok b := by
  cases x with
  | error e => cases h
  | ok c => exact congrArg _ (Option.some.inj h)

/-- A list of computations succeeds if and only if each of them does. -/
theorem exists_mapM_eq_ok_iff {f : β → Except ε γ} {bs : List β} :
    (∃ cs, bs.mapM f = .ok cs) ↔ ∀ b ∈ bs, ∃ c, f b = .ok c := by
  induction bs with
  | nil => exact iff_of_true ⟨[], rfl⟩ fun _ hb => (nomatch hb)
  | cons b bs ih =>
      rw [List.forall_mem_cons, ← ih]
      simp only [List.mapM_cons, bind_eq_ok, pure_eq_ok]
      constructor
      · rintro ⟨_, c, hc, cs, hcs, rfl⟩
        exact ⟨⟨c, hc⟩, cs, hcs⟩
      · rintro ⟨⟨c, hc⟩, cs, hcs⟩
        exact ⟨_, c, hc, cs, hcs, rfl⟩

theorem mapM_of_forall_ok {f : β → Except ε γ} {g : β → γ} {bs : List β}
    (h : ∀ b ∈ bs, f b = .ok (g b)) : bs.mapM f = .ok (bs.map g) := by
  induction bs with
  | nil => rfl
  | cons b bs ih =>
      obtain ⟨hb, hbs⟩ := List.forall_mem_cons.1 h
      rw [List.mapM_cons, hb, ih hbs]
      rfl

/-- A test that may fail comes before the rest. -/
theorem guard_eq_ok {p : Prop} [Decidable p] {e : ε} {rest : PUnit → Except ε γ} {c : γ} :
    (if p then throw e >>= rest else rest ⟨⟩) = .ok c ↔ ¬ p ∧ rest ⟨⟩ = .ok c := by
  split_ifs with h
  · exact ⟨fun h => (nomatch h), fun h' => absurd h h'.1⟩
  · exact ⟨fun h' => ⟨h, h'⟩, And.right⟩

/-- A computation with a state, which a failed step leaves as it is then. -/
theorem run_bind_eq_ok {σ : Type} {x : ExceptT ε (StateM σ) β} {f : β → ExceptT ε (StateM σ) γ}
    {s s' : σ} {c : γ} :
    ExceptT.run (x >>= f) s = (.ok c, s') ↔
      ∃ b w, ExceptT.run x s = (.ok b, w) ∧ ExceptT.run (f b) w = (.ok c, s') := by
  change ExceptT.bindCont f (ExceptT.run x s).1 (ExceptT.run x s).2 = _ ↔ _
  cases ExceptT.run x s with
  | mk result w =>
      cases result with
      | error e =>
          constructor
          · intro h; cases h
          · rintro ⟨_, _, h, -⟩; cases h
      | ok b =>
          constructor
          · exact fun h => ⟨b, w, rfl, h⟩
          · rintro ⟨_, _, h, hf⟩
            cases h
            exact hf

theorem run_bind_of_ok {σ : Type} {x : ExceptT ε (StateM σ) β} {f : β → ExceptT ε (StateM σ) γ}
    {s w : σ} {b : β} (h : ExceptT.run x s = (.ok b, w)) :
    ExceptT.run (x >>= f) s = ExceptT.run (f b) w := by
  change ExceptT.bindCont f (ExceptT.run x s).1 (ExceptT.run x s).2 = _
  rw [h]
  rfl

theorem run_bind_of_error {σ : Type} {x : ExceptT ε (StateM σ) β}
    {f : β → ExceptT ε (StateM σ) γ} {s w : σ} {e : ε} (h : ExceptT.run x s = (.error e, w)) :
    ExceptT.run (x >>= f) s = (.error e, w) := by
  change ExceptT.bindCont f (ExceptT.run x s).1 (ExceptT.run x s).2 = _
  rw [h]
  rfl

end QuadProg
