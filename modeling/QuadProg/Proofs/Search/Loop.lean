import QuadProg.Proofs.Search.Explore

/-!
# The search as a loop

`explore` recurses on the number of visits that are left.  The same search can be told without that
number, as a loop that looks at its state and either ends or visits the next open node
(`advance`).  The boxes need not shrink on the way: an engine may answer with points outside of
them, and then a half of a box may be the box itself.  What ends the loop is the number of visited
nodes alone.

* Every round that goes on adds one visit, and none goes on at the limit (`Leads.length`).  So no
  sequence of rounds is longer than the limit (`exists_not_leads`).
* What is left of the limit is the number that `explore` recurses on, round by round
  (`explore_of_leads`, `explore_of_over`).  So the loop comes to what `explore` computes
  (`explore_eq_iff`).
* A round asks for one relaxation, the one whose turn it is.  So an end with `n` visits does not
  depend on any relaxation but the first `n` (`explore_congr`).
-/

namespace QuadProg.Search

open Relation

variable {α : Type}

/-- What a round of the loop comes to. -/
inductive Advance (α : Type) where
  | over (result : Except Breakdown (Option SearchStatus × State α))
  /-- The loop goes on from this state. -/
  | on (s : State α)

variable [Scalar α]

/-- The visit of a node: its relaxation is solved, and its fate is settled. -/
def examine (target : Target α) (relax : Relax α) (s : State α) (node : Node α) :
    Except Breakdown (Visit α) := do
  let r ← relax s.log.length node
  return ⟨node, r, ← fate target s.incumbent node r⟩

/-- A round of the loop, in which no more than `limit` nodes are visited. -/
def advance (target : Target α) (relax : Relax α) (expired : Nat → Bool) (limit : Nat)
    (s : State α) : Advance α :=
  match s.stack with
  | [] => .over (.ok (none, s))
  | node :: rest =>
    if limit ≤ s.log.length then .over (.ok (some .nodeLimit, s))
    else if expired s.log.length then .over (.ok (some .timeLimit, s))
    else
      match examine target relax s node with
      | .error b => .over (.error b)
      | .ok v =>
        match v.fate with
        | .halted status => .over (.ok (some status, s.visit rest v))
        | _ => .on (s.visit rest v)

/-- A round leads from one state to another. -/
def Leads (target : Target α) (relax : Relax α) (expired : Nat → Bool) (limit : Nat)
    (s s' : State α) : Prop :=
  advance target relax expired limit s = .on s'

variable {target : Target α} {relax relax' : Relax α} {expired : Nat → Bool} {limit : Nat}
  {s s' : State α}

/-! ### Single rounds -/

theorem examine_eq_ok_iff {node : Node α} {v : Visit α} :
    examine target relax s node = .ok v ↔ ∃ r f, relax s.log.length node = .ok r ∧
      fate target s.incumbent node r = .ok f ∧ v = ⟨node, r, f⟩ := by
  simp only [examine, bind_eq_ok, pure_eq_ok]
  constructor
  · rintro ⟨r, hr, f, hf, rfl⟩
    exact ⟨r, f, hr, hf, rfl⟩
  · rintro ⟨r, f, hr, hf, rfl⟩
    exact ⟨r, hr, f, hf, rfl⟩

/-- The ways in which a round ends the loop, with the state in which it does. -/
inductive Over (target : Target α) (relax : Relax α) (expired : Nat → Bool) (limit : Nat)
    (s : State α) : Except Breakdown (Option SearchStatus × State α) → Prop
  | exhausted : s.stack = [] → Over target relax expired limit s (.ok (none, s))
  | outOfNodes : s.stack ≠ [] → limit ≤ s.log.length →
      Over target relax expired limit s (.ok (some .nodeLimit, s))
  | outOfTime : s.stack ≠ [] → s.log.length < limit → expired s.log.length = true →
      Over target relax expired limit s (.ok (some .timeLimit, s))
  | brokeDown {node : Node α} {rest : List (Node α)} {b : Breakdown} : s.stack = node :: rest →
      s.log.length < limit → expired s.log.length = false →
      examine target relax s node = .error b → Over target relax expired limit s (.error b)
  | halted {node : Node α} {rest : List (Node α)} {v : Visit α} {st : SearchStatus} :
      s.stack = node :: rest → s.log.length < limit → expired s.log.length = false →
      examine target relax s node = .ok v → v.fate = .halted st →
      Over target relax expired limit s (.ok (some st, s.visit rest v))

/-- A round ends the loop or visits the next node, and then the loop goes on. -/
theorem advance_cases (target : Target α) (relax : Relax α) (expired : Nat → Bool) (limit : Nat)
    (s : State α) :
    (∃ result, advance target relax expired limit s = .over result ∧
      Over target relax expired limit s result) ∨
    ∃ node rest v, s.stack = node :: rest ∧ s.log.length < limit ∧ expired s.log.length = false ∧
      examine target relax s node = .ok v ∧ (∀ st, v.fate ≠ .halted st) ∧
      advance target relax expired limit s = .on (s.visit rest v) := by
  unfold advance
  cases hstack : s.stack with
  | nil => exact .inl ⟨_, rfl, .exhausted hstack⟩
  | cons node rest =>
      have hne : s.stack ≠ [] := by simp [hstack]
      by_cases hlimit : limit ≤ s.log.length
      · exact .inl ⟨_, if_pos hlimit, .outOfNodes hne hlimit⟩
      have hlt := Nat.lt_of_not_le hlimit
      simp only [if_neg hlimit]
      by_cases hexpired : expired s.log.length = true
      · exact .inl ⟨_, if_pos hexpired, .outOfTime hne hlt hexpired⟩
      simp only [if_neg hexpired]
      rw [Bool.not_eq_true] at hexpired
      cases hvisit : examine target relax s node with
      | error b => exact .inl ⟨_, rfl, .brokeDown hstack hlt hexpired hvisit⟩
      | ok v =>
          cases hfate : v.fate with
          | halted st =>
              exact .inl ⟨_, by simp only [hfate], .halted hstack hlt hexpired hvisit hfate⟩
          | _ =>
              exact .inr ⟨node, rest, v, rfl, hlt, hexpired, hvisit, by simp [hfate],
                by simp only [hfate]⟩

/-- There is no other way to end the loop. -/
theorem advance_eq_over_iff {result : Except Breakdown (Option SearchStatus × State α)} :
    advance target relax expired limit s = .over result ↔
      Over target relax expired limit s result := by
  constructor
  · intro h
    rcases advance_cases target relax expired limit s with
      ⟨result', hover, hcases⟩ | ⟨_, _, _, -, -, -, -, -, hon⟩
    · rw [h] at hover
      cases hover
      exact hcases
    · rw [h] at hon
      cases hon
  · rintro (hstack | ⟨hne, hlimit⟩ | ⟨hne, hlt, hexpired⟩ | ⟨hstack, hlt, hexpired, hvisit⟩ |
      ⟨hstack, hlt, hexpired, hvisit, hfate⟩)
    · simp [advance, hstack]
    · obtain ⟨node, rest, hstack⟩ := List.exists_cons_of_ne_nil hne
      simp [advance, hstack, hlimit]
    · obtain ⟨node, rest, hstack⟩ := List.exists_cons_of_ne_nil hne
      simp [advance, hstack, not_le.2 hlt, hexpired]
    · simp [advance, hstack, not_le.2 hlt, hexpired, hvisit]
    · simp [advance, hstack, not_le.2 hlt, hexpired, hvisit, hfate]

/-- What a round does that does not end the loop. -/
theorem Leads.cases (h : Leads target relax expired limit s s') :
    ∃ node rest v, s.stack = node :: rest ∧ s.log.length < limit ∧ expired s.log.length = false ∧
      examine target relax s node = .ok v ∧ (∀ st, v.fate ≠ .halted st) ∧ s' = s.visit rest v := by
  rcases advance_cases target relax expired limit s with
    ⟨result, hover, -⟩ | ⟨node, rest, v, hstack, hlt, hexpired, hvisit, hgo, hon⟩
  · rw [Leads, hover] at h
    cases h
  · rw [Leads, hon] at h
    cases h
    exact ⟨node, rest, v, hstack, hlt, hexpired, hvisit, hgo, rfl⟩

/-- Every round that goes on adds a visit, and none goes on at the limit. -/
theorem Leads.length (h : Leads target relax expired limit s s') :
    s.log.length < limit ∧ s'.log.length = s.log.length + 1 := by
  obtain ⟨_, rest, v, -, hlt, -, -, -, rfl⟩ := h.cases
  exact ⟨hlt, rfl⟩

/-- No relaxation is asked for but the one whose turn it is. -/
theorem advance_congr (h : relax' s.log.length = relax s.log.length) :
    advance target relax' expired limit s = advance target relax expired limit s := by
  have hexamine : examine target relax' s = examine target relax s := by
    funext node
    rw [examine, examine, h]
  unfold advance
  rw [hexamine]

/-! ### The end of the loop -/

/-- The rounds stop before there are more of them than visits are allowed. -/
theorem exists_not_leads (target : Target α) (relax : Relax α) (expired : Nat → Bool) (limit : Nat)
    (states : Nat → State α) :
    ∃ n ≤ limit, ¬ Leads target relax expired limit (states n) (states (n + 1)) := by
  by_contra hforever
  have hleads : ∀ n ≤ limit, Leads target relax expired limit (states n) (states (n + 1)) := by
    intro n hn
    by_contra hstops
    exact hforever ⟨n, hn, hstops⟩
  have hlength : ∀ n ≤ limit, n ≤ (states n).log.length := by
    intro n
    induction n with
    | zero => exact fun _ => Nat.zero_le _
    | succ n ih =>
        intro hn
        have hbefore := ih (by omega)
        have hstep := (hleads n (by omega)).length.2
        omega
  have hfull := hlength limit le_rfl
  have hroom := (hleads limit le_rfl).length.1
  omega

/-- Below the limit a visit is left. -/
theorem sub_eq_add_one {n : Nat} (h : n < limit) : limit - n = limit - (n + 1) + 1 := by
  omega

/-- Where a node may be visited, `explore` examines it and goes on unless it was halted. -/
theorem explore_examine {node : Node α} {rest : List (Node α)} (hstack : s.stack = node :: rest)
    (hlt : s.log.length < limit) (hexpired : expired s.log.length = false) :
    explore target relax expired (limit - s.log.length) s = (do
      let v ← examine target relax s node
      match v.fate with
      | .halted status => .ok (some status, s.visit rest v)
      | _ => explore target relax expired (limit - (s.log.length + 1)) (s.visit rest v)) := by
  rw [sub_eq_add_one hlt]
  conv_lhs => unfold explore
  simp only [hstack, hexpired, Bool.false_eq_true, if_false, examine, bind, Except.bind, pure,
    Except.pure]
  cases relax s.log.length node with
  | error b => rfl
  | ok r =>
      dsimp only
      cases fate target s.incumbent node r with
      | error b => rfl
      | ok f => cases f <;> rfl

theorem explore_of_over {result : Except Breakdown (Option SearchStatus × State α)}
    (h : Over target relax expired limit s result) :
    explore target relax expired (limit - s.log.length) s = result := by
  cases h with
  | exhausted hstack => exact explore_nil hstack
  | outOfNodes hstack hlimit =>
      rw [Nat.sub_eq_zero_of_le hlimit]
      exact explore_zero hstack
  | outOfTime hstack hlt hexpired =>
      rw [sub_eq_add_one hlt]
      exact explore_expired hstack hexpired
  | brokeDown hstack hlt hexpired hvisit =>
      rw [explore_examine hstack hlt hexpired, hvisit]
      rfl
  | halted hstack hlt hexpired hvisit hfate =>
      rw [explore_examine hstack hlt hexpired, bind_of_ok hvisit, hfate]

/-- A round takes one from what is left of the limit. -/
theorem explore_of_leads (h : Leads target relax expired limit s s') :
    explore target relax expired (limit - s.log.length) s =
      explore target relax expired (limit - s'.log.length) s' := by
  obtain ⟨hlt, hlength⟩ := h.length
  obtain ⟨node, rest, v, hstack, -, hexpired, hvisit, hgo, rfl⟩ := h.cases
  rw [explore_examine hstack hlt hexpired, bind_of_ok hvisit, hlength]
  cases hfate : v.fate with
  | halted st => exact absurd hfate (hgo st)
  | _ => rfl

/-- Since every round takes from what is left of the limit, some round ends the loop. -/
theorem exists_over (target : Target α) (relax : Relax α) (expired : Nat → Bool) (limit : Nat)
    (s : State α) :
    ∃ last result, ReflTransGen (Leads target relax expired limit) s last ∧
      advance target relax expired limit last = .over result := by
  induction hroom : limit - s.log.length using Nat.strong_induction_on generalizing s with
  | _ room ih =>
      rcases advance_cases target relax expired limit s with
        ⟨result, hover, -⟩ | ⟨node, rest, v, -, -, -, -, -, hon⟩
      · exact ⟨s, result, .refl, hover⟩
      · have hlength := Leads.length hon
        obtain ⟨last, result, hleads, hover⟩ := ih _ (by omega) (s.visit rest v) rfl
        exact ⟨last, result, .head hon hleads, hover⟩

/-- The loop ends with what `explore` computes. -/
theorem explore_eq_iff {result : Except Breakdown (Option SearchStatus × State α)} :
    explore target relax expired (limit - s.log.length) s = result ↔
      ∃ last, ReflTransGen (Leads target relax expired limit) s last ∧
        advance target relax expired limit last = .over result := by
  have hcomputes : ∀ {last result}, ReflTransGen (Leads target relax expired limit) s last →
      advance target relax expired limit last = .over result →
      explore target relax expired (limit - s.log.length) s = result := by
    intro last result hleads hover
    induction hleads using ReflTransGen.head_induction_on with
    | refl => exact explore_of_over (advance_eq_over_iff.1 hover)
    | head hstep _ ih => exact (explore_of_leads hstep).trans ih
  constructor
  · rintro rfl
    obtain ⟨last, result, hleads, hover⟩ := exists_over target relax expired limit s
    exact ⟨last, hleads, (hcomputes hleads hover).symm ▸ hover⟩
  · rintro ⟨last, hleads, hover⟩
    exact hcomputes hleads hover

theorem explore_start_eq_iff {lower upper : List α}
    {result : Except Breakdown (Option SearchStatus × State α)} :
    explore target relax expired limit (.start lower upper) = result ↔
      ∃ last, ReflTransGen (Leads target relax expired limit) (.start lower upper) last ∧
        advance target relax expired limit last = .over result :=
  explore_eq_iff (s := .start lower upper)

/-! ### Which relaxations matter -/

theorem leads_congr {last : State α}
    (hsame : ∀ turn < last.log.length, relax' turn = relax turn)
    (h : ReflTransGen (Leads target relax expired limit) s last) :
    ReflTransGen (Leads target relax' expired limit) s last := by
  induction h with
  | refl => exact .refl
  | @tail u w _ hstep ih =>
      have hlength := hstep.length.2
      refine (ih fun turn hturn => hsame turn (by omega)).tail ?_
      rw [Leads, advance_congr (hsame _ (by omega))]
      exact hstep

/-- An end with `n` visits does not depend on any relaxation but the first `n`: the round that
finds the loop over asks for no relaxation, and the one that halts it makes a visit of its own. -/
theorem explore_congr {stopped : Option SearchStatus} {last : State α}
    (h : explore target relax expired (limit - s.log.length) s = .ok (stopped, last))
    (hsame : ∀ turn < last.log.length, relax' turn = relax turn) :
    explore target relax' expired (limit - s.log.length) s = .ok (stopped, last) := by
  obtain ⟨w, hleads, hover⟩ := explore_eq_iff.1 h
  rw [advance_eq_over_iff] at hover
  refine explore_eq_iff.2 ⟨w, ?_⟩
  cases hover with
  | exhausted hstack =>
      exact ⟨leads_congr hsame hleads, advance_eq_over_iff.2 (.exhausted hstack)⟩
  | outOfNodes hne hlimit =>
      exact ⟨leads_congr hsame hleads, advance_eq_over_iff.2 (.outOfNodes hne hlimit)⟩
  | outOfTime hne hlt hexpired =>
      exact ⟨leads_congr hsame hleads, advance_eq_over_iff.2 (.outOfTime hne hlt hexpired)⟩
  | @halted node rest v st hstack hlt hexpired hvisit hfate =>
      have hlength : (w.visit rest v).log.length = w.log.length + 1 := rfl
      refine ⟨leads_congr (fun turn hturn => hsame turn (by omega)) hleads, ?_⟩
      rw [advance_congr (hsame _ (by omega))]
      exact advance_eq_over_iff.2 (.halted hstack hlt hexpired hvisit hfate)

end QuadProg.Search
