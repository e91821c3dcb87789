import Mathlib.Data.List.Basic

/-! # Runs of a partial step function

A system is a function which performs one event, or refuses it with `none` when the
event is impossible in that state. Invariants are proved for one step, and the rules
here carry them to whole runs, with or without a guard on the steps of the run.
-/

namespace MiniWebSrv.Run

variable {S E : Type} (step : S → E → Option S)

/-- Perform `events` from `s` on, one after the other. -/
def exec (s : S) : List E → Option S
  | [] => some s
  | e :: rest => (step s e).bind fun t => exec t rest

/-- Every step of the run meets `guard` in the state in which it is taken. -/
def Along (guard : S → E → Prop) (s : S) : List E → Prop
  | [] => True
  | e :: rest => guard s e ∧ ∀ t, step s e = some t → Along guard t rest

/-- Every state of the run has `P`, the first one included. -/
def Always (P : S → Prop) (s : S) : List E → Prop
  | [] => P s
  | e :: rest => P s ∧ ∀ t, step s e = some t → Always P t rest

variable {step}

@[simp] theorem exec_nil (s : S) : exec step s [] = some s := rfl

theorem exec_cons (s : S) (e : E) (rest : List E) :
    exec step s (e :: rest) = (step s e).bind fun t => exec step t rest := rfl

theorem exec_cons_some {s t : S} {e : E} {rest : List E} :
    exec step s (e :: rest) = some t ↔ ∃ mid, step s e = some mid ∧ exec step mid rest = some t := by
  rw [exec_cons, Option.bind_eq_some_iff]

theorem exec_append (s : S) (left right : List E) :
    exec step s (left ++ right) = (exec step s left).bind fun t => exec step t right := by
  induction left generalizing s with
  | nil => rfl
  | cons e rest ih =>
      rw [List.cons_append, exec_cons, exec_cons]
      cases step s e with
      | none => rfl
      | some t => exact ih t

theorem exec_append_some {s t : S} {left right : List E} :
    exec step s (left ++ right) = some t ↔
      ∃ mid, exec step s left = some mid ∧ exec step mid right = some t := by
  rw [exec_append, Option.bind_eq_some_iff]

/-- What every step keeps holds after every run. -/
theorem invariant {P : S → Prop} (keeps : ∀ s e t, P s → step s e = some t → P t) {s t : S}
    {events : List E} (initial : P s) (run : exec step s events = some t) : P t := by
  induction events generalizing s with
  | nil => exact Option.some.inj run ▸ initial
  | cons e rest ih =>
      obtain ⟨mid, taken, run⟩ := exec_cons_some.mp run
      exact ih (keeps s e mid initial taken) run

/-- A guard which is always met. -/
theorem along_of_forall {guard : S → E → Prop} (met : ∀ s e, guard s e) (s : S) (events : List E) :
    Along step guard s events := by
  induction events generalizing s with
  | nil => trivial
  | cons e rest ih => exact ⟨met s e, fun t _ => ih t⟩

/-- What every step which meets the guard keeps holds after every run along the guard. -/
theorem Along.invariant {guard : S → E → Prop} {P : S → Prop}
    (keeps : ∀ s e t, P s → guard s e → step s e = some t → P t) {s t : S} {events : List E}
    (along : Along step guard s events) (initial : P s) (run : exec step s events = some t) :
    P t := by
  induction events generalizing s with
  | nil => exact Option.some.inj run ▸ initial
  | cons e rest ih =>
      obtain ⟨mid, taken, run⟩ := exec_cons_some.mp run
      exact ih (along.2 mid taken) (keeps s e mid initial along.1 taken) run

/-- A run whose silent steps are left out: where these keep a relation on the one side, and the
    others on both, the shorter run ends in a state which is related. -/
theorem Along.erased {guard : S → E → Prop} {R : S → S → Prop} {visible : E → Bool}
    (shown : ∀ s u e t, R u s → guard s e → visible e = true → step s e = some t →
      ∃ v, step u e = some v ∧ R v t)
    (hidden : ∀ s u e t, R u s → guard s e → visible e = false → step s e = some t → R u t)
    {s u t : S} {events : List E} (along : Along step guard s events) (related : R u s)
    (run : exec step s events = some t) :
    ∃ v, exec step u (events.filter visible) = some v ∧ R v t := by
  induction events generalizing s u with
  | nil => exact ⟨u, rfl, Option.some.inj run ▸ related⟩
  | cons e rest ih =>
      obtain ⟨mid, taken, run⟩ := exec_cons_some.mp run
      cases kind : visible e with
      | true =>
          obtain ⟨next, step_, related⟩ := shown s u e mid related along.1 kind taken
          obtain ⟨v, last, related⟩ := ih (along.2 mid taken) related run
          rw [List.filter_cons_of_pos kind]
          exact ⟨v, exec_cons_some.mpr ⟨next, step_, last⟩, related⟩
      | false =>
          have related := hidden s u e mid related along.1 kind taken
          rw [List.filter_cons_of_neg (by rw [kind]; decide)]
          exact ih (along.2 mid taken) related run

theorem along_cons {guard : S → E → Prop} {s : S} {e : E} {rest : List E} :
    Along step guard s (e :: rest) ↔ guard s e ∧ ∀ t ∈ step s e, Along step guard t rest :=
  Iff.rfl

instance decidableAlong {guard : S → E → Prop} [∀ s e, Decidable (guard s e)] :
    ∀ (s : S) (events : List E), Decidable (Along step guard s events)
  | _, [] => .isTrue trivial
  | s, e :: rest =>
      have : ∀ t, Decidable (Along step guard t rest) := fun t => decidableAlong t rest
      decidable_of_iff (guard s e ∧ ∀ t ∈ step s e, Along step guard t rest) along_cons.symm

/-- Of a run which goes through, one continuation is the one which is taken. -/
theorem next_iff {P : S → Prop} {s mid : S} {e : E} (taken : step s e = some mid) :
    (∀ t, step s e = some t → P t) ↔ P mid := by
  constructor
  · exact fun all => all mid taken
  · intro one t other
    rw [taken] at other
    exact Option.some.inj other ▸ one

/-- Two guards which agree where an invariant holds, and which keep it, are met along the same
    runs. -/
theorem along_iff {left right : S → E → Prop} {I : S → Prop}
    (agree : ∀ s e t, I s → step s e = some t → (left s e ↔ right s e))
    (keeps : ∀ s e t, I s → right s e → step s e = some t → I t) {s t : S} {events : List E}
    (initial : I s) (run : exec step s events = some t) :
    Along step left s events ↔ Along step right s events := by
  induction events generalizing s with
  | nil => exact ⟨fun _ => trivial, fun _ => trivial⟩
  | cons e rest ih =>
      obtain ⟨mid, taken, run⟩ := exec_cons_some.mp run
      simp only [Along, agree s e mid initial taken, next_iff taken]
      constructor
      · rintro ⟨met, later⟩
        exact ⟨met, (ih (keeps s e mid initial met taken) run).mp later⟩
      · rintro ⟨met, later⟩
        exact ⟨met, (ih (keeps s e mid initial met taken) run).mpr later⟩

/-- Where the guard keeps an invariant which implies `P`, and a step which spares `P` met the
    guard, a run has `P` throughout exactly when all its steps meet the guard. -/
theorem always_iff_along {guard : S → E → Prop} {I P : S → Prop} (implies : ∀ s, I s → P s)
    (keeps : ∀ s e t, I s → guard s e → step s e = some t → I t)
    (needs : ∀ s e t, I s → step s e = some t → P t → guard s e) {s t : S} {events : List E}
    (initial : I s) (run : exec step s events = some t) :
    Always step P s events ↔ Along step guard s events := by
  induction events generalizing s with
  | nil => exact ⟨fun _ => trivial, fun _ => implies s initial⟩
  | cons e rest ih =>
      obtain ⟨mid, taken, run⟩ := exec_cons_some.mp run
      simp only [Always, Along, next_iff taken]
      constructor
      · rintro ⟨-, always⟩
        have next : P mid := by
          cases rest with
          | nil => exact always
          | cons _ _ => exact always.1
        have met := needs s e mid initial taken next
        exact ⟨met, (ih (keeps s e mid initial met taken) run).mp always⟩
      · rintro ⟨met, along⟩
        exact ⟨implies s initial, (ih (keeps s e mid initial met taken) run).mpr along⟩

/-- Where a step which misses the guard leads on to a state without `P`, the runs of a system which
    keeps `P` meet the guard. -/
theorem along_of_safe {guard : S → E → Prop} {I P : S → Prop}
    (keeps : ∀ s e t, I s → guard s e → step s e = some t → I t)
    (needs : ∀ s e t, I s → ¬guard s e → step s e = some t →
      ∃ events u, exec step t events = some u ∧ ¬P u) {s t : S} {events : List E} (initial : I s)
    (safe : ∀ events t, exec step s events = some t → P t) (run : exec step s events = some t) :
    Along step guard s events := by
  induction events generalizing s with
  | nil => trivial
  | cons e rest ih =>
      obtain ⟨mid, taken, run⟩ := exec_cons_some.mp run
      have later : ∀ events t, exec step mid events = some t → P t := fun events t run =>
        safe (e :: events) t (exec_cons_some.mpr ⟨mid, taken, run⟩)
      have met : guard s e := by
        by_contra missed
        obtain ⟨events, u, run, lost⟩ := needs s e mid initial missed taken
        exact lost (later events u run)
      exact ⟨met, (next_iff taken).mpr (ih (keeps s e mid initial met taken) later run)⟩

end MiniWebSrv.Run
