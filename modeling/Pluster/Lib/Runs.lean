import Mathlib

/-!
# Runs of a deterministic machine

A machine is a total function that executes one event. A run is a list of
events. Conditions on runs are conditions on the state before each event.
-/

namespace Runs

variable {σ ε : Type*} (exec : σ → ε → σ)

/-- The state after a list of events. -/
def run (s : σ) (events : List ε) : σ := events.foldl exec s

/-- Every event of a run meets a condition in the state in which it occurs. -/
def Meets (ok : σ → ε → Prop) : σ → List ε → Prop
  | _, [] => True
  | s, e :: events => ok s e ∧ Meets ok (exec s e) events

instance decidableMeets (ok : σ → ε → Prop) [∀ s e, Decidable (ok s e)] :
    ∀ s events, Decidable (Meets exec ok s events)
  | _, [] => inferInstanceAs (Decidable True)
  | s, e :: events =>
    have := decidableMeets ok (exec s e) events
    inferInstanceAs (Decidable (_ ∧ _))

@[simp] theorem run_nil (s : σ) : run exec s [] = s := rfl

@[simp] theorem run_cons (s : σ) (e : ε) (events : List ε) :
    run exec s (e :: events) = run exec (exec s e) events := rfl

theorem run_append (s : σ) (first second : List ε) :
    run exec s (first ++ second) = run exec (run exec s first) second :=
  List.foldl_append

/-- The machine with a log, which its steps do not read. -/
def withLog {τ : Type*} (log : σ → τ → ε → τ) (st : σ × τ) (e : ε) : σ × τ :=
  (exec st.1 e, log st.1 st.2 e)

theorem run_withLog_fst {τ : Type*} (log : σ → τ → ε → τ) (st : σ × τ) (events : List ε) :
    (run (withLog exec log) st events).1 = run exec st.1 events := by
  induction events generalizing st with
  | nil => rfl
  | cons e events ih => exact ih _

variable {exec}

/-- Whatever a step keeps holds after every run. -/
theorem run_invariant {Inv : σ → Prop} (hstep : ∀ s e, Inv s → Inv (exec s e)) {s : σ} (hs : Inv s)
    (events : List ε) : Inv (run exec s events) := by
  induction events generalizing s with
  | nil => exact hs
  | cons e events ih => exact ih (hstep s e hs)

/-- Whatever a step keeps of a state and its log holds after every run. -/
theorem run_withLog_invariant {τ : Type*} {log : σ → τ → ε → τ} {Inv : τ → σ → Prop}
    (hstep : ∀ s t e, Inv t s → Inv (log s t e) (exec s e)) {s : σ} {t : τ} (hs : Inv t s)
    (events : List ε) : Inv (run (withLog exec log) (s, t) events).2 (run exec s events) := by
  induction events generalizing s t with
  | nil => exact hs
  | cons e events ih => exact ih (hstep s t e hs)

/-- Whatever a step keeps under the condition holds after every run that meets
the condition. -/
theorem Meets.invariant {ok : σ → ε → Prop} {Inv : σ → Prop}
    (hstep : ∀ s e, Inv s → ok s e → Inv (exec s e)) {s : σ} {events : List ε}
    (hmeets : Meets exec ok s events) (hs : Inv s) : Inv (run exec s events) := by
  induction events generalizing s with
  | nil => exact hs
  | cons e events ih => exact ih hmeets.2 (hstep s e hs hmeets.1)

/-- A log does not change what a run meets. -/
theorem Meets.withLog {τ : Type*} {ok : σ → ε → Prop} {s : σ} {events : List ε}
    (hmeets : Meets exec ok s events) (log : σ → τ → ε → τ) (t : τ) :
    Meets (withLog exec log) (fun st e => ok st.1 e) (s, t) events := by
  induction events generalizing s t with
  | nil => trivial
  | cons e events ih => exact ⟨hmeets.1, ih hmeets.2 _⟩

/-- Two conditions on one run. -/
theorem Meets.and {ok ok' : σ → ε → Prop} {s : σ} {events : List ε}
    (h : Meets exec ok s events) (h' : Meets exec ok' s events) :
    Meets exec (fun s e => ok s e ∧ ok' s e) s events := by
  induction events generalizing s with
  | nil => trivial
  | cons e events ih => exact ⟨⟨h.1, h'.1⟩, ih h.2 h'.2⟩

/-- The states a run passes through are reached by runs that meet the same condition. -/
theorem Meets.of_append {ok : σ → ε → Prop} {s : σ} {first second : List ε}
    (hmeets : Meets exec ok s (first ++ second)) :
    Meets exec ok s first ∧ Meets exec ok (run exec s first) second := by
  induction first generalizing s with
  | nil => exact ⟨trivial, hmeets⟩
  | cons e first ih =>
    obtain ⟨hfirst, hsecond⟩ := ih hmeets.2
    exact ⟨⟨hmeets.1, hfirst⟩, hsecond⟩

/-- A condition that says exactly when a step keeps an invariant says, of a run, exactly when the
invariant holds in all states of the run. -/
theorem meets_iff_invariant {ok : σ → ε → Prop} {Inv : σ → Prop}
    (hstep : ∀ s e, Inv s → (Inv (exec s e) ↔ ok s e)) {s : σ} (hs : Inv s) (events : List ε) :
    Meets exec ok s events ↔
      ∀ first second, events = first ++ second → Inv (run exec s first) := by
  constructor
  · rintro hmeets first second rfl
    exact hmeets.of_append.1.invariant (fun s e hs => (hstep s e hs).mpr) hs
  intro hall
  induction events generalizing s with
  | nil => trivial
  | cons e events ih =>
    have hnext : Inv (exec s e) := hall [e] events rfl
    refine ⟨(hstep s e hs).mp hnext, ih hnext fun first second hevents => ?_⟩
    exact hall (e :: first) second (congrArg _ hevents)

end Runs
