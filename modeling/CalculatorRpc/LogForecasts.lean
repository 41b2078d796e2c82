import CalculatorRpc.FallibleRuns
import Mathlib.Logic.Basic

/- Computations that keep a log beside their state. Each entry is read against the
   frame in which the computation began, and may be about some keys. A forecast says
   when a computation can succeed and for which keys it can make an entry, without
   saying what the outside world answers. -/
namespace LogForecasts
open FallibleRuns

variable {S T L K E α β : Type}

structure Logged (S L : Type) where
  state : S
  log : List L

def Logged.note (s : Logged S L) (entry : L) : Logged S L := { s with log := s.log ++ [entry] }

@[simp] theorem note_log (s : Logged S L) (entry : L) : (s.note entry).log = s.log ++ [entry] := rfl

def inState (f : S → Except E α × S) (s : Logged S L) : Except E α × Logged S L :=
  ((f s.state).1, { s with state := (f s.state).2 })

/-- The part of the state that a computation finds again when it is over, the entries
    that may be made at all, and what an entry is about. -/
structure Reading (S T L K : Type) where
  frame : S → T
  allowed : T → L → Prop
  about : K → T → L → Prop

@[ext] structure Forecast (K : Type) where
  ok : Prop
  keys : K → Prop

def Forecast.silent (ok : Prop) : Forecast K := ⟨ok, fun _ => False⟩

def Forecast.andThen (o o' : Forecast K) : Forecast K :=
  ⟨o.ok ∧ o'.ok, fun k => o.keys k ∨ o.ok ∧ o'.keys k⟩

@[simp] theorem Forecast.andThen_silent (o : Forecast K) : o.andThen (.silent True) = o := by
  ext <;> simp [Forecast.andThen, Forecast.silent]

@[simp] theorem Forecast.silent_andThen (o : Forecast K) : (Forecast.silent True).andThen o = o := by
  ext <;> simp [Forecast.andThen, Forecast.silent]

@[simp] theorem Forecast.never_andThen (o : Forecast K) :
    (Forecast.silent False).andThen o = .silent False := by
  ext <;> simp [Forecast.andThen, Forecast.silent]

/-- The entry may be made, and the forecast has all that it is about. -/
def Covers (R : Reading S T L K) (o : Forecast K) (frame : T) (entry : L) : Prop :=
  R.allowed frame entry ∧ ∀ k, R.about k frame entry → o.keys k

/-- Never more than the forecast, and all of it if nothing outside goes wrong. -/
structure FollowsFrom (R : Reading S T L K) (smooth : Prop)
    (c : Logged S L → Except E α × Logged S L) (o : Forecast K) (s : Logged S L) (new : List L) :
    Prop where
  frame : R.frame (c s).2.state = R.frame s.state
  only : ∀ v, (c s).1 = .ok v → o.ok
  always : smooth → o.ok → ∃ v, (c s).1 = .ok v
  log : (c s).2.log = s.log ++ new
  covered : ∀ entry ∈ new, Covers R o (R.frame s.state) entry
  reached : smooth → ∀ k, o.keys k → ∃ entry ∈ new, R.about k (R.frame s.state) entry

def Follows (R : Reading S T L K) (smooth : Prop) (c : Logged S L → Except E α × Logged S L)
    (o : Forecast K) : Prop :=
  ∀ s, ∃ new, FollowsFrom R smooth c o s new

section Rules

variable {R : Reading S T L K} {smooth : Prop}

theorem follows_silent {c : Logged S L → Except E α × Logged S L} {ok : Prop}
    (frame : ∀ s, R.frame (c s).2.state = R.frame s.state) (log : ∀ s, (c s).2.log = s.log)
    (only : ∀ s v, (c s).1 = .ok v → ok) (always : smooth → ok → ∀ s, ∃ v, (c s).1 = .ok v) :
    Follows R smooth c (.silent ok) := by
  intro s
  exact ⟨[], frame s, only s, fun fair ready => always fair ready s, by rw [log, List.append_nil],
    by simp, fun _ _ no => no.elim⟩

theorem follows_answer (r : Except E α) {ok : Prop} (known : (∃ v, r = .ok v) ↔ ok) :
    Follows R smooth (fun s : Logged S L => (r, s)) (.silent ok) :=
  follows_silent (fun _ => rfl) (fun _ => rfl) (fun _ v result => known.mp ⟨v, result⟩)
    (fun _ ready _ => known.mpr ready)

theorem follows_entry (r : Except E α) {ok : Prop} (known : (∃ v, r = .ok v) ↔ ok) {k : K}
    {entry : L} (may : ∀ frame, R.allowed frame entry)
    (is_about : ∀ x frame, R.about x frame entry ↔ x = k) :
    Follows R smooth (fun s : Logged S L => (r, s.note entry)) ⟨ok, fun x => x = k⟩ := by
  intro s
  refine ⟨[entry], rfl, fun v result => known.mp ⟨v, result⟩, fun _ ready => known.mpr ready,
    rfl, ?_, ?_⟩
  · intro x member
    rw [List.mem_singleton.mp member]
    exact ⟨may _, fun key about => (is_about key _).mp about⟩
  · intro _ x same
    exact ⟨entry, List.mem_singleton_self entry, (is_about x _).mpr same⟩

theorem follows_note {c : Logged S L → Except E α × Logged S L} {o : Forecast K} {entry : L}
    (may : ∀ frame, R.allowed frame entry) (about_none : ∀ k frame, ¬ R.about k frame entry)
    (rest : Follows R smooth c o) : Follows R smooth (fun s => c (s.note entry)) o := by
  intro s
  obtain ⟨new, run⟩ := rest (s.note entry)
  refine ⟨entry :: new, run.frame, run.only, run.always, ?_, ?_, ?_⟩
  · rw [run.log, note_log, List.append_assoc, List.singleton_append]
  · intro x member
    rcases List.mem_cons.mp member with now | later
    · rw [now]
      exact ⟨may _, fun k about => absurd about (about_none k _)⟩
    · exact run.covered x later
  · intro fair k key
    obtain ⟨x, member, about⟩ := run.reached fair k key
    exact ⟨x, List.mem_cons_of_mem entry member, about⟩

theorem Covers.left {o : Forecast K} {frame : T} {entry : L} (h : Covers R o frame entry)
    (o' : Forecast K) : Covers R (o.andThen o') frame entry :=
  ⟨h.1, fun k about => Or.inl (h.2 k about)⟩

theorem Covers.right {o' : Forecast K} {frame : T} {entry : L} (h : Covers R o' frame entry)
    {o : Forecast K} (ready : o.ok) : Covers R (o.andThen o') frame entry :=
  ⟨h.1, fun k about => Or.inr ⟨ready, h.2 k about⟩⟩

theorem follows_andThen {c : Logged S L → Except E α × Logged S L}
    {d : α → Logged S L → Except E β × Logged S L} {o o' : Forecast K} (first : Follows R smooth c o)
    (second : ∀ s a, (c s).1 = .ok a → Follows R smooth (d a) o') :
    Follows R smooth (andThen c d) (o.andThen o') := by
  intro s
  obtain ⟨new, head⟩ := first s
  obtain ⟨frame, only, always, log, covered, reached⟩ := head
  cases run : c s with
  | mk r s' =>
    rw [run] at frame only always log
    cases r with
    | error e =>
      have whole := andThen_failed run d
      have stopped : smooth → ¬ o.ok := fun fair ready => by simpa using always fair ready
      refine ⟨new, ?_, ?_, fun fair ready => absurd ready.1 (stopped fair), ?_,
        fun x member => (covered x member).left o', ?_⟩
      · rw [whole]
        exact frame
      · rw [whole]
        simp
      · rw [whole]
        exact log
      · rintro fair k (now | later)
        · exact reached fair k now
        · exact absurd later.1 (stopped fair)
    | ok a =>
      have whole := andThen_passed run d
      have ready : o.ok := only a rfl
      obtain ⟨new', tail⟩ := second s a (by rw [run]) s'
      have same : R.frame s'.state = R.frame s.state := frame
      refine ⟨new ++ new', ?_, ?_, ?_, ?_, ?_, ?_⟩
      · rw [whole]
        exact tail.frame.trans same
      · rw [whole]
        exact fun v result => ⟨ready, tail.only v result⟩
      · rw [whole]
        exact fun fair both => tail.always fair both.2
      · rw [whole]
        exact tail.log.trans (by rw [log, List.append_assoc])
      · intro x member
        rcases List.mem_append.mp member with before | later
        · exact (covered x before).left o'
        · exact (same ▸ tail.covered x later).right ready
      · rintro fair k (now | later)
        · obtain ⟨x, member, about⟩ := reached fair k now
          exact ⟨x, List.mem_append_left new' member, about⟩
        · obtain ⟨x, member, about⟩ := tail.reached fair k later.2
          exact ⟨x, List.mem_append_right new member, same ▸ about⟩

theorem follows_around {enter : Logged S L → Logged S L} {leave : Logged S L → Logged S L → Logged S L}
    {c : Logged S L → Except E α × Logged S L} {o : Forecast K}
    (before : ∀ s, R.frame (enter s).state = R.frame s.state ∧ (enter s).log = s.log)
    (after : ∀ s s', R.frame (leave s s').state = R.frame s'.state ∧ (leave s s').log = s'.log)
    (inner : Follows R smooth c o) :
    Follows R smooth (fun s => ((c (enter s)).1, leave s (c (enter s)).2)) o := by
  intro s
  obtain ⟨new, run⟩ := inner (enter s)
  have same := (before s).1
  refine ⟨new, ((after s _).1.trans run.frame).trans same, run.only, run.always, ?_, ?_, ?_⟩
  · rw [(after s _).2, run.log, (before s).2]
  · rw [← same]
    exact run.covered
  · rw [← same]
    exact run.reached

end Rules

end LogForecasts
