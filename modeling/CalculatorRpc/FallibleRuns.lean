import Mathlib.Data.List.Basic

/- Computations that thread a state and may stop with an error. A failed
   computation keeps the state it reached, so that effects before a failure count. -/
namespace FallibleRuns

variable {S E α β : Type}

def andThen (c : S → Except E α × S) (d : α → S → Except E β × S) (s : S) : Except E β × S :=
  match c s with
  | (.error e, s) => (.error e, s)
  | (.ok a, s) => d a s

/-- Between two changes of the state that take place whether or not it fails. -/
def bracket (enter leave : S → S) (c : S → Except E α × S) (s : S) : Except E α × S :=
  ((c (enter s)).1, leave (c (enter s)).2)

def runAll (f : α → S → Except E β × S) : List α → S → Except E (List β) × S
  | [], s => (.ok [], s)
  | a :: as, s =>
    match f a s with
    | (.error e, s) => (.error e, s)
    | (.ok b, s) =>
      match runAll f as s with
      | (.error e, s) => (.error e, s)
      | (.ok bs, s) => (.ok (b :: bs), s)

/-- The same state and the same value, or a failure in both whatever the error says. -/
def Agrees (x y : Except E α × S) : Prop := x.1.toOption = y.1.toOption ∧ x.2 = y.2

theorem agrees_refl (x : Except E α × S) : Agrees x x := ⟨rfl, rfl⟩

theorem agrees_ok {x y : Except E α × S} (h : Agrees x y) {a : α} {s : S}
    (run : x = (.ok a, s)) : y = (.ok a, s) := by
  obtain ⟨r, t⟩ := y
  subst x
  obtain ⟨outcome, state⟩ := h
  cases r with
  | error e => simp [Except.toOption] at outcome
  | ok b => simp [Except.toOption] at outcome state; simp [outcome, state]

theorem agrees_error {x y : Except E α × S} (h : Agrees x y) {e : E} {s : S}
    (run : x = (.error e, s)) : ∃ e', y = (.error e', s) := by
  obtain ⟨r, t⟩ := y
  subst x
  obtain ⟨outcome, state⟩ := h
  cases r with
  | error e' => exact ⟨e', by simp at state; rw [state]⟩
  | ok b => simp [Except.toOption] at outcome

theorem runAll_cons_error {f : α → S → Except E β × S} {a : α} {s s' : S} {e : E}
    (head : f a s = (.error e, s')) (as : List α) : runAll f (a :: as) s = (.error e, s') := by
  simp only [runAll, head]

theorem runAll_cons_ok {f : α → S → Except E β × S} {a : α} {s s' : S} {b : β}
    (head : f a s = (.ok b, s')) (as : List α) :
    runAll f (a :: as) s = ((runAll f as s').1.map (b :: ·), (runAll f as s').2) := by
  simp only [runAll, head]
  cases runAll f as s' with
  | mk r s'' => cases r <;> rfl

theorem agrees_map {x y : Except E α × S} (h : Agrees x y) (g : α → β) :
    Agrees (x.1.map g, x.2) (y.1.map g, y.2) := by
  obtain ⟨r, s⟩ := x
  cases r with
  | error e =>
    obtain ⟨e', run⟩ := agrees_error h rfl
    rw [run]
    exact ⟨rfl, rfl⟩
  | ok a =>
    rw [agrees_ok h rfl]
    exact agrees_refl _

theorem runAll_agrees {γ : Type} {f : α → S → Except E β × S} {g : γ → S → Except E β × S}
    {as : List α} {h : α → γ} (each : ∀ a ∈ as, ∀ s, Agrees (f a s) (g (h a) s)) (s : S) :
    Agrees (runAll f as s) (runAll g (as.map h) s) := by
  induction as generalizing s with
  | nil => exact agrees_refl _
  | cons a as ih =>
    have head := each a (by simp) s
    have tail := ih (fun b hb => each b (by simp [hb]))
    rw [List.map_cons]
    cases run : f a s with
    | mk r s' =>
      cases r with
      | error e =>
        obtain ⟨e', run'⟩ := agrees_error head run
        rw [runAll_cons_error run, runAll_cons_error run']
        exact ⟨rfl, rfl⟩
      | ok b =>
        rw [runAll_cons_ok run, runAll_cons_ok (agrees_ok head run)]
        exact agrees_map (tail s') (b :: ·)

theorem andThen_failed {c : S → Except E α × S} {s s' : S} {e : E} (run : c s = (.error e, s'))
    (d : α → S → Except E β × S) : andThen c d s = (.error e, s') := by
  simp only [andThen, run]

theorem andThen_passed {c : S → Except E α × S} {s s' : S} {a : α} (run : c s = (.ok a, s'))
    (d : α → S → Except E β × S) : andThen c d s = d a s' := by
  simp only [andThen, run]

theorem andThen_ok {c : S → Except E α × S} {d : α → S → Except E β × S} {s : S} {b : β}
    (run : (andThen c d s).1 = .ok b) : ∃ a s', c s = (.ok a, s') ∧ (d a s').1 = .ok b := by
  unfold andThen at run
  cases first : c s with
  | mk r s' =>
    cases r with
    | error e => simp [first] at run
    | ok a => exact ⟨a, s', rfl, by simpa [first] using run⟩

theorem andThen_assoc {γ : Type} (c : S → Except E α × S) (d : α → S → Except E β × S)
    (e : β → S → Except E γ × S) :
    andThen (andThen c d) e = andThen c (fun a => andThen (d a) e) := by
  funext s
  unfold andThen
  cases c s with
  | mk r s' => cases r <;> rfl

theorem andThen_answer (c : S → Except E α × S) : andThen c (fun a s => (.ok a, s)) = c := by
  funext s
  unfold andThen
  cases run : c s with
  | mk r s' => cases r <;> rfl

theorem andThen_keeps (c : S → Except E α × S) (r : Except E β) (s : S) :
    (andThen c (fun _ s => (r, s)) s).2 = (c s).2 := by
  unfold andThen
  cases c s with
  | mk r' s' => cases r' <;> rfl

theorem runAll_cons (f : α → S → Except E β × S) (a : α) (as : List α) :
    runAll f (a :: as) =
      andThen (f a) (fun b => andThen (runAll f as) (fun bs s => (.ok (b :: bs), s))) := by
  funext s
  simp only [runAll, andThen]
  cases f a s with
  | mk r s' =>
    cases r with
    | error e => rfl
    | ok b =>
      simp only
      cases runAll f as s' with
      | mk r' s'' => cases r' <;> rfl

theorem runAll_congr {f g : α → S → Except E β × S} {as : List α}
    (each : ∀ a ∈ as, f a = g a) : runAll f as = runAll g as := by
  induction as with
  | nil => rfl
  | cons a as ih =>
    funext s
    simp only [runAll, each a (by simp), ih (fun b hb => each b (by simp [hb]))]

theorem runAll_map {γ : Type} (f : γ → S → Except E β × S) (h : α → γ) (as : List α) :
    runAll f (as.map h) = runAll (fun a => f (h a)) as := by
  induction as with
  | nil => rfl
  | cons a as ih => rw [List.map_cons, runAll_cons, runAll_cons, ih]

theorem runAll_length {f : α → S → Except E β × S} {as : List α} {s : S} {bs : List β}
    (run : (runAll f as s).1 = .ok bs) : bs.length = as.length := by
  induction as generalizing s bs with
  | nil =>
    unfold runAll at run
    rw [Except.ok.injEq] at run
    rw [← run, List.length_nil, List.length_nil]
  | cons a as ih =>
    rw [runAll_cons] at run
    obtain ⟨b, s', -, rest⟩ := andThen_ok run
    obtain ⟨bs', s'', tail, result⟩ := andThen_ok rest
    rw [Except.ok.injEq] at result
    rw [← result, List.length_cons, List.length_cons, ih (congrArg Prod.fst tail)]

end FallibleRuns
