/-! Programs over a state that return a value, fail, or end their process. -/
namespace Process

inductive Ended (ε α : Type)
  | returned (a : α)
  | failed (e : ε)
  | exited (code : Int)

def Program (σ ε α : Type) := σ → Ended ε α × σ

namespace Program

variable {σ ε ε' α β : Type}

def bind (p : Program σ ε α) (f : α → Program σ ε β) : Program σ ε β := fun s =>
  match p s with
  | (.returned a, s) => f a s
  | (.failed e, s) => (.failed e, s)
  | (.exited code, s) => (.exited code, s)

instance : Monad (Program σ ε) where
  pure a := fun s => (.returned a, s)
  bind := bind

def fail (e : ε) : Program σ ε α := fun s => (.failed e, s)

def exit (code : Int) : Program σ ε α := fun s => (.exited code, s)

/-- The answer of a step that changes the state. -/
def act (step : σ → α × σ) : Program σ ε α := fun s => (.returned (step s).1, (step s).2)

/-- What can be read from the state. -/
def look (question : σ → α) : Program σ ε α := fun s => (.returned (question s), s)

def mapError (f : ε → ε') (p : Program σ ε α) : Program σ ε' α := fun s =>
  match p s with
  | (.returned a, s) => (.returned a, s)
  | (.failed e, s) => (.failed (f e), s)
  | (.exited code, s) => (.exited code, s)

/-- A failure becomes a value. -/
def attempt (p : Program σ ε α) : Program σ ε' (Except ε α) := fun s =>
  match p s with
  | (.returned a, s) => (.returned (.ok a), s)
  | (.failed e, s) => (.returned (.error e), s)
  | (.exited code, s) => (.exited code, s)

/-- One program for each element, in order. -/
def each (f : α → Program σ ε Unit) : List α → Program σ ε Unit
  | [] => pure ()
  | a :: l => f a >>= fun _ => each f l

end Program

/-- What is to hold in the end, for each way of ending. -/
structure Post (σ ε α : Type) where
  returned : α → σ → Prop
  failed : ε → σ → Prop
  exited : Int → σ → Prop

section Rules

variable {σ ε ε' α β : Type}

def Ensures (p : Program σ ε α) (s : σ) (post : Post σ ε α) : Prop :=
  match p s with
  | (.returned a, s) => post.returned a s
  | (.failed e, s) => post.failed e s
  | (.exited code, s) => post.exited code s

theorem ensures_pure (a : α) (s : σ) (post : Post σ ε α) :
    Ensures (pure a) s post ↔ post.returned a s := Iff.rfl

theorem ensures_fail (e : ε) (s : σ) (post : Post σ ε α) :
    Ensures (.fail e) s post ↔ post.failed e s := Iff.rfl

theorem ensures_act (step : σ → α × σ) (s : σ) (post : Post σ ε α) :
    Ensures (.act step) s post ↔ post.returned (step s).1 (step s).2 := Iff.rfl

theorem ensures_look (question : σ → α) (s : σ) (post : Post σ ε α) :
    Ensures (.look question) s post ↔ post.returned (question s) s := Iff.rfl

theorem ensures_bind (p : Program σ ε α) (f : α → Program σ ε β) (s : σ) (post : Post σ ε β) :
    Ensures (p >>= f) s post ↔
      Ensures p s ⟨fun a s' => Ensures (f a) s' post, post.failed, post.exited⟩ := by
  have hbind : (p >>= f) s = Program.bind p f s := rfl
  unfold Ensures
  rw [hbind, Program.bind]
  cases p s with
  | mk ended s' =>
    cases ended with
    | returned a => exact Iff.rfl
    | failed e => exact Iff.rfl
    | exited code => exact Iff.rfl

section Bind
variable {p : Program σ ε α} {f : α → Program σ ε β} {s s' : σ}

theorem bind_returned {a : α} (h : p s = (.returned a, s')) : (p >>= f) s = f a s' := by
  rw [show (p >>= f) s = Program.bind p f s from rfl, Program.bind, h]

theorem bind_failed {e : ε} (h : p s = (.failed e, s')) : (p >>= f) s = (.failed e, s') := by
  rw [show (p >>= f) s = Program.bind p f s from rfl, Program.bind, h]

end Bind

theorem ensures_mapError (f : ε → ε') (p : Program σ ε α) (s : σ) (post : Post σ ε' α) :
    Ensures (p.mapError f) s post ↔
      Ensures p s ⟨post.returned, fun e => post.failed (f e), post.exited⟩ := by
  unfold Ensures Program.mapError
  cases p s with
  | mk ended s' =>
    cases ended with
    | returned a => exact Iff.rfl
    | failed e => exact Iff.rfl
    | exited code => exact Iff.rfl

theorem ensures_attempt (p : Program σ ε α) (s : σ) (post : Post σ ε' (Except ε α)) :
    Ensures p.attempt s post ↔
      Ensures p s ⟨fun a => post.returned (.ok a), fun e => post.returned (.error e),
        post.exited⟩ := by
  unfold Ensures Program.attempt
  cases p s with
  | mk ended s' =>
    cases ended with
    | returned a => exact Iff.rfl
    | failed e => exact Iff.rfl
    | exited code => exact Iff.rfl

theorem Ensures.mono {p : Program σ ε α} {s : σ} {post post' : Post σ ε α}
    (h : Ensures p s post) (hreturned : ∀ a s', post.returned a s' → post'.returned a s')
    (hfailed : ∀ e s', post.failed e s' → post'.failed e s')
    (hexited : ∀ code s', post.exited code s' → post'.exited code s') : Ensures p s post' := by
  unfold Ensures at h ⊢
  cases hrun : p s with
  | mk ended s' =>
    rw [hrun] at h
    cases ended with
    | returned a => exact hreturned a s' h
    | failed e => exact hfailed e s' h
    | exited code => exact hexited code s' h

/-- What holds of the state in the end, however the program ends. -/
theorem ensures_final {p : Program σ ε α} {s : σ} {Q : σ → Prop} :
    Ensures p s ⟨fun _ => Q, fun _ => Q, fun _ => Q⟩ ↔ Q (p s).2 := by
  unfold Ensures
  cases p s with
  | mk ended s' =>
    cases ended with
    | returned a => exact Iff.rfl
    | failed e => exact Iff.rfl
    | exited code => exact Iff.rfl

theorem Ensures.final {p : Program σ ε α} {s : σ} {Q : σ → Prop}
    (h : Ensures p s ⟨fun _ => Q, fun _ => Q, fun _ _ => False⟩) : Q (p s).2 :=
  ensures_final.mp (h.mono (fun _ _ hq => hq) (fun _ _ hq => hq) fun _ _ hf => hf.elim)

/-- A loop, with what holds after some of its rounds. -/
theorem ensures_each {f : α → Program σ ε Unit} {l : List α} {s : σ} {post : Post σ ε Unit}
    (inv : List α → σ → Prop) (hstart : inv [] s)
    (hround : ∀ done a rest s, l = done ++ a :: rest → inv done s →
      Ensures (f a) s ⟨fun _ => inv (done ++ [a]), post.failed, post.exited⟩)
    (hend : ∀ s, inv l s → post.returned () s) : Ensures (Program.each f l) s post := by
  suffices hall : ∀ done rest s, l = done ++ rest → inv done s → Ensures (Program.each f rest) s post from
    hall [] l s rfl hstart
  intro done rest
  induction rest generalizing done with
  | nil =>
    intro s hl hinv
    rw [List.append_nil] at hl
    exact hend s (hl ▸ hinv)
  | cons a rest ih =>
    intro s hl hinv
    rw [Program.each, ensures_bind]
    refine (hround done a rest s hl hinv).mono (fun _ s' h => ?_) (fun _ _ h => h) fun _ _ h => h
    exact ih (done ++ [a]) s' (by simp [hl]) h

/-- The program does not end its process, and it changes the state along a relation. -/
def Steps (R : σ → σ → Prop) (p : Program σ ε α) : Prop :=
  ∀ s, Ensures p s ⟨fun _ => R s, fun _ => R s, fun _ _ => False⟩

variable {R : σ → σ → Prop}

theorem Steps.pure (hrefl : ∀ s, R s s) (a : α) : Steps R (Pure.pure a : Program σ ε α) := hrefl

theorem Steps.fail (hrefl : ∀ s, R s s) (e : ε) : Steps R (.fail e : Program σ ε α) := hrefl

theorem Steps.act {step : σ → α × σ} (h : ∀ s, R s (step s).2) :
    Steps R (.act step : Program σ ε α) := h

theorem Steps.bind (htrans : ∀ a b c, R a b → R b c → R a c) {p : Program σ ε α}
    {f : α → Program σ ε β} (h : Steps R p) (hnext : ∀ a, Steps R (f a)) : Steps R (p >>= f) := by
  intro s
  rw [ensures_bind]
  refine (h s).mono (fun a s' hstep => ?_) (fun _ _ hstep => hstep) fun _ _ hfalse => hfalse
  exact (hnext a s').mono (fun _ _ hmore => htrans _ _ _ hstep hmore)
    (fun _ _ hmore => htrans _ _ _ hstep hmore) fun _ _ hfalse => hfalse

theorem Steps.mapError {p : Program σ ε α} (h : Steps R p) (f : ε → ε') :
    Steps R (p.mapError f) := fun s => (ensures_mapError f p s _).mpr (h s)

theorem Steps.attempt {p : Program σ ε α} (h : Steps R p) :
    Steps R (p.attempt : Program σ ε' (Except ε α)) := fun s => (ensures_attempt p s _).mpr (h s)

theorem Steps.each (hrefl : ∀ s, R s s) (htrans : ∀ a b c, R a b → R b c → R a c)
    {f : α → Program σ ε Unit} (h : ∀ a, Steps R (f a)) (l : List α) :
    Steps R (Program.each f l) := by
  induction l with
  | nil => exact Steps.pure hrefl ()
  | cons a l ih => exact Steps.bind htrans (h a) fun _ => ih

theorem Steps.ite {c : Prop} [Decidable c] {p q : Program σ ε α} (hp : Steps R p)
    (hq : Steps R q) : Steps R (if c then p else q) := by
  split
  · exact hp
  · exact hq

end Rules
end Process
