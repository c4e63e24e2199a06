/-! Lists of shell commands by what they do to a state and the status they end with. They run where
`set -e` is off, as the condition of an `if`. -/
namespace AndOr
universe u v
variable {σ : Type u}

/-- `returned` tells a status that `return` ended the function with. -/
structure Result (σ : Type u) where
  status : Nat
  returned : Bool
  state : σ

abbrev Command (σ : Type u) := σ → Result σ

def test (p : Bool) : Command σ := fun s => ⟨if p then 0 else 1, false, s⟩

/-- A command that cannot fail. -/
def ok : Command σ := fun s => ⟨0, false, s⟩

def ret (n : Nat) : Command σ := fun s => ⟨n, true, s⟩

def seq (a b : Command σ) : Command σ := fun s =>
  let r := a s
  if r.returned then r else b r.state

def andThen (a b : Command σ) : Command σ := fun s =>
  let r := a s
  if r.returned || r.status != 0 then r else b r.state

def orElse (a b : Command σ) : Command σ := fun s =>
  let r := a s
  if r.returned || r.status == 0 then r else b r.state

def ifElse (c t e : Command σ) : Command σ := fun s =>
  let r := c s
  if r.returned then r else if r.status = 0 then t r.state else e r.state

/-- An `if` without an `else` whose condition fails succeeds. -/
def ifThen (c t : Command σ) : Command σ := ifElse c t ok

/-- The call of a function ends its `return`. -/
def call (body : Command σ) : Command σ := fun s => { body s with returned := false }

/-- A command under `set -e`: where it fails the script ends with its status. -/
def strict (a : Command σ) : Command σ := fun s =>
  let r := a s
  if r.status = 0 then r else { r with returned := true }

/-- A test of the state. -/
def check (p : σ → Bool) : Command σ := fun s => test (p s) s

def forEach {α : Type v} (f : α → Command σ) : List α → Command σ
  | [] => ok
  | a :: l => seq (f a) (forEach f l)

@[simp] theorem ifElse_test (p : Bool) (t e : Command σ) (s : σ) :
    ifElse (test p) t e s = if p then t s else e s := by
  cases p <;> rfl

@[simp] theorem ifThen_test (p : Bool) (t : Command σ) (s : σ) :
    ifThen (test p) t s = if p then t s else ok s := ifElse_test p t ok s

@[simp] theorem ok_apply (s : σ) : ok s = ⟨0, false, s⟩ := rfl

@[simp] theorem seq_ok (a : Command σ) (s : σ) : seq ok a s = a s := rfl

@[simp] theorem ret_apply (n : Nat) (s : σ) : ret n s = ⟨n, true, s⟩ := rfl

section Run
variable {a b : Command σ} {s : σ}

theorem seq_apply (h : (a s).returned = false) : seq a b s = b (a s).state := by
  rw [seq, if_neg (by rw [h]; decide)]

theorem seq_returned (h : (a s).returned = true) : seq a b s = a s := by
  rw [seq, if_pos h]

/-- A list that is not left early runs each of its parts to the end. -/
theorem stays_of_seq (h : (seq a b s).returned = false) :
    (a s).returned = false ∧ (b (a s).state).returned = false := by
  cases hfirst : (a s).returned with
  | true =>
    rw [seq_returned hfirst, hfirst] at h
    cases h
  | false =>
    rw [seq_apply hfirst] at h
    exact ⟨rfl, h⟩

/-- What each round carries on, from the elements before it to the list with its own. -/
theorem forEach_stays {α : Type v} {f : α → Command σ} {inv : List α → σ → Prop}
    (hstep : ∀ earlier a s, inv earlier s → (f a s).returned = false →
      inv (a :: earlier) (f a s).state) (l : List α) {earlier : List α} (hs : inv earlier s)
    (h : (forEach f l s).returned = false) : inv (l.reverse ++ earlier) (forEach f l s).state := by
  induction l generalizing earlier s with
  | nil => exact hs
  | cons a l ih =>
    rw [forEach] at h ⊢
    obtain ⟨hfirst, hrest⟩ := stays_of_seq h
    rw [seq_apply hfirst, List.reverse_cons, List.append_assoc]
    exact ih (hstep earlier a s hs hfirst) hrest

theorem strict_ok (h : (a s).status = 0) : strict a s = a s := if_pos h

theorem strict_fails (h : (a s).status ≠ 0) : strict a s = { a s with returned := true } := if_neg h

end Run

end AndOr
