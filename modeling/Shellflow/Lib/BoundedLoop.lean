/-! Loops whose rounds are bounded, `for _ in 0..n`, around a body that goes on or stops. -/
namespace BoundedLoop
universe u v
variable {σ : Type u} {β : Type v}

/-- What one round does. -/
inductive Round (σ : Type u) (β : Type v) where
  | next (s : σ)
  | stop (value : β)

/-- How the loop ends: a round stopped it, or the bound was spent. -/
inductive End (σ : Type u) (β : Type v) where
  | stopped (value : β)
  | spent (s : σ)

def loop (round : σ → Round σ β) : Nat → σ → End σ β
  | 0, s => .spent s
  | n + 1, s =>
    match round s with
    | .next s => loop round n s
    | .stop value => .stopped value

/-- The value of the loop; `after` is what follows it when the bound is spent. -/
def bounded (round : σ → Round σ β) (after : σ → β) (n : Nat) (s : σ) : β :=
  match loop round n s with
  | .stopped value => value
  | .spent s => after s

/-- The rounds, without a bound, come to a stop. -/
inductive Stops (round : σ → Round σ β) : σ → β → Prop
  | stop {s : σ} {value : β} (h : round s = .stop value) : Stops round s value
  | next {s s' : σ} {value : β} (h : round s = .next s') (hrest : Stops round s' value) :
    Stops round s value

/-- Every round that does not stop moves the index forward, and not past the end. -/
def Advances (round : σ → Round σ β) (index : σ → Nat) (len : Nat) : Prop :=
  ∀ s s', round s = .next s' → index s < index s' ∧ index s' ≤ len

/-- The loop comes to a stop from every state, with any bound that allows the rounds 0..=len. -/
def Finishes (round : σ → Round σ β) (len : Nat) : Prop :=
  ∀ s, ∃ value, ∀ n, len < n → loop round n s = .stopped value

section Rules
variable {round : σ → Round σ β} {index : σ → Nat} {len n : Nat} {s s' : σ} {value : β}

theorem loop_next (h : round s = .next s') : loop round (n + 1) s = loop round n s' := by
  rw [loop, h]

theorem loop_stop (h : round s = .stop value) : loop round (n + 1) s = .stopped value := by
  rw [loop, h]

/-- With the rest of the length as measure the rounds come to a stop. -/
theorem stops_of_advances (h : Advances round index len) (s : σ) : ∃ value, Stops round s value := by
  obtain ⟨rest, hrest⟩ : ∃ rest, rest = len - index s := ⟨_, rfl⟩
  induction rest using Nat.strongRecOn generalizing s with
  | ind rest ih =>
    cases hround : round s with
    | stop value => exact ⟨value, .stop hround⟩
    | next s' =>
      obtain ⟨hlt, hle⟩ := h s s' hround
      obtain ⟨value, hstops⟩ := ih (len - index s') (by omega) s' rfl
      exact ⟨value, .next hround hstops⟩

theorem loop_of_stops (h : Advances round index len) (hstops : Stops round s value)
    (hn : len - index s < n) : loop round n s = .stopped value := by
  obtain ⟨n, rfl⟩ : ∃ m, n = m + 1 := ⟨n - 1, by omega⟩
  induction hstops generalizing n with
  | stop hround => exact loop_stop hround
  | next hround _ ih =>
    obtain ⟨hlt, hle⟩ := h _ _ hround
    obtain ⟨m, rfl⟩ : ∃ m, n = m + 1 := ⟨n - 1, by omega⟩
    rw [loop_next hround]
    exact ih m (by omega)

theorem finishes_of_advances (h : Advances round index len) : Finishes round len := by
  intro s
  obtain ⟨value, hstops⟩ := stops_of_advances h s
  exact ⟨value, fun n hn => loop_of_stops h hstops (by omega)⟩

theorem bounded_of_stops (h : Advances round index len) {after : σ → β}
    (hstops : Stops round s value) (hn : len < n) : bounded round after n s = value := by
  rw [bounded, loop_of_stops h hstops (by omega)]

/-- A property of the state that every round keeps holds of the value it stops with. -/
theorem bounded_induct (h : Advances round index len) {motive : σ → Prop} {result : β → Prop}
    (hnext : ∀ s s', motive s → round s = .next s' → motive s')
    (hstop : ∀ s value, motive s → round s = .stop value → result value) {after : σ → β}
    (hs : motive s) (hn : len < n) : result (bounded round after n s) := by
  obtain ⟨value, hstops⟩ := stops_of_advances h s
  rw [bounded_of_stops h hstops hn]
  induction hstops with
  | stop hround => exact hstop _ _ hs hround
  | next hround _ ih => exact ih (hnext _ _ hs hround)

/-- The state in which the loop stops lies between the start and the end. -/
theorem bounded_within (result : β → Prop) (h : Advances round index len) {after : σ → β}
    (hlen : index s ≤ len)
    (hstop : ∀ s' value, index s ≤ index s' → index s' ≤ len → round s' = .stop value →
      result value) (hn : len < n) : result (bounded round after n s) := by
  refine bounded_induct (motive := fun s' => index s ≤ index s' ∧ index s' ≤ len) h ?_ ?_
    ⟨Nat.le_refl _, hlen⟩ hn
  · intro s₁ s₂ hbetween hround
    obtain ⟨hlt, hle⟩ := h s₁ s₂ hround
    exact ⟨Nat.le_trans hbetween.1 (Nat.le_of_lt hlt), hle⟩
  · intro s' value hbetween hround
    exact hstop s' value hbetween.1 hbetween.2 hround

/-- A loop that stops with the state it has reached stops between the start and the end. -/
theorem bounded_self_within {round : σ → Round σ σ} (h : Advances round index len) {after : σ → σ}
    (hself : ∀ s' value, round s' = .stop value → value = s') (hlen : index s ≤ len) (hn : len < n) :
    index s ≤ index (bounded round after n s) ∧ index (bounded round after n s) ≤ len := by
  apply bounded_within (fun value => index s ≤ index value ∧ index value ≤ len) h hlen ?_ hn
  intro s' value hle hlen hround
  rw [hself s' value hround]
  exact ⟨hle, hlen⟩

/-- Both laws together: no round stands still, none passes the end, and the bound is never spent. -/
structure Ends (round : σ → Round σ β) (index : σ → Nat) (len : Nat) : Prop where
  advances : Advances round index len
  finishes : Finishes round len

theorem ends_of_advances (h : Advances round index len) : Ends round index len :=
  ⟨h, finishes_of_advances h⟩

end Rules

end BoundedLoop
