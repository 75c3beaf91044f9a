import Mathlib.Data.Nat.Notation

/-!
# Symbols Delivered in Pieces

A stream is read piece by piece: a read returns what has arrived, at most what it asks for, or it
is interrupted, or it fails. `readOnce` takes what the next read returns; `readExact` goes on until
it has a given number of symbols.
-/

namespace PetlibroLocal.Delivery

open List

variable {α : Type}

/-- What one read finds. Nothing to read is the end of the stream. -/
inductive Event (α : Type)
  | data (chunk : List α)
  | interrupted
  | failed

/-- The symbols that arrive before the stream ends or fails. -/
def delivered : List (Event α) → List α
  | [] => []
  | .data [] :: _ => []
  | .data (a :: chunk) :: events => a :: chunk ++ delivered events
  | .interrupted :: events => delivered events
  | .failed :: _ => []

/-- Reads until there are `n` symbols. A piece that is longer than what is asked for is left
in part. -/
def readExact : ℕ → List (Event α) → Option (List α × List (Event α))
  | 0, events => some ([], events)
  | _ + 1, [] => none
  | _ + 1, .data [] :: _ => none
  | n + 1, .data (a :: chunk) :: events =>
    if n < chunk.length then
      some (a :: chunk.take n, .data (chunk.drop n) :: events)
    else (readExact (n - chunk.length) events).map fun r => (a :: chunk ++ r.1, r.2)
  | n + 1, .interrupted :: events => readExact (n + 1) events
  | _ + 1, .failed :: _ => none

theorem delivered_data {chunk : List α} (h : chunk ≠ []) (events : List (Event α)) :
    delivered (.data chunk :: events) = chunk ++ delivered events := by
  cases chunk with
  | nil => exact absurd rfl h
  | cons a chunk => rfl

/-- The next read that is not interrupted, of `cap` symbols at most. At the end of the stream there
are none. -/
def readOnce (cap : ℕ) : List (Event α) → Option (List α × List (Event α))
  | [] => some ([], [])
  | .interrupted :: events => readOnce cap events
  | .failed :: _ => none
  | .data chunk :: events =>
    if chunk.length ≤ cap then some (chunk, events)
    else some (chunk.take cap, .data (chunk.drop cap) :: events)

/-- What a read returns: symbols off the front of the stream, and none only at its end. -/
theorem readOnce_spec {cap : ℕ} (hcap : 0 < cap) (events : List (Event α)) :
    match readOnce cap events with
    | none => delivered events = []
    | some (chunk, rest) =>
      chunk.length ≤ cap ∧ (chunk = [] → delivered events = []) ∧
        (chunk ≠ [] → chunk ++ delivered rest = delivered events) := by
  induction events with
  | nil => simp [readOnce, delivered]
  | cons event events ih =>
    cases event with
    | interrupted => simpa only [readOnce, delivered] using ih
    | failed => rfl
    | data chunk =>
      rw [readOnce]
      by_cases hle : chunk.length ≤ cap
      · rw [if_pos hle]
        refine ⟨hle, ?_, fun h => (delivered_data h events).symm⟩
        rintro rfl
        rfl
      · have hchunk : chunk ≠ [] := by
          rintro rfl
          exact hle (Nat.zero_le cap)
        have hdrop : chunk.drop cap ≠ [] := by
          rw [Ne, drop_eq_nil_iff]
          exact hle
        rw [if_neg hle]
        refine ⟨length_take_le cap chunk, fun h => ?_, fun _ => ?_⟩
        · rcases take_eq_nil_iff.mp h with h | h
          · omega
          · exact absurd h hchunk
        · rw [delivered_data hdrop, delivered_data hchunk, ← append_assoc, take_append_drop]

/-- **Reads take the symbols off the front of the stream.** -/
theorem readExact_spec (n : ℕ) (events : List (Event α)) :
    match readExact n events with
    | none => (delivered events).length < n
    | some (taken, rest) => taken.length = n ∧ taken ++ delivered rest = delivered events := by
  induction events generalizing n with
  | nil => cases n <;> simp [readExact, delivered]
  | cons event events ih =>
    cases n with
    | zero => simp [readExact]
    | succ n =>
      cases event with
      | interrupted => simpa only [readExact, delivered] using ih (n + 1)
      | failed => simp [readExact, delivered]
      | data chunk =>
        cases chunk with
        | nil => simp [readExact, delivered]
        | cons a chunk =>
          rw [readExact]
          by_cases h : n < chunk.length
          · have hdrop : chunk.drop n ≠ [] := by
              rw [Ne, drop_eq_nil_iff]
              omega
            simp only [if_pos h, delivered_data hdrop, delivered, length_cons,
              length_take, cons_append, ← append_assoc, take_append_drop, and_true]
            omega
          · have hrest := ih (n - chunk.length)
            rw [if_neg h]
            cases hread : readExact (n - chunk.length) events with
            | none =>
              rw [hread] at hrest
              simp only [Option.map_none, delivered, length_append, length_cons]
              omega
            | some r =>
              rw [hread] at hrest
              simp only [Option.map_some, delivered, length_append,
                length_cons, append_assoc, hrest.2, hrest.1, and_true]
              omega

end PetlibroLocal.Delivery
