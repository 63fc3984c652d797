import Mathlib.Data.List.Nodup
import Mathlib.Data.List.Perm.Basic
import MeteredFetch.Dispatcher.Basic

/-!
# Queue — mail that a dispatcher takes in

Requests are numbered in the order in which they come, and are put into the queue one after another.
The queue stays in the order in which its requests go, since no two of them have one number.

* `Pending.number` — requests numbered in the order in which they come;
* `Pending.insertAll` — puts requests into a queue, with `Pending.insertAll_perm` and
  `Pending.pairwise_insertAll`;
* `Dispatcher.enqueueAll_eq` — a dispatcher that takes in mail does just that;
* `Pending.IsLeast` — a request goes before all others that have come and were not taken.
-/

namespace MeteredFetch
namespace Pending

/-! ## Numbers -/

/-- Requests with their classes, numbered from `n` on in the order in which they come. -/
def number (n : Nat) (mail : List (Priority × RequestId)) : List Pending :=
  (mail.zipIdx n).map fun (m, i) => ⟨m.1, i, m.2⟩

@[simp]
theorem number_nil (n : Nat) : number n [] = [] := rfl

@[simp]
theorem number_cons (n : Nat) (m : Priority × RequestId) (rest : List (Priority × RequestId)) :
    number n (m :: rest) = ⟨m.1, n, m.2⟩ :: number (n + 1) rest := rfl

@[simp]
theorem length_number (n : Nat) (mail : List (Priority × RequestId)) :
    (number n mail).length = mail.length := by
  simp [number]

/-- Numbers go on where they have stopped. -/
theorem number_append (n : Nat) (mail mail' : List (Priority × RequestId)) :
    number n (mail ++ mail') = number n mail ++ number (n + mail.length) mail' := by
  simp [number, List.zipIdx_append]

/-- Numbers are given out without a gap. -/
theorem arrivals_number (n : Nat) (mail : List (Priority × RequestId)) :
    (number n mail).map (·.arrival) = List.range' n mail.length := by
  induction mail generalizing n with
  | nil =>
      rfl
  | cons m rest ih =>
      simp [ih, List.range'_succ]

theorem requests_number (n : Nat) (mail : List (Priority × RequestId)) :
    (number n mail).map (·.request) = mail.map Prod.snd := by
  induction mail generalizing n with
  | nil =>
      rfl
  | cons m rest ih =>
      simp [ih]

variable {n : Nat} {mail : List (Priority × RequestId)} {x y : Pending} {xs queue : List Pending}

theorem bounds_of_number (h : x ∈ number n mail) : n ≤ x.arrival ∧ x.arrival < n + mail.length := by
  have member : x.arrival ∈ (number n mail).map (·.arrival) := List.mem_map_of_mem h
  rw [arrivals_number, List.mem_range'_1] at member
  exact member

/-- No two requests have one number. -/
theorem pairwise_number (n : Nat) (mail : List (Priority × RequestId)) :
    (number n mail).Pairwise fun x y => x.arrival < y.arrival := by
  have increasing : ((number n mail).map (·.arrival)).Pairwise (· < ·) := by
    rw [arrivals_number]
    exact List.pairwise_lt_range'
  exact List.pairwise_map.1 increasing

/-- No number is given out twice. -/
theorem nodup_number (n : Nat) (mail : List (Priority × RequestId)) : (number n mail).Nodup := by
  refine (pairwise_number n mail).imp ?_
  intro x y lt same
  rw [same] at lt
  exact Nat.lt_irrefl _ lt

/-! ## Queues -/

def insertAll (xs queue : List Pending) : List Pending :=
  xs.foldl (fun queue x => insert x queue) queue

/-- A queue holds what was in it and what was put into it. -/
theorem insertAll_perm (xs queue : List Pending) : (insertAll xs queue).Perm (queue ++ xs) := by
  induction xs generalizing queue with
  | nil =>
      simp [insertAll]
  | cons x rest ih =>
      calc
        insertAll (x :: rest) queue = insertAll rest (insert x queue) := rfl
        List.Perm _ (insert x queue ++ rest) := ih (insert x queue)
        List.Perm _ ((x :: queue) ++ rest) := (insert_perm x queue).append_right rest
        List.Perm _ (queue ++ x :: rest) := List.perm_middle.symm

/-- A queue stays in the order in which its requests go. -/
theorem pairwise_insertAll (sorted : queue.Pairwise fun x y => x.before y = true)
    (later : ∀ x ∈ queue, ∀ y ∈ xs, x.arrival < y.arrival)
    (increasing : xs.Pairwise fun x y => x.arrival < y.arrival) :
    (insertAll xs queue).Pairwise fun x y => x.before y = true := by
  induction xs generalizing queue with
  | nil =>
      exact sorted
  | cons x rest ih =>
      rcases List.pairwise_cons.1 increasing with ⟨first, others⟩
      apply ih
      · apply pairwise_insert _ sorted
        intro y member
        exact Nat.ne_of_gt (later y member x (List.mem_cons_self ..))
      · intro y member z other
        rcases List.mem_cons.1 ((insert_perm x queue).mem_iff.1 member) with rfl | old
        · exact first z other
        · exact later y old z (List.mem_cons_of_mem _ other)
      · exact others

end Pending

/-- A dispatcher that takes in mail numbers it and puts it into its queue. -/
theorem Dispatcher.enqueueAll_eq (d : Dispatcher) (mail : List (Priority × RequestId)) :
    d.enqueueAll mail =
      { d with
        pending := Pending.insertAll (Pending.number d.arrivals mail) d.pending
        arrivals := d.arrivals + mail.length } := by
  induction mail generalizing d with
  | nil =>
      rfl
  | cons m rest ih =>
      calc
        d.enqueueAll (m :: rest) = (d.enqueue m.1 m.2).enqueueAll rest := rfl
        _ = _ := ih (d.enqueue m.1 m.2)
        _ = _ := by simp [enqueue, Pending.insertAll, Nat.add_comm, Nat.add_left_comm]

/-! ## Order -/

namespace Pending

/-- A request has come and was not taken, and it goes before all others of which this can be said. -/
structure IsLeast (x : Pending) (came taken : List Pending) : Prop where
  arrived : x ∈ came
  waits : x ∉ taken
  first : ∀ y ∈ came, y ∉ taken → y ≠ x → x.before y = true

variable {came taken rest : List Pending} {x : Pending}

/-- The head of a queue in order is the least of those that have come and were not taken. -/
theorem isLeast_of_head (split : (taken ++ x :: rest).Perm came) (distinct : came.Nodup)
    (sorted : (x :: rest).Pairwise fun y z => y.before z = true) : x.IsLeast came taken := by
  have distinct' := split.nodup_iff.2 distinct
  refine ⟨split.mem_iff.1 (by simp), ?_, ?_⟩
  · intro member
    exact (List.disjoint_of_nodup_append distinct') member (List.mem_cons_self ..)
  · intro y member untaken ne
    have there := split.mem_iff.2 member
    rcases List.mem_append.1 there with old | here
    · exact absurd old untaken
    rcases List.mem_cons.1 here with same | later
    · exact absurd same ne
    · exact (List.pairwise_cons.1 sorted).1 y later

/-- Within a class, the numbers decide. -/
theorem arrival_lt_of_before {y : Pending} (h : x.before y = true)
    (same : x.priority = y.priority) : x.arrival < y.arrival := by
  rcases (before_iff x y).1 h with lt | ⟨_, lt⟩
  · rw [same] at lt
    exact absurd lt (Nat.lt_irrefl _)
  · exact lt

/-- No request that goes before another one is less urgent. -/
theorem rank_le_of_before {y : Pending} (h : x.before y = true) :
    x.priority.rank ≤ y.priority.rank := by
  rcases (before_iff x y).1 h with lt | ⟨same, _⟩
  · exact Nat.le_of_lt lt
  · exact Nat.le_of_eq (by rw [same])

end Pending
end MeteredFetch
