import MeteredFetch.Proofs.Executor.Ready
import MeteredFetch.Proofs.Fetcher.Rounds
import MeteredFetch.Proofs.Request.Undisturbed

/-!
# Drained — a request that is tried until it ends

A request that was made and nothing more is scheduled once, and then taken out and sent until nothing
waits. Nobody else touches it. The answers to its lookups and its budget settle how many lookups are
made, what each attempt comes to, and what the consumer is told.

* `Fetcher.Drained` — what has become of such a request after a number of lookups;
* `Fetcher.Drained.round` — a round is one lookup more;
* `Fetcher.tried_until_ended` — the request is followed on its course up to its end.
-/

namespace MeteredFetch
namespace Fetcher

open Executor
open Script (drain)

variable {id : RequestId} {d : SchedulerId} {r : Request} {e e' : State} {answers : Nat → Response} {n : Nat}

/-! ## The course of a request -/

/-- The outcomes of attempts that each have their request scheduled again. -/
def retryings (n : Nat) : List Outcome :=
  (List.range n).map fun k => .retrying (min (k + 1) Request.maxRetryCount)

/-- Each further attempt counts one retry more, as far as they are counted. -/
theorem retryings_succ (n : Nat) :
    retryings (n + 1) = retryings n ++ [.retrying (min (n + 1) Request.maxRetryCount)] := by
  simp [retryings, List.range_succ]

theorem length_retryings (n : Nat) : (retryings n).length = n := by
  simp [retryings]

/-- What has become of a request after `n` lookups since it was to be scheduled. It waits again as long
as there is another lookup to come; then it has ended, and the consumer was told so. -/
inductive Drained (id : RequestId) (d : SchedulerId) (r : Request) (answers : Nat → Response) (e : State) :
    Nat → State → Prop
  | waits {n : Nat} {e' : State} :
      (n : ℕ∞) < r.lookups answers → AtRest e' → Clear id d [id] e'.shared →
      e'.shared.requests[id]? = some (r.tried n) → e'.shared.notices = e.shared.notices →
      Logs id r e (retryings n) e' → Drained id d r answers e n e'
  | ended {n : Nat} {e' : State} :
      ((n + 1 : Nat) : ℕ∞) = r.lookups answers → AtRest e' → Clear id d [] e'.shared →
      e'.shared.requests[id]? = some (r.ended answers n) →
      e'.shared.notices = (id, (answers n).notice) :: e.shared.notices →
      Logs id r e (retryings n ++ [(answers n).ending]) e' → Drained id d r answers e (n + 1) e'

/-- No more lookups are made for a request than its budget and the answers allow. -/
theorem Drained.le (course : Drained id d r answers e n e') : (n : ℕ∞) ≤ r.lookups answers := by
  cases course with
  | waits going _ _ _ _ _ =>
      exact le_of_lt going
  | ended last _ _ _ _ _ =>
      exact le_of_eq last

/-- A round of a request that waits is the next part of its course. -/
theorem Drained.round {s : Session Fetcher Job Result} (fresh : r.IsFresh) (route : r.destination = .ok d)
    (next : e.shared.lookup.answer r.key r.settings.localOnly n = answers n)
    (course : Drained id d r answers e n s.executor) (going : (n : ℕ∞) < r.lookups answers) :
    ∃ s' : Session Fetcher Job Result,
      (∀ limit, drain d (limit + 1) s = (drain d limit s').map fun x => (x.1, id :: x.2)) ∧
      Drained id d r answers e (n + 1) s'.executor := by
  cases course with
  | ended last _ _ _ _ _ =>
      exact absurd last (ne_of_lt going)
  | waits _ rest clear request notices logs =>
      -- each lookup so far has used up one answer
      have answer : s.executor.shared.lookup.answer r.key r.settings.localOnly 0 = answers n := by
        rw [logs.answers, length_retryings]
        exact next
      have more : ((n + 1 : Nat) : ℕ∞) ≤ r.lookups answers := by
        rw [Nat.cast_add, Nat.cast_one]
        exact (ENat.add_one_le_iff (ENat.natCast_ne_top n)).2 going
      rcases lt_or_eq_of_le more with lt | last
      · have concludes := Request.conclude_of_lt fresh lt
        rw [← answer] at concludes
        rcases drain_of_waiting clear rest request (fresh.beginSend n) route concludes route rfl with
          ⟨s', rounds, sent⟩
        refine ⟨s', rounds,
          .waits lt sent.rest sent.clear sent.request (sent.notices.trans notices) ?_⟩
        rw [retryings_succ]
        exact logs.trans (sent.logs.congr rfl rfl)
      · have concludes := Request.conclude_of_eq fresh last
        rw [← answer] at concludes
        rcases drain_of_waiting clear rest request (fresh.beginSend n) route concludes route rfl with
          ⟨s', rounds, sent⟩
        have told := sent.notices
        have log := sent.logs
        rw [answer, notices] at told
        rw [answer] at log
        exact ⟨s', rounds, .ended last sent.rest sent.clear sent.request told
          (logs.trans (log.congr rfl rfl))⟩

/-- However far a request is drained, it is followed on its course, up to its end at most. -/
theorem Drained.drain {s : Session Fetcher Job Result} {limit : Nat} (fresh : r.IsFresh)
    (route : r.destination = .ok d)
    (laid : ∀ k < n + limit, e.shared.lookup.answer r.key r.settings.localOnly k = answers k)
    (course : Drained id d r answers e n s.executor) :
    ∃ m s', Script.drain d limit s = .ok (s', List.replicate m id) ∧
      ((n + m : Nat) : ℕ∞) = min ((n + limit : Nat) : ℕ∞) (r.lookups answers) ∧
      Drained id d r answers e (n + m) s'.executor := by
  -- on how often the request may still be taken out; the course says how often it was
  induction limit generalizing n s with
  | zero =>
      exact ⟨0, s, rfl, (min_eq_left course.le).symm, course⟩
  | succ limit ih =>
      rcases lt_or_eq_of_le course.le with going | last
      · have next := laid n (Nat.lt_add_of_pos_right (Nat.succ_pos limit))
        rcases course.round fresh route next going with ⟨s', rounds, course'⟩
        have total : n + 1 + limit = n + (limit + 1) := by omega
        rcases ih (total ▸ laid) course' with ⟨m, s'', drained, count, course''⟩
        have number : n + 1 + m = n + (m + 1) := by omega
        rw [number] at count course''
        rw [total] at count
        refine ⟨m + 1, s'', ?_, count, course''⟩
        rw [rounds, drained]
        rfl
      · cases course with
        | waits going _ _ _ _ _ =>
            exact absurd last (ne_of_lt going)
        | ended _ rest clear request notices logs =>
            -- nothing waits, and what was recorded stays as it is
            rcases act_pop clear with ⟨schedulers, popped, clear'⟩
            refine ⟨0, _, drain_of_nil popped limit, ?_, .ended last ⟨rest.ready, rest.known⟩ clear'
              request notices ⟨logs.now, logs.tasks, logs.calls, logs.finished, logs.answers⟩⟩
            rw [← last]
            exact (min_eq_right (Nat.cast_le.2 (Nat.le_add_right _ _))).symm

/-- A request that was made and nothing more is scheduled. -/
theorem act_schedule (clear : Clear id d [] e.shared) (fresh : r.IsFresh)
    (found : e.shared.requests[id]? = some r) (route : r.destination = .ok d) :
    ∃ schedulers, e.act program (.schedule id) =
        .ok ({ e with
          shared := { e.shared with requests := e.shared.requests.set id (r.tried 0), schedulers } },
          .accepted) ∧
      Clear id d [id] { e.shared with requests := e.shared.requests.set id (r.tried 0), schedulers } := by
  rcases clear.scheduler with ⟨q, there, holds⟩
  have same : (r.tried 0).destination = .ok d := route
  refine ⟨e.shared.schedulers.modify d (·.push id), act_of_perform ?_ clear.kept, clear.kept,
    ⟨q.push id, ?_, holds.push id⟩, clear.ungated, clear.prompt, clear.unhooked⟩
  · simp [perform, Fetcher.schedule, request?, clear.kept, found, clear.route route, fresh.schedule,
      enlist, same, setRequest, modifyScheduler, there, holds.unattended]
  · simp [there]

/-- A request that was made and nothing more is scheduled, and then taken out and sent until nothing
waits, at most `limit` times. It is looked up until an answer ends it whatever its budget, or the budget
is used up, and if neither happens as often as it may be taken out. Each lookup is for its key with its
settings. All attempts but the last one come to retries that are counted up, and the last one ends the
request as its answer says, with one notice to the consumer. The count ends as the number of failures.
It stops at its largest value, which no limited budget reaches. -/
theorem tried_until_ended {f : Fetcher} {start : Instant} {hs : List Moment}
    {s : Session Fetcher Job Result} {key : Key} {budget : Int32} {settings : Settings} {group : Group}
    (history : History program (opening start f) hs s.executor) (rest : s.executor.ready = [])
    (made : Request.create key budget settings group = .ok r)
    (found : s.executor.shared.requests[id]? = some r) (route : r.destination = .ok d)
    (clear : Clear id d [] s.executor.shared) (limit : Nat)
    (laid : ∀ k < limit, s.executor.shared.lookup.answer key settings.localOnly k = answers k) :
    ∃ e n s', s.executor.act program (.schedule id) = .ok (e, .accepted) ∧
      drain d limit { s with executor := e } = .ok (s', List.replicate n id) ∧
      (n : ℕ∞) = min (limit : ℕ∞) (min r.retries.attempts (firstFinal answers)) ∧
      Drained id d r answers s.executor n s'.executor ∧
      (∀ most, r.retries = .limited most → n ≤ Request.maxRetryCount) := by
  rcases Request.isFresh_of_create made with ⟨fresh, rfl, rfl⟩
  have prompt : Prompt (fun _ : Job => False) s.executor :=
    (advances_of_history (.of_empty rfl rfl) (fun _ _ never => never) history).prompt
  have inside : id < s.executor.shared.requests.length := (List.getElem?_eq_some_iff.1 found).1
  rcases act_schedule clear fresh found route with ⟨schedulers, scheduled, clear'⟩
  -- whatever the budget and the answers, there is a first lookup
  have going : ((0 : Nat) : ℕ∞) < r.lookups answers := by
    refine lt_min (Retries.lt_attempts_iff.2 ?_) (lt_firstFinal_iff.2 nofun)
    cases r.retries with
    | limited most =>
        exact decide_eq_true (Nat.zero_le most)
    | unlimited =>
        rfl
  have course : Drained id d r answers s.executor 0
      { s.executor with
        shared := { s.executor.shared with
          requests := s.executor.shared.requests.set id (r.tried 0)
          schedulers } } := by
    have logs := Logs.refl id r s.executor
    exact .waits going ⟨rest, prompt.known⟩ clear' (List.getElem?_set_self inside) rfl
      ⟨rfl, logs.tasks, rfl, rfl, logs.answers⟩
  rw [← Nat.zero_add limit] at laid
  rcases course.drain (s := { s with executor := _ }) fresh route laid with ⟨n, s', drained, count, course'⟩
  simp only [Nat.zero_add] at count course'
  refine ⟨_, n, s', scheduled, drained, count, course', fun most limited => ?_⟩
  -- one lookup more than the budget is still small enough to be counted
  have small := fresh.small most limited
  have few : (n : ℕ∞) ≤ r.retries.attempts := by
    rw [count]
    exact (min_le_right _ _).trans (min_le_left _ _)
  rw [limited] at few
  have bound : n ≤ most + 1 := by
    change (n : ℕ∞) ≤ most + 1 at few
    exact_mod_cast few
  omega

def hapless : List Moment × State :=
  follow program
    (opening 0 (ofSchedulers [⟨.bulk, {}, .ofList [(.content, 0)]⟩] [(zeroKey, [97])] [{}]))
    -- a transfer fails, then something goes wrong; the third search would find the block
    [.act (.create 0 zeroKey 1 {}) (),
      .act (.script zeroKey (.fault (.classified .transferFailed))) (),
      .act (.script zeroKey (.fault (.unexpected "reset"))) ()]

theorem hapless_tried_until_ended :
    hapless.2.ready = [] ∧ ∃ e s', hapless.2.act program (.schedule 0) = .ok (e, .accepted) ∧
      drain 0 5 { executor := e } = .ok (s', [0, 0]) ∧
      (s'.executor.shared.requests[0]?).map (fun r => (r.status, r.retryCount)) =
        some (.failed .internalError, 2) ∧
      s'.executor.shared.notices = [(0, .failed .internalError)] ∧
      s'.executor.shared.calls = [⟨1, 0, zeroKey, {}⟩, ⟨0, 0, zeroKey, {}⟩] ∧
      s'.executor.finished = [⟨1, .attempted 0 (.ok (.failed .internalError)), 0⟩,
        ⟨0, .attempted 0 (.ok (.retrying 1)), 0⟩] := by
  obtain ⟨r, made, found, route, limited, asks⟩ : ∃ r, Request.create zeroKey 1 {}
      ⟨.bulk, {}, .ofList [(.content, 0)]⟩ = .ok r ∧ hapless.2.shared.requests[0]? = some r ∧
      r.destination = .ok 0 ∧ r.retries = .limited 1 ∧ r.key = zeroKey ∧ r.settings = {} :=
    ⟨_, rfl, rfl, rfl, rfl, rfl, rfl⟩
  have clear : Clear 0 0 [] hapless.2.shared :=
    ⟨rfl, ⟨_, rfl, rfl, rfl, rfl⟩, rfl, rfl, by decide⟩
  refine ⟨rfl, ?_⟩
  rcases tried_until_ended (s := { executor := hapless.2 }) (history_follow _ _) rfl made found
    route clear 5 (fun _ _ => rfl) with ⟨e, n, s', scheduled, drained, count, course, _⟩
  have early : ((2 : Nat) : ℕ∞) < firstFinal (hapless.2.shared.lookup.answer zeroKey false) :=
    lt_firstFinal_iff.2 (by decide)
  have total : r.lookups (hapless.2.shared.lookup.answer zeroKey false) = (2 : Nat) := by
    unfold Request.lookups
    rw [limited]
    exact min_eq_left early.le
  have two : n = 2 := by
    have least : (n : ℕ∞) = (2 : Nat) :=
      calc
        (n : ℕ∞) = min ((5 : Nat) : ℕ∞) (r.lookups (hapless.2.shared.lookup.answer zeroKey false)) :=
          count
        _ = min ((5 : Nat) : ℕ∞) (2 : Nat) := by rw [total]
        _ = (2 : Nat) := min_eq_right (Nat.cast_le.2 (by decide))
    exact Nat.cast_injective least
  subst two
  cases course with
  | waits going _ _ _ _ _ =>
      exact absurd total (ne_of_gt going)
  | ended _ _ _ request notices logs =>
      refine ⟨e, s', scheduled, drained, ?_, notices, ?_, logs.finished⟩
      · rw [request]
        rfl
      · rw [logs.calls, asks.1, asks.2]
        rfl

end Fetcher
end MeteredFetch
