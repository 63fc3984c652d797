import MeteredFetch.Proofs.Fetcher.Crew
import MeteredFetch.Proofs.Fetcher.Handover

/-!
# Registrations — the requests that a scheduler has taken in

A request comes to a scheduler when it is scheduled, or when an attempt at it has failed and it is
to be tried again. Either way the scheduler may take it in or not. What it has taken in is in its
mail, and nothing else gets there.

* `Fetcher.admits?`, `Fetcher.readmits?` — the scheduler that takes a request in when it is
  scheduled, and when a turn of a task comes to another attempt;
* `Fetcher.registrations` — the requests that a scheduler has taken in, in a run;
* `Fetcher.inbox_of_step` — the mail of a dispatcher that is left alone grows by just these between its
  turns.
-/

namespace MeteredFetch
namespace Fetcher

open Executor

/-! ## What is taken in -/

/-- A request that is scheduled, with the number of the scheduler that takes it in, if it does. -/
def admits? (f : Fetcher) (id : RequestId) : Option (RequestId × SchedulerId) :=
  (f.request? id).bind fun r =>
    if (r.schedule (f.route r)).2 = .accepted then r.destination.toOption.map (id, ·) else none

/-- The request that an attempt has failed at in a turn, with the number of the scheduler that takes it
in once more, if it does. -/
def readmits? (f : Fetcher) (task : TaskId) (job : Job) : Option (RequestId × SchedulerId) :=
  (f.brings? task job).bind fun (g, id, response) => (g.requests[id]?).bind fun r =>
    if (r.conclude (g.route r) response).registered then r.destination.toOption.map (id, ·) else none

/-- The registration that is accepted in a move. -/
def Moment.registration? (m : Moment) : Option (RequestId × SchedulerId) :=
  match m.2 with
  | .act (.schedule id) _ => m.1.shared.admits? id
  | .turn => m.1.next?.bind fun (task, job) => m.1.shared.readmits? task job
  | _ => none

def arriving (d : SchedulerId) : Option (RequestId × SchedulerId) → List RequestId
  | some (id, s) => if s = d then [id] else []
  | none => []

def registrations (d : SchedulerId) (hs : List Moment) : List RequestId :=
  hs.flatMap fun m => arriving d m.registration?

variable {d : SchedulerId} {id : RequestId} {f g : Fetcher} {now : Instant} {task : TaskId} {job : Job}
  {t : Turned} {e e' : State} {l : Label Action Answer} {hs : List Moment}

@[simp]
theorem arriving_none (d : SchedulerId) : arriving d none = [] := rfl

/-- What comes to a scheduler was registered with it. -/
theorem mem_arriving {registration : Option (RequestId × SchedulerId)} :
    id ∈ arriving d registration ↔ registration = some (id, d) := by
  unfold arriving
  split
  · rename_i other s
    by_cases here : s = d
    · simp [here, eq_comm]
    · simp [here]
  · simp

/-- One move more is one registration more at most. -/
theorem registrations_snoc (d : SchedulerId) (hs : List Moment) (m : Moment) :
    registrations d (hs ++ [m]) = registrations d hs ++ arriving d m.registration? := by
  simp [registrations]

/-! ## Mail -/

/-- A request that is put into its scheduler is in the mail of this one. -/
theorem inbox_of_enlist {r : Request} {s : SchedulerId} {q : Scheduler}
    (destination : r.destination = .ok s) (there : f.schedulers[s]? = some q) :
    (f.enlist id r).1.inbox d = f.inbox d ++ arriving d (some (id, s)) := by
  unfold enlist
  simp only [destination]
  by_cases here : s = d
  · subst here
    simp [inbox, modifyScheduler, there, arriving]
  · simp [inbox_modifyScheduler_of_ne here, arriving, here]

/-- The mail of a dispatcher grows by what its scheduler admits. -/
theorem inbox_schedule (f : Fetcher) (id : RequestId) (d : SchedulerId) :
    (f.schedule id).shared.inbox d = f.inbox d ++ arriving d (f.admits? id) := by
  unfold schedule admits?
  cases found : f.request? id with
  | none =>
      simp
  | some r =>
      have onward := Request.onward_schedule (f.route r) r
      simp only [Option.bind_some]
      generalize scheduled : r.schedule (f.route r) = result at onward
      rcases result with ⟨r', registration⟩
      cases registration with
      | accepted =>
          rcases Request.reception_of_accepted scheduled with ⟨reception, route, accepts⟩
          rcases scheduler_of_route route accepts with ⟨s, q, destination, there⟩
          have same : r'.destination = .ok s := onward.destination.trans destination
          have enlisted : ((f.setRequest id r').enlist id r').1.inbox d =
              f.inbox d ++ arriving d (some (id, s)) := inbox_of_enlist same there
          simpa [destination, Except.toOption] using enlisted
      | _ =>
          simp [inbox, setRequest]

/-- An attempt at a request that exists changes schedulers only at its end. -/
theorem schedulers_of_send (f : Fetcher) (now : Instant) (task : TaskId) (id : RequestId)
    (stage : Sending)
    (quits : ∀ outcome, (f.send now task id stage).2.2 = .finish outcome → f.requests[id]? = none) :
    (f.send now task id stage).1.schedulers = f.schedulers := by
  have sent := sends f now task id stage
  generalize f.send now task id stage = result at sent quits ⊢
  cases sent with
  | missing gone =>
      rfl
  | concluded found begins =>
      cases found.symm.trans (quits _ rfl)
  | arrived found =>
      cases found.symm.trans (quits _ rfl)
  | awaits held found begins after =>
      rw [after.same]
  | answered found begins after there onward =>
      cases found.symm.trans (quits _ rfl)

/-- A turn that ends no attempt at a request that exists leaves the mail of a dispatcher alone, unless it
is one of this dispatcher. -/
theorem inbox_of_goesOn (other : ∀ chosen, job ≠ .serve d chosen) (turned : f.turn now task job = .ok t)
    (quits : ∀ result id outcome, t.next = .finish result → result.attempt? = some (id, outcome) →
      f.requests[id]? = none) : t.shared.inbox d = f.inbox d := by
  have same : t.shared.schedulers = f.schedulers → t.shared.inbox d = f.inbox d := by
    intro schedulers
    unfold inbox
    rw [schedulers]
  cases turns turned with
  | granted | waits =>
      rfl
  | @attempts _ request stage _ toResult _ _ _ _ results _ =>
      refine same (schedulers_of_send f now task request stage ?_)
      intro outcome ended
      exact quits (toResult outcome) request outcome (by rw [ended]; rfl) (results outcome)
  | @retries request failure =>
      have gone := quits _ request _ rfl rfl
      refine same ?_
      unfold Fetcher.retry
      rw [gone]
  | @serves id chosen _ served =>
      have ne : id ≠ d := fun here => other chosen (here ▸ rfl)
      cases served with
      | served =>
          simp [inbox, ne]
      | _ =>
          rfl

/-- The end of an attempt brings a scheduler the request if this was registered with it. -/
theorem inbox_of_ends {r : Request} {response : Response}
    (ends : Ends f id (r.conclude (f.route r) response) t) :
    t.shared.inbox d = f.inbox d ++ arriving d
      (if (r.conclude (f.route r) response).registered then r.destination.toOption.map (id, ·)
        else none) := by
  cases registered : (r.conclude (f.route r) response).registered with
  | false =>
      have schedulers := schedulers_of_ends registered ends
      simp [inbox, schedulers]
  | true =>
      -- only the scheduler that the request is for can have accepted it
      rcases Request.reception_of_registered registered with ⟨reception, route, accepts⟩
      rcases scheduler_of_route route accepts with ⟨s, q, destination, there⟩
      have same := (Request.asks_conclude (f.route r) response r).destination.trans destination
      have schedulers := schedulers_of_registered registered same there ends
      rcases List.getElem?_eq_some_iff.1 there with ⟨inside, own⟩
      simp only [if_true, destination, Except.toOption, Option.map_some, inbox, schedulers, arriving]
      by_cases here : s = d
      · subst here
        simp [inside, own]
      · simp [here]

/-- A turn of another task brings a dispatcher the request that it has registered with its scheduler, and
nothing else. -/
theorem inbox_of_turn (other : ∀ chosen, job ≠ .serve d chosen)
    (turned : f.turn now task job = .ok t) :
    t.shared.inbox d = f.inbox d ++ arriving d (f.readmits? task job) := by
  cases comes turned with
  | goesOn _ fruitless quits =>
      have none : f.readmits? task job = none := by
        unfold readmits?
        cases brings : f.brings? task job with
        | none =>
            rfl
        | some brought =>
            rcases brought with ⟨g, request, response⟩
            simp [fruitless g request response brings]
      rw [none, inbox_of_goesOn other turned quits]
      simp
  | spared silent found begins ends =>
      have unregistered := Request.registered_of_concluded begins
      have schedulers := schedulers_of_ends unregistered ends
      simp [readmits?, silent, inbox, schedulers]
  | brought brings quiet schedulers found there onward _ ends =>
      -- the search that comes before the end of the attempt changes no scheduler
      have mail := inbox_of_ends (d := d) ends
      rw [mail]
      simp [readmits?, brings, there, inbox, schedulers]

/-- Only one action registers requests. -/
theorem registration?_of_ne {action : Action} {answer : Answer}
    (another : ∀ other, action ≠ .schedule other) :
    Moment.registration? (e, .act action answer) = none := by
  cases action with
  | schedule other =>
      exact absurd rfl (another other)
  | _ =>
      rfl

/-- An action that leaves a dispatcher alone brings it the request that is registered with its scheduler,
and nothing else. -/
theorem inbox_of_perform {action : Action} {r : Reacted}
    (apart : Moment.leavesAlone d (e, .act action r.answer) = true)
    (performed : e.shared.perform now task action = .ok r) :
    r.shared.inbox d =
      e.shared.inbox d ++ arriving d (Moment.registration? (e, .act action r.answer)) := by
  have kept : (∀ other, action ≠ .schedule other) → r.shared.inbox d = e.shared.inbox d →
      r.shared.inbox d =
        e.shared.inbox d ++ arriving d (Moment.registration? (e, .act action r.answer)) := by
    intro another same
    rw [registration?_of_ne another, same, arriving_none, List.append_nil]
  cases does performed with
  | nothing another =>
      exact kept another rfl
  | @scheduled request =>
      exact inbox_schedule e.shared request d
  | @popped s _ _ _ =>
      have ne : s ≠ d := by simpa [Moment.leavesAlone] using apart
      exact kept (by simp) (inbox_modifyScheduler_of_ne ne _)
  | @adjusted s reception =>
      exact kept (by simp) (inbox_adjust e.shared s reception d)
  | tuned another =>
      exact kept another rfl
  | @retired id _ _ _ =>
      have ne : id ≠ d := by simpa [Moment.leavesAlone] using apart
      exact kept (by simp) (by simp [retire, inbox, modifyScheduler, modifyDispatcher, ne])
  | _ =>
      exact kept (by simp) rfl

/-- A task that does not work for a dispatcher takes no mail along. -/
theorem inbox_dropJob (other : job.worksFor d = false) :
    (f.dropJob task job).inbox d = f.inbox d := by
  cases job with
  | serve id chosen =>
      have ne : id ≠ d := by simpa [Job.worksFor] using other
      simp [dropJob, retire, inbox, modifyScheduler, modifyDispatcher, ne]
  | _ =>
      rfl

/-- A drop that takes no task from a dispatcher leaves its mail alone. -/
theorem inbox_of_drop {n : TaskId} (crews : ∀ id, Crewed id e)
    (step : Step program e l ((e.drop program n).sweep program))
    (apart : Moment.leavesAlone d (e, l) = true) (quiet : l ≠ .turn) :
    ((e.drop program n).sweep program).shared.inbox d = e.shared.inbox d := by
  have left := leaves_sweep (e.drop program n)
  rw [left.shared.inbox d]
  cases stands : e.task? n with
  | none =>
      rw [drop_of_task?_eq_none program stands]
  | some job =>
      have there := getElem?_of_task? stands
      have inside := (List.getElem?_eq_some_iff.1 there).1
      have gone : ((e.drop program n).sweep program).tasks[n]? = some none := by
        rw [left.tasks, (drop_alike program e stands).tasks, List.getElem?_set_self inside]
      rw [(drop_alike program e stands).shared]
      exact inbox_dropJob (not_worksFor_of_dropped crews step apart quiet there gone)

/-- Between the turns of a dispatcher that is left alone its mail grows by what its scheduler takes
in. -/
theorem inbox_of_step (crews : ∀ id, Crewed id e) (step : Step program e l e')
    (apart : Moment.leavesAlone d (e, l) = true) (other : ¬ IsTurnOf d e l) :
    e'.shared.inbox d = e.shared.inbox d ++ arriving d (Moment.registration? (e, l)) := by
  have whole := step
  cases step with
  | act acted =>
      rcases act_cases acted with ⟨r, performed, rfl, rfl⟩
      rcases gentle_of_perform performed with gentle | ⟨id, n, rfl, shared, effects⟩
      · rw [(leaves_carryOutAll gentle { e with shared := r.shared }).shared.inbox d]
        exact inbox_of_perform apart performed
      -- to drop a dispatcher is to drop its task
      · rw [shared, effects] at whole ⊢
        have same := inbox_of_drop crews whole apart nofun
        exact same.trans (List.append_nil _).symm
  | turn turned =>
      cases moves_of_step whole with
      | turned turn next went left =>
          rw [left.shared.inbox d, inbox_of_turn (not_serve_of_next other turn next) went]
          simp [Moment.registration?, next]
      | rested idle left =>
          rw [left.shared.inbox d]
          simp [Moment.registration?, idle rfl]
      | acted same _ _ _ =>
          cases same
      | dropped quiet _ _ =>
          exact absurd rfl quiet
  | clock time =>
      rw [(setClock_alike e time).shared]
      simp [Moment.registration?]
  | kill n =>
      have same := inbox_of_drop crews whole apart nofun
      exact same.trans (List.append_nil _).symm

/-- No turn of a dispatcher registers a request. -/
theorem registration?_of_turn (own : IsTurnOf d e l) : Moment.registration? (e, l) = none := by
  rcases own with ⟨rfl, number, chosen, next⟩
  simp [Moment.registration?, next, readmits?, brings?, Job.attempt?]

end Fetcher
end MeteredFetch
