import MeteredFetch.Fetcher.Program
import MeteredFetch.Proofs.Executor.Step
import MeteredFetch.Proofs.Request.Onward

/-!
# Attempts — what a turn of an attempt does

* `Fetcher.Onwards` — requests that are further on their way, each with neither end nor retry;
* `Fetcher.Searched` — what a search leaves behind;
* `Fetcher.Sends` — what a turn of an attempt comes to, as a relation, and `Fetcher.sends` says
  that `Fetcher.send` does nothing else;
* `Fetcher.Schedules` — what scheduling a request comes to.
-/

namespace MeteredFetch
namespace Fetcher

open Executor

/-! ## Requests that go on -/

structure Onwards (rs rs' : List Request) : Prop where
  length : rs'.length = rs.length
  each : ∀ {id : RequestId} {r : Request}, rs[id]? = some r →
    ∃ r', rs'[id]? = some r' ∧ r.Onward r'

namespace Onwards

variable {rs rs' rs'' : List Request}

theorem refl (rs : List Request) : Onwards rs rs :=
  ⟨rfl, fun {_ r} found => ⟨r, found, .refl r⟩⟩

/-- Requests that go on twice go on. -/
theorem trans (h : Onwards rs rs') (h' : Onwards rs' rs'') : Onwards rs rs'' := by
  refine ⟨h'.length.trans h.length, ?_⟩
  intro id r found
  rcases h.each found with ⟨r', found', onward⟩
  rcases h'.each found' with ⟨r'', found'', onward'⟩
  exact ⟨r'', found'', onward.trans onward'⟩

theorem none (h : Onwards rs rs') {id : RequestId} (missing : rs[id]? = none) :
    rs'[id]? = none := by
  rw [List.getElem?_eq_none_iff] at missing ⊢
  rw [h.length]
  exact missing

/-- One request goes on, the others stay. -/
theorem set {id : RequestId} {r r' : Request} (found : rs[id]? = some r) (h : r.Onward r') :
    Onwards rs (rs.set id r') := by
  refine ⟨List.length_set, ?_⟩
  intro other x there
  by_cases same : id = other
  · subst same
    have inside : id < rs.length := (List.getElem?_eq_some_iff.1 found).1
    rw [found] at there
    cases there
    exact ⟨r', by simp [inside], h⟩
  · exact ⟨x, by simpa [List.getElem?_set, same] using there, .refl x⟩

end Onwards

/-- Cancelling a request ends none. -/
theorem cancelRequest_onwards (f : Fetcher) (id : RequestId) :
    Onwards f.requests (f.cancelRequest id).requests := by
  refine ⟨List.length_modify _ _ _, ?_⟩
  intro other r found
  by_cases same : id = other
  · exact ⟨r.cancel, by simp [cancelRequest, found, same],
      Request.onward_cancel r⟩
  · exact ⟨r, by simp [cancelRequest, found, same], .refl r⟩

/-- A search that cancels requests changes nothing but these. -/
theorem foldl_cancelRequest (ids : List RequestId) (f : Fetcher) :
    ∃ requests, ids.foldl cancelRequest f = { f with requests } ∧ Onwards f.requests requests := by
  induction ids generalizing f with
  | nil =>
      exact ⟨f.requests, rfl, .refl f.requests⟩
  | cons id rest ih =>
      rcases ih (f.cancelRequest id) with ⟨requests, same, onwards⟩
      exact ⟨requests, same, (cancelRequest_onwards f id).trans onwards⟩

/-! ## Searches -/

structure Searched (f : Fetcher) (task : TaskId) (id : RequestId) (r : Request)
    (response : Response) (g : Fetcher) : Prop where
  same : g = { f with requests := g.requests, lookup := g.lookup, calls := g.calls }
  requests : Onwards (f.requests.set id r) g.requests
  calls : g.calls = ⟨task, id, r.key, r.settings⟩ :: f.calls
  response : f.lookup.respond r.key r.settings.localOnly = (g.lookup, response)

/-- What there is to say of a search. -/
theorem searched (f : Fetcher) (task : TaskId) (id : RequestId) (r : Request) :
    Searched f task id r ((f.setRequest id r).search task id r).2
      ((f.setRequest id r).search task id r).1 := by
  unfold search
  simp only
  generalize (((f.setRequest id r).lookup.respond r.key r.settings.localOnly).1.hook.filter _) =
    matched
  rcases foldl_cancelRequest matched
    { f.setRequest id r with
      lookup := ((f.setRequest id r).lookup.respond r.key r.settings.localOnly).1
      calls := ⟨task, id, r.key, r.settings⟩ :: (f.setRequest id r).calls } with
    ⟨requests, same, onwards⟩
  rw [same]
  exact ⟨rfl, onwards, rfl, rfl⟩

/-! ## Ends -/

/-- To put a request into its scheduler changes nothing but schedulers. -/
theorem enlist_same (f : Fetcher) (id : RequestId) (r : Request) :
    ∃ schedulers, (f.enlist id r).1 = { f with schedulers } := by
  unfold enlist
  cases r.destination with
  | error e =>
      exact ⟨f.schedulers, rfl⟩
  | ok s =>
      exact ⟨_, rfl⟩

/-- What an attempt did to its request reaches the request, the notices and the schedulers. -/
theorem adopt_same (f : Fetcher) (id : RequestId) (c : Conclusion) :
    ∃ schedulers, (f.adopt id c).1 =
      { f with
        requests := f.requests.set id c.request
        notices := c.notice.toList.map (fun n => (id, n)) ++ f.notices
        schedulers } := by
  unfold adopt
  simp only
  split
  · rcases enlist_same
      { f.setRequest id c.request with
        notices := c.notice.toList.map (fun n => (id, n)) ++ f.notices } id c.request with
      ⟨schedulers, same⟩
    exact ⟨schedulers, same⟩
  · exact ⟨f.schedulers, rfl⟩

/-- Registering a request wakes at most its scheduler's listener. -/
theorem waking_enlist (f : Fetcher) (id : RequestId) (r : Request) : Waking (f.enlist id r).2 := by
  unfold enlist
  cases r.destination with
  | error e =>
      exact .nil
  | ok s =>
      exact .map_wake _

/-- The end of an attempt wakes whoever listens to the scheduler. -/
theorem waking_adopt (f : Fetcher) (id : RequestId) (c : Conclusion) :
    Waking (f.adopt id c).2 := by
  unfold adopt
  simp only
  split
  · exact waking_enlist _ id c.request
  · exact .nil

/-! ## Attempts -/

inductive Sends (f : Fetcher) (task : TaskId) (id : RequestId) :
    Sending → Attempted Sending → Prop
  | missing {stage : Sending} :
      f.requests[id]? = none → Sends f task id stage (f, [], .finish (.error .closed))
  | concluded {r : Request} {c : Conclusion} :
      f.requests[id]? = some r → r.beginSend = .concluded c →
        Sends f task id .fresh (f.finish id c)
  | arrived {r : Request} {response : Response} :
      f.requests[id]? = some r →
        Sends f task id (.awaiting response) (f.arrive id r response)
  | awaits {r r' : Request} {response : Response} {g : Fetcher} (held : List (Option TaskId))
      {alarm : Option Instant} :
      f.requests[id]? = some r → r.beginSend = .lookup r' → Searched f task id r' response g →
        Sends f task id .fresh
          ({ g with lookup := { g.lookup with held } }, [], .wait (.awaiting response) alarm)
  | answered {r r' r'' : Request} {response : Response} {g : Fetcher} :
      f.requests[id]? = some r → r.beginSend = .lookup r' → Searched f task id r' response g →
        g.requests[id]? = some r'' → r.Onward r'' →
        Sends f task id .fresh (g.arrive id r'' response)

/-- The cases of the turn of an attempt. -/
theorem sends (f : Fetcher) (now : Instant) (task : TaskId) (id : RequestId) (stage : Sending) :
    Sends f task id stage (f.send now task id stage) := by
  unfold send
  split
  · rename_i missing
    exact .missing missing
  · rename_i r response found
    exact .arrived found
  · rename_i r found
    split
    · rename_i c begins
      exact .concluded found begins
    · rename_i r' begins
      have after := searched f task id r'
      generalize (f.setRequest id r').search task id r' = result at after
      rcases result with ⟨g, response⟩
      simp only at after ⊢
      unfold await
      split
      · exact .awaits (g.lookup.hold task).held found begins after
      · split
        · exact .awaits g.lookup.held found begins after
        · -- the response is there at once
          rcases Request.onward_of_lookup begins with ⟨onward, _⟩
          rcases ((Onwards.set found onward).trans after.requests).each found with
            ⟨r'', there, further⟩
          rw [there]
          exact .answered found begins after there further

/-- The turn of an attempt starts and drops nothing. -/
theorem waking_send (f : Fetcher) (now : Instant) (task : TaskId) (id : RequestId)
    (stage : Sending) : Waking (f.send now task id stage).2.1 := by
  have sent := sends f now task id stage
  generalize f.send now task id stage = result at sent ⊢
  cases sent with
  | missing gone =>
      exact .nil
  | concluded found begins =>
      exact waking_adopt f id _
  | arrived found =>
      exact waking_adopt f id _
  | awaits held found begins after =>
      exact .nil
  | answered found begins after there onward =>
      exact waking_adopt _ id _

theorem waking_retry (f : Fetcher) (id : RequestId) (failure : Failure) :
    Waking (f.retry id failure).2.1 := by
  unfold retry
  split
  · exact .nil
  · exact waking_adopt f id _

/-! ## Registrations -/

inductive Schedules (f : Fetcher) (id : RequestId) : Reacted → Prop
  | missing : f.request? id = none → Schedules f id ⟨f, [], .done⟩
  | ended {r r' : Request} :
      f.requests[id]? = some r → r.schedule (f.route r) = (r', .ended) → r.Onward r' →
        Schedules f id ⟨f.setRequest id r', [], .accepted⟩
  | refused {r r' : Request} {e : FetchError} :
      f.requests[id]? = some r → r.schedule (f.route r) = (r', .refused e) → r.Onward r' →
        Schedules f id ⟨f.setRequest id r', [], .refused e⟩
  | accepted {r r' : Request} :
      f.requests[id]? = some r → r.schedule (f.route r) = (r', .accepted) → r.Onward r' →
        Schedules f id
          ⟨((f.setRequest id r').enlist id r').1, ((f.setRequest id r').enlist id r').2, .accepted⟩

/-- The cases of a call that schedules a request. -/
theorem schedules (f : Fetcher) (id : RequestId) : Schedules f id (f.schedule id) := by
  unfold schedule
  split
  · rename_i missing
    exact .missing missing
  · rename_i r known
    have found : f.requests[id]? = some r := by
      unfold request? at known
      split at known
      · cases known
      · exact known
    have onward := Request.onward_schedule (f.route r) r
    split
    · rename_i r' ended
      exact .ended found ended (by simpa [ended] using onward)
    · rename_i r' e refused
      exact .refused found refused (by simpa [refused] using onward)
    · rename_i r' accepted
      exact .accepted found accepted (by simpa [accepted] using onward)

/-- A request that is scheduled goes on, and the others stay as they are. -/
theorem onwards_schedule (f : Fetcher) (other : RequestId) :
    Onwards f.requests (f.schedule other).shared.requests := by
  have became := schedules f other
  generalize f.schedule other = result at became ⊢
  cases became with
  | missing gone =>
      exact .refl f.requests
  | ended there _ onward =>
      exact .set there onward
  | refused there _ onward =>
      exact .set there onward
  | @accepted r₀ r' there _ onward =>
      rcases enlist_same (f.setRequest other r') other r' with ⟨schedulers, same⟩
      rw [same]
      exact .set there onward

/-- A request that is scheduled wakes whoever listens for it. -/
theorem waking_schedule (f : Fetcher) (id : RequestId) : Waking (f.schedule id).effects := by
  have became := schedules f id
  generalize f.schedule id = result at became ⊢
  cases became with
  | accepted found registered onward =>
      exact waking_enlist _ id _
  | _ =>
      exact .nil

end Fetcher
end MeteredFetch
