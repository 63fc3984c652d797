import Mathlib.Data.List.Induction
import MeteredFetch.Proofs.Request.Registration

/-!
# Scheduling — what a request is after it was to be registered

A request is marked before its scheduler is asked, and the mark is taken back if the scheduler refuses.
Meanwhile the scheduler may have cancelled the request, which is not taken back. Which scheduler is asked
depends on the family of the key and on what the group has bound to it last.

* `Bindings.IsLast` — a family was bound to a scheduler last, and `Bindings.lookup?_ofList` says that this
  scheduler is the one that is found;
* `Request.IsCandid` — an outcome is no secret, and some scheduler serves the key;
* `Request.isCandid_conclude`, `Request.isCandid_of_concluded` — attempts keep it so;
* `Request.enlisted`, `Request.rejected` — a request that was taken in, and one that was not;
* `Request.Enters` — what a call comes to that is to register a request, as a relation, and
  `Request.enters` says that it comes to nothing else.
-/

namespace MeteredFetch

/-! ## Bindings -/

namespace Bindings

variable {α : Type}

/-- In a sequence of bindings, a family was bound to a scheduler, and to no other one after that. -/
def IsLast (pairs : List (Family × α)) (family : Family) (s : α) : Prop :=
  ∃ earlier later, pairs = earlier ++ (family, s) :: later ∧ ∀ p ∈ later, p.1 ≠ family

/-- The last binding decides about its own family only. -/
theorem isLast_snoc {pairs : List (Family × α)} {p : Family × α} {family : Family} {s : α} :
    IsLast (pairs ++ [p]) family s ↔ p = (family, s) ∨ p.1 ≠ family ∧ IsLast pairs family s := by
  constructor
  · rintro ⟨earlier, later, same, others⟩
    rcases List.eq_nil_or_concat later with rfl | ⟨later, q, rfl⟩
    · exact .inl (List.singleton_inj.1 (List.append_inj' same rfl).2)
    · have split : pairs ++ [p] = (earlier ++ (family, s) :: later) ++ [q] := by simpa using same
      rcases List.append_inj' split rfl with ⟨rfl, last⟩
      cases last
      exact .inr ⟨others p (by simp), earlier, later, rfl, fun q member => others q (by simp [member])⟩
  · rintro (rfl | ⟨other, earlier, later, rfl, others⟩)
    · exact ⟨pairs, [], rfl, by simp⟩
    · refine ⟨earlier, later ++ [p], by simp, fun q member => ?_⟩
      rcases List.mem_append.1 member with old | new
      · exact others q old
      · rw [List.mem_singleton.1 new]
        exact other

/-- The scheduler that is found for a family is the one that it was bound to last. -/
theorem lookup?_ofList (pairs : List (Family × α)) (family : Family) (s : α) :
    (ofList pairs).lookup? family = some s ↔ IsLast pairs family s := by
  induction pairs using List.reverseRecOn with
  | nil =>
      constructor
      · cases family <;> nofun
      · rintro ⟨earlier, later, same, _⟩
        simp at same
  | append_singleton pairs p ih =>
      have bound : ofList (pairs ++ [p]) = (ofList pairs).bind p.1 p.2 := by
        simp [ofList, List.foldl_append]
      rw [bound, lookup?_bind, isLast_snoc]
      obtain ⟨family', s'⟩ := p
      by_cases here : family = family'
      · simp [here]
      · simp [here, Ne.symm here, ih]

/-- A scheduler can be had exactly if one is bound. -/
theorem get_eq_ok_iff {b : Bindings α} {family : Family} {s : α} :
    b.get family = .ok s ↔ b.lookup? family = some s := by
  unfold get
  split
  · rename_i s' found
    simp [found]
  · rename_i none
    simp [none]

end Bindings

namespace Request

variable {r r' : Request} {route : Except FetchError Reception}

/-- The scheduler that a request goes to is the one that the family of its key was bound to last. -/
theorem isLast_of_destination {s : SchedulerId} (destination : r.destination = .ok s)
    {pairs : List (Family × SchedulerId)} (bound : r.group.bindings = .ofList pairs) :
    Bindings.IsLast pairs r.key.family s := by
  unfold Request.destination at destination
  rw [bound] at destination
  exact (Bindings.lookup?_ofList pairs r.key.family s).1 (Bindings.get_eq_ok_iff.1 destination)

/-! ## Outcomes are reported -/

/-- A request whose outcome was reported, if it has one, and whose key some scheduler serves. -/
structure IsCandid (r : Request) : Prop where
  reported : r.settled? ≠ none → r.reported = true
  bound : ∃ s, r.destination = .ok s

/-- A request that goes on hides no outcome from its consumer. -/
theorem Onward.isCandid (h : Onward r r') (candid : r.IsCandid) : r'.IsCandid := by
  refine ⟨fun settled => ?_, ?_⟩
  · rw [h.settled] at settled
    exact h.reported.trans (candid.reported settled)
  · rw [h.destination]
    exact candid.bound

/-- A new request has no outcome that could be hidden. -/
theorem isCandid_of_create {key : Key} {budget : Int32} {settings : Settings} {group : Group}
    (h : create key budget settings group = .ok r) : r.IsCandid := by
  rcases isOpen_of_create h with ⟨isOpen, _, bound, _⟩
  exact ⟨fun settled => absurd isOpen.2 settled, bound⟩

/-- An attempt that reports its request hides nothing. -/
theorem isCandid_of_reported {c : Conclusion} (candid : r.IsCandid) (asks : Asks r c.request)
    (reported : c.request.settled? ≠ none → c.request.reported = true) : c.request.IsCandid :=
  ⟨reported, by rw [asks.destination]; exact candid.bound⟩

/-- Whatever an attempt ends a request with is told. -/
theorem isCandid_conclude (candid : r.IsCandid) (route : Except FetchError Reception)
    (response : Response) : (r.conclude route response).request.IsCandid := by
  refine isCandid_of_reported candid (asks_conclude route response r) ?_
  cases response with
  | block block =>
      unfold conclude endSucceeded
      simp only
      split <;> exact fun _ => rfl
  | fault fault =>
      change (r.retry route fault.failure).request.settled? ≠ none →
        (r.retry route fault.failure).request.reported = true
      have came := retried route fault.failure r
      generalize r.retry route fault.failure = c at came ⊢
      cases came with
      | kept _ _ =>
          exact candid.reported
      | stopped _ _ _ =>
          exact fun _ => rfl
      | exhausted _ _ _ =>
          exact fun _ => rfl
      | @asked r' registration unsettled _ _ _ onward =>
          -- only a closed scheduler makes this attempt give the request an outcome
          have pending : r'.settled? = none := onward.settled.trans unsettled
          cases registration with
          | refused e =>
              by_cases closed : e = .closed
              · subst closed
                exact fun _ => rfl
              · rw [enter_refused closed]
                exact fun settled => absurd pending settled
          | _ =>
              exact fun settled => absurd pending settled

theorem isCandid_of_concluded {c : Conclusion} (candid : r.IsCandid)
    (h : r.beginSend = .concluded c) : c.request.IsCandid := by
  refine isCandid_of_reported candid (asks_of_concluded h) ?_
  unfold beginSend at h
  split at h
  · cases h
    exact candid.reported
  · split at h
    · cases h
      exact fun _ => rfl
    · cases h

/-! ## Calls that are to register a request -/

/-- A request that its scheduler has taken in. It is scheduled, unless it was cancelled before or the
scheduler has cancelled it. -/
def enlisted (cancels : Bool) (r : Request) : Request :=
  { r with
    status := if r.status = .cancelled ∨ cancels = true then .cancelled else .scheduled
    cancelled := r.cancelled || cancels }

/-- A request that was not taken in. It is as it was, unless the scheduler has cancelled it. -/
def rejected (cancels : Bool) (r : Request) : Request :=
  if cancels then { r with status := .cancelled, cancelled := true } else r

inductive Enters (r : Request) : Except FetchError Reception → Request × Registration → Prop
  /-- No scheduler serves the key. -/
  | unbound {e : FetchError} : Enters r (.error e) (r, .refused e)
  /-- It has ended, which was reported, and nothing is done. -/
  | ended {reception : Reception} : r.status.isTerminal = true → r.reported = true →
      Enters r (.ok reception) (r, .ended)
  | accepted {reception : Reception} : reception.refusal = none →
      Enters r (.ok reception) (r.enlisted reception.cancels, .accepted)
  | refused {reception : Reception} {e : FetchError} : reception.refusal = some e →
      Enters r (.ok reception) (r.rejected reception.cancels, .refused e)

/-- A request that has not ended, or was cancelled before anybody was told. -/
theorem status_of_pending (candid : r.IsCandid)
    (pending : (r.status.isTerminal && r.reported) = false) :
    r.status = .idle ∨ r.status = .scheduled ∨ r.status = .inFlight ∨ r.status = .cancelled := by
  have reported := candid.reported
  unfold settled? at reported
  cases status : r.status <;> simp_all [Status.isTerminal]

/-- A request that was marked is as its scheduler leaves it. -/
theorem received_eq_enlisted (cancels : Bool) (pending : r.status = .idle ∨ r.status = .scheduled ∨
    r.status = .inFlight ∨ r.status = .cancelled) :
    (if cancels = true then
      (if r.status = .idle ∨ r.status = .inFlight then { r with status := .scheduled } else r).cancel
    else if r.status = .idle ∨ r.status = .inFlight then { r with status := .scheduled } else r) =
      r.enlisted cancels := by
  rcases r with ⟨key, retries, settings, group, status, count, flag, reported⟩
  rcases pending with rfl | rfl | rfl | rfl <;> cases cancels <;> simp [cancel, enlisted]

/-- The mark is taken back, unless the request is cancelled by now. -/
theorem restored_eq_rejected (cancels : Bool) :
    (if (r.enlisted cancels).status = .scheduled then
      { r.enlisted cancels with status := r.status } else r.enlisted cancels) =
      r.rejected cancels := by
  rcases r with ⟨key, retries, settings, group, status, count, flag, reported⟩
  cases cancels with
  | true =>
      -- the scheduler has taken the mark away
      simp [enlisted, rejected]
  | false =>
      by_cases already : status = .cancelled <;> simp [enlisted, rejected, already]

/-- The cases of a call that is to register a request. -/
theorem enters (candid : r.IsCandid) (route : Except FetchError Reception) :
    Enters r route (r.schedule route) := by
  unfold schedule
  cases route with
  | error e =>
      exact .unbound
  | ok reception =>
      simp only
      split
      · rename_i ended
        rw [Bool.and_eq_true] at ended
        exact .ended ended.1 ended.2
      · rename_i pending
        -- the status before the call is one of those that are marked or left alone
        rw [received_eq_enlisted reception.cancels (status_of_pending candid (by simpa using pending))]
        cases refusal : reception.refusal with
        | none =>
            exact .accepted refusal
        | some e =>
            simp only [restored_eq_rejected]
            exact .refused refusal

end Request
end MeteredFetch
