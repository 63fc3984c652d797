import MeteredFetch.Proofs.Fetcher.Sendings

/-!
# Holdings — the requests that a dispatcher holds, and what it charges

What a dispatcher charges for a dispatch stays the same, and is known even when it is gone, and no
scheduler comes or goes. The requests in the mail and in the queue of a dispatcher, the one that it
has chosen, and those that it has sent were made before.

* `Fetcher.price?`, `Fetcher.price?_of_step` — what a dispatcher charges does not change;
* `Fetcher.length_schedulers_of_step` — there are as many schedulers as before;
* `Fetcher.Stock`, `Fetcher.stock_of_step` — the requests that a dispatcher holds or has sent exist.
-/

namespace MeteredFetch
namespace Fetcher

open Executor Deed

variable {f g : Fetcher} {now : Instant} {task number : TaskId} {job : Job} {t : Turned} {d : Nat}
  {e e' : State} {l : Label Action Answer} {hs : List Moment}

/-! ## Prices -/

def price? (f : Fetcher) (d : Nat) : Option UInt64 :=
  (f.dispatchers[d]?).map (·.cost)

/-- What a dispatcher charges is part of what it has before it. -/
theorem price?_of_desk (f : Fetcher) (d : Nat) : f.price? d = (f.desk? d).map (·.cost) := by
  unfold price? desk?
  rw [Option.map_map]
  rfl

theorem Gathers.price? (h : Gathers d f g) : g.price? d = f.price? d := by
  rcases h with ⟨fresh, grown, _⟩
  rw [price?_of_desk, price?_of_desk, grown, Option.map_map]
  rfl

theorem Swept.price? (h : Swept f g) (d : Nat) : g.price? d = f.price? d := by
  rw [price?_of_desk, price?_of_desk, h.desk? d]

theorem price?_retire (f : Fetcher) (id d : Nat) : (f.retire id).price? d = f.price? d := by
  by_cases here : id = d
  · subst here
    rw [price?_of_desk, price?_of_desk, desk?_retire, Option.map_map]
    rfl
  · exact (gathers_retire here).price?

/-- No turn changes a price. -/
theorem price?_of_turn (turned : f.turn now task job = .ok t) (d : Nat) :
    t.shared.price? d = f.price? d := by
  by_cases own : ∃ chosen, job = .serve d chosen
  · rcases own with ⟨chosen, rfl⟩
    rw [price?_of_desk, price?_of_desk]
    cases serving turned 0 with
    | still _ _ same _ =>
        rw [same]
    | served _ before after _ _ _ _ cost =>
        rw [before, after, Option.map_some, Option.map_some, cost]
  · -- any other turn adds to its mail at most
    have other : ∀ chosen, job ≠ .serve d chosen := fun chosen same => own ⟨chosen, same⟩
    exact (gathers_of_turn other turned).price?

/-- No action changes a price. -/
theorem price?_of_perform {action : Action} {r : Reacted}
    (performed : f.perform now task action = .ok r) (d : Nat) :
    r.shared.price? d = f.price? d := by
  cases does performed with
  | @scheduled request =>
      exact (gathers_schedule f request).price?
  | @started id _ _ _ =>
      simp only [price?, modifyDispatcher, List.getElem?_modify]
      by_cases here : id = d <;> cases f.dispatchers[d]? <;> simp [here]
  | @retired id _ _ _ =>
      exact price?_retire f id d
  | _ =>
      rfl

theorem price?_dropJob (f : Fetcher) (number : TaskId) (job : Job) (d : Nat) :
    (f.dropJob number job).price? d = f.price? d := by
  cases job with
  | serve id chosen =>
      exact price?_retire f id d
  | _ =>
      rfl

/-- Nothing changes what a dispatcher charges. -/
theorem price?_of_step (step : Step program e l e') (d : Nat) :
    e'.shared.price? d = e.shared.price? d := by
  cases moves_of_step step with
  | turned _ _ went left =>
      exact (left.shared.price? d).trans (price?_of_turn went d)
  | acted _ _ performed left =>
      exact (left.shared.price? d).trans (price?_of_perform performed d)
  | dropped _ _ left =>
      exact (left.shared.price? d).trans (price?_dropJob e.shared _ _ d)
  | rested _ left =>
      exact left.shared.price? d

/-- What a dispatcher charges is the same in every state of a run. -/
theorem price?_of_history (history : History program e hs e') (d : Nat) :
    e'.shared.price? d = e.shared.price? d := by
  refine history.invariant (I := fun _ e' => e'.shared.price? d = e.shared.price? d)
    (A := fun _ => True) ?_ (fun _ _ => trivial) rfl
  intro hs e' l e'' same step _
  exact (price?_of_step step d).trans same

/-- A dispatcher with a price has one task at most. -/
theorem Manned.unique {n n' : TaskId} {chosen chosen' : Option Chosen} {cost : UInt64}
    (h : Manned d e) (known : e.shared.price? d = some cost) (runs : Runs d e n chosen)
    (runs' : Runs d e n' chosen') : n = n' := by
  rw [price?_of_desk] at known
  rcases Option.map_eq_some_iff.1 known with ⟨k, desk, _⟩
  have same := (h runs desk).symm.trans (h runs' desk)
  exact Standing.running.inj same

/-- Whatever a dispatcher does, it does for a price. -/
theorem price?_of_deeds {deed : Deed} (member : deed ∈ Moment.deeds d (e, l)) :
    ∃ cost, e.shared.price? d = some cost := by
  by_cases own : IsTurnOf d e l
  · rcases own with ⟨rfl, number, chosen, next⟩
    rw [deeds_of_next next] at member
    rcases mem_deeds member with ⟨x, found, _⟩
    exact ⟨x.cost, by simp [price?, found]⟩
  · rw [deeds_of_other own] at member
    cases member

/-! ## Schedulers -/

theorem length_schedulers_enlist (f : Fetcher) (id : RequestId) (r : Request) :
    (f.enlist id r).1.schedulers.length = f.schedulers.length := by
  unfold enlist
  split
  · rfl
  · exact List.length_modify _ _ _

theorem length_schedulers_adopt (f : Fetcher) (id : RequestId) (c : Conclusion) :
    (f.adopt id c).1.schedulers.length = f.schedulers.length := by
  unfold adopt
  simp only
  split
  · exact length_schedulers_enlist _ id c.request
  · rfl

theorem length_schedulers_schedule (f : Fetcher) (id : RequestId) :
    (f.schedule id).shared.schedulers.length = f.schedulers.length := by
  have became := schedules f id
  generalize f.schedule id = result at became ⊢
  cases became with
  | accepted found registered onward =>
      exact length_schedulers_enlist _ id _
  | _ =>
      rfl

/-- Turns neither make nor remove schedulers. -/
theorem length_schedulers_of_turn (turned : f.turn now task job = .ok t) :
    t.shared.schedulers.length = f.schedulers.length := by
  cases turns turned with
  | granted | waits =>
      rfl
  | @attempts _ request stage _ _ _ _ _ _ _ _ =>
      have sent := sends f now task request stage
      generalize f.send now task request stage = result at sent ⊢
      cases sent with
      | missing gone =>
          rfl
      | concluded found begins =>
          exact length_schedulers_adopt f request _
      | arrived found =>
          exact length_schedulers_adopt f request _
      | awaits held found begins after =>
          rw [after.same]
      | answered found begins after there onward =>
          refine (length_schedulers_adopt _ request _).trans ?_
          rw [after.same]
  | @retries request failure =>
      unfold Fetcher.retry
      split
      · rfl
      · exact length_schedulers_adopt f request _
  | serves served =>
      cases served with
      | served =>
          exact List.length_set
      | _ =>
          rfl

/-- Actions neither make nor remove schedulers. -/
theorem length_schedulers_of_perform {action : Action} {r : Reacted}
    (performed : f.perform now task action = .ok r) :
    r.shared.schedulers.length = f.schedulers.length := by
  cases does performed with
  | @scheduled request =>
      exact length_schedulers_schedule f request
  | popped | adjusted | retired =>
      exact List.length_modify _ _ _
  | _ =>
      rfl

/-- No move makes a scheduler, or does away with one. -/
theorem length_schedulers_of_step (step : Step program e l e') :
    e'.shared.schedulers.length = e.shared.schedulers.length := by
  refine shared_of_step (S := fun f => f.schedulers.length = e.shared.schedulers.length) step rfl
    ?_ ?_ (fun performed => length_schedulers_of_perform performed)
    (fun _ turned => length_schedulers_of_turn turned)
  · intro id job f same
    cases job with
    | serve d chosen =>
        exact (List.length_modify _ _ _).trans same
    | _ =>
        exact same
  · intro tasks f same
    rcases sweep_same tasks f with ⟨schedulers, shared, kept⟩
    have length := congrArg List.length kept
    simp only [List.length_map] at length
    change (sweep tasks f).1.schedulers.length = e.shared.schedulers.length
    rw [shared]
    exact length.trans same

/-! ## Requests -/

def Desk.requests (k : Desk) : List RequestId :=
  k.inbox ++ k.pending.map (·.request)

/-- The requests that a dispatcher has before it, the one that it has chosen, and those that it has
sent are among the first `most` that were made. -/
structure Stock (d most : Nat) (hs : List Moment) (e : State) : Prop where
  desk : ∀ {k}, e.shared.desk? d = some k → k.standing ≠ .gone → ∀ id ∈ k.requests, id < most
  chosen : ∀ {number c}, Runs d e number (some c) → c.request < most
  sent : ∀ {x n}, .sends x n ∈ log d hs → x.request < most

/-- The more requests were made, the more may be among them. -/
theorem Stock.mono {most most' : Nat} (h : Stock d most hs e) (le : most ≤ most') :
    Stock d most' hs e := by
  refine ⟨?_, fun stands => Nat.lt_of_lt_of_le (h.chosen stands) le,
    fun sends => Nat.lt_of_lt_of_le (h.sent sends) le⟩
  intro k there alive id member
  exact Nat.lt_of_lt_of_le (h.desk there alive id member) le

/-- Numbers are given to the mail that came, and to nothing else. -/
theorem request_mem_of_number {n : Nat} {ids : List RequestId} {x : Pending}
    (member : x ∈ Pending.number n (f.classified ids)) : x.request ∈ ids := by
  rcases List.mem_map.1 member with ⟨⟨⟨priority, request⟩, arrival⟩, there, rfl⟩
  have classified := List.fst_mem_of_mem_zipIdx there
  rcases List.mem_map.1 classified with ⟨id, mail, same⟩
  cases same
  exact mail

/-- The requests in the queue when the mail was taken in are those that were there before. -/
theorem request_mem_of_queue {k : Desk} {x : Pending} (member : x ∈ k.queue f) :
    x.request ∈ k.requests := by
  have perm := Pending.insertAll_perm (Pending.number k.arrivals (f.classified k.inbox)) k.pending
  rcases List.mem_append.1 (perm.mem_iff.1 member) with old | new
  · exact List.mem_append_right _ (List.mem_map_of_mem old)
  · exact List.mem_append_left _ (request_mem_of_number new)

/-- What a move leaves before a dispatcher, if it is no turn of it, was there before or exists. -/
structure Brings (d : Nat) (e e' : State) : Prop where
  desk : ∀ {k'}, e'.shared.desk? d = some k' → k'.standing ≠ .gone →
    ∃ k, e.shared.desk? d = some k ∧ k.standing ≠ .gone ∧
      ∀ id ∈ k'.requests, id ∈ k.requests ∨ id < e.shared.requests.length
  task : ∀ {number c}, Runs d e' number (some c) → Runs d e number (some c)

/-- Whoever is left alone at its work is brought only what exists. -/
theorem Keeps.brings (h : Keeps d e e') : Brings d e e' := by
  refine ⟨?_, ?_⟩
  · intro k' there alive
    rcases h.desk there alive with ⟨k, fresh, before, alive', same, _, known⟩
    refine ⟨k, before, alive', ?_⟩
    intro id member
    rw [same] at member
    simp only [Desk.requests, Desk.receive, List.mem_append] at member ⊢
    rcases member with (old | new) | waits
    · exact .inl (.inl old)
    · exact .inr (known id new)
    · exact .inl (.inr waits)
  · intro number c stands
    rcases h.task stands with old | ⟨none, _⟩
    · exact old
    · cases none

/-- Mail is taken one by one from its front. -/
theorem inbox_pop (f : Fetcher) (d : Nat) :
    (f.pop d).shared.inbox d = f.inbox d ∨ (f.pop d).shared.inbox d = (f.inbox d).tail := by
  unfold Fetcher.pop
  split
  · exact .inl rfl
  · rename_i queue found
    right
    have there : f.schedulers[d]? = some queue := by
      split at found
      · cases found
      · exact found
    simp [inbox, modifyScheduler, there, Scheduler.pop]

/-- Taking mail from a dispatcher leaves the rest of it. -/
theorem brings_of_pop {finished : List (Completion Result)}
    (left : Leaves now (e.shared.pop d).shared
      (e.tasks ++ (spawned (e.shared.pop d).effects).map some) finished e') : Brings d e e' := by
  have popped := pop_same e.shared d
  have fewer : ∀ id ∈ (e.shared.pop d).shared.inbox d, id ∈ e.shared.inbox d := by
    intro id member
    rcases inbox_pop e.shared d with same | tail
    · exact same ▸ member
    · rw [tail] at member
      exact List.mem_of_mem_tail member
  refine ⟨?_, ?_⟩
  · intro k' there alive
    rw [left.shared.desk? d] at there
    unfold desk? at there
    rw [popped.2] at there
    rcases Option.map_eq_some_iff.1 there with ⟨x, found, rfl⟩
    refine ⟨⟨x.cost, x.standing, x.pending, x.arrivals, e.shared.inbox d⟩, by simp [desk?, found],
      alive, ?_⟩
    intro id member
    rcases List.mem_append.1 member with mail | waits
    · exact .inl (List.mem_append_left _ (fewer id mail))
    · exact .inl (List.mem_append_right _ waits)
  · intro number c stands
    unfold Runs at stands ⊢
    rw [left.tasks, popped.1] at stands
    simpa [spawned] using stands

/-- No other move brings a dispatcher a request that was not made. -/
theorem brings_of_moves (manned : Manned d e) (moves : Moves e l e') (other : ¬ IsTurnOf d e l) :
    Brings d e e' := by
  cases moves with
  | turned turn next went left =>
      exact (Keeps.of_turned manned (not_serve_of_next other turn next) went left).brings
  | @acted action answer r same gentle performed left =>
      by_cases popped : action = .pop d
      · subst popped
        cases performed
        exact brings_of_pop left
      · exact (Keeps.of_acts manned (acts_of_perform popped gentle performed) left).brings
  | dropped _ stands left =>
      exact (Keeps.of_dropped manned stands left).brings
  | rested _ left =>
      exact (Keeps.of_rested manned left).brings

/-- A move that is no turn of a dispatcher brings it requests that exist. -/
theorem Stock.other (h : Stock d e.shared.requests.length hs e) (brings : Brings d e e')
    (nothing : Moment.deeds d (e, l) = []) :
    Stock d e.shared.requests.length (hs ++ [(e, l)]) e' := by
  refine ⟨?_, fun stands => h.chosen (brings.task stands), ?_⟩
  · intro k' there alive id member
    -- a dispatcher that is at work now was not gone before
    rcases brings.desk there alive with ⟨k, before, alive', known⟩
    rcases known id member with old | new
    · exact h.desk before alive' id old
    · exact new
  · intro x n sends
    rw [log_snoc, nothing, List.append_nil] at sends
    exact h.sent sends

theorem Stock.chosen_of_runs {most : Nat} {chosen : Option Chosen} (h : Stock d most hs e)
    (runs : Runs d e number chosen) : ∀ id ∈ (chosen.map (·.request)).toList, id < most := by
  intro id member
  cases chosen with
  | none =>
      cases member
  | some c =>
      cases List.mem_singleton.1 member
      exact h.chosen runs

/-- What a turn of a dispatcher sends, waits for or leaves in front of it was chosen before, or was in
front of it. -/
theorem Stock.known {most : Nat} {chosen : Option Chosen} {next : TaskId} {ds : List Deed}
    (h : Stock d most hs e) (manned : Manned d e) (runs : Runs d e number chosen)
    (serving : Serving e.shared d next chosen t ds) :
    (∀ k, t.shared.desk? d = some k → k.standing ≠ .gone → ∀ id ∈ k.requests, id < most) ∧
      (∀ c, standing t.next = some (.serve d (some c)) → c.request < most) ∧
      ∀ x n, .sends x n ∈ ds → x.request < most := by
  have mine := h.chosen_of_runs runs
  cases serving with
  | still nothing effects desk goesOn =>
      refine ⟨?_, ?_, ?_⟩
      · intro k there alive
        rw [desk] at there
        exact h.desk there alive
      · intro c next
        apply mine
        rw [← (goesOn _ next).2]
        exact List.mem_singleton_self _
      · intro x n sends
        rw [nothing] at sends
        cases sends
  | @served k k' rest dispatches chosen' desk desk' takes sends effects orderly cost arrivals inbox
      goesOn =>
      have atWork : k.standing ≠ .gone := by simp [manned runs desk]
      have queue : ∀ x ∈ takings ds ++ rest, x.request < most := by
        intro x member
        rw [takes] at member
        exact h.desk desk atWork _ (request_mem_of_queue member)
      -- whatever is sent or chosen now was chosen before or is taken out of the queue
      have known : ∀ id ∈ (sendings ds).map (·.1.request) ++ (chosen'.map (·.request)).toList,
          id < most := by
        intro id member
        rw [orderly.requests] at member
        rcases List.mem_append.1 member with own | taken
        · exact mine id own
        · rcases List.mem_map.1 taken with ⟨x, there, rfl⟩
          exact queue x (List.mem_append_left _ there)
      refine ⟨?_, ?_, ?_⟩
      · intro k'' there alive id member
        cases desk'.symm.trans there
        rcases goesOn with ⟨gone, _⟩ | ⟨_, pending, _⟩
        · exact absurd gone alive
        · rw [Desk.requests, inbox, pending, List.nil_append] at member
          rcases List.mem_map.1 member with ⟨x, there, rfl⟩
          exact queue x (List.mem_append_right _ there)
      · intro c next
        apply known
        rcases goesOn with ⟨_, ended⟩ | ⟨_, _, goes⟩
        · cases ended.symm.trans next
        · cases goes.symm.trans next
          exact List.mem_append_right _ (List.mem_singleton_self _)
      · intro x n sent
        exact known _ (List.mem_append_left _ (List.mem_map_of_mem (mem_sendings.2 sent)))

/-- A turn of the dispatcher keeps its stock. -/
theorem Stock.serving {most : Nat} {chosen : Option Chosen} {next : TaskId} {ds : List Deed}
    {finished : List (Completion Result)} (h : Stock d most hs e) (manned : Manned d e)
    (runs : Runs d e number chosen) (serving : Serving e.shared d next chosen t ds)
    (left : Leaves e.now t.shared
      (e.tasks.set number (standing t.next) ++ (spawned t.effects).map some) finished e')
    (did : Moment.deeds d (e, l) = ds) : Stock d most (hs ++ [(e, l)]) e' := by
  rcases h.known manned runs serving with ⟨desk, waits, sends⟩
  refine ⟨?_, ?_, ?_⟩
  · intro k there alive
    rw [left.shared.desk? d] at there
    exact desk k there alive
  · intro other c stands
    -- a task of the dispatcher is the one that has taken the turn, or was there before
    rcases runs_of_serving serving left stands with ⟨_, next⟩ | ⟨_, old⟩
    · exact waits c next
    · exact h.chosen old
  · intro x n sent
    rcases mem_log_snoc sent with old | new
    · exact h.sent old
    · rw [did] at new
      exact sends x n new

/-- No request is unmade, so those that a dispatcher holds go on to exist. -/
theorem stock_of_step (manned : Manned d e) (h : Stock d e.shared.requests.length hs e)
    (step : Step program e l e') : Stock d e'.shared.requests.length (hs ++ [(e, l)]) e' := by
  apply Stock.mono _ (classes_of_step step).length
  have moves := moves_of_step step
  by_cases own : IsTurnOf d e l
  · rcases own with ⟨rfl, number, chosen, next⟩
    rcases moves.of_next rfl next with ⟨t, went, left⟩
    exact h.serving manned (task?_of_next? next) (serving went e.tasks.length) left
      (deeds_of_next next)
  · exact h.other (brings_of_moves manned moves own) (deeds_of_other own)

variable {bucket : Bucket} {groups : List Group} {blocks : List (Key × Bytes)} {costs : List UInt64}
  {start : Instant}

/-! ## The beginning of a run -/

/-- The prices are those with which the dispatchers are made. -/
theorem price?_ofDispatchers (d : Nat) :
    (ofDispatchers bucket groups blocks costs).price? d = costs[d]? := by
  simp [price?, ofDispatchers, Function.comp_def]

/-- Before the run begins no dispatcher has anything before it. -/
theorem stock_opening (d : Nat) :
    Stock d 0 [] (opening start (ofDispatchers bucket groups blocks costs)) := by
  refine ⟨?_, nofun, nofun⟩
  intro k there _ id member
  have inbox : (ofDispatchers bucket groups blocks costs).inbox d = [] := by
    simp only [ofDispatchers, Fetcher.inbox, List.getElem?_map]
    cases costs[d]? <;> rfl
  rcases Option.map_eq_some_iff.1 there with ⟨x, found, rfl⟩
  simp only [opening, ofDispatchers, List.getElem?_map] at found
  rcases Option.map_eq_some_iff.1 found with ⟨cost, _, rfl⟩
  change id ∈ (ofDispatchers bucket groups blocks costs).inbox d ++ [] at member
  rw [inbox] at member
  cases member

end Fetcher
end MeteredFetch
