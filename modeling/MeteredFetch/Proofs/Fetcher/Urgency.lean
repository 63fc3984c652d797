import MeteredFetch.Proofs.Fetcher.Registrations

/-!
# Urgency — dispatchers send the most urgent requests first

The requests that come to a dispatcher are numbered in the order in which they are registered,
wherever it is at work then: they wait in its mail until it takes them in. Whenever it takes a
request out of its queue, this is the least by class and number of all that have come and were not
taken. So requests of one class are sent in the order in which they came, and only the one that
tokens were waited for already goes before a more urgent one.

* `Fetcher.entries` — the requests that came to a dispatcher in a run, with their numbers;
* `Fetcher.requests_of_entries` — as long as the dispatcher is left alone, those are the requests that
  its scheduler took in;
* `Fetcher.dispatched` — the requests that it sent;
* `Fetcher.Backlog`, `Fetcher.backlog_of_history` — what was taken, what waits and what is in the
  mail is what came, once each;
* `Fetcher.dispatches_by_urgency` — the order in which a dispatcher takes and sends requests.
-/

namespace MeteredFetch
namespace Fetcher

open Executor Deed

/-! ## What comes -/

/-- The requests that come into the mail of a dispatcher in a move, with their classes. -/
def Moment.enrols (d : Nat) (m : Moment) : List (Priority × RequestId) :=
  let after := (Executor.Moment.after program m).shared
  after.classified ((after.inbox d).drop (m.1.shared.inbox d).length)

/-- The requests that came to a dispatcher in a run, numbered in the order in which they came. -/
def entries (d : Nat) (hs : List Moment) : List Pending :=
  Pending.number 0 (hs.flatMap (Moment.enrols d))

/-- The requests that a dispatcher sent in a run: those that it took out of its queue, up to the one
that it may wait for tokens for. -/
def dispatched (d : Nat) (hs : List Moment) : List Pending :=
  (takings (log d hs)).take (sendings (log d hs)).length

variable {d : Nat} {e e' : State} {l : Label Action Answer} {hs hs' : List Moment}

theorem entries_append (d : Nat) (hs hs' : List Moment) :
    entries d (hs ++ hs') =
      entries d hs ++ Pending.number (entries d hs).length (hs'.flatMap (Moment.enrols d)) := by
  simp [entries, List.flatMap_append, Pending.number_append]

theorem nodup_entries (d : Nat) (hs : List Moment) : (entries d hs).Nodup :=
  Pending.nodup_number 0 _

theorem enrols_of_step (step : Step program e l e') (d : Nat) :
    Moment.enrols d (e, l) =
      e'.shared.classified ((e'.shared.inbox d).drop (e.shared.inbox d).length) := by
  unfold Moment.enrols
  rw [after_of_step step]

/-- No turn of a dispatcher brings it mail. -/
theorem enrols_of_turn (own : IsTurnOf d e l) (step : Step program e l e') :
    Moment.enrols d (e, l) = [] := by
  rcases own with ⟨rfl, number, chosen, next⟩
  rcases (moves_of_step step).of_next rfl next with ⟨t, went, left⟩
  have taken : t.shared.inbox d = e.shared.inbox d ∨ t.shared.inbox d = [] := by
    cases serves (f := e.shared) went with
    | served _ _ scheduler emptied _ _ _ _ =>
        right
        have inside := (List.getElem?_eq_some_iff.1 scheduler).1
        simp [inbox, inside, emptied]
    | _ =>
        exact .inl rfl
  rw [enrols_of_step step, left.shared.inbox d]
  rcases taken with same | none
  · simp [same, classified]
  · simp [none, classified]

/-- What comes to a dispatcher that is left alone was registered with its scheduler. -/
theorem requests_of_enrols (crews : ∀ id, Crewed id e) (step : Step program e l e')
    (apart : Moment.leavesAlone d (e, l) = true) :
    (Moment.enrols d (e, l)).map Prod.snd = arriving d (Moment.registration? (e, l)) := by
  by_cases own : IsTurnOf d e l
  · rw [enrols_of_turn own step, registration?_of_turn own]
    rfl
  · rw [enrols_of_step step, inbox_of_step crews step apart own, List.drop_left]
    simp [classified, Function.comp_def]

/-- The requests that come to a dispatcher that is left alone are those that its scheduler takes in. -/
theorem requests_of_entries (crews : ∀ id, Crewed id e) (history : History program e hs e')
    (apart : ∀ m ∈ hs, Moment.leavesAlone d m = true) :
    (entries d hs).map (·.request) = registrations d hs := by
  induction history with
  | refl =>
      rfl
  | @tail hs l e' e'' before step ih =>
      have crews' : ∀ id, Crewed id e' := fun id => crewed_of_history (crews id) before
      have earlier := ih fun m member => apart m (List.mem_append_left _ member)
      have last := apart (e', l) (List.mem_append_right _ (List.mem_singleton_self _))
      rw [entries_append, List.map_append, earlier, registrations_snoc, Pending.requests_number,
        List.flatMap_singleton, requests_of_enrols crews' step last]

theorem inbox_of_desk {f : Fetcher} {k : Desk} (desk : f.desk? d = some k) :
    k.inbox = f.inbox d := by
  rcases Option.map_eq_some_iff.1 desk with ⟨x, _, rfl⟩
  rfl

/-- Requests that exist stay in their classes. -/
theorem Classes.classified {f g : Fetcher} (h : Classes f g) {ids : List RequestId}
    (known : ∀ id ∈ ids, id < f.requests.length) : g.classified ids = f.classified ids := by
  refine List.map_congr_left fun id member => ?_
  rw [h.priority (known id member)]

/-! ## What waits -/

/-- What a dispatcher that is not gone was brought, has taken and has before it. -/
structure Backlog (came : List Pending) (taken : List Pending) (f : Fetcher) (k : Desk) : Prop where
  split : (taken ++ k.pending ++ Pending.number k.arrivals (f.classified k.inbox)).Perm came
  count : k.arrivals + k.inbox.length = came.length
  sorted : k.pending.Pairwise fun x y => x.before y = true
  early : ∀ x ∈ taken ++ k.pending, x.arrival < k.arrivals
  fair : ∀ x ∈ taken, ∀ y ∈ k.pending, x.priority = y.priority → x.arrival < y.arrival
  known : ∀ id ∈ k.inbox, id < f.requests.length

variable {came taken : List Pending} {f g : Fetcher} {k k' : Desk}

namespace Backlog

/-- More mail comes in. -/
theorem receive (h : Backlog came taken f k) (classes : Classes f g) {fresh : List RequestId}
    (exist : ∀ id ∈ fresh, id < f.requests.length) (standing : Standing) :
    Backlog (came ++ Pending.number came.length (g.classified fresh)) taken g
      { k.receive fresh with standing } := by
  have old : g.classified k.inbox = f.classified k.inbox := classes.classified h.known
  have numbers : Pending.number k.arrivals (g.classified (k.inbox ++ fresh)) =
      Pending.number k.arrivals (f.classified k.inbox) ++
        Pending.number came.length (g.classified fresh) := by
    have both : g.classified (k.inbox ++ fresh) = g.classified k.inbox ++ g.classified fresh :=
      List.map_append
    rw [both, old, Pending.number_append, ← h.count]
    simp [Fetcher.classified]
  refine ⟨?_, ?_, h.sorted, h.early, h.fair, ?_⟩
  · change (taken ++ k.pending ++ Pending.number k.arrivals
      (g.classified (k.inbox ++ fresh))).Perm _
    rw [numbers, ← List.append_assoc]
    exact h.split.append_right _
  · change k.arrivals + (k.inbox ++ fresh).length = _
    rw [List.length_append, List.length_append, Pending.length_number, ← h.count]
    simp [Fetcher.classified, Nat.add_assoc]
  · intro id member
    rcases List.mem_append.1 member with old | new
    · exact Nat.lt_of_lt_of_le (h.known id old) classes.length
    · exact Nat.lt_of_lt_of_le (exist id new) classes.length

/-- The queue when the mail was taken in is in order, and holds what has come and was not taken. -/
theorem queue (h : Backlog came taken f k) :
    (taken ++ k.queue f).Perm came ∧
      (k.queue f).Pairwise (fun x y => x.before y = true) ∧
      (∀ x ∈ k.queue f, x.arrival < k.arrivals + k.inbox.length) ∧
      ∀ x ∈ taken, ∀ y ∈ k.queue f, x.priority = y.priority → x.arrival < y.arrival := by
  have perm := Pending.insertAll_perm (Pending.number k.arrivals (f.classified k.inbox)) k.pending
  have cases : ∀ {x}, x ∈ k.queue f → x ∈ k.pending ∨
      k.arrivals ≤ x.arrival ∧ x.arrival < k.arrivals + k.inbox.length := by
    intro x member
    rcases List.mem_append.1 (perm.mem_iff.1 member) with old | new
    · exact .inl old
    · have bounds := Pending.bounds_of_number new
      simp only [Fetcher.classified, List.length_map] at bounds
      exact .inr bounds
  refine ⟨?_, ?_, ?_, ?_⟩
  · refine List.Perm.trans ?_ h.split
    rw [List.append_assoc]
    exact perm.append_left taken
  · apply Pending.pairwise_insertAll h.sorted
    · intro x member y other
      have early := h.early x (List.mem_append_right _ member)
      exact Nat.lt_of_lt_of_le early (Pending.bounds_of_number other).1
    · exact Pending.pairwise_number _ _
  · intro x member
    rcases cases member with old | ⟨_, lt⟩
    · have early := h.early x (List.mem_append_right _ old)
      exact Nat.lt_of_lt_of_le early (Nat.le_add_right _ _)
    · exact lt
  · intro x member y other same
    rcases cases other with old | ⟨le, _⟩
    · exact h.fair x member y old same
    · exact Nat.lt_of_lt_of_le (h.early x (List.mem_append_left _ member)) le

/-- Requests are taken, from the head of the queue. -/
theorem take (h : Backlog came taken f k) {xs rest : List Pending}
    (split : xs ++ rest = k.queue f) (pending : k'.pending = rest)
    (arrivals : k'.arrivals = k.arrivals + k.inbox.length) (inbox : k'.inbox = []) :
    Backlog came (taken ++ xs) g k' := by
  rcases h.queue with ⟨perm, sorted, early, fair⟩
  rw [← split] at perm sorted early fair
  rcases List.pairwise_append.1 sorted with ⟨_, sorted', apart⟩
  refine ⟨?_, ?_, ?_, ?_, ?_, ?_⟩
  · rw [inbox, pending]
    simpa [Fetcher.classified] using perm
  · rw [arrivals, inbox]
    exact h.count
  · rw [pending]
    exact sorted'
  · intro x member
    rw [arrivals]
    rw [pending, List.append_assoc] at member
    rcases List.mem_append.1 member with old | new
    · have before := h.early x (List.mem_append_left _ old)
      exact Nat.lt_of_lt_of_le before (Nat.le_add_right _ _)
    · exact early x new
  · intro x member y other same
    rw [pending] at other
    rcases List.mem_append.1 member with old | new
    · exact fair x old y (List.mem_append_right _ other) same
    · exact Pending.arrival_lt_of_before (apart x new y other) same
  · rw [inbox]
    intro id member
    cases member

end Backlog

/-! ## Moves -/

/-- What a dispatcher was brought and has taken in a run, as long as it is not gone. -/
def Backlogged (d : Nat) (hs : List Moment) (e : State) : Prop :=
  ∀ k, e.shared.desk? d = some k → k.standing ≠ .gone →
    Backlog (entries d hs) (takings (log d hs)) e.shared k

theorem entries_snoc (step : Step program e l e') (d : Nat) (hs : List Moment) :
    entries d (hs ++ [(e, l)]) =
      entries d hs ++ Pending.number (entries d hs).length
        (e'.shared.classified ((e'.shared.inbox d).drop (e.shared.inbox d).length)) := by
  rw [entries_append, List.flatMap_singleton, enrols_of_step step]

theorem Backlogged.keeps (h : Backlogged d hs e) (step : Step program e l e')
    (other : ¬ IsTurnOf d e l) (keeps : Keeps d e e') : Backlogged d (hs ++ [(e, l)]) e' := by
  intro k' there alive
  rcases keeps.desk there alive with ⟨k, fresh, before, alive', same, _, known⟩
  have received := (h k before alive').receive (classes_of_step step) known k'.standing
  have inbox : e'.shared.inbox d = e.shared.inbox d ++ fresh := by
    calc
      e'.shared.inbox d = k'.inbox := (inbox_of_desk there).symm
      _ = k.inbox ++ fresh := by
          rw [same]
          rfl
      _ = e.shared.inbox d ++ fresh := by rw [inbox_of_desk before]
  rw [← same] at received
  rw [entries_snoc step, log_snoc, deeds_of_other other, List.append_nil, inbox,
    List.drop_left]
  exact received

theorem Backlogged.serving {number next : TaskId} {chosen : Option Chosen} {t : Turned}
    {ds : List Deed} (h : Backlogged d hs e) (manned : Manned d e)
    (step : Step program e l e') (runs : Runs d e number chosen)
    (did : Moment.deeds d (e, l) = ds) (serving : Serving e.shared d next chosen t ds)
    (swept : e'.shared.desk? d = t.shared.desk? d) : Backlogged d (hs ++ [(e, l)]) e' := by
  intro k' there alive
  have inbox' := inbox_of_desk there
  rw [entries_snoc step, log_snoc, did, takings_append, ← inbox']
  cases serving with
  | still nothing effects desk _ =>
      -- it looks at the bucket only
      rw [swept, desk] at there
      have none : ∀ id ∈ ([] : List RequestId), id < e.shared.requests.length := nofun
      have received := (h k' there alive).receive (classes_of_step step) none k'.standing
      rw [nothing, ← inbox_of_desk there, List.drop_length]
      simpa [Desk.receive, Fetcher.classified] using received
  | @served k k'' rest dispatches chosen' desk desk' takes sends effects orderly cost arrivals inbox
      goesOn =>
      cases (swept.trans desk').symm.trans there
      rcases goesOn with ⟨gone, _⟩ | ⟨_, pending, _⟩
      · exact absurd gone alive
      · have atWork : k.standing ≠ .gone := by simp [manned runs desk]
        have taken := (h k desk atWork).take (g := e'.shared) takes pending arrivals inbox
        simpa [inbox, Fetcher.classified] using taken

theorem backlogged_of_step (ledger : Ledger d (log d hs) e) (h : Backlogged d hs e)
    (step : Step program e l e') (kept : ∀ answer, l ≠ .act (.pop d) answer) :
    Backlogged d (hs ++ [(e, l)]) e' := by
  have moves := moves_of_step step
  by_cases own : IsTurnOf d e l
  · have other := own
    rcases own with ⟨rfl, number, chosen, next⟩
    rcases moves.of_next rfl next with ⟨t, went, left⟩
    exact h.serving ledger.manned step (task?_of_next? next) (deeds_of_next next)
      (serving went e.tasks.length) (left.shared.desk? d)
  · exact h.keeps step own (keeps_of_moves ledger.manned moves own kept)

/-! ## Runs -/

/-- Nobody takes mail from a dispatcher but itself. -/
def Moment.spares (d : Nat) (m : Moment) : Bool :=
  match m.2 with
  | .act (.pop s) _ => s != d
  | _ => true

theorem not_pop_of_spares (h : Moment.spares d (e, l) = true) (answer : Answer) :
    l ≠ .act (.pop d) answer := by
  rintro rfl
  simp [Moment.spares] at h

/-- What is done and what waits, however a run goes on. -/
theorem backlog_of_history (ledger : Ledger d [] e) (h : Backlogged d [] e)
    (history : History program e hs e') (kept : ∀ m ∈ hs, Moment.spares d m = true) :
    Ledger d (log d hs) e' ∧ Backlogged d hs e' := by
  refine history.invariant (I := fun hs e => Ledger d (log d hs) e ∧ Backlogged d hs e)
    (A := fun m => Moment.spares d m = true) ?_ kept ⟨ledger, h⟩
  intro hs e l e' sofar step kept
  rcases sofar with ⟨ledger, backlogged⟩
  rw [log_snoc]
  exact ⟨ledger_of_step ledger step, backlogged_of_step ledger backlogged step
    (not_pop_of_spares kept)⟩

variable {bucket : Bucket} {groups : List Group} {blocks : List (Key × Bytes)} {costs : List UInt64}
  {start : Instant}

/-- Nothing has come before the run begins. -/
theorem backlogged_opening (d : Nat) (bucket : Bucket) (groups : List Group)
    (blocks : List (Key × Bytes)) (costs : List UInt64) (start : Instant) :
    Backlogged d [] (opening start (ofDispatchers bucket groups blocks costs)) := by
  intro k there _
  have inbox : k.inbox = [] := by
    rw [inbox_of_desk there]
    simp only [opening, ofDispatchers, Fetcher.inbox, List.getElem?_map]
    cases costs[d]? <;> rfl
  rcases Option.map_eq_some_iff.1 there with ⟨x, found, rfl⟩
  simp only [opening, ofDispatchers, List.getElem?_map] at found
  rcases Option.map_eq_some_iff.1 found with ⟨cost, _, rfl⟩
  simp only at inbox
  refine ⟨?_, ?_, .nil, ?_, ?_, ?_⟩
  · simp [inbox, Fetcher.classified, entries]
  · simp [inbox, entries]
  · intro x member
    cases member
  · intro x member
    cases member
  · simp [inbox]

/-! ## What is taken -/

/-- What a move takes out is the head of a queue in order, which holds what has come and was not
taken. -/
theorem queue_of_step (ledger : Ledger d (log d hs) e) (backlogged : Backlogged d hs e)
    (step : Step program e l e') :
    takings (Moment.deeds d (e, l)) = [] ∨
      ∃ queue rest, queue = takings (Moment.deeds d (e, l)) ++ rest ∧
        (takings (log d hs) ++ queue).Perm (entries d hs) ∧
        queue.Pairwise (fun x y => x.before y = true) ∧
        ∀ x ∈ takings (log d hs), ∀ y ∈ queue, x.priority = y.priority → x.arrival < y.arrival := by
  by_cases own : IsTurnOf d e l
  · rcases own with ⟨rfl, number, chosen, next⟩
    rcases (moves_of_step step).of_next rfl next with ⟨t, went, _⟩
    have served := serving went e.tasks.length
    rw [← deeds_of_next next] at served
    cases served with
    | still nothing _ _ _ =>
        left
        rw [nothing, takings_nil]
    | @served k _ rest _ _ desk _ takes _ _ _ _ _ _ _ =>
        right
        have atWork : k.standing ≠ .gone := by simp [ledger.manned (task?_of_next? next) desk]
        rcases (backlogged k desk atWork).queue with ⟨perm, sorted, _, fair⟩
        exact ⟨k.queue e.shared, rest, takes.symm, perm, sorted, fair⟩
  · left
    rw [deeds_of_other own, takings_nil]

/-- A request that is taken out of the queue is the least of those that have come and were not
taken. -/
theorem isLeast_of_takes (ledger : Ledger d (log d hs) e) (backlogged : Backlogged d hs e)
    (step : Step program e l e') {left right : List Pending} {x : Pending}
    (took : takings (Moment.deeds d (e, l)) = left ++ x :: right) :
    x.IsLeast (entries d hs) (takings (log d hs) ++ left) := by
  rcases queue_of_step ledger backlogged step with none | ⟨queue, rest, head, perm, sorted, _⟩
  · rw [took] at none
    simp at none
  · -- what was taken before it in this turn stood before it in the queue
    have whole : queue = left ++ (x :: (right ++ rest)) := by
      rw [head, took, List.append_assoc, List.cons_append]
    rw [whole] at perm sorted
    apply Pending.isLeast_of_head _ (nodup_entries d hs) (List.pairwise_append.1 sorted).2.1
    rw [List.append_assoc]
    exact perm

theorem isLeast_of_history (ledger : Ledger d [] e) (backlogged : Backlogged d [] e)
    (history : History program e hs e') (kept : ∀ m ∈ hs, Moment.spares d m = true)
    {before after : List Moment} {m : Moment} (split : hs = before ++ m :: after)
    {left right : List Pending} {x : Pending} (took : takings (m.deeds d) = left ++ x :: right) :
    x.IsLeast (entries d before) (takings (log d before) ++ left) := by
  subst split
  rcases history.split_cons with ⟨first, middle, step, _⟩
  have earlier := fun m member => kept m (List.mem_append_left _ member)
  rcases backlog_of_history ledger backlogged first earlier with ⟨ledger', backlogged'⟩
  exact isLeast_of_takes ledger' backlogged' step took

def Fair (taken : List Pending) : Prop :=
  taken.Pairwise fun x y => x.priority = y.priority → x.arrival < y.arrival

theorem fair_of_step (ledger : Ledger d (log d hs) e) (backlogged : Backlogged d hs e)
    (step : Step program e l e') (sofar : Fair (takings (log d hs))) :
    Fair (takings (log d (hs ++ [(e, l)]))) := by
  rw [log_snoc, takings_append]
  rcases queue_of_step ledger backlogged step with none | ⟨queue, rest, head, _, sorted, fair⟩
  · rw [none, List.append_nil]
    exact sofar
  · rw [head] at sorted fair
    refine List.pairwise_append.2 ⟨sofar, ?_, ?_⟩
    · exact (List.pairwise_append.1 sorted).1.imp Pending.arrival_lt_of_before
    · intro x member y other
      exact fair x member y (List.mem_append_left _ other)

/-- Requests of one class are taken in the order in which they came. -/
theorem fair_of_history (ledger : Ledger d [] e) (backlogged : Backlogged d [] e)
    (history : History program e hs e') (kept : ∀ m ∈ hs, Moment.spares d m = true) :
    Fair (takings (log d hs)) := by
  induction history with
  | refl =>
      exact .nil
  | tail before step ih =>
      have earlier := fun m member => kept m (List.mem_append_left _ member)
      rcases backlog_of_history ledger backlogged before earlier with ⟨ledger', backlogged'⟩
      exact fair_of_step ledger' backlogged' step (ih earlier)

/-! ## What is sent -/

/-- What is sent is what was taken, but for the request that tokens may be waited for. -/
theorem dispatched_eq (ledger : Ledger d (log d hs) e) :
    ∃ waits : List Pending, takings (log d hs) = dispatched d hs ++ waits ∧ waits.length ≤ 1 ∧
      (dispatched d hs).length = (sendings (log d hs)).length ∧
      (sendings (log d hs)).map (·.1.request) = (dispatched d hs).map (·.request) := by
  rcases ledger.orderly with ⟨c, orderly, _⟩
  have requests := orderly.requests
  have lengths := congrArg List.length requests
  have most : c.toList.length ≤ 1 := by cases c <;> simp
  simp only [List.length_append, List.length_map, Option.toList_none, List.nil_append] at lengths
  refine ⟨(takings (log d hs)).drop (sendings (log d hs)).length,
    (List.take_append_drop _ _).symm, ?_, ?_, ?_⟩
  · rw [List.length_drop]
    omega
  · rw [dispatched, List.length_take]
    omega
  · calc
      _ = ((sendings (log d hs)).map (·.1.request) ++ c.toList).take
            (sendings (log d hs)).length := by rw [List.take_left' (List.length_map _)]
      _ = ((takings (log d hs)).map (·.request)).take (sendings (log d hs)).length := by
          rw [requests, Option.toList_none, List.nil_append]
      _ = (dispatched d hs).map (·.request) := by rw [dispatched, List.map_take]

theorem prefix_of_takeWhile_take {α : Type} (p : α → Bool) (n : Nat) (xs : List α) :
    (xs.take n).takeWhile p <+: xs.takeWhile p := by
  have whole : xs.takeWhile p = (xs.take n ++ xs.drop n).takeWhile p := by
    rw [List.take_append_drop]
  rw [whole, List.takeWhile_append]
  split
  · exact (List.takeWhile_prefix p).trans (List.prefix_append _ _)
  · exact List.prefix_refl _

/-- What stands before something else in a list. -/
theorem split_of_mem_takeWhile {x z : Pending} {xs : List Pending}
    (h : z ∈ xs.takeWhile (· ≠ x)) : ∃ left right, xs = left ++ z :: right ∧ x ∉ left ∧ z ≠ x := by
  induction xs with
  | nil =>
      cases h
  | cons y rest ih =>
      rw [List.takeWhile_cons] at h
      split at h
      · rename_i other
        have ne : y ≠ x := by simpa using other
        rcases List.mem_cons.1 h with rfl | later
        · exact ⟨[], rest, rfl, List.not_mem_nil, ne⟩
        · rcases ih later with ⟨left, right, split, absent, ne'⟩
          refine ⟨y :: left, right, by rw [split, List.cons_append], ?_, ne'⟩
          intro member
          rcases List.mem_cons.1 member with same | there
          · exact ne same.symm
          · exact absent there
      · cases h

/-- The move in which a request was taken. -/
theorem exists_of_takings {z : Pending} {left right : List Pending}
    (h : takings (log d hs) = left ++ z :: right) :
    ∃ before m after left' right', hs = before ++ m :: after ∧
      takings (m.deeds d) = left' ++ z :: right' ∧ left = takings (log d before) ++ left' := by
  induction hs generalizing left with
  | nil =>
      simp at h
  | cons m rest ih =>
      have first : log d (m :: rest) = m.deeds d ++ log d rest := rfl
      rw [first, takings_append] at h
      have later : ∀ {left'}, takings (log d rest) = left' ++ z :: right →
          left = takings (m.deeds d) ++ left' → ∃ before m' after left' right',
            m :: rest = before ++ m' :: after ∧ takings (m'.deeds d) = left' ++ z :: right' ∧
              left = takings (log d before) ++ left' := by
        intro left' there same
        rcases ih there with ⟨before, m', after, left'', right', split, took, same'⟩
        refine ⟨m :: before, m', after, left'', right', by rw [split, List.cons_append], took, ?_⟩
        have both : log d (m :: before) = m.deeds d ++ log d before := rfl
        rw [same, same', both, takings_append, List.append_assoc]
      rcases List.append_eq_append_iff.1 h with ⟨left', same, there⟩ | ⟨both, here, there⟩
      · exact later there same
      · cases both with
        | nil =>
            rw [List.append_nil] at here
            have whole : takings (log d rest) = [] ++ z :: right := there.symm
            exact later whole (by rw [here, List.append_nil])
        | cons z' right' =>
            rw [List.cons_append, List.cons.injEq] at there
            rcases there with ⟨rfl, _⟩
            exact ⟨[], m, rest, left, right', rfl, here, rfl⟩

/-- The requests that a dispatcher sends after a part of a run and before it sends a given one. -/
def overtaking (d : Nat) (before hs : List Moment) (x : Pending) : List Pending :=
  ((dispatched d hs).drop (dispatched d before).length).takeWhile (· ≠ x)

/-- What is sent later was waited for, or is taken later. -/
theorem prefix_of_overtaking {before after : List Moment} (x : Pending) {waits : List Pending}
    (split : takings (log d before) = dispatched d before ++ waits)
    (count : (dispatched d before).length = (sendings (log d before)).length) :
    overtaking d before (before ++ after) x <+:
      (waits ++ takings (log d after)).takeWhile (· ≠ x) := by
  have sent : dispatched d (before ++ after) = dispatched d before ++
      (waits ++ takings (log d after)).take (sendings (log d after)).length := by
    rw [dispatched, log_append, takings_append, sendings_append, List.length_append, split,
      List.append_assoc, ← count, List.take_length_add_append]
  unfold overtaking
  rw [sent, List.drop_left]
  exact prefix_of_takeWhile_take _ _ _

/-- Nothing less urgent is taken before a request that has come and was not taken. -/
theorem rank_le_of_taken (ledger : Ledger d [] e) (backlogged : Backlogged d [] e)
    {before after : List Moment} (history : History program e (before ++ after) e')
    (kept : ∀ m ∈ before ++ after, Moment.spares d m = true) {x z : Pending}
    (came : x ∈ entries d before) (untaken : x ∉ takings (log d before))
    (member : z ∈ (takings (log d after)).takeWhile (· ≠ x)) :
    z.priority.rank ≤ x.priority.rank := by
  rcases split_of_mem_takeWhile member with ⟨left, right, there, absent, ne⟩
  rcases exists_of_takings there with ⟨between, m, rest, left', right', same, took, left_eq⟩
  have whole : before ++ after = (before ++ between) ++ m :: rest := by
    rw [same, List.append_assoc]
  have least := isLeast_of_history ledger backlogged history kept whole took
  have goes : z.before x = true := by
    apply least.first x
    · rw [entries_append]
      exact List.mem_append_left _ came
    · rw [log_append, takings_append, List.append_assoc, ← left_eq]
      simp [untaken, absent]
    · exact Ne.symm ne
  exact Pending.rank_le_of_before goes

/-- Of the requests that are sent before one that has come, at most one is less urgent. -/
theorem overtaking_of_history (ledger : Ledger d [] e) (backlogged : Backlogged d [] e)
    {before after : List Moment} (history : History program e (before ++ after) e')
    (kept : ∀ m ∈ before ++ after, Moment.spares d m = true) {x : Pending}
    (came : x ∈ entries d before) (unsent : x ∉ dispatched d before) :
    (overtaking d before (before ++ after) x).countP
      (fun y => decide (x.priority.rank < y.priority.rank)) ≤ 1 := by
  rcases history.split with ⟨middle, earlier, _⟩
  rcases dispatched_eq (ledger_of_history ledger earlier) with ⟨waits, split, one, count, _⟩
  have first : overtaking d before (before ++ after) x <+:
      (waits ++ takings (log d after)).takeWhile (· ≠ x) := prefix_of_overtaking x split count
  have fewer := first.sublist.countP_le (p := fun y => decide (x.priority.rank < y.priority.rank))
  refine Nat.le_trans fewer ?_
  have none : x ∉ waits → ((takings (log d after)).takeWhile (· ≠ x)).countP
      (fun y => decide (x.priority.rank < y.priority.rank)) = 0 := by
    intro waiting
    have untaken : x ∉ takings (log d before) := by simp [split, unsent, waiting]
    refine List.countP_eq_zero.2 fun z member => ?_
    simpa using rank_le_of_taken ledger backlogged history kept came untaken member
  -- the request that tokens are waited for was taken before, and is the only exception
  cases waits with
  | nil =>
      have zero := none List.not_mem_nil
      rw [List.nil_append, zero]
      exact Nat.zero_le 1
  | cons w rest =>
      obtain rfl : rest = [] := by simpa using one
      rw [List.singleton_append, List.takeWhile_cons]
      split
      · rename_i other
        have ne : w ≠ x := by simpa using other
        have zero := none (by simp [Ne.symm ne])
        rw [List.countP_cons, zero]
        split <;> simp
      · simp

/-- A dispatcher takes the most urgent request that has come to it, and the oldest one of a class.
It sends what it has taken, so that the requests of a class are sent in the order in which they
came, and a request that has come is overtaken by at most one that is less urgent. -/
theorem dispatches_by_urgency
    (h : History program (opening start (ofDispatchers bucket groups blocks costs)) hs e)
    (d : Nat) (kept : ∀ m ∈ hs, Moment.spares d m = true) :
    (∀ before m after left x right, hs = before ++ m :: after →
      takings (Moment.deeds d m) = left ++ x :: right →
        x.IsLeast (entries d before) (takings (log d before) ++ left)) ∧
    ((sendings (log d hs)).map (·.1.request) = (dispatched d hs).map (·.request) ∧
      (takings (log d hs)).length ≤ (dispatched d hs).length + 1) ∧
    ((dispatched d hs).Pairwise fun x y => x.priority = y.priority → x.arrival < y.arrival) ∧
    ∀ before after x, hs = before ++ after → x ∈ entries d before → x ∉ dispatched d before →
      (overtaking d before hs x).countP
        (fun y => decide (x.priority.rank < y.priority.rank)) ≤ 1 := by
  have ledger : Ledger d [] (opening start (ofDispatchers bucket groups blocks costs)) :=
    ledger_opening d _ start
  have backlogged := backlogged_opening d bucket groups blocks costs start
  rcases dispatched_eq (ledger_of_history ledger h) with ⟨waits, split, one, _, requests⟩
  refine ⟨?_, ⟨requests, ?_⟩, ?_, ?_⟩
  · intro before m after left x right parts took
    exact isLeast_of_history ledger backlogged h kept parts took
  · rw [split, List.length_append]
    exact Nat.add_le_add_left one _
  · -- what is sent is a part of what is taken, in the same order
    have sublist : (dispatched d hs).Sublist (takings (log d hs)) := List.take_sublist _ _
    have fair : Fair (takings (log d hs)) := fair_of_history ledger backlogged h kept
    exact List.Pairwise.sublist sublist fair
  · intro before after x parts came unsent
    subst parts
    exact overtaking_of_history ledger backlogged h kept came unsent

def bypassed : List Moment × State :=
  follow program
    (opening 0 (ofDispatchers ⟨0, 3, 1000000, 0, 0, []⟩
      [⟨.bulk, {}, .ofList [(.content, 0)]⟩, ⟨.maximum, {}, .ofList [(.content, 0)]⟩]
      [(zeroKey, [97])] [3]))
    [.act (.create 0 zeroKey 0 {}) (), .act (.create 1 zeroKey 0 {}) (), .act (.schedule 0) (),
      -- while tokens are waited for, one more in bulk comes and then a most urgent one
      .act (.start 0) (), .turn, .act (.schedule 0) (), .act (.schedule 1) (), .clock 3000000, .turn,
      .clock 6000000, .turn, .turn]

theorem bypassed_dispatches_by_urgency :
    (∀ m ∈ bypassed.1, Moment.spares 0 m = true) ∧
      entries 0 (bypassed.1.take 7) = [⟨.bulk, 0, 0⟩, ⟨.bulk, 1, 0⟩, ⟨.maximum, 2, 1⟩] ∧
      dispatched 0 bypassed.1 = [⟨.bulk, 0, 0⟩, ⟨.maximum, 2, 1⟩] ∧
      (overtaking 0 (bypassed.1.take 7) bypassed.1 ⟨.maximum, 2, 1⟩).countP
        (fun y => decide (Priority.rank .maximum < y.priority.rank)) = 1 ∧
      (overtaking 0 (bypassed.1.take 7) bypassed.1 ⟨.maximum, 2, 1⟩).countP
        (fun y => decide (Priority.rank .maximum < y.priority.rank)) ≤ 1 := by
  have kept : ∀ m ∈ bypassed.1, Moment.spares 0 m = true := by decide
  have run : History program _ bypassed.1 bypassed.2 := history_follow _ _
  rcases dispatches_by_urgency run 0 kept with ⟨_, _, _, atMostOne⟩
  refine ⟨kept, by decide, by decide, by decide, ?_⟩
  exact atMostOne (bypassed.1.take 7) (bypassed.1.drop 7) ⟨.maximum, 2, 1⟩
    (List.take_append_drop _ _).symm (by decide) (by decide)

end Fetcher
end MeteredFetch
