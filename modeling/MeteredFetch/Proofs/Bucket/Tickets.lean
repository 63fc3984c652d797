import Mathlib.Data.List.Induction
import MeteredFetch.Proofs.Bucket.Queue
import MeteredFetch.Proofs.Bucket.Order

/-!
# Tickets — deadlines of the chunks that the balance does not exceed

A chunk that the balance does not exceed has to be waited for. Such chunks are numbered in the order
in which they come. Each is due when the one before it is, or now if that has passed, and after as long
as the tokens that are missing take to be earned.

* `Bucket.Ticket` — a numbered chunk and when it is due;
* `Bucket.issue` — the tickets of chunks in order, and `Bucket.latest` is when the last one is due;
* `Bucket.Ticket.Kept` — the bucket lets the chunk wait until it is due, or takes it at once if it is;
* `Bucket.Draws.tickets` — drawing chunks moves the cursor as the tickets say, and keeps them;
* `Bucket.Line` — the tickets that are waited for, and `Bucket.line` follows them through a run.
-/

namespace MeteredFetch
namespace Bucket

open Executor

/-! ## Tickets -/

/-- Whether the balance that a chunk finds does not exceed it. -/
def Draw.isShort (d : Draw) : Bool :=
  decide (d.found.balance ≤ d.tokens)

def millis (time : Nat) : Nat :=
  (time + 999999) / 1000000 * 1000000

/-- A chunk of a task that the balance does not exceed, and when it is due. -/
structure Ticket where
  task : TaskId
  draw : Draw
  deadline : Instant
  deriving DecidableEq, Repr

namespace Ticket

def sleeps (t : Ticket) : Bool :=
  decide (t.draw.now < t.deadline)

def entry (t : Ticket) : TaskId × Instant :=
  (t.task, t.deadline)

/-- The bucket lets the chunk wait until it is due. It takes the chunk at once if it is due. -/
def Kept (t : Ticket) : Prop :=
  ∃ b w, w.deadline = t.deadline ∧ t.draw.bucket.draw t.draw.now t.draw.tokens =
    .ok (b, if t.draw.now < t.deadline then some w else none)

end Ticket

/-- The tickets of chunks, in the order in which they come. Each is due after the one before it, or
after the moment at which it comes, by the time that its missing tokens take to be earned. -/
def issue (interval : Nat) : Instant → List (TaskId × Draw) → List Ticket
  | _, [] => []
  | last, (task, d) :: rest =>
      let deadline := max last d.now + millis (interval * d.missing)
      ⟨task, d, deadline⟩ :: issue interval deadline rest

def latest (last : Instant) (tickets : List Ticket) : Instant :=
  tickets.foldl (fun _ t => t.deadline) last

/-- Tickets for more chunks come behind those that were issued before. -/
theorem issue_append (interval : Nat) (last : Instant) (xs ys : List (TaskId × Draw)) :
    issue interval last (xs ++ ys) =
      issue interval last xs ++ issue interval (latest last (issue interval last xs)) ys := by
  induction xs generalizing last with
  | nil =>
      rfl
  | cons x rest ih =>
      exact congrArg (List.cons _) (ih _)

theorem latest_append (last : Instant) (ts ts' : List Ticket) :
    latest last (ts ++ ts') = latest (latest last ts) ts' :=
  List.foldl_append

/-! ## Chunks -/

variable {b b' : Bucket} {now last : Instant} {id : TaskId} {interval : Nat}

/-- A chunk that the balance exceeds is taken. Another one is due as its ticket says. -/
theorem draw_ticket {tokens : Nat} {o : Option Wait} (fits : Draw.Fits ⟨now, b, tokens⟩)
    (h : b.draw now tokens = .ok (b', o)) :
    (Draw.isShort ⟨now, b, tokens⟩ = false ∧ o = none ∧ b'.cursor = b.cursor) ∨
      (Draw.isShort ⟨now, b, tokens⟩ = true ∧ ∃ w : Wait,
        w.deadline = max b.cursor now + millis (b.interval * Draw.missing ⟨now, b, tokens⟩) ∧
          b'.cursor = w.deadline ∧ o = if now < w.deadline then some w else none) := by
  rcases ok_of_bind h with ⟨⟨claimed, wait⟩, claim, rest⟩
  unfold Bucket.claim at claim
  simp only at claim
  split at claim
  · rename_i enough
    cases claim
    cases rest
    exact .inl ⟨decide_eq_false (Int.not_le.2 enough), rfl, rfl⟩
  · rename_i enough
    split at claim
    · cases claim
    · have short : (b.credit now).balance ≤ tokens := Int.not_lt.1 enough
      have missing : tokens - (b.credit now).balance.toNat + (-(b.credit now).balance).toNat =
          Draw.missing ⟨now, b, tokens⟩ := by
        simp only [Draw.missing, Draw.found]
        omega
      -- nothing is cut off
      have delay : (b.credit now).delay (min (Draw.missing ⟨now, b, tokens⟩) maxBalance) =
          millis (b.interval * Draw.missing ⟨now, b, tokens⟩) := by
        rw [Nat.min_eq_left fits.1]
        unfold Bucket.delay millis
        rw [credit_interval, Nat.min_eq_left fits.2]
      rw [missing, delay, credit_cursor, credit_interval] at claim
      cases claim
      refine .inr ⟨decide_eq_true short, ⟨tokens - (b.credit now).balance.toNat,
        max b.cursor now + millis (b.interval * Draw.missing ⟨now, b, tokens⟩), b.interval⟩, rfl, ?_⟩
      simp only at rest
      split at rest
      · rename_i past
        cases rest
        exact ⟨rfl, (if_neg (Nat.not_lt.2 past)).symm⟩
      · rename_i ahead
        cases rest
        exact ⟨rfl, (if_pos (Nat.lt_of_not_le ahead)).symm⟩

/-- Drawing chunks moves the cursor to where the last ticket is due. The tickets are kept, and the one
that has to be waited for, if any, is the wait of the task. -/
theorem Draws.tickets {c : Chunks} {ds : List Draw} {o : Option Caller}
    (drawn : Draws now id c b ds b' o) (fits : ∀ d ∈ ds, d.Fits) (terms : b.interval = interval)
    (cursor : b.cursor = last) :
    b'.cursor =
        latest last (issue interval last ((ds.filter Draw.isShort).map fun d => (id, d))) ∧
      ((issue interval last ((ds.filter Draw.isShort).map fun d => (id, d))).filter
          Ticket.sleeps).map Ticket.entry =
        (o.bind Caller.wait?).toList.map (fun w => (id, w.deadline)) ∧
      ∀ t ∈ issue interval last ((ds.filter Draw.isShort).map fun d => (id, d)), t.Kept := by
  induction drawn generalizing last with
  | done b none =>
      exact ⟨cursor, rfl, fun t member => by cases member⟩
  | @taken c rest n b b₁ b' ds o first drawn _ ih =>
      have fits' : ∀ d ∈ ds, d.Fits := fun d member => fits d (List.mem_cons_of_mem _ member)
      have terms' : b₁.interval = interval := (draw_ahead drawn).1.trans terms
      -- a chunk that the balance exceeds gets no ticket, and any other that is taken is due by now
      rcases draw_ticket (fits ⟨now, b, n⟩ List.mem_cons_self) drawn with ⟨long, _, kept⟩ |
        ⟨short, w, deadline, moved, held⟩
      · rw [List.filter_cons_of_neg (by simp [long])]
        exact ih fits' terms' (kept.trans cursor)
      · have past : ¬ now < w.deadline := by
          intro ahead
          rw [if_pos ahead] at held
          cases held
        rw [terms, cursor] at deadline
        rcases ih fits' terms' moved with ⟨cursor', asleep, valid⟩
        rw [List.filter_cons_of_pos short, List.map_cons]
        simp only [issue, ← deadline]
        refine ⟨cursor', ?_, ?_⟩
        · rw [List.filter_cons_of_neg (by simpa [Ticket.sleeps] using past)]
          exact asleep
        · intro t member
          rcases List.mem_cons.1 member with rfl | there
          · exact ⟨b₁, w, rfl, by rw [if_neg past]; exact drawn⟩
          · exact valid t there
  | @held c rest n b b₁ w first drawn =>
      -- the chunk that is waited for has the last ticket
      rcases draw_ticket (fits ⟨now, b, n⟩ List.mem_cons_self) drawn with ⟨_, none, _⟩ |
        ⟨short, w', deadline, moved, held⟩
      · cases none
      · have ahead : now < w'.deadline := by
          by_contra past
          rw [if_neg past] at held
          cases held
        rw [if_pos ahead] at held
        cases held
        rw [terms, cursor] at deadline
        rw [List.filter_cons_of_pos short, List.filter_nil, List.map_singleton]
        simp only [issue, ← deadline]
        refine ⟨moved, ?_, ?_⟩
        · rw [List.filter_cons_of_pos (by simpa [Ticket.sleeps] using ahead)]
          rfl
        · intro t member
          cases List.mem_singleton.1 member
          exact ⟨b₁, w, rfl, by rw [if_pos ahead]; exact drawn⟩

/-! ## The line -/

namespace Moment

/-- The chunks that the balance does not exceed and that are drawn at a moment, with their task. -/
def shorts (m : Moment) : List (TaskId × Draw) :=
  match m.1.next? with
  | some (id, _) => (m.draws.filter Draw.isShort).map fun d => (id, d)
  | none => []

/-- The task that is granted what it waits for at a moment, or is dropped. -/
def leaves? (m : Moment) : Option TaskId :=
  match m.2 with
  | .kill task => some task
  | .act _ _ | .turn | .clock _ => granted? m

end Moment

def tickets (interval : Nat) (start : Instant) (hs : List Moment) : List Ticket :=
  issue interval start (hs.flatMap Moment.shorts)

/-- Those who wait, in the order of their tickets. -/
structure Line where
  /-- When the last ticket that was issued is due. -/
  last : Instant
  asleep : List Ticket
  deriving DecidableEq, Repr

/-- Whoever is granted what it waits for leaves the line, and so does who is dropped. Those who have
to sleep come to its end. -/
def Line.next (interval : Nat) (l : Line) (m : Moment) : Line :=
  let new := issue interval l.last m.shorts
  { last := latest l.last new
    asleep := (l.asleep.filter fun t => decide (Moment.leaves? m ≠ some t.task)) ++
      new.filter Ticket.sleeps }

/-- The line after the moments of a run. -/
def line (interval : Nat) (start : Instant) (hs : List Moment) : Line :=
  hs.foldl (Line.next interval) ⟨start, []⟩

/-- A line after one more move. -/
theorem line_snoc (interval : Nat) (start : Instant) (hs : List Moment) (m : Moment) :
    line interval start (hs ++ [m]) = (line interval start hs).next interval m :=
  List.foldl_append

/-- The line holds tickets of the run in their order. -/
theorem line_sublist (interval : Nat) (start : Instant) (hs : List Moment) :
    (line interval start hs).last = latest start (tickets interval start hs) ∧
      (line interval start hs).asleep.Sublist (tickets interval start hs) := by
  induction hs using List.reverseRecOn with
  | nil =>
      exact ⟨rfl, List.Sublist.refl []⟩
  | append_singleton hs m ih =>
      rcases ih with ⟨last, sublist⟩
      have all : tickets interval start (hs ++ [m]) = tickets interval start hs ++
          issue interval (line interval start hs).last m.shorts := by
        unfold tickets
        rw [List.flatMap_append, List.flatMap_singleton, issue_append, last]
        rfl
      rw [line_snoc, all, latest_append, ← last]
      exact ⟨rfl, (List.filter_sublist.trans sublist).append List.filter_sublist⟩

end Bucket
end MeteredFetch
