import MeteredFetch.Dispatcher.Basic
import MeteredFetch.Proofs.Executor.Step

/-!
# Deeds — what a dispatcher does, one thing after another

A dispatcher takes a request out of its queue, pays for it unless it is cancelled, and sends it.
Going through the queue leaves only the outcome of this behind; here it is written down as it
happens.

* `Deed` — taking a request, paying and sending; `Dispatcher.deeds` writes down what
  `Dispatcher.serve` does;
* `Deed.takings`, `Deed.sendings` — the requests that were taken, and those that were sent, in
  order;
* `Deed.Orderly` — every request that is taken is paid for or spared, and then sent, before the
  next one is taken;
* `Deed.Drawn` — the same with the withdrawals behind it, each on the bucket that the one before has
  left, and `Deed.Draws` is one of them;
* `Dispatcher.logged` — what is written down is what was done, in this order, and every payment is a
  withdrawal that ends.
-/

namespace MeteredFetch

/-! ## Deeds -/

inductive Deed
  /-- Takes a request out of its queue. -/
  | takes (x : Pending)
  /-- Ends a withdrawal of tokens. -/
  | pays (tokens : UInt64)
  /-- Starts the task with a number, which sends a request. -/
  | sends (x : Dispatch) (task : TaskId)
  deriving DecidableEq, Repr

namespace Deed

def takings (ds : List Deed) : List Pending :=
  ds.filterMap fun
    | .takes x => some x
    | .pays _ | .sends _ _ => none

def sendings (ds : List Deed) : List (Dispatch × TaskId) :=
  ds.filterMap fun
    | .sends x task => some (x, task)
    | .takes _ | .pays _ => none

section Lists

variable (ds ds' : List Deed)

@[simp] theorem takings_nil : takings [] = [] := rfl

@[simp] theorem takings_takes (x : Pending) : takings (.takes x :: ds) = x :: takings ds := rfl

@[simp] theorem takings_pays (tokens : UInt64) : takings (.pays tokens :: ds) = takings ds := rfl

@[simp] theorem takings_sends (x : Dispatch) (task : TaskId) :
    takings (.sends x task :: ds) = takings ds := rfl

@[simp] theorem takings_append : takings (ds ++ ds') = takings ds ++ takings ds' :=
  List.filterMap_append

@[simp] theorem sendings_nil : sendings [] = [] := rfl

@[simp] theorem sendings_takes (x : Pending) : sendings (.takes x :: ds) = sendings ds := rfl

@[simp] theorem sendings_pays (tokens : UInt64) : sendings (.pays tokens :: ds) = sendings ds := rfl

@[simp] theorem sendings_sends (x : Dispatch) (task : TaskId) :
    sendings (.sends x task :: ds) = (x, task) :: sendings ds := rfl

@[simp] theorem sendings_append : sendings (ds ++ ds') = sendings ds ++ sendings ds' :=
  List.filterMap_append

variable {ds}

/-- A request is among those that were sent if there is a deed that says so. -/
theorem mem_sendings {x : Dispatch} {task : TaskId} :
    (x, task) ∈ sendings ds ↔ .sends x task ∈ ds := by
  unfold sendings
  rw [List.mem_filterMap]
  constructor
  · rintro ⟨deed, member, same⟩
    cases deed with
    | sends x' task' =>
        cases same
        exact member
    | _ =>
        cases same
  · intro member
    exact ⟨_, member, rfl⟩

end Lists

/-! ## Order -/

/-- Deeds in order, from one request that was taken and not sent yet, if there is one, to another:
a request is taken when none is left, it is paid for or spared, and it is sent at once. -/
inductive Orderly : Option RequestId → List Deed → Option RequestId → Prop
  | nil {c : Option RequestId} : Orderly c [] c
  | takes {x : Pending} {ds : List Deed} {c : Option RequestId} :
      Orderly (some x.request) ds c → Orderly none (.takes x :: ds) c
  | spares {r : RequestId} {task : TaskId} {ds : List Deed} {c : Option RequestId} :
      Orderly none ds c → Orderly (some r) (.sends ⟨r, false⟩ task :: ds) c
  | pays {r : RequestId} {tokens : UInt64} {task : TaskId} {ds : List Deed}
      {c : Option RequestId} :
      Orderly none ds c → Orderly (some r) (.pays tokens :: .sends ⟨r, true⟩ task :: ds) c

namespace Orderly

variable {b c c' : Option RequestId} {ds ds' : List Deed}

/-- Deeds in order go on from where others have ended. -/
theorem append (h : Orderly b ds c) (h' : Orderly c ds' c') : Orderly b (ds ++ ds') c' := by
  induction h with
  | nil =>
      exact h'
  | takes _ ih =>
      exact .takes (ih h')
  | spares _ ih =>
      exact .spares (ih h')
  | pays _ ih =>
      exact .pays (ih h')

/-- What is sent is what is taken, up to the request that is left. -/
theorem requests (h : Orderly b ds c) :
    (sendings ds).map (·.1.request) ++ c.toList = b.toList ++ (takings ds).map (·.request) := by
  induction h with
  | nil =>
      simp
  | takes _ ih =>
      simpa using ih
  | spares _ ih =>
      simpa using ih
  | pays _ ih =>
      simpa using ih

/-- A request that is paid for is sent right after the payment. -/
theorem split_of_sends {x : Dispatch} {task : TaskId} (h : Orderly b ds c)
    (sent : .sends x task ∈ ds) (charged : x.charged = true) :
    ∃ before tokens after, ds = before ++ .pays tokens :: .sends x task :: after := by
  induction h with
  | nil =>
      cases sent
  | @takes y rest c _ ih =>
      rcases List.mem_cons.1 sent with same | later
      · cases same
      · rcases ih later with ⟨before, tokens, after, split⟩
        exact ⟨.takes y :: before, tokens, after, by rw [split, List.cons_append]⟩
  | @spares r number rest c _ ih =>
      rcases List.mem_cons.1 sent with same | later
      · cases same
        cases charged
      · rcases ih later with ⟨before, tokens, after, split⟩
        exact ⟨.sends ⟨r, false⟩ number :: before, tokens, after, by rw [split, List.cons_append]⟩
  | @pays r tokens number rest c _ ih =>
      rcases List.mem_cons.1 sent with same | later
      · cases same
      rcases List.mem_cons.1 later with same | later
      · cases same
        exact ⟨[], tokens, rest, rfl⟩
      · rcases ih later with ⟨before, tokens', after, split⟩
        exact ⟨.pays tokens :: .sends ⟨r, true⟩ number :: before, tokens', after,
          by rw [split, List.cons_append, List.cons_append]⟩

/-- Whatever is paid is for a request that is sent next. -/
theorem split_of_pays {before after : List Deed} {tokens : UInt64} (h : Orderly b ds c)
    (split : ds = before ++ .pays tokens :: after) :
    ∃ request task rest, after = .sends ⟨request, true⟩ task :: rest := by
  induction h generalizing before with
  | nil =>
      cases before <;> cases split
  | takes _ ih =>
      cases before with
      | nil =>
          cases split
      | cons _ before =>
          rw [List.cons_append, List.cons.injEq] at split
          exact ih split.2
  | spares _ ih =>
      cases before with
      | nil =>
          cases split
      | cons _ before =>
          rw [List.cons_append, List.cons.injEq] at split
          exact ih split.2
  | @pays r _ number rest c _ ih =>
      cases before with
      | nil =>
          cases split
          exact ⟨r, number, rest, rfl⟩
      | cons _ before =>
          rw [List.cons_append, List.cons.injEq] at split
          cases before with
          | nil =>
              cases split.2
          | cons _ before =>
              have later := split.2
              rw [List.cons_append, List.cons.injEq] at later
              exact ih later.2

end Orderly

end Deed

/-! ## Withdrawals -/

namespace Deed

/-- Deeds in order, with the withdrawals behind them, from one chosen request and one bucket to
others. A request that is taken begins a withdrawal of `cost`. It is paid for when the withdrawal has
ended, and while it waits nothing more is done. -/
inductive Drawn (now : Instant) (task : TaskId) (cost : UInt64) :
    Option Chosen → Bucket → List Deed → Option Chosen → Bucket → Prop
  | nil {b : Bucket} : Drawn now task cost none b [] none b
  | takes {x : Pending} {b b' : Bucket} {ds : List Deed} {c' : Option Chosen} :
      Drawn now task cost (some ⟨x.request, .arriving cost⟩) b ds c' b' →
        Drawn now task cost none b (.takes x :: ds) c' b'
  | spares {r : RequestId} {number : TaskId} {b b' : Bucket} {ds : List Deed}
      {c' : Option Chosen} :
      Drawn now task cost none b ds c' b' →
        Drawn now task cost (some ⟨r, .arriving cost⟩) b (.sends ⟨r, false⟩ number :: ds) c' b'
  | pays {r : RequestId} {caller : Caller} {number : TaskId} {b b₁ b' : Bucket} {ds : List Deed}
      {c' : Option Chosen} :
      caller.turn now task b = .ok (b₁, none) → Drawn now task cost none b₁ ds c' b' →
        Drawn now task cost (some ⟨r, caller⟩) b (.pays cost :: .sends ⟨r, true⟩ number :: ds) c' b'
  | waits {r : RequestId} {caller caller' : Caller} {b b' : Bucket} :
      caller.turn now task b = .ok (b', some caller') →
        Drawn now task cost (some ⟨r, caller⟩) b [] (some ⟨r, caller'⟩) b'

/-- After some deeds, the withdrawal for a request has a turn, on the bucket that they have left. The
turn leaves another bucket, and where the withdrawal stands then, if it has not ended. -/
inductive Draws (now : Instant) (task : TaskId) (cost : UInt64) :
    Option Chosen → Bucket → List Deed → RequestId → Option Caller → Bucket → Prop
  /-- The tokens were waited for before. -/
  | waited {r : RequestId} {caller : Caller} {stands : Option Caller} {b b' : Bucket} :
      caller.turn now task b = .ok (b', stands) →
        Draws now task cost (some ⟨r, caller⟩) b [] r stands b'
  /-- The request was just taken. -/
  | taken {c : Option Chosen} {x : Pending} {ds : List Deed} {stands : Option Caller}
      {b b₁ b' : Bucket} :
      Drawn now task cost c b ds none b₁ → (Caller.arriving cost).turn now task b₁ = .ok (b', stands) →
        Draws now task cost c b (ds ++ [.takes x]) x.request stands b'

section Withdrawals

variable {now : Instant} {task : TaskId} {cost : UInt64} {b b₁ b' : Bucket} {c c' : Option Chosen}
  {ds : List Deed} {r : RequestId} {stands : Option Caller}

namespace Draws

/-- A request is taken, and its withdrawal has a turn in what is done afterwards. -/
theorem takes {x : Pending}
    (h : Draws now task cost (some ⟨x.request, .arriving cost⟩) b ds r stands b') :
    Draws now task cost none b (.takes x :: ds) r stands b' := by
  cases h with
  | waited turned =>
      exact .taken .nil turned
  | taken drawn turned =>
      exact .taken (.takes drawn) turned

/-- The request that was chosen goes free of charge, and others are dispatched after it. -/
theorem spares {r' : RequestId} {number : TaskId} (h : Draws now task cost none b ds r stands b') :
    Draws now task cost (some ⟨r', .arriving cost⟩) b (.sends ⟨r', false⟩ number :: ds) r stands
      b' := by
  cases h with
  | taken drawn turned =>
      exact .taken (.spares drawn) turned

/-- The withdrawal for the chosen request ends, it is sent, and others are dispatched after it. -/
theorem pays {r' : RequestId} {caller : Caller} {number : TaskId}
    (ended : caller.turn now task b = .ok (b₁, none)) (h : Draws now task cost none b₁ ds r stands b') :
    Draws now task cost (some ⟨r', caller⟩) b (.pays cost :: .sends ⟨r', true⟩ number :: ds) r
      stands b' := by
  cases h with
  | taken drawn turned =>
      exact .taken (.pays ended drawn) turned

end Draws

namespace Drawn

/-- What is left of the withdrawals is the order of the deeds. -/
theorem orderly (h : Drawn now task cost c b ds c' b') :
    Orderly (c.map (·.request)) ds (c'.map (·.request)) := by
  induction h with
  | nil =>
      exact .nil
  | takes _ ih =>
      exact .takes ih
  | spares _ ih =>
      exact .spares ih
  | pays _ _ ih =>
      exact .pays ih
  | waits _ =>
      exact .nil

/-- If a request is left, its withdrawal has had the last turn. -/
theorem draws_of_waits {chosen : Chosen} (h : Drawn now task cost c b ds c' b')
    (left : c' = some chosen) :
    Draws now task cost c b ds chosen.request (some chosen.caller) b' := by
  induction h with
  | nil =>
      cases left
  | takes _ ih =>
      exact (ih left).takes
  | spares _ ih =>
      exact (ih left).spares
  | pays ended _ ih =>
      exact .pays ended (ih left)
  | waits turned =>
      cases left
      exact .waited turned

/-- Whatever is paid is the cost of a dispatch, for the request that is sent next, whose withdrawal
ends then. -/
theorem draws_of_pays {before after : List Deed} {tokens : UInt64}
    (h : Drawn now task cost c b ds c' b') (split : ds = before ++ .pays tokens :: after) :
    tokens = cost ∧ ∃ request number rest b₁, after = .sends ⟨request, true⟩ number :: rest ∧
      Draws now task cost c b before request none b₁ := by
  -- along the deeds; the first withdrawal that ends before the payment is made is another one
  induction h generalizing before with
  | nil =>
      cases before <;> cases split
  | takes _ ih =>
      cases before with
      | nil =>
          cases split
      | cons _ before =>
          rw [List.cons_append, List.cons.injEq] at split
          rcases split with ⟨rfl, split⟩
          rcases ih split with ⟨same, request, number, rest, b₁, next, draws⟩
          exact ⟨same, request, number, rest, b₁, next, draws.takes⟩
  | spares _ ih =>
      cases before with
      | nil =>
          cases split
      | cons _ before =>
          rw [List.cons_append, List.cons.injEq] at split
          rcases split with ⟨rfl, split⟩
          rcases ih split with ⟨same, request, number, rest, b₁, next, draws⟩
          exact ⟨same, request, number, rest, b₁, next, draws.spares⟩
  | pays ended _ ih =>
      cases before with
      | nil =>
          cases split
          exact ⟨rfl, _, _, _, _, rfl, .waited ended⟩
      | cons _ before =>
          rw [List.cons_append, List.cons.injEq] at split
          cases before with
          | nil =>
              cases split.2
          | cons _ before =>
              rw [List.cons_append, List.cons.injEq] at split
              rcases split with ⟨rfl, rfl, split⟩
              rcases ih split with ⟨same, request, number, rest, b₁, next, draws⟩
              exact ⟨same, request, number, rest, b₁, next, .pays ended draws⟩
  | waits _ =>
      cases before <;> cases split

end Drawn

end Withdrawals

end Deed

namespace Dispatcher

open Deed

/-! ## Going through the queue -/

/-- What a dispatcher does on its way through the queue, where `next` is the number of the next task
that is started. -/
def deeds (now : Instant) (task : TaskId) (cost : UInt64) (cancelled : RequestId → Bool) :
    TaskId → List Pending → Bucket → List Deed
  | _, [], _ => []
  | next, x :: rest, b =>
      if cancelled x.request then
        .takes x :: .sends ⟨x.request, false⟩ next :: deeds now task cost cancelled (next + 1) rest b
      else
        match (Caller.arriving cost).turn now task b with
        | .ok (b, none) =>
            .takes x :: .pays cost :: .sends ⟨x.request, true⟩ next ::
              deeds now task cost cancelled (next + 1) rest b
        | .ok (_, some _) | .error _ => [.takes x]

variable {now : Instant} {task : TaskId} {cost : UInt64} {cancelled : RequestId → Bool}
  {next : TaskId} {pending : List Pending} {b : Bucket} {served : Served} {ds : List Deed}

structure Logged (now : Instant) (task : TaskId) (cost : UInt64) (next : TaskId)
    (pending : List Pending) (b : Bucket) (served : Served) (ds : List Deed) : Prop where
  takings : takings ds ++ served.pending = pending
  sendings : sendings ds = served.dispatches.zipIdx next
  drawn : Drawn now task cost none b ds served.chosen served.bucket

/-- What is written down is what is done. -/
theorem logged (h : serve now task cost cancelled pending b = .ok served) (next : TaskId) :
    Logged now task cost next pending b served
      (deeds now task cost cancelled next pending b) := by
  -- along the queue; the bucket is another one after every withdrawal
  induction pending generalizing b served next with
  | nil =>
      cases h
      exact ⟨rfl, rfl, .nil⟩
  | cons x rest ih =>
      unfold serve at h
      unfold deeds
      split at h
      · rename_i spared
        rcases ok_of_bind h with ⟨later, went, same⟩
        cases same
        have logged := ih went (next + 1)
        rw [if_pos spared]
        refine ⟨?_, ?_, .takes (.spares logged.drawn)⟩
        · simp [logged.takings]
        · simp [logged.sendings]
      · rename_i wanted
        rcases ok_of_bind h with ⟨⟨b', caller⟩, turned, rest'⟩
        rw [if_neg wanted, turned]
        cases caller with
        | some caller =>
            -- it is taken, and its tokens are waited for
            cases rest'
            exact ⟨rfl, rfl, .takes (.waits turned)⟩
        | none =>
            rcases ok_of_bind rest' with ⟨later, went, same⟩
            cases same
            have logged := ih went (next + 1)
            refine ⟨?_, ?_, .takes (.pays turned logged.drawn)⟩
            · simp [logged.takings]
            · simp [logged.sendings]

/-- A request is sent without payment if it is cancelled. -/
theorem cancelled_of_deeds {x : Dispatch} {number : TaskId}
    (sent : .sends x number ∈ deeds now task cost cancelled next pending b)
    (free : x.charged = false) : cancelled x.request = true := by
  induction pending generalizing b next with
  | nil =>
      cases sent
  | cons y rest ih =>
      unfold deeds at sent
      split at sent
      · rename_i spared
        rcases List.mem_cons.1 sent with same | sent
        · cases same
        rcases List.mem_cons.1 sent with same | sent
        · cases same
          exact spared
        · exact ih sent
      · split at sent
        · rcases List.mem_cons.1 sent with same | sent
          · cases same
          rcases List.mem_cons.1 sent with same | sent
          · cases same
          rcases List.mem_cons.1 sent with same | sent
          · cases same
            cases free
          · exact ih sent
        · simp at sent
        · simp at sent

end Dispatcher
end MeteredFetch
