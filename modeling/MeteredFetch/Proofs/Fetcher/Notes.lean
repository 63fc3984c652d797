import MeteredFetch.Proofs.Fetcher.Turns

/-!
# Notes — what consumers are told is noted

Only the end of an attempt tells a consumer anything. It notes at the request that this was done,
whether or not that was noted before.

* `Fetcher.told` — how often the consumer was told how a request ended;
* `Fetcher.isReported` — it is noted that a request was reported;
* `Fetcher.Calm` — nobody is told anything, and nothing is noted;
* `Fetcher.Notes` — the consumer is told at most once, and that is noted;
* `Fetcher.notes_of_turn` — every turn does so.
-/

namespace MeteredFetch
namespace Fetcher

open Executor

/-! ## What consumers are told -/

def told (f : Fetcher) (id : RequestId) : Nat :=
  (f.notices.filter fun n => n.1 == id).length

def isReported (f : Fetcher) (id : RequestId) : Bool :=
  (f.requests[id]?).any (·.reported)

def repeats (f g : Fetcher) (id : RequestId) : Bool :=
  f.isReported id && decide (f.told id < g.told id)

variable {id other : RequestId} {f g g' : Fetcher}

/-! ## Changes that tell nobody anything -/

/-- Nobody is told anything, and requests go on. Requests may be made, but none that is reported. -/
structure Calm (f g : Fetcher) : Prop where
  notices : g.notices = f.notices
  each : ∀ {other : RequestId} {r : Request}, f.requests[other]? = some r →
    ∃ r', g.requests[other]? = some r' ∧ r.Onward r'
  made : ∀ {other : RequestId} {r : Request}, f.requests[other]? = none →
    g.requests[other]? = some r → r.reported = false

namespace Calm

/-- Where requests only go on and nobody is told anything, there is calm. -/
theorem of_onwards (requests : Onwards f.requests g.requests) (notices : g.notices = f.notices) :
    Calm f g := by
  refine ⟨notices, requests.each, ?_⟩
  intro other r missing found
  rw [requests.none missing] at found
  cases found

/-- What is said about requests and consumers depends on nothing else. -/
theorem of_eq (requests : g.requests = f.requests) (notices : g.notices = f.notices) :
    Calm f g := by
  refine of_onwards ?_ notices
  rw [requests]
  exact .refl f.requests

theorem refl (f : Fetcher) : Calm f f :=
  of_eq rfl rfl

/-- In a calm nobody is told anything. -/
theorem told (h : Calm f g) (id : RequestId) : g.told id = f.told id := by
  simp only [Fetcher.told, h.notices]

theorem isReported (h : Calm f g) (id : RequestId) : g.isReported id = f.isReported id := by
  unfold Fetcher.isReported
  cases before : f.requests[id]? with
  | some r =>
      rcases h.each before with ⟨r', there, onward⟩
      rw [there]
      exact onward.reported
  | none =>
      -- it may have been made just now
      cases after : g.requests[id]? with
      | none =>
          rfl
      | some r =>
          exact h.made before after

/-- In a calm no report is taken back. -/
theorem final (h : Calm f g) {r : Request}
    (final : ∀ {other : RequestId} {r : Request}, f.requests[other]? = some r → r.Final)
    (found : g.requests[other]? = some r) : r.Final := by
  cases before : f.requests[other]? with
  | none =>
      intro reported
      rw [h.made before found] at reported
      cases reported
  | some r' =>
      rcases h.each before with ⟨r'', there, onward⟩
      rw [there] at found
      cases found
      exact onward.final (final before)

/-- Before such a change the same is repeated as after it, and so it is at its other end. -/
theorem repeats_left (h : Calm f g) (g' : Fetcher) (id : RequestId) :
    f.repeats g' id = g.repeats g' id := by
  simp only [repeats, h.told, h.isReported]

theorem repeats_right (h : Calm g g') (f : Fetcher) (id : RequestId) :
    f.repeats g' id = f.repeats g id := by
  simp only [repeats, h.told]

/-- In a calm nothing is reported again. -/
theorem repeats_eq_false (h : Calm f g) (id : RequestId) : f.repeats g id = false := by
  simp [repeats, h.told]

end Calm

/-! ## What is noted -/

structure Notes (id : RequestId) (f g : Fetcher) : Prop where
  kept : f.told id ≤ g.told id
  once : g.told id ≤ f.told id + 1
  noted : g.isReported id = (f.isReported id || decide (f.told id < g.told id))

/-- In a calm there is nothing to note. -/
theorem Calm.notes (h : Calm f g) (id : RequestId) : Notes id f g := by
  have told := h.told id
  refine ⟨by omega, by omega, ?_⟩
  simp [told, h.isReported]

theorem Notes.after_calm (h : Notes id g g') (calm : Calm f g) : Notes id f g' := by
  rcases h with ⟨kept, once, noted⟩
  rw [calm.told] at kept once noted
  rw [calm.isReported] at noted
  exact ⟨kept, once, noted⟩

theorem Notes.then_calm (h : Notes id f g) (calm : Calm g g') : Notes id f g' := by
  rcases h with ⟨kept, once, noted⟩
  rw [← calm.told] at kept once noted
  rw [← calm.isReported] at noted
  exact ⟨kept, once, noted⟩

/-- The end of an attempt tells the consumer of its request, and of no other. -/
theorem told_adopt (f : Fetcher) (other : RequestId) (c : Conclusion) (id : RequestId) :
    (f.adopt other c).1.told id =
      (if other = id then c.notice.toList.length else 0) + f.told id := by
  rcases adopt_same f other c with ⟨schedulers, same⟩
  rw [same]
  by_cases here : other = id
  · subst here
    simp [told, List.filter_append, List.filter_map, Function.comp_def]
  · simp [told, List.filter_append, List.filter_map, Function.comp_def, here]

/-- The end of an attempt notes what became of its request, and of no other. -/
theorem isReported_adopt {r : Request} (found : f.requests[other]? = some r) (c : Conclusion)
    (id : RequestId) :
    (f.adopt other c).1.isReported id =
      if other = id then c.request.reported else f.isReported id := by
  rcases adopt_same f other c with ⟨schedulers, same⟩
  have inside : other < f.requests.length := (List.getElem?_eq_some_iff.1 found).1
  rw [same]
  by_cases here : other = id
  · subst here
    simp [isReported, inside]
  · simp [isReported, here]

/-- The end of an attempt is noted with its request. -/
theorem Notes.adopt {r : Request} {c : Conclusion} (found : f.requests[other]? = some r)
    (notes : r.Notes c) : Notes id f (f.adopt other c).1 := by
  have told := told_adopt f other c id
  have reported := isReported_adopt found c id
  by_cases here : other = id
  · subst here
    have before : f.isReported other = r.reported := by simp [isReported, found]
    rw [if_pos rfl] at told reported
    rw [notes, ← before] at reported
    -- an end is told once, and noted even if it was noted before
    cases said : c.notice with
    | none =>
        exact ⟨by simp [told], by simp [told, said], by simp [told, reported, said]⟩
    | some notice =>
        exact ⟨by simp [told], by simp [told, said, Nat.add_comm], by simp [told, reported, said]⟩
  · rw [if_neg here] at told reported
    exact ⟨by simp [told], by simp [told], by simp [told, reported]⟩

/-- The end of an attempt repeats what its request was reported as. -/
theorem repeats_adopt {r : Request} {c : Conclusion} {late : Bool}
    (found : f.requests[other]? = some r) (reports : r.Reports late c) (id : RequestId) :
    f.repeats (f.adopt other c).1 id = (other == id && late) := by
  have told := told_adopt f other c id
  by_cases here : other = id
  · subst here
    have before : f.isReported other = r.reported := by simp [isReported, found]
    rw [if_pos rfl] at told
    rw [← reports.repeats]
    cases said : c.notice with
    | none =>
        simp [repeats, told, said]
    | some notice =>
        simp [repeats, told, said, before]
  · rw [if_neg here] at told
    simp [repeats, told, here]

/-! ## Turns -/

/-- A search begins in a calm. -/
theorem calm_searched {task : TaskId} {r r' : Request} {response : Response}
    (found : f.requests[other]? = some r) (begins : r.beginSend = .lookup r')
    (after : Searched f task other r' response g) : Calm f g := by
  rcases Request.onward_of_lookup begins with ⟨onward, _⟩
  refine .of_onwards ((Onwards.set found onward).trans after.requests) ?_
  rw [after.same]

/-- An attempt notes whatever it tells. -/
theorem notes_send (f : Fetcher) (now : Instant) (task : TaskId) (other : RequestId)
    (stage : Sending) (id : RequestId) : Notes id f (f.send now task other stage).1 := by
  have sent := sends f now task other stage
  generalize f.send now task other stage = result at sent ⊢
  cases sent with
  | missing gone =>
      exact (Calm.refl f).notes id
  | concluded found begins =>
      exact .adopt found (Request.notes_of_concluded begins)
  | @arrived r response found =>
      exact .adopt found (Request.notes_conclude (f.route r) response r)
  | @awaits r r' response g held alarm found begins after =>
      have calm := calm_searched found begins after
      have waits : Calm g { g with lookup := { g.lookup with held } } := .of_eq rfl rfl
      exact (calm.notes id).then_calm waits
  | @answered r r' r'' response g found begins after there onward =>
      -- the search comes first, and may cancel requests; the response is there at once
      have calm := calm_searched found begins after
      have arrived := Request.notes_conclude (g.route r'') response r''
      exact (Notes.adopt there arrived).after_calm calm

/-- A retry notes whatever it tells. -/
theorem notes_retry (f : Fetcher) (other : RequestId) (failure : Failure) (id : RequestId) :
    Notes id f (f.retry other failure).1 := by
  unfold Fetcher.retry
  split
  · exact (Calm.refl f).notes id
  · rename_i r found
    exact .adopt found (Request.notes_retry (f.route r) failure r)

/-- Dispatchers tell nobody anything. -/
theorem calm_of_serves {d : Nat} {chosen : Option Chosen} {t : Turned}
    (h : Serves f d chosen t) : Calm f t.shared := by
  cases h with
  | missing gone =>
      exact .refl f
  | waits =>
      exact .of_eq rfl rfl
  | served =>
      exact .of_eq rfl rfl

theorem Calm.of_bucket (f : Fetcher) (bucket : Bucket) : Calm f { f with bucket } :=
  .of_eq rfl rfl

/-- Every turn notes whatever it tells. -/
theorem notes_of_turn {now : Instant} {task : TaskId} {job : Job} {t : Turned}
    (turned : f.turn now task job = .ok t) (id : RequestId) : Notes id f t.shared := by
  cases turns turned with
  | granted | waits =>
      exact (Calm.of_bucket f _).notes id
  | @attempts _ request stage _ _ _ _ _ _ _ _ =>
      exact (notes_send f now task request stage id).then_calm (.of_eq rfl rfl)
  | @retries request failure =>
      exact notes_retry f request failure id
  | serves served =>
      exact (calm_of_serves served).notes id

/-! ## Actions, drops and sweeps -/

/-- A request that is made is not reported, and the others keep their numbers. -/
theorem calm_created {key : Key} {budget : Int32} {settings : Settings} {group : Group}
    {x : Request} (made : Request.create key budget settings group = .ok x) :
    Calm f { f with requests := f.requests ++ [x] } := by
  rcases ok_of_bind made with ⟨retries, _, rest⟩
  rcases ok_of_bind rest with ⟨_, _, rest⟩
  cases rest
  refine ⟨rfl, ?_, ?_⟩
  · intro other r found
    have inside : other < f.requests.length := (List.getElem?_eq_some_iff.1 found).1
    exact ⟨r, (List.getElem?_append_left inside).trans found, .refl r⟩
  · intro other r missing found
    rw [List.getElem?_append_right (List.getElem?_eq_none_iff.1 missing)] at found
    cases List.mem_singleton.1 (List.mem_of_getElem? found)
    rfl

/-- A call that schedules a request changes requests and schedulers only. -/
theorem schedule_same (f : Fetcher) (other : RequestId) :
    ∃ requests schedulers, (f.schedule other).shared = { f with requests, schedulers } := by
  have became := schedules f other
  generalize f.schedule other = result at became ⊢
  cases became with
  | missing gone =>
      exact ⟨f.requests, f.schedulers, rfl⟩
  | @accepted r r' found registered onward =>
      rcases enlist_same (f.setRequest other r') other r' with ⟨schedulers, same⟩
      exact ⟨_, schedulers, same⟩
  | _ =>
      exact ⟨_, f.schedulers, rfl⟩

/-- A call that schedules a request tells nobody anything. -/
theorem calm_schedule (f : Fetcher) (other : RequestId) : Calm f (f.schedule other).shared := by
  rcases schedule_same f other with ⟨requests, schedulers, same⟩
  refine .of_onwards (onwards_schedule f other) ?_
  rw [same]

/-- Nobody is told that a task was dropped. -/
theorem calm_dropJob (task : TaskId) (job : Job) (f : Fetcher) : Calm f (f.dropJob task job) := by
  cases job <;> exact .of_eq rfl rfl

theorem calm_sweep (tasks : List (Option Job)) (f : Fetcher) :
    Calm f (Fetcher.sweep tasks f).1 := by
  rcases sweep_same tasks f with ⟨schedulers, same, _⟩
  rw [same]
  exact .of_eq rfl rfl

end Fetcher
end MeteredFetch
