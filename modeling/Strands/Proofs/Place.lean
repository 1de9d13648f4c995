/-
Where a stake is held, and what an event says of the frames that bring it about.

`Trace.place` finds, for a stake that only frames hold, the frame that holds it, the
frames below it, and the reason why it may stand there.  `Trace.sound` does the same
for an event: the frames below the one that acted, and what the event tells.
-/
import Strands.Proofs.Grounding

namespace Strands

variable {W : Type}

/-! ## Holders -/

def Stake.personal : Stake → Bool
  | job _ | token _ | call _ | handle => false
  | _ => true

theorem Next.mem_stakes {next : Next W} {stake : Stake} (h : stake ∈ next.stakes) :
    ∃ f, next.call? = some f ∧ stake = .call f := by
  unfold stakes at h
  cases call : next.call? with
  | none => simp [call] at h
  | some f => exact ⟨f, rfl, by simpa [call] using h⟩

theorem Site.mem_stakes {site : Site W} {stake : Stake} (h : stake ∈ site.stakes) :
    (∃ call, site = .lane call ∧ stake = .opening call.future) ∨ ∃ f, stake = .call f := by
  cases site with
  | lane call => exact .inl ⟨call, rfl, by simpa using h⟩
  | omitted lookup | expressions lookup pending =>
    obtain ⟨f, _, eq⟩ := Next.mem_stakes h
    exact .inr ⟨f, eq⟩
  | _ => simp at h

theorem Shared.not_personal {s : Shared W} {stake : Stake} (h : stake ∈ s.stakes) :
    stake.personal = false := by
  unfold stakes at h
  simp only [List.mem_append, List.mem_map, List.mem_flatMap] at h
  rcases h with (⟨item, _, rfl⟩ | ⟨g, _, held⟩) | ⟨u, _, held⟩
  · cases item <;> rfl
  · obtain ⟨job, _, rfl⟩ := List.mem_map.1 held
    rfl
  · unfold Future.stakes at held
    cases callback : u.callback with
    | none => simp [callback] at held
    | some c =>
      cases c with
      | silent | client notify => simp [callback] at held
      | argument r =>
        simp only [callback, Option.map_some, Option.getD_some, Callback.stakes, Resolution.stakes,
          List.mem_cons] at held
        rcases held with rfl | held
        · rfl
        · obtain ⟨f, _, rfl⟩ := Next.mem_stakes held
          rfl

namespace Frame

variable {frame : Frame W} {f : FutureId}

/-- The frame that holds a stake for a future, where there is only one kind of them. -/
def Holds (frame : Frame W) : Stake → Prop
  | .attempt f byClient => ∃ p, frame = .claim p ∧ p.future = f ∧ p.asker.isClient = byClient
  | .bound f byClient => ∃ p, frame = .enter p ∧ p.future = f ∧ p.asker.isClient = byClient
  | .settle f => ∃ outcome, frame = .settle f outcome
  | .announce f => frame = .announce f
  | .reply f => frame = .deliver (.future f)
  | .unit f => ∃ job : Job W, job.future = f ∧
      ((∃ code, frame = .running (.task job) code) ∨ ∃ next, frame = .waiting (.task job) next)
  | .opening f => ∃ call : OpenCall, call.future = f ∧
      ((∃ lane, frame = .track call lane) ∨ (∃ object, frame = .query object (.lane call)) ∨
        (∃ object code, frame = .running (.query object (.lane call)) code) ∨
        ∃ object next, frame = .waiting (.query object (.lane call)) next)
  | _ => True

theorem holds_of_site {site : Site W} {stake : Stake} (h : stake ∈ site.stakes)
    (opening : ∀ call, site = .lane call → frame.Holds (.opening call.future)) :
    frame.Holds stake := by
  rcases Site.mem_stakes h with ⟨call, eq, rfl⟩ | ⟨f, rfl⟩
  · exact opening call eq
  · trivial

theorem holds_of_mem {stake : Stake} (h : stake ∈ frame.stakes) : frame.Holds stake := by
  cases frame with
  | running role code =>
    cases role with
    | task job =>
      obtain rfl : stake = .unit job.future := by simpa using h
      exact ⟨job, rfl, .inl ⟨code, rfl⟩⟩
    | query object site =>
      exact holds_of_site h fun call eq => ⟨call, rfl, .inr (.inr (.inl ⟨object, code, by rw [eq]⟩))⟩
    | _ => simp at h
  | waiting role next =>
    cases role with
    | task job =>
      obtain rfl : stake = .unit job.future := by simpa using h
      exact ⟨job, rfl, .inr ⟨next, rfl⟩⟩
    | query object site =>
      exact holds_of_site h fun call eq => ⟨call, rfl, .inr (.inr (.inr ⟨object, next, by rw [eq]⟩))⟩
    | _ => simp at h
  | query object site =>
    exact holds_of_site h fun call eq => ⟨call, rfl, .inr (.inl ⟨object, by rw [eq]⟩)⟩
  | track call lane =>
    obtain rfl : stake = .opening call.future := by simpa using h
    exact ⟨call, rfl, .inl ⟨lane, rfl⟩⟩
  | evaluate r =>
    have held : stake ∈ Stake.handle :: r.next.stakes := h
    rcases List.mem_cons.1 held with rfl | held
    · trivial
    · obtain ⟨f, _, rfl⟩ := Next.mem_stakes held
      trivial
  | deliver reply =>
    cases reply with
    | future f =>
      obtain rfl : stake = .reply f := by simpa using h
      exact rfl
    | _ => simp at h
  | claim p =>
    obtain rfl : stake = .attempt p.future p.asker.isClient := by simpa using h
    exact ⟨p, rfl, rfl, rfl⟩
  | enter p =>
    obtain rfl : stake = .bound p.future p.asker.isClient := by simpa using h
    exact ⟨p, rfl, rfl, rfl⟩
  | settle f outcome =>
    obtain rfl : stake = .settle f := by simpa using h
    exact ⟨outcome, rfl⟩
  | announce f =>
    obtain rfl : stake = .announce f := by simpa using h
    exact rfl
  | push job asker | checkOpen receiver job asker | locate receiver job asker
  | append receiver group job asker =>
    obtain rfl : stake = .hand job.future := by simpa using h
    trivial
  | submit group asker | drain group | turn group | endTurn group =>
    obtain rfl : stake = .token group := by simpa using h
    trivial
  | leave | discard job =>
    obtain rfl : stake = .guard := by simpa using h
    trivial
  | dropHandle =>
    obtain rfl : stake = .handle := by simpa using h
    trivial
  | _ => simp at h

end Frame

/-! ## Places -/

structure Place (history : List Event) (s : State W) (frame : Frame W) where
  thread : Thread W
  above : List (Frame W)
  below : List (Frame W)
  mem : thread ∈ s.threads
  stack : thread.stack = above ++ frame :: below
  grounded : frame.Grounded history below
  rest : Stacked (Frame.Grounded history) below

namespace Place

variable {history : List Event} {s : State W} {frame : Frame W}

theorem lower (place : Place history s frame) {lower : Frame W} (mem : lower ∈ place.below) :
    ∃ lowest : Place history s lower, ∃ between, place.below = between ++ lower :: lowest.below := by
  obtain ⟨between, below, eq, grounded, rest⟩ := place.rest.find mem
  refine ⟨⟨place.thread, place.above ++ frame :: between, below, place.mem, ?_, grounded, rest⟩,
    between, eq⟩
  rw [place.stack, eq]
  simp

theorem weigh_below_le (place : Place history s frame) (w : Stake → Nat) :
    weigh w (Frame.stakesOf place.below) ≤ weigh w s.stakes := by
  obtain ⟨a, b, eq⟩ := List.append_of_mem place.mem
  unfold State.stakes Thread.stakesOf
  rw [eq, weigh_append, List.flatMap_append, weigh_append, List.flatMap_cons, weigh_append,
    place.stack, Frame.stakesOf_append, weigh_append, Frame.stakesOf_cons, weigh_append]
  omega

theorem mem_stakes (place : Place history s frame) {stake : Stake} (h : stake ∈ frame.stakes) :
    stake ∈ s.stakes := by
  refine State.stakes_of_mem place.mem ?_ h
  rw [place.stack]
  simp

end Place

namespace State.Trace

variable {client : Client W} {workers : Nat} {world : W} {kept : List ObjectId}
  {threads : List (Code W)} {s : State W} {history : List Event}

/-- A stake that only frames hold has its place. -/
theorem place (trace : Trace client (State.start workers world kept threads) history s)
    {stake : Stake} (h : stake ∈ s.stakes) (personal : stake.personal = true) :
    ∃ frame : Frame W, frame.Holds stake ∧ Nonempty (Place history s frame) := by
  rcases List.mem_append.1 h with held | shared
  · obtain ⟨t, mem, held⟩ := List.mem_flatMap.1 held
    obtain ⟨frame, inStack, held⟩ := List.mem_flatMap.1 held
    obtain ⟨above, below, eq, grounded, rest⟩ := (trace.grounded t mem).find inStack
    exact ⟨frame, Frame.holds_of_mem held, ⟨⟨t, above, below, mem, eq, grounded, rest⟩⟩⟩
  · rw [Shared.not_personal shared] at personal
    cases personal

/-- Nothing is guarded while no work is in flight. -/
theorem not_guarded (trace : Trace client (State.start workers world kept threads) history s)
    (idle : s.shared.inFlight = 0) {frame : Frame W} (place : Place history s frame) :
    ¬ Guarded place.below := by
  have le := place.weigh_below_le Stake.share
  have law := trace.share_law
  unfold Guarded
  omega

theorem not_share (trace : Trace client (State.start workers world kept threads) history s)
    (idle : s.shared.inFlight = 0) {stake : Stake} (h : stake ∈ s.stakes) : stake.share = 0 := by
  have le := le_weigh (w := Stake.share) h
  have law := trace.share_law
  omega

end State.Trace
end Strands
