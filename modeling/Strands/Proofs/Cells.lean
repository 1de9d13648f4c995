/-
Clients whose units keep to the cells of their receivers.

The world is a cell for each object.  A `Routine` is what a unit does to its receiver's
cell: one access after another, each of which reads the cell and writes it, with other
threads acting in between.  `Routine.run` is the same with nobody in between.

A client is tame if its threads and callbacks leave all cells alone and have them changed
by routines only, in units that they place on the lanes of the routines' objects.
`Move.orderly` says that this lasts: what a step leaves is tame again, and no step changes
a cell but those of units that run.
-/
import Mathlib.Logic.Function.Basic
import Strands.Proofs.Deed

namespace Strands

variable {σ : Type}

/-- A cell for each object. -/
abbrev Cells (σ : Type) := ObjectId → σ

/-- What a unit does to the cell of its receiver. -/
inductive Routine (σ : Type) where
  | finish (outcome : Outcome)
  | panic (payload : Panic)
  /-- Change what is in the cell, and go on with what it was before. -/
  | access (update : σ → σ) (next : σ → Routine σ)

namespace Routine

def run : Routine σ → σ → σ × Except Panic Outcome
  | finish outcome, value => (value, .ok outcome)
  | panic payload, value => (value, .error payload)
  | access update next, value => (next value).run (update value)

def code (r : ObjectId) : Routine σ → Code (Cells σ)
  | finish outcome => .finish outcome
  | panic payload => .panic payload
  | access update next =>
    .act (fun cells => Function.update cells r (update (cells r)))
      fun cells => (next (cells r)).code r

/-- A unit that runs a routine, which may depend on the strand. -/
def task (r : ObjectId) (routine : Strand → Routine σ) : Task (Cells σ) :=
  .work fun strand => (routine strand).code r

end Routine

/-! ## Tame clients -/

def Request.isTame : Request → Bool
  | call _ _ _ _ | query _ | gracefulStop | stop => false
  | _ => true

/-- Code that leaves cells to routines, on the lanes of their objects. -/
def Code.Tame : Code (Cells σ) → Prop
  | finish _ | panic _ => True
  | act update next => (∀ cells, update cells = cells) ∧ ∀ cells, (next cells).Tame
  | await _ next => next.Tame
  | awaitAtMost _ _ next => ∀ came, (next came).Tame
  | ask request next => request.isTame = true ∧ ∀ reply, (next reply).Tame
  | create _ callback next =>
    (∀ outcome, (callback outcome).Tame) ∧ ∀ reply, (next reply).Tame
  | schedule place work _ next =>
    (∃ r routine, place = .group r ∧ .work work = Routine.task r routine) ∧
      ∀ reply, (next reply).Tame
  | invoke _ _ _ _ | resolve _ _ _ _ _ _ => False
  | addHandler _ next => next.Tame
  | spawn thread next => thread.Tame ∧ next.Tame

def Callback.Tame : Callback (Cells σ) → Prop
  | silent => True
  | client notify => ∀ outcome, (notify outcome).Tame
  | argument _ => False

def Placing.Tame (p : Placing (Cells σ)) : Prop :=
  ∃ r routine, p.place = .group r ∧ p.task = Routine.task r routine

def Role.isOwn {W : Type} : Role W → Bool
  | thread | callback _ => true
  | _ => false

def Role.Tame (runs : Job (Cells σ) → Code (Cells σ) → Prop) (code : Code (Cells σ)) :
    Role (Cells σ) → Prop
  | task job => runs job code
  | role => role.isOwn = true ∧ code.Tame

def Frame.isBare {W : Type} : Frame W → Bool
  | running _ _ | waiting _ _ | claim _ | enter _ | push _ _ | query _ _ | openCall _ _ _
  | track _ _ | evaluate _ | takeHandlers _ | readListeners _ | runHandlers _ | askListeners _
  | openStop _ _ _ _ | awaitListeners _ => false
  | _ => true

/-- What a thread of a tame client, or a worker, may have to do.  `runs` says how units may
run. -/
def Frame.Tame (runs : Job (Cells σ) → Code (Cells σ) → Prop) : Frame (Cells σ) → Prop
  | running role code => role.Tame runs code
  | waiting role next => role.isOwn = true ∧ ∀ reply, (next reply).Tame
  | claim p | enter p => p.Tame
  | frame => frame.isBare = true

/-- Units are placed by clients, and no arguments of calls are completed.  Ends of units are
left to what follows from their routines. -/
def Deed.Tame : Deed (Cells σ) → Prop
  | placed p => p.Tame
  | bound _ | located _ _ | started _ _ | other => True
  | _ => False

/-- Callbacks are a tame client's, and the queue has groups only. -/
structure Shared.Tame (s : Shared (Cells σ)) : Prop where
  callbacks : ∀ u ∈ s.futures, ∀ callback, u.callback = some callback → callback.Tame
  items : ∀ item ∈ s.queue.items, ∃ group, item = .group group

section Lasting

variable {runs : Job (Cells σ) → Code (Cells σ) → Prop}

theorem Frame.tame_of_isOwn {role : Role (Cells σ)} (own : role.isOwn = true)
    {code : Code (Cells σ)} (tame : code.Tame) : (Frame.running role code).Tame runs := by
  cases role with
  | task job => cases own
  | _ => exact ⟨own, tame⟩

theorem Frame.tame_of_isBare {frame : Frame (Cells σ)} (bare : frame.isBare = true) :
    frame.Tame runs := by
  cases frame with
  | running role code | waiting role next | claim p | enter p => cases bare
  | _ => exact bare

theorem Frame.Tame.imp {runs' : Job (Cells σ) → Code (Cells σ) → Prop} {frame : Frame (Cells σ)}
    (h : frame.Tame runs)
    (step : ∀ job code, frame = .running (.task job) code → runs job code → runs' job code) :
    frame.Tame runs' := by
  cases frame with
  | running role code =>
    cases role with
    | task job => exact step job code rfl h
    | _ => exact h
  | _ => exact h

/-- A frame is that of a unit, or one that runs none. -/
theorem Frame.Tame.cases {frame : Frame (Cells σ)} (h : frame.Tame runs) :
    (∃ job code, frame = .running (.task job) code ∧ runs job code) ∨
      frame.Tame fun _ _ => False := by
  cases frame with
  | running role code =>
    cases role with
    | task job => exact .inl ⟨job, code, rfl, h⟩
    | _ => exact .inr h
  | _ => exact .inr h

end Lasting

/-! ## Bare frames -/

def Bare {W : Type} (frames : List (Frame W)) : Prop := ∀ frame ∈ frames, frame.isBare = true

section Bareness

variable {W : Type}

@[simp] theorem bare_nil : Bare ([] : List (Frame W)) := fun _ mem => by cases mem

@[simp] theorem bare_cons {frame : Frame W} {frames : List (Frame W)} :
    Bare (frame :: frames) ↔ frame.isBare = true ∧ Bare frames := List.forall_mem_cons

@[simp] theorem bare_append {a b : List (Frame W)} : Bare (a ++ b) ↔ Bare a ∧ Bare b :=
  List.forall_mem_append

@[simp] theorem Asker.bare_answer (asker : Asker) (result : Except ScheduleError Unit) :
    Bare (asker.answer result : List (Frame W)) := by
  cases asker <;> simp [answer, Frame.isBare]

@[simp] theorem Job.bare_refuse (job : Job W) : Bare job.refuse := by
  simp [refuse, Frame.isBare]

@[simp] theorem Item.bare_refuse (item : Item W) : Bare item.refuse := by
  cases item <;> simp [refuse, Frame.isBare]

@[simp] theorem bare_flatMap {α : Type} {f : α → List (Frame W)} {l : List α}
    (all : ∀ a, Bare (f a)) : Bare (l.flatMap f) := by
  intro frame mem
  obtain ⟨a, _, inA⟩ := List.mem_flatMap.1 mem
  exact all a frame inA

theorem Frame.isBare_of_isEmptyHanded {frame : Frame W} (h : frame.isEmptyHanded = true) :
    frame.isBare = true := by
  cases frame <;> first | rfl | cases h

end Bareness

/-! ## One step -/

/-- A step leaves things tame, and all cells as they are.  A unit runs only if it has just
begun to. -/
structure Orderly (s : Shared (Cells σ)) (δ : Deed (Cells σ)) (p : Progress (Cells σ)) :
    Prop where
  frames : ∀ frame ∈ p.frames, frame.Tame fun job code => δ = .started job code
  spawned : ∀ code ∈ p.spawned, code.Tame
  shared : p.shared.Tame
  deed : δ.Tame
  world : p.shared.world = s.world

section Steps

variable {client : Client (Cells σ)} {s : Shared (Cells σ)}

section

variable {runs : Job (Cells σ) → Code (Cells σ) → Prop}

theorem tame_cons {frame : Frame (Cells σ)} {frames : List (Frame (Cells σ))} :
    (∀ f ∈ frame :: frames, f.Tame runs) ↔
      frame.Tame runs ∧ ∀ f ∈ frames, f.Tame runs := List.forall_mem_cons

theorem tame_append {a b : List (Frame (Cells σ))} :
    (∀ f ∈ a ++ b, f.Tame runs) ↔ (∀ f ∈ a, f.Tame runs) ∧ ∀ f ∈ b, f.Tame runs :=
  List.forall_mem_append

theorem Bare.tame {frames : List (Frame (Cells σ))} (bare : Bare frames) :
    ∀ frame ∈ frames, frame.Tame runs :=
  fun frame mem => Frame.tame_of_isBare (bare frame mem)

end

theorem Orderly.of_bare {δ : Deed (Cells σ)} {p : Progress (Cells σ)} (bare : Bare p.frames)
    (spawned : p.spawned = []) (shared : p.shared.Tame) (deed : δ.Tame)
    (world : p.shared.world = s.world) : Orderly s δ p where
  frames := bare.tame
  spawned code mem := by rw [spawned] at mem; cases mem
  shared := shared
  deed := deed
  world := world

/-- A step with which a client's code goes on. -/
theorem Orderly.goesOn {role : Role (Cells σ)} (own : role.isOwn = true) {code : Code (Cells σ)}
    (tidy : code.Tame) {spawned : List (Code (Cells σ))} (tidy' : ∀ code ∈ spawned, code.Tame)
    {s' : Shared (Cells σ)} (shared : s'.Tame) (world : s'.world = s.world) :
    Orderly s .other { shared := s', frames := [.running role code], spawned } where
  frames := tame_cons.2 ⟨Frame.tame_of_isOwn own tidy, List.forall_mem_nil _⟩
  spawned := tidy'
  shared := shared
  deed := trivial
  world := world

/-- A step after which a client's code waits. -/
theorem Orderly.waits {p : Progress (Cells σ)} (orderly : Orderly s .other p) (bare : Bare p.frames)
    {role : Role (Cells σ)} (own : role.isOwn = true) {next : Reply → Code (Cells σ)}
    (tidy : ∀ reply, (next reply).Tame) :
    Orderly s .other { p with frames := p.frames ++ [.waiting role next] } :=
  { orderly with
    frames := tame_append.2 ⟨bare.tame, tame_cons.2 ⟨⟨own, tidy⟩, List.forall_mem_nil _⟩⟩ }

theorem Shared.Tame.of_same {s' : Shared (Cells σ)} (tame : s.Tame)
    (futures : s'.futures = s.futures) (queue : s'.queue = s.queue) : s'.Tame where
  callbacks := by rw [futures]; exact tame.callbacks
  items := by rw [queue]; exact tame.items

theorem Shared.Tame.push {item : Item (Cells σ)} {queue : RunQueue (Cells σ)} (tame : s.Tame)
    (group : ∃ group, item = .group group) (pushed : s.queue.push item = some queue) :
    ({ s with queue } : Shared (Cells σ)).Tame where
  callbacks := tame.callbacks
  items other mem := by
    rw [RunQueue.items_of_push pushed] at mem
    rcases List.mem_append.1 mem with earlier | new
    · exact tame.items other earlier
    · rw [List.mem_singleton.1 new]
      exact group

/-- A change that makes no callback. -/
theorem Shared.Tame.modifyFuture (tame : s.Tame) (f : FutureId)
    {change : Future (Cells σ) → Future (Cells σ)}
    (fewer : ∀ u callback, (change u).callback = some callback → u.callback = some callback) :
    (s.modifyFuture f change).Tame where
  callbacks u mem callback own := by
    have found : ∃ v ∈ s.futures, v.callback = some callback := by
      cases f with
      | zero => exact ⟨u, mem, own⟩
      | succ n =>
        obtain ⟨i, found⟩ :=
          List.mem_iff_getElem?.1 (show u ∈ s.futures.modify (n + 1) change from mem)
        change (List.modify s.futures n change)[i]? = some u at found
        rw [List.getElem?_modify] at found
        obtain ⟨v, before, rfl⟩ := Option.map_eq_some_iff.1 found
        refine ⟨v, List.mem_of_getElem? before, ?_⟩
        split at own
        · exact fewer v callback own
        · exact own
    obtain ⟨v, inFutures, own⟩ := found
    exact tame.callbacks v inFutures callback own
  items := tame.items

theorem Shared.Tame.addFuture (tame : s.Tame) (spec : FutureSpec)
    {callback : Callback (Cells σ)} (own : callback.Tame) : (s.addFuture spec callback).Tame where
  callbacks u mem callback' same := by
    rcases List.mem_append.1 mem with earlier | new
    · exact tame.callbacks u earlier callback' same
    · rw [List.mem_singleton.1 new] at same
      cases same
      exact own
  items := tame.items

theorem Shared.Tame.receive (tame : s.Tame) (reply : Reply) : (s.receive reply).Tame := by
  cases reply with
  | future made => exact tame.modifyFuture made fun _ _ own => own
  | _ => exact tame

section

variable (tame : s.Tame)

include tame

theorem Request.serve_orderly (sight : Sight) {request : Request}
    (runsNone : request.isTame = true) :
    Orderly s .other (request.serve client sight s) ∧
      Bare (request.serve client sight s).frames := by
  have bare {p : Progress (Cells σ)} (bare : Bare p.frames) (spawned : p.spawned = [])
      (shared : p.shared.Tame) (world : p.shared.world = s.world) :
      Orderly s .other p ∧ Bare p.frames :=
    ⟨.of_bare bare spawned shared trivial world, bare⟩
  cases request with
  | call receiver strand method args | query object | gracefulStop | stop => cases runsNone
  | view future =>
    refine bare ?_ rfl tame rfl
    simp only [serve]
    split <;> simp [Frame.isBare]
  | wait future | waitAtMost future milliseconds =>
    refine bare ?_ rfl tame rfl
    simp only [serve]
    split <;> simp [Frame.isBare]
  | forget future =>
    exact bare (by simp [serve, Frame.isBare]) rfl (tame.modifyFuture future fun _ _ own => own) rfl
  | takeHandle =>
    simp only [serve]
    split
    · exact bare (by simp [Frame.isBare]) rfl tame rfl
    · exact bare (by simp [Frame.isBare]) rfl (tame.of_same rfl rfl) rfl
  | _ => exact bare (by simp [serve, Frame.isBare]) rfl (tame.of_same rfl rfl) rfl

theorem Role.ended_orderly {role : Role (Cells σ)} (own : role.isOwn = true)
    (result : Except Panic Outcome) :
    Orderly s (role.endedDeed client s result) (role.ended client s result) := by
  cases role with
  | thread | callback outcome => exact .of_bare bare_nil rfl tame trivial rfl
  | _ => cases own

/-- A client asks for a unit on a lane only. -/
theorem schedule_orderly {sight : Sight} {late : Bool} {role : Role (Cells σ)} {place : Placement}
    {work : Strand → Code (Cells σ)} {future : FutureId} {next : Reply → Code (Cells σ)}
    {p : Progress (Cells σ)} (own : role.isOwn = true)
    (tidy : (Code.schedule place work future next).Tame)
    (taken : (Code.schedule place work future next).step client sight late s role = some p) :
    Orderly s ((Code.schedule place work future next).deed client s role) p := by
  cases taken
  obtain ⟨⟨r, routine, onLane, runs⟩, tidy⟩ := tidy
  cases had : s.hasHandle future with
  | true =>
    have tidy' : Placing.Tame { place, task := .work work, future, asker := .client future } :=
      ⟨r, routine, onLane, runs⟩
    simp only [Code.deed, had, if_true]
    exact {
      frames := tame_cons.2 ⟨tidy', tame_cons.2 ⟨rfl, tame_cons.2 ⟨⟨own, tidy⟩,
        List.forall_mem_nil _⟩⟩⟩
      spawned := List.forall_mem_nil _
      shared := tame
      deed := tidy'
      world := rfl }
  | false =>
    simp only [Code.deed, had]
    have bare : Bare [(.deliver .unknown : Frame (Cells σ)), .letGo place.held] := by
      simp [Frame.isBare]
    have orderly : Orderly s .other ⟨s, [.deliver .unknown, .letGo place.held], []⟩ :=
      .of_bare bare rfl tame trivial rfl
    exact orderly.waits bare own tidy

/-- Code of a tame client, a unit's aside. -/
theorem Code.step_orderly {sight : Sight} {late : Bool} {role : Role (Cells σ)}
    {code : Code (Cells σ)} {p : Progress (Cells σ)} (own : role.isOwn = true) (tidy : code.Tame)
    (taken : code.step client sight late s role = some p) :
    Orderly s (code.deed client s role) p := by
  cases code with
  | finish outcome | panic payload => cases taken; exact role.ended_orderly tame own _
  | act update next =>
    cases taken
    exact .goesOn own (tidy.2 s.world) (List.forall_mem_nil _) (tame.of_same rfl rfl)
      (tidy.1 s.world)
  | await ready next =>
    simp only [step] at taken
    split at taken <;> cases taken
    exact .goesOn own (show next.Tame from tidy) (List.forall_mem_nil _) tame rfl
  | awaitAtMost milliseconds ready next =>
    simp only [step] at taken
    split at taken
    · cases taken
      exact .goesOn own (tidy true) (List.forall_mem_nil _) tame rfl
    · split at taken <;> cases taken
      exact .goesOn own (tidy false) (List.forall_mem_nil _) tame rfl
  | ask request next =>
    cases taken
    obtain ⟨orderly, bare⟩ : Orderly s .other (request.serve client sight s) ∧ _ :=
      request.serve_orderly tame sight tidy.1
    exact orderly.waits bare own tidy.2
  | create spec callback next =>
    cases taken
    have bare : Bare [(.deliver (.future s.futures.nextId) : Frame (Cells σ))] := by
      simp [Frame.isBare]
    have shared := tame.addFuture spec (show (Callback.client callback).Tame from tidy.1)
    have orderly : Orderly s .other
        ⟨s.addFuture spec (.client callback), [.deliver (.future s.futures.nextId)], []⟩ :=
      .of_bare bare rfl shared trivial rfl
    exact orderly.waits bare own tidy.2
  | schedule place work future next => exact schedule_orderly tame own tidy taken
  | invoke mode invocation callback next => exact absurd tidy id
  | resolve receiver method args parent continuation next => exact absurd tidy id
  | addHandler handler next =>
    cases taken
    exact .goesOn own (show next.Tame from tidy) (List.forall_mem_nil _) (tame.of_same rfl rfl) rfl
  | spawn thread next =>
    cases taken
    exact .goesOn own tidy.2 (fun code mem => List.mem_singleton.1 mem ▸ tidy.1) tame rfl

omit tame in
theorem Callback.notify_tame {runs : Job (Cells σ) → Code (Cells σ) → Prop} (outcome : Outcome)
    {callback : Callback (Cells σ)} (tame : callback.Tame) :
    ∀ frame ∈ callback.notify outcome, frame.Tame runs := by
  cases callback with
  | silent => exact bare_nil.tame
  | client notify =>
    exact tame_cons.2 ⟨Frame.tame_of_isOwn rfl (tame outcome), List.forall_mem_nil _⟩
  | argument resolution => exact absurd tame id

theorem settleStep_orderly (f : FutureId) (outcome : Outcome) :
    Orderly s (Frame.deed client s (.settle f outcome)) (settleStep s f outcome) := by
  cases found : s.futures.get? f with
  | none =>
    simp only [settleStep, Frame.deed, found]
    exact .of_bare bare_nil rfl tame trivial rfl
  | some u =>
    have own := tame.callbacks u (Futures.mem_of_get? found)
    obtain ⟨strand, returnType, state, callback, notified, claimed, kept⟩ := u
    have shared : (s.modifyFuture f (·.complete outcome)).Tame :=
      tame.modifyFuture f fun u callback h => by cases h
    cases state with
    | some earlier =>
      simp only [settleStep, Frame.deed, found]
      exact .of_bare bare_nil rfl tame trivial rfl
    | none =>
      cases callback with
      | none =>
        simp only [settleStep, Frame.deed, found]
        exact .of_bare (by simp [Frame.isBare]) rfl shared trivial rfl
      | some callback =>
        simp only [settleStep, Frame.deed, found]
        have tidy : callback.Tame := own callback rfl
        exact {
          frames := tame_append.2 ⟨Callback.notify_tame outcome tidy,
            Bare.tame (by simp [Frame.isBare])⟩
          spawned := List.forall_mem_nil _
          shared := shared
          deed := by
            cases callback with
            | argument resolution => exact absurd tidy id
            | _ => trivial
          world := rfl }

theorem claimStep_orderly {p : Placing (Cells σ)} (tidy : p.Tame) :
    Orderly s (Frame.deed client s (.claim p)) (claimStep s p) := by
  cases found : s.futures.get? p.future with
  | none =>
    simp only [claimStep, Frame.deed, found]
    exact .of_bare (by simp) rfl tame trivial rfl
  | some u =>
    obtain ⟨strand, returnType, state, callback, notified, claimed, kept⟩ := u
    cases claimed with
    | true =>
      simp only [claimStep, Frame.deed, found]
      exact .of_bare (by simp) rfl tame trivial rfl
    | false =>
      simp only [claimStep, Frame.deed, found]
      exact {
        frames := tame_cons.2 ⟨tidy, List.forall_mem_nil _⟩
        spawned := List.forall_mem_nil _
        shared := tame.modifyFuture p.future fun _ _ own => own
        deed := trivial
        world := rfl }

theorem turnStep_orderly (group : GroupId) :
    Orderly s (Frame.deed client s (.turn group)) (turnStep client s group) := by
  have shared : (s.modifyGroup group fun g => g.next.2).Tame := tame.of_same rfl rfl
  cases found : s.groups[group]? with
  | none =>
    simp only [turnStep, Frame.deed, found]
    exact .of_bare bare_nil rfl tame trivial rfl
  | some g =>
    cases waiting : g.jobs with
    | nil =>
      simp only [turnStep, Frame.deed, found, waiting, Group.next]
      exact .of_bare bare_nil rfl shared trivial rfl
    | cons job others =>
      have turn : turnStep client s group =
          { shared := s.modifyGroup group fun g => g.next.2
            frames := job.run client s.futures ++ [.endTurn group] } := by
        simp only [turnStep, found, Group.next, waiting]
      simp only [turn, Frame.deed, found, waiting]
      exact {
        frames := tame_append.2 ⟨tame_cons.2 ⟨rfl, List.forall_mem_nil _⟩,
          Bare.tame (by simp [Frame.isBare])⟩
        spawned := List.forall_mem_nil _
        shared := shared
        deed := trivial
        world := rfl }

/-- The queue has groups only, so that no unit begins without a turn. -/
theorem pollStep_orderly : Orderly s (Frame.deed client s .poll) (pollStep client s) := by
  rcases items : s.queue.items with _ | ⟨item, others⟩
  · simp only [pollStep, Frame.deed, RunQueue.pop, items]
    exact .of_bare (by simp [Frame.isBare]) rfl tame trivial rfl
  · obtain ⟨group, rfl⟩ := tame.items item (by simp [items])
    simp only [pollStep, Frame.deed, RunQueue.pop, items]
    refine .of_bare (by simp [Frame.isBare]) rfl ⟨tame.callbacks, fun item mem => ?_⟩ trivial rfl
    exact tame.items item (items ▸ List.mem_cons_of_mem _ mem)

theorem locateStep_orderly (isAlive : ObjectId → Bool) (receiver : ObjectId) (job : Job (Cells σ))
    (asker : Asker) : Orderly s (.located receiver job) (locateStep isAlive s receiver job asker) := by
  have same : (s.locate isAlive receiver).2.futures = s.futures ∧
      (s.locate isAlive receiver).2.queue = s.queue ∧
      (s.locate isAlive receiver).2.world = s.world := by
    simp only [Shared.locate]
    split <;> exact ⟨rfl, rfl, rfl⟩
  obtain ⟨futures, queue, world⟩ := same
  exact .of_bare (by simp [locateStep, Frame.isBare]) rfl (tame.of_same futures queue) trivial world

theorem appendStep_orderly (group : GroupId) (job : Job (Cells σ)) (asker : Asker) :
    Orderly s .other (appendStep s group job asker) := by
  simp only [appendStep]
  split
  · refine .of_bare ?_ rfl (tame.of_same rfl rfl) trivial rfl
    simp only
    split <;> simp [Frame.isBare]
  · exact .of_bare (by simp) rfl tame trivial rfl

theorem submitStep_orderly (group : GroupId) (asker : Asker) :
    Orderly s .other (submitStep s group asker) := by
  simp only [submitStep]
  split
  · rename_i pushed
    exact .of_bare (by simp [Frame.isBare]) rfl (tame.push ⟨group, rfl⟩ pushed) trivial rfl
  · exact .of_bare (by simp [Frame.isBare]) rfl tame trivial rfl

theorem drainStep_orderly (group : GroupId) : Orderly s .other (drainStep s group) := by
  simp only [drainStep]
  split
  · exact .of_bare (by simp) rfl (tame.of_same rfl rfl) trivial rfl
  · exact .of_bare bare_nil rfl tame trivial rfl

theorem endTurnStep_orderly (group : GroupId) : Orderly s .other (endTurnStep s group) := by
  simp only [endTurnStep]
  split
  · refine .of_bare ?_ rfl (tame.of_same rfl rfl) trivial rfl
    simp only
    split <;> simp [Frame.isBare]
  · exact .of_bare bare_nil rfl tame trivial rfl

theorem Frame.step_orderly {sight : Sight} {choice : Choice} {frame : Frame (Cells σ)}
    {p : Progress (Cells σ)} (tidy : frame.Tame fun _ _ => False)
    (taken : frame.step client sight choice s = some p) : Orderly s (frame.deed client s) p := by
  by_cases lingers : frame.lingers = true
  · have lingering := step_of_lingers lingers taken
    have same : p.shared.Tame := by
      rw [lingering.shared]
      exact tame.of_same rfl rfl
    rw [deed_of_lingers lingers]
    exact .of_bare (fun next mem => isBare_of_isEmptyHanded (lingering.frames next mem))
      lingering.spawned same trivial (by rw [lingering.shared])
  cases frame with
  | running role code =>
    cases role with
    | thread | callback outcome => exact Code.step_orderly tame tidy.1 tidy.2 taken
    | task job => exact absurd tidy id
    | _ => cases tidy.1
  | waiting role next => cases taken
  | deliver reply =>
    cases taken
    exact .of_bare bare_nil rfl (tame.receive reply) trivial (by cases reply <;> rfl)
  | claim p => cases taken; exact claimStep_orderly tame tidy
  | enter p =>
    cases taken
    obtain ⟨r, routine, onLane, _⟩ := tidy
    refine .of_bare ?_ rfl (tame.of_same rfl rfl) trivial rfl
    simp [enterStep, onLane, isBare]
  | checkOpen receiver job asker =>
    cases taken
    refine .of_bare ?_ rfl tame trivial rfl
    simp only [checkOpenStep]
    split <;> simp [isBare]
  | locate receiver job asker =>
    cases taken; exact locateStep_orderly tame sight.isAlive receiver job asker
  | append receiver group job asker => cases taken; exact appendStep_orderly tame group job asker
  | submit group asker => cases taken; exact submitStep_orderly tame group asker
  | drain group => cases taken; exact drainStep_orderly tame group
  | settle f outcome => cases taken; exact settleStep_orderly tame f outcome
  | announce f =>
    cases taken
    exact .of_bare bare_nil rfl (tame.modifyFuture f fun _ _ own => own) trivial rfl
  | leave | discard job =>
    cases taken
    exact .of_bare bare_nil rfl (tame.of_same rfl rfl) trivial rfl
  | dropHandle =>
    cases taken
    refine .of_bare ?_ rfl (tame.of_same rfl rfl) trivial rfl
    simp only [dropHandleStep]
    split <;> simp [isBare]
  | poll => cases taken; exact pollStep_orderly tame
  | turn group => cases taken; exact turnStep_orderly tame group
  | endTurn group => cases taken; exact endTurnStep_orderly tame group
  | shutdown =>
    cases taken
    refine .of_bare ?_ rfl tame trivial rfl
    simp only [shutdownStep]
    split
    · exact bare_nil
    · split <;> simp [isBare]
  | awaitIdle =>
    simp only [step, awaitIdleStep] at taken
    split at taken <;> cases taken
    exact .of_bare (by simp [isBare]) rfl tame trivial rfl
  | close =>
    cases taken
    refine .of_bare ?_ rfl ⟨tame.callbacks, fun item mem => by cases mem⟩ trivial rfl
    simp [closeStep, isBare]
  | push job asker | query object site | openCall call metadata fault | track call lane
  | evaluate resolution | takeHandlers shutsDown | readListeners stopping | runHandlers stopping
  | askListeners stopping | openStop listener lane metadata stopping | awaitListeners stopping =>
    cases tidy
  | _ => exact absurd rfl lingers

/-- A step that runs no unit. -/
theorem Move.orderly {sight : Sight} {choice : Choice} {top : List (Frame (Cells σ))}
    {p : Progress (Cells σ)} (tidy : ∀ frame ∈ top, frame.Tame fun _ _ => False)
    (move : Move client sight choice s top p) : Orderly s (Move.deed client s top) p := by
  cases move with
  | receive reply role next =>
    obtain ⟨own, tidy⟩ : role.isOwn = true ∧ ∀ reply, (next reply).Tame :=
      tidy (.waiting role next) (by simp)
    exact {
      frames := tame_cons.2 ⟨Frame.tame_of_isOwn own (tidy reply), List.forall_mem_nil _⟩
      spawned := List.forall_mem_nil _
      shared := tame.receive reply
      deed := trivial
      world := by cases reply <;> rfl }
  | pass reply held => exact .of_bare (by simp [Frame.isBare]) rfl tame trivial rfl
  | act taken => exact Frame.step_orderly tame (tidy _ (List.mem_singleton.2 rfl)) taken

end

/-- A unit takes the next step of its routine, on its own cell, or ends as the routine
does. -/
theorem Routine.step_cases {sight : Sight} {late : Bool} {r : ObjectId} {routine : Routine σ}
    {job : Job (Cells σ)} {p : Progress (Cells σ)}
    (taken : (routine.code r).step client sight late s (.task job) = some p) :
    (∃ (value : σ) (rest : Routine σ), rest.run value = routine.run (s.world r) ∧
      p = { shared := { s with world := Function.update s.world r value }
            frames := [.running (.task job) (rest.code r)] } ∧
      (routine.code r).event client s (.task job) = .other ∧
      (routine.code r).deed client s (.task job) = .other) ∨
    ∃ result, routine.run (s.world r) = (s.world r, result) ∧
      p = { shared := s
            frames := [.settle job.future (job.task.conclude (.ofEnd result)), .leave] } ∧
      (routine.code r).event client s (.task job) =
        .ended job.future (job.task.conclude (.ofEnd result)) ∧
      (routine.code r).deed client s (.task job) = .ended job result := by
  cases routine with
  | finish outcome => cases taken; exact .inr ⟨.ok outcome, rfl, rfl, rfl, rfl⟩
  | panic payload => cases taken; exact .inr ⟨.error payload, rfl, rfl, rfl, rfl⟩
  | access update next =>
    cases taken
    exact .inl ⟨update (s.world r), next (s.world r), rfl, rfl, rfl, rfl⟩

/-- The code tells the routine. -/
theorem Routine.code_injective (r : ObjectId) :
    Function.Injective (Routine.code r : Routine σ → Code (Cells σ)) := by
  intro routine
  induction routine with
  | finish outcome => intro other same; cases other <;> cases same; rfl
  | panic payload => intro other same; cases other <;> cases same; rfl
  | access update next ih =>
    intro other same
    cases other with
    | access update' next' =>
      simp only [code, Code.act.injEq] at same
      have updates : update = update' := funext fun value => by
        have cells := congrFun (congrFun same.1 fun _ => value) r
        simpa using cells
      have nexts : next = next' := funext fun value =>
        ih value (congrFun same.2 fun _ => value)
      rw [updates, nexts]
    | _ => cases same

end Steps
end Strands
