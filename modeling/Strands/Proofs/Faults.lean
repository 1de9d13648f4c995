/-
What becomes of a call whose receiver panicked when it was asked for its type.

A request for the arguments of a call begins with questions to the receiver.  They come to
an end once, with an argument to compute, with the arguments or the failure to complete
them, or with a panic: `Log.early_law`.  Only then are arguments computed, and only for a
request that began to be filled: `Log.late_law`.

So a call that faults is not made and none of its arguments is computed
(`Log.not_made_of_faults`), and a call whose receiver has answered the last question does
not fault any more (`Log.calm_of_answered`).
-/
import Strands.Proofs.Joining

namespace Strands

variable {W : Type}

/-! ## Requests whose receiver is asked, and others -/

def Next.isFor (f : FutureId) (next : Next W) : Nat := if next.call? = some f then 1 else 0

namespace Quest

def early (f : FutureId) : Quest W → Nat
  | asking lookup | naming lookup _ => lookup.next.isFor f
  | _ => 0

def late (f : FutureId) : Quest W → Nat
  | filling r | awaiting _ r => r.next.isFor f
  | _ => 0

end Quest

namespace Deed

def seeks (f : FutureId) : Deed W → Nat
  | sought lookup => lookup.next.isFor f
  | _ => 0

def hears (f : FutureId) : Deed W → Nat
  | began lookup _ _ => lookup.next.isFor f
  | handed quest _ | abandoned quest _ => quest.early f
  | _ => 0

def fills (f : FutureId) : Deed W → Nat
  | began lookup _ _ => lookup.next.isFor f
  | _ => 0

def yields (f : FutureId) : Deed W → Nat
  | handed quest _ | abandoned quest _ => quest.late f
  | _ => 0

def stumbles (f : FutureId) : Deed W → Nat
  | opened g _ _ (some _) => one f g
  | faulted call _ => one f call.future
  | _ => 0

def Answers (f : FutureId) : Deed W → Prop
  | began lookup _ _ | handed (.asking lookup) _ => lookup.next.call? = some f
  | _ => False

end Deed

theorem Next.isFor_self {f : FutureId} {next : Next W} (own : next.call? = some f) :
    next.isFor f = 1 := if_pos own

theorem Deed.hears_of_answers {f : FutureId} {δ : Deed W} (answers : δ.Answers f) :
    δ.hears f = 1 := by
  cases δ with
  | began lookup pending metadata => exact Next.isFor_self answers
  | handed quest result =>
    cases quest with
    | asking lookup => exact Next.isFor_self answers
    | _ => cases answers
  | _ => cases answers

theorem Deed.seeks_le {f : FutureId} {δ : Deed W} {e : Event} (tells : δ.Tells e) :
    δ.seeks f + δ.stumbles f ≤ e.tracks f + e.faults f := by
  cases tells with
  | @opened g call metadata fault => cases fault <;> simp [seeks, stumbles, Event.faults]
  | faulted => simp [seeks, stumbles, Event.tracks]
  | sought none => simp [seeks, stumbles, Next.isFor, none]
  | @tracked lookup g own =>
    simp only [seeks, stumbles, Next.isFor, own, Event.tracks, one, Option.some.injEq]
    omega
  | _ => simp [seeks, stumbles]

theorem Deed.fills_le_hears (f : FutureId) (δ : Deed W) : δ.fills f ≤ δ.hears f := by
  cases δ with
  | began lookup pending metadata => exact Nat.le_refl _
  | _ => exact Nat.zero_le _

section Deeds

variable {client : Client W} {log : List (Beat W)}

theorem weigh_deeds_le {A : Deed W → Nat} {n : Event → Nat}
    (bound : ∀ beat ∈ log, A (beat.deed client) ≤ n (beat.event client)) :
    weigh A (deeds client log) ≤ tally n (events client log) := by
  induction log with
  | nil => exact Nat.le_refl _
  | cons beat rest ih =>
    have here := bound beat (by simp)
    have later := ih fun other mem => bound other (by simp [mem])
    simp only [deeds_cons, events_cons, weigh_cons, tally_cons]
    omega

end Deeds

namespace State

variable {client : Client W} {workers : Nat} {world : W} {kept : List ObjectId}
  {threads : List (Code W)} {s : State W} {log : List (Beat W)} {f : FutureId}

section

variable (run : Log client (State.start workers world kept threads) log s)

include run

theorem Log.quest_law (w : Quest W → Nat) (A B : Deed W → Nat)
    (pointwise : ∀ δ : Deed W, weigh w δ.made.toList + A δ = weigh w δ.gone.toList + B δ) :
    weigh w s.quests + weigh A (deeds client log) = weigh B (deeds client log) := by
  induction run with
  | start =>
    rw [quests_start]
    rfl
  | @step log s s' thread choice run taken ih =>
    have balance := quests_step run.trace.recorded.numbered taken w
    have here := pointwise ((⟨s, thread⟩ : Beat W).deed client)
    simp only [deeds_append, deeds_cons, deeds_nil, weigh_append, weigh_cons, weigh_nil]
    omega

theorem Log.early_law (f : FutureId) :
    weigh (Quest.early f) s.quests + weigh (Deed.hears f) (deeds client log) =
      weigh (Deed.seeks f) (deeds client log) := by
  refine run.quest_law _ _ _ fun δ => ?_
  cases δ <;> simp [Deed.made, Deed.gone, Deed.hears, Deed.seeks, Quest.early]

theorem Log.late_law (f : FutureId) :
    weigh (Quest.late f) s.quests + weigh (Deed.yields f) (deeds client log) =
      weigh (Deed.fills f) (deeds client log) := by
  refine run.quest_law _ _ _ fun δ => ?_
  cases δ <;> simp [Deed.made, Deed.gone, Deed.yields, Deed.fills, Quest.late, Lookup.resolution]

theorem Log.seeks_le (f : FutureId) :
    weigh (Deed.seeks f) (deeds client log) + weigh (Deed.stumbles f) (deeds client log) ≤ 1 := by
  have law := run.trace.open_law f
  have opens := tally_le_tally (Event.opens_le_serves f) (events client log)
  have once := run.trace.serves_spares_le f
  have bound := weigh_deeds_le (A := fun δ => δ.seeks f + δ.stumbles f)
    (n := fun e => e.tracks f + e.faults f) fun beat mem => Deed.seeks_le (run.tells mem)
  rw [weigh_add] at bound
  omega

theorem Log.hears_le (f : FutureId) :
    weigh (Deed.hears f) (deeds client log) + weigh (Deed.stumbles f) (deeds client log) ≤ 1 := by
  have law := run.early_law f
  have most := run.seeks_le f
  omega

theorem Log.heard_of_faults {δ : Deed W} (mem : δ ∈ deeds client log) (faults : δ.Faults f) :
    1 ≤ δ.stumbles f ∨ 1 ≤ δ.hears f ∧ ∃ quest panic, δ = .abandoned quest panic := by
  have vouched := run.vouched.deeds δ mem
  cases δ with
  | opened g call metadata fault =>
    obtain ⟨rfl, some⟩ := faults
    obtain ⟨panic, rfl⟩ := Option.isSome_iff_exists.1 some
    exact .inl (Nat.le_of_eq (one_self g).symm)
  | faulted call panic =>
    obtain rfl : call.future = f := faults
    exact .inl (Nat.le_of_eq (one_self call.future).symm)
  | abandoned quest panic =>
    refine .inr ⟨?_, quest, panic, rfl⟩
    cases quest with
    | asking lookup | naming lookup pending => exact Nat.le_of_eq (Next.isFor_self faults).symm
    | _ => exact vouched.elim
  | _ => exact faults.elim

theorem Log.calm_of_answered {δ₀ : Deed W} (mem₀ : δ₀ ∈ deeds client log) (answers : δ₀.Answers f) :
    ∀ δ ∈ deeds client log, ¬ δ.Faults f := by
  intro δ mem faults
  have heard := Deed.hears_of_answers answers
  have most := run.hears_le f
  have here := le_weigh (w := Deed.hears f) mem₀
  rcases run.heard_of_faults mem faults with stumbles | ⟨hears, quest, panic, rfl⟩
  · have there := le_weigh (w := Deed.stumbles f) mem
    omega
  · have different : Deed.abandoned quest panic ≠ δ₀ := by
      rintro rfl
      exact answers
    have both : _ ≤ weigh (Deed.hears f) _ := add_le_sum_map mem mem₀ different
    omega

/-- The future of a call that faults is that of an invocation. -/
theorem Log.opened_of_faults {δ : Deed W} (mem : δ ∈ deeds client log) (faults : δ.Faults f) :
    ∃ fault behalf, .opened f fault behalf ∈ events client log := by
  have vouched := run.vouched.deeds δ mem
  have event {call : Call W} {metadata : Metadata} {fault : Option Panic}
      (opened : .opened f call metadata fault ∈ deeds client log) :
      ∃ fault behalf, .opened f fault behalf ∈ events client log := by
    obtain ⟨e, inEvents, tells⟩ := run.event_of_deed opened
    cases tells with
    | opened => exact ⟨_, _, inEvents⟩
  have ofLookup {lookup : Lookup W} (vouched : lookup.Vouched (deeds client log))
      (own : lookup.next.call? = some f) :
      ∃ fault behalf, .opened f fault behalf ∈ events client log := by
    obtain ⟨_, lane, ⟨call, metadata, g, opened, rfl⟩, rfl⟩ := vouched f own
    obtain rfl : g = f := Option.some.inj own
    exact event opened
  cases δ with
  | opened g call metadata fault =>
    obtain ⟨rfl, _⟩ := faults
    exact event mem
  | faulted call panic =>
    obtain ⟨⟨made, metadata, g, opened, rfl⟩, _⟩ := vouched
    obtain rfl : g = f := faults
    exact event opened
  | abandoned quest panic =>
    cases quest with
    | asking lookup | naming lookup pending => exact ofLookup vouched.1 faults
    | _ => exact vouched.elim
  | _ => exact faults.elim

section Faulty

variable {δ : Deed W} (mem : δ ∈ deeds client log) (faults : δ.Faults f)

include mem faults

theorem Log.not_heard_of_faults {δ' : Deed W} (mem' : δ' ∈ deeds client log)
    (different : ∀ quest panic, δ' ≠ .abandoned quest panic) : δ'.hears f = 0 := by
  have most := run.hears_le f
  have there := le_weigh (w := Deed.hears f) mem'
  rcases run.heard_of_faults mem faults with stumbles | ⟨hears, quest, panic, rfl⟩
  · have here := le_weigh (w := Deed.stumbles f) mem
    omega
  · have both : _ ≤ weigh (Deed.hears f) _ := add_le_sum_map mem mem' (different quest panic).symm
    omega

theorem Log.fills_of_faults : weigh (Deed.fills f) (deeds client log) = 0 := by
  by_contra some
  obtain ⟨began, inDeeds, pos⟩ := weigh_pos (Nat.pos_of_ne_zero some)
  have unheard := run.not_heard_of_faults mem faults inDeeds (by rintro quest panic rfl; cases pos)
  have le := Deed.fills_le_hears f began
  omega

theorem Log.not_handed_of_faults {quest : Quest W} {result : Except DomainError (List Value)}
    (handed : .handed quest result ∈ deeds client log) : quest.next.call? ≠ some f := fun own => by
  have once : quest.next.isFor f = 1 := Next.isFor_self own
  cases quest with
  | asking lookup | naming lookup pending =>
    have unheard := run.not_heard_of_faults mem faults handed (by rintro _ _ ⟨⟩)
    exact absurd (once.symm.trans unheard) Nat.one_ne_zero
  | filling r | awaiting d r =>
    have law := run.late_law f
    have none := run.fills_of_faults mem faults
    have here : r.next.isFor f ≤ weigh (Deed.yields f) (deeds client log) :=
      le_weigh (w := Deed.yields f) handed
    change r.next.isFor f = 1 at once
    omega

/-- No argument of a call that faults is ever asked for. -/
theorem Log.not_argument_of_faults (d : FutureId) :
    .argument d (some f) ∉ events client log := fun inEvents => by
  obtain ⟨δ', inDeeds, tells⟩ := run.deed_of_event inEvents
  cases tells with
  | @argument _ omitted r _ own =>
    obtain ⟨beat, inLog, deed⟩ := List.mem_map.1 inDeeds
    obtain ⟨before, after, rfl⟩ := List.append_of_mem inLog
    obtain ⟨earlier, choice, s', taken, _⟩ := run.split
    have balance := quests_step earlier.trace.recorded.numbered taken
    rw [show Beat.deed client ⟨beat.s, beat.thread⟩ = _ from deed] at balance
    have held := held_of_gone balance rfl
    have late : r.next.isFor f ≤ weigh (Quest.late f) beat.s.quests :=
      le_weigh (w := Quest.late f) held
    rw [Next.isFor_self own.symm] at late
    have law := earlier.late_law f
    have none := run.fills_of_faults mem faults
    rw [deeds_append, weigh_append] at none
    omega
  | bare bare => cases bare

/-- A call that faults is not made: only a unit of a client's own is ever bound to its
future. -/
theorem Log.not_made_of_faults {p : Placing W} (bound : .bound p ∈ deeds client log)
    (own : p.future = f) : ∃ work, p.task = .work work := by
  obtain ⟨fault, behalf, opened⟩ := run.opened_of_faults mem faults
  have trace := run.trace
  rcases (run.vouched.deeds _ bound : p.Vouched _).cases with
    ⟨omitted, r, argument, _⟩ | ⟨quest, args, call, handed, next, rfl⟩ | placed | asked
  · obtain ⟨e, inEvents, tells⟩ := run.event_of_deed argument
    rw [own] at tells
    cases tells
    cases trace.eq_of_births f opened inEvents (one_self f) (one_self f)
  · refine absurd ?_ (run.not_handed_of_faults mem faults handed)
    rw [next, ← own]
    rfl
  · exact (run.vouched.deeds _ placed).2
  · obtain ⟨e, inEvents, tells⟩ := run.event_of_deed asked
    cases tells
    rw [own] at inEvents
    cases trace.eq_of_births f opened inEvents (one_self f) (one_self f)

end Faulty

end
end State
end Strands
