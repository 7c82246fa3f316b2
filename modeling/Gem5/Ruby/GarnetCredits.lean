/-
This file models the credits of a router of Garnet's fixed pipeline: `OutputUnit_d.cc`,
`InputUnit_d.hh` and what `VCallocator_d.cc` and `SWallocator_d.cc` do to the channels. An input
channel keeps a copy of the credits of the output channel that it was granted, and an output channel
writes its credits to the input channel that is recorded in it. That is the one it was last granted
to, which may have been granted another output channel since and then gets the wrong credits.

The file proves that the copies are right and that no output channel is ever below zero as long as
an input channel is granted an output channel only when those it had before have all their credits
back.
-/

import Gem5.Library.Run
import Mathlib

namespace Gem5.Ruby.Garnet

open Library Function List

/-! ### The channels of a router -/

/-- The values of `VC_state_type` that an input channel takes. -/
inductive VcState where
  | idle
  | vcAb
  | active
  deriving DecidableEq

structure VirtualChannel (outports vcs : Nat) where
  state : VcState
  route : Fin outports
  outputVc : Fin vcs
  creditCount : Int

/-- The output channel that an input channel is granted. -/
def VirtualChannel.output {outports vcs : Nat} (vc : VirtualChannel outports vcs) :
    Fin outports × Fin vcs := (vc.route, vc.outputVc)

/-- An output channel, with the input channel (`m_in_port`, `m_in_vc`) that is recorded in it. -/
structure OutVcState (inports vcs : Nat) where
  active : Bool
  input : Fin inports × Fin vcs
  creditCount : Int

structure Router (inports outports vcs : Nat) where
  inVcs : Fin inports × Fin vcs → VirtualChannel outports vcs
  outVcs : Fin outports × Fin vcs → OutVcState inports vcs

/-- The assertion that a head flit comes to an idle channel. -/
inductive RouterFault where
  | assertion

namespace Router

variable {inports outports vcs : Nat}

section Model

variable (router : Router inports outports vcs) (output : Fin outports × Fin vcs)
  (input : Fin inports × Fin vcs)

def setVc (vc : VirtualChannel outports vcs) : Router inports outports vcs :=
  { router with inVcs := update router.inVcs input vc }

/-- An output channel changes, and `update_incredit` writes its credits to the input channel that
is recorded in it. -/
def setOutVc (out : OutVcState inports vcs) : Router inports outports vcs :=
  { router.setVc out.input { router.inVcs out.input with creditCount := out.creditCount } with
    outVcs := update router.outVcs output out }

def decrementCredit : Router inports outports vcs :=
  router.setOutVc output { router.outVcs output with
    creditCount := (router.outVcs output).creditCount - 1 }

/-- `OutputUnit_d::wakeup()` with a credit, which may have the signal that the channel is free. -/
def credit (free : Bool) : Router inports outports vcs :=
  router.setOutVc output { router.outVcs output with
    creditCount := (router.outVcs output).creditCount + 1
    active := (router.outVcs output).active && !free }

def updateVc : Router inports outports vcs :=
  router.setOutVc output { router.outVcs output with active := true, input }

/-- A head flit comes to an input channel, which gets its route (`updateRoute`). -/
def head (route : Fin outports) : Except RouterFault (Router inports outports vcs) :=
  if (router.inVcs input).state = .idle then
    .ok (router.setVc input { router.inVcs input with state := .vcAb, route })
  else .error .assertion

/-- What `arbitrate_outvcs()` does with a grant: `grant_vc` and `update_vc`. -/
def grant (outputVc : Fin vcs) : Router inports outports vcs :=
  (router.setVc input { router.inVcs input with state := .active, outputVc }).updateVc
    ((router.inVcs input).route, outputVc) input

/-- What `arbitrate_outports()` does with a winner, whose flit may be the tail of its packet. -/
def send (tail : Bool) : Router inports outports vcs :=
  let next := router.decrementCredit (router.inVcs input).output
  if tail then next.setVc input { next.inVcs input with state := .idle } else next

end Model

/-- Which input channels win the arbitrations is left to the actions. -/
inductive Action (inports outports vcs : Nat) where
  | head (input : Fin inports × Fin vcs) (route : Fin outports)
  | grant (input : Fin inports × Fin vcs) (outputVc : Fin vcs)
  | switch (winners : List ((Fin inports × Fin vcs) × Bool))
  | credit (output : Fin outports × Fin vcs) (free : Bool)

def step (router : Router inports outports vcs) :
    Action inports outports vcs → Except RouterFault (Router inports outports vcs)
  | .head input route => router.head input route
  | .grant input outputVc => .ok (router.grant input outputVc)
  | .switch winners => .ok (winners.foldl (fun next winner => next.send winner.1 winner.2) router)
  | .credit output free => .ok (router.credit output free)

/-- The router after its constructors, which set neither the copies nor what is recorded in the
output channels. -/
def start (depth : Fin outports × Fin vcs → Nat) (unset : Router inports outports vcs) :
    Router inports outports vcs where
  inVcs input := { unset.inVcs input with state := .idle }
  outVcs output := { unset.outVcs output with active := false, creditCount := depth output }

section Guards

variable (depth : Fin outports × Fin vcs → Nat) (router : Router inports outports vcs)

/-- An idle output channel is granted to an input channel that asks for one. The switch goes to
input channels that had credits before any flit was sent, one of each port. A credit is for a flit
that was sent, and an output channel is free when its packet has left the input channel. -/
def Possible : Action inports outports vcs → Prop
  | .head _ _ => True
  | .grant input outputVc => (router.inVcs input).state = .vcAb ∧
      (router.outVcs ((router.inVcs input).route, outputVc)).active = false
  | .switch winners => (winners.map fun winner => winner.1.1).Nodup ∧ ∀ winner ∈ winners,
      (router.inVcs winner.1).state = .active ∧ 0 < (router.inVcs winner.1).creditCount
  | .credit output free => (router.outVcs output).creditCount < depth output ∧
      (free = true → (router.inVcs (router.outVcs output).input).state = .active →
        (router.inVcs (router.outVcs output).input).output ≠ output)

/-- An input channel is granted an output channel when those that it is recorded in have all their
credits. -/
def Settled : Action inports outports vcs → Prop
  | .grant input outputVc => ∀ output, output ≠ ((router.inVcs input).route, outputVc) →
      (router.outVcs output).input = input → (router.outVcs output).creditCount = depth output
  | _ => True

def Allowed (action : Action inports outports vcs) : Prop :=
  router.Possible depth action ∧ router.Settled depth action

instance : (action : Action inports outports vcs) → Decidable (router.Possible depth action)
  | .head .. => inferInstanceAs (Decidable True)
  | .grant .. | .switch _ | .credit .. => inferInstanceAs (Decidable (_ ∧ _))

instance : (action : Action inports outports vcs) → Decidable (router.Settled depth action)
  | .grant input outputVc => inferInstanceAs (Decidable (∀ output,
      output ≠ ((router.inVcs input).route, outputVc) → _ = _ → _ = _))
  | .head _ _ | .switch _ | .credit _ _ => inferInstanceAs (Decidable True)

instance (action : Action inports outports vcs) : Decidable (router.Allowed depth action) :=
  inferInstanceAs (Decidable (_ ∧ _))

end Guards

/-! ### The copies -/

/-- An active input channel is recorded in its output channel and has a copy of its credits; the
other output channels that it is recorded in have all of theirs. -/
structure Sound (depth : Fin outports × Fin vcs → Nat) (router : Router inports outports vcs) :
    Prop where
  granted : ∀ {input}, (router.inVcs input).state = .active →
    (router.outVcs (router.inVcs input).output).active = true ∧
    (router.outVcs (router.inVcs input).output).input = input ∧
    (router.inVcs input).creditCount = (router.outVcs (router.inVcs input).output).creditCount
  settled : ∀ {input output}, (router.inVcs input).state = .active →
    (router.outVcs output).input = input → output ≠ (router.inVcs input).output →
    (router.outVcs output).creditCount = depth output
  bounds : ∀ output,
    0 ≤ (router.outVcs output).creditCount ∧ (router.outVcs output).creditCount ≤ depth output

variable {depth : Fin outports × Fin vcs → Nat} {router : Router inports outports vcs}
  {input other : Fin inports × Fin vcs} {output : Fin outports × Fin vcs}

theorem setVc_self (vc : VirtualChannel outports vcs) :
    (router.setVc input vc).inVcs input = vc := update_self ..

theorem setVc_of_ne (apart : other ≠ input) (vc : VirtualChannel outports vcs) :
    (router.setVc input vc).inVcs other = router.inVcs other := update_of_ne apart ..

theorem setOutVc_self (out : OutVcState inports vcs) :
    (router.setOutVc output out).outVcs output = out := update_self ..

theorem setOutVc_of_ne {other : Fin outports × Fin vcs} (apart : other ≠ output)
    (out : OutVcState inports vcs) :
    (router.setOutVc output out).outVcs other = router.outVcs other :=
  update_of_ne apart ..

theorem setOutVc_field {Field : Type} (field : VirtualChannel outports vcs → Field)
    (same : ∀ vc credit, field { vc with creditCount := credit } = field vc)
    (out : OutVcState inports vcs) :
    field ((router.setOutVc output out).inVcs input) = field (router.inVcs input) := by
  by_cases here : input = out.input
  · rw [here]
    exact (congrArg field (setVc_self _)).trans (same ..)
  · exact congrArg field (setVc_of_ne here _)

namespace Sound

section

variable (sound : router.Sound depth)
include sound

theorem setVc {vc : VirtualChannel outports vcs}
    (granted : vc.state = .active → (router.outVcs vc.output).active = true ∧
      (router.outVcs vc.output).input = input ∧
      vc.creditCount = (router.outVcs vc.output).creditCount)
    (settled : vc.state = .active → ∀ output, (router.outVcs output).input = input →
      output ≠ vc.output → (router.outVcs output).creditCount = depth output) :
    (router.setVc input vc).Sound depth := by
  refine ⟨fun {other} active => ?_, fun {other _} active => ?_, sound.bounds⟩
  · by_cases same : other = input
    · rw [same, setVc_self] at active ⊢
      exact granted active
    · rw [setVc_of_ne same] at active ⊢
      exact sound.granted active
  · by_cases same : other = input
    · rw [same, setVc_self] at active ⊢
      exact settled active _
    · rw [setVc_of_ne same] at active ⊢
      exact sound.settled active

/-- An output channel changes that is granted to no active input channel but the one that is
recorded in it. -/
theorem setOutVc {out : OutVcState inports vcs}
    (owned : ∀ {input}, (router.inVcs input).state = .active →
      (router.inVcs input).output = output → out.active = true ∧ out.input = input)
    (owns : (router.inVcs out.input).state = .active → (router.inVcs out.input).output = output)
    (bounds : 0 ≤ out.creditCount ∧ out.creditCount ≤ depth output) :
    (router.setOutVc output out).Sound depth := by
  refine ⟨fun {input} active => ?_, fun {input other} active recorded apart => ?_, fun other => ?_⟩
  · rw [setOutVc_field VirtualChannel.state fun _ _ => rfl] at active
    rw [setOutVc_field VirtualChannel.output fun _ _ => rfl]
    by_cases same : (router.inVcs input).output = output
    · obtain ⟨stays, rfl⟩ := owned active same
      rw [same, setOutVc_self]
      exact ⟨stays, rfl, congrArg VirtualChannel.creditCount (setVc_self _)⟩
    · have other : input ≠ out.input := fun equal => same (equal ▸ owns (equal ▸ active))
      have kept : (router.setOutVc output out).inVcs input = _ := setVc_of_ne other _
      rw [setOutVc_of_ne same, kept]
      exact sound.granted active
  · rw [setOutVc_field VirtualChannel.state fun _ _ => rfl] at active
    rw [setOutVc_field VirtualChannel.output fun _ _ => rfl] at apart
    by_cases same : other = output
    · rw [same, setOutVc_self] at recorded
      exact absurd (recorded ▸ owns (recorded ▸ active)) fun equal => apart (same.trans equal.symm)
    · rw [setOutVc_of_ne same] at recorded ⊢
      exact sound.settled active recorded apart
  · by_cases same : other = output
    · rw [same, setOutVc_self]
      exact bounds
    · rw [setOutVc_of_ne same]
      exact sound.bounds other

theorem head {route : Fin outports} {next : Router inports outports vcs}
    (taken : router.head input route = .ok next) : next.Sound depth := by
  unfold Router.head at taken
  split at taken
  · cases taken
    exact sound.setVc (fun active => nomatch active) fun active => nomatch active
  · cases taken

theorem grant {outputVc : Fin vcs} (allowed : router.Allowed depth (.grant input outputVc)) :
    (router.grant input outputVc).Sound depth := by
  obtain ⟨⟨asks, idle⟩, settled⟩ := allowed
  have recorded : (router.updateVc ((router.inVcs input).route, outputVc) input).Sound depth := by
    refine sound.setOutVc (fun active same => ?_) (fun active => ?_) (sound.bounds _)
    · have granted := (sound.granted active).1
      rw [same, idle] at granted
      cases granted
    · rw [asks] at active
      cases active
  have reordered : router.grant input outputVc =
      (router.updateVc ((router.inVcs input).route, outputVc) input).setVc input
        { router.inVcs input with
          state := .active, outputVc
          creditCount := (router.outVcs ((router.inVcs input).route, outputVc)).creditCount } := by
    simp only [Router.grant, Router.updateVc, Router.setOutVc, Router.setVc, update_self,
      update_idem]
  rw [reordered]
  refine recorded.setVc (fun _ => ?_) fun _ output is apart => ?_
  · rw [VirtualChannel.output, Router.updateVc, setOutVc_self]
    exact ⟨rfl, rfl, rfl⟩
  · rw [VirtualChannel.output] at apart
    rw [Router.updateVc, setOutVc_of_ne apart] at is ⊢
    exact settled output apart is

theorem credit {free : Bool} (possible : router.Possible depth (.credit output free)) :
    (router.credit output free).Sound depth := by
  obtain ⟨_, left⟩ := possible
  refine sound.setOutVc (fun {input} active same => ?_) (fun active => ?_) ?_
  · obtain ⟨stays, recorded, -⟩ := sound.granted active
    rw [same] at stays recorded
    cases free with
    | false => exact ⟨by rw [stays]; rfl, recorded⟩
    | true => exact absurd same (recorded ▸ left rfl (recorded.symm ▸ active))
  · by_contra apart
    have full := sound.settled active rfl (Ne.symm apart)
    omega
  · have before := sound.bounds output
    exact ⟨by show 0 ≤ _ + (1 : Int); omega, by show _ + (1 : Int) ≤ _; omega⟩

theorem send (active : (router.inVcs input).state = .active)
    (credits : 0 < (router.inVcs input).creditCount) (tail : Bool) :
    (router.send input tail).Sound depth := by
  obtain ⟨_, recorded, _⟩ := sound.granted active
  have before := sound.bounds (router.inVcs input).output
  have decremented : (router.decrementCredit (router.inVcs input).output).Sound depth := by
    refine sound.setOutVc (fun other same => ?_) (fun _ => ?_) ?_
    · have granted := sound.granted other
      rw [same] at granted
      exact ⟨granted.1, granted.2.1⟩
    · exact congrArg (fun input => (router.inVcs input).output) recorded
    · exact ⟨by show 0 ≤ _ - (1 : Int); omega, by show _ - (1 : Int) ≤ _; omega⟩
  cases tail with
  | false => exact decremented
  | true => exact decremented.setVc (fun active => nomatch active) fun active => nomatch active

/-- The flits of the other input channels do not change what the allocator has tested. -/
theorem send_other (active : (router.inVcs input).state = .active) (apart : other ≠ input)
    (tail : Bool) : (router.send input tail).inVcs other = router.inVcs other := by
  obtain ⟨-, recorded, -⟩ := sound.granted active
  have decremented : (router.decrementCredit (router.inVcs input).output).inVcs other =
      router.inVcs other := setVc_of_ne (recorded.symm ▸ apart) _
  cases tail with
  | false => exact decremented
  | true => exact (setVc_of_ne apart _).trans decremented

end

theorem switch (winners : List ((Fin inports × Fin vcs) × Bool)) (sound : router.Sound depth)
    (possible : router.Possible depth (.switch winners)) :
    (winners.foldl (fun next winner => next.send winner.1 winner.2) router).Sound depth := by
  induction winners generalizing router with
  | nil => exact sound
  | cons first _ hypothesis =>
    obtain ⟨distinct, ready⟩ := possible
    obtain ⟨apart, distinct⟩ := nodup_cons.mp distinct
    obtain ⟨active, credits⟩ := ready first mem_cons_self
    refine hypothesis (sound.send active credits first.2)
      ⟨distinct, fun winner among => ?_⟩
    have other : winner.1 ≠ first.1 := fun same =>
      apart (mem_map.mpr ⟨winner, among, congrArg Prod.fst same⟩)
    rw [sound.send_other active other]
    exact ready winner (mem_cons_of_mem _ among)

theorem step {next : Router inports outports vcs} {action : Action inports outports vcs}
    (sound : router.Sound depth) (allowed : router.Allowed depth action)
    (taken : router.step action = .ok next) : next.Sound depth := by
  cases action with
  | head => exact sound.head taken
  | grant =>
    cases taken
    exact sound.grant allowed
  | switch winners =>
    cases taken
    exact sound.switch winners allowed.1
  | credit =>
    cases taken
    exact sound.credit allowed.1

end Sound

theorem sound_start (depth : Fin outports × Fin vcs → Nat) (unset : Router inports outports vcs) :
    (start depth unset).Sound depth :=
  ⟨(fun active => nomatch active), (fun active => nomatch active),
    fun output => ⟨Int.natCast_nonneg (depth output), le_rfl⟩⟩

/-- In every run whose grants find the old credits back, the credits that the switch allocator tests
for an active input channel are those of its output channel, and no output channel has less than
none, so that no more flits are downstream than its buffer holds. -/
theorem credits_agree {unset final : Router inports outports vcs}
    {actions : List (Action inports outports vcs)}
    (run : Run step (Allowed depth) (start depth unset) actions final) :
    (∀ input, (final.inVcs input).state = .active → (final.inVcs input).creditCount =
      (final.outVcs (final.inVcs input).output).creditCount) ∧
    ∀ output,
      0 ≤ (final.outVcs output).creditCount ∧ (final.outVcs output).creditCount ≤ depth output := by
  have sound := run.invariant (Sound depth) Sound.step (sound_start depth unset)
  exact ⟨fun _ active => (sound.granted active).2.2, sound.bounds⟩

/-- A router with one input channel and an output channel on each of two ports. -/
def oneVc : Router 1 2 1 where
  inVcs _ := ⟨.idle, ⟨0, Nat.two_pos⟩, ⟨0, Nat.one_pos⟩, 0⟩
  outVcs _ := ⟨false, (⟨0, Nat.one_pos⟩, ⟨0, Nat.one_pos⟩), 0⟩

/-- A packet leaves for the first port, and the next one for the second port once the credit is
back. -/
theorem credits_agree_two_packets : ∃ final,
    Run step (Allowed fun _ => 1) (start (fun _ => 1) oneVc)
      [.head (0, 0) 0, .grant (0, 0) 0, .switch [((0, 0), true)], .credit (0, 0) true,
        .head (0, 0) 1, .grant (0, 0) 0, .switch [((0, 0), false)]] final ∧
      (final.inVcs (0, 0)).output = (1, 0) ∧
      (final.inVcs (0, 0)).creditCount = (final.outVcs (final.inVcs (0, 0)).output).creditCount :=
  Run.exists_checked
    (fun final => (final.inVcs (0, 0)).state = .active ∧ (final.inVcs (0, 0)).output = (1, 0))
    (by decide +kernel) fun _ run ⟨active, output⟩ => ⟨output, (credits_agree run).1 _ active⟩

/-- The credit of the first packet comes after the second one has used up its output channel. It is
written to the input channel, which may then send a flit that its output channel has no credit
for. -/
theorem credit_to_next_packet : ∃ final,
    Run step (Possible fun _ => 1) (start (fun _ => 1) oneVc)
      [.head (0, 0) 0, .grant (0, 0) 0, .switch [((0, 0), true)], .head (0, 0) 1, .grant (0, 0) 0,
        .switch [((0, 0), false)], .credit (0, 0) true] final ∧
      (final.inVcs (0, 0)).state = .active ∧ (final.inVcs (0, 0)).creditCount = 1 ∧
      (final.outVcs (final.inVcs (0, 0)).output).creditCount = 0 ∧
      final.Possible (fun _ => 1) (.switch [((0, 0), false)]) ∧
      ((final.send (0, 0) false).outVcs (1, 0)).creditCount = -1 :=
  Run.exists_check (by decide +kernel)

end Router

end Gem5.Ruby.Garnet
