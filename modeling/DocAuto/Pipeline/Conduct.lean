import DocAuto.Pipeline.System

/-! What the processes in flight keep to: a protocol for each owner, and how a step of the
system carries it on. -/
namespace DocAuto.Pipeline
open Process Database

/-- The command a process has come to. -/
def Activity.command (p : Activity) : Option Cmd :=
  match p.program with
  | .call c _ => some c
  | _ => none

def Config.command (c : Config) (i : ProcId) : Option Cmd := (c.procs i).bind Activity.command

theorem Config.command_of {c : Config} {i : ProcId} {p : Activity} {cmd : Cmd} {k : Except Failure cmd.Resp → Proc Unit}
    (hp : c.procs i = some p) (hc : p.program = .call cmd k) : c.command i = some cmd := by
  rw [Config.command, hp, Option.bind_some, Activity.command, hc]

theorem Activity.program_of {p : Activity} {cmd : Cmd} (h : p.command = some cmd) :
    ∃ k, p.program = .call cmd k := by
  unfold Activity.command at h
  split at h
  · next c k hc =>
    cases h
    exact ⟨k, hc⟩
  · cases h

/-- A protocol for every owner, with the phase its program starts in and those it may end in. -/
structure Conduct where
  protocol : Owner → Protocol Cmd Cmd.Resp Failure
  start : ∀ o, (protocol o).Phase
  ends : ∀ o, (protocol o).Phase → Except Failure Unit → Prop

namespace Conduct
variable (K : Conduct)

/-- The phase a process has reached. -/
def phase (p : Activity) : (K.protocol p.owner).Phase := (K.protocol p.owner).after (K.start p.owner) p.transcript

def Holds (p : Activity) : Prop := (K.protocol p.owner).wp (K.ends p.owner) p.program (K.phase p)

/-- The programs of all owners keep to their protocols. -/
structure Starts : Prop where
  call : ∀ call, K.Holds ⟨.api call, call.program, []⟩
  job : ∀ jobId data draw, K.Holds ⟨.job jobId data, processor jobId data draw, []⟩

variable {K} {c c' : Config} {a : Action}

private theorem update {procs : ProcId → Option Activity} {id : ProcId} {q : Option Activity}
    (hp : ∀ i p, procs i = some p → K.Holds p) (hq : ∀ p, q = some p → K.Holds p) (i : ProcId) (p : Activity)
    (h : Function.update procs id q i = some p) : K.Holds p := by
  by_cases hi : i = id
  · subst hi
    exact hq p (by simpa using h)
  · exact hp i p (by simpa [hi] using h)

/-- Every step keeps the programs to their protocols, when the answers to commands are proper. -/
theorem step_holds (hK : K.Starts) (hf : ∀ i p, c.procs i = some p → K.Holds p)
    (ha : ∀ i answer p cmd k r w, a = .step i answer → c.procs i = some p → p.program = .call cmd k →
      cmd.exec answer c.world = some (r, w) → (K.protocol p.owner).answers (K.phase p) cmd r)
    (h : step c a = some c') (i : ProcId) (p : Activity) (hp : c'.procs i = some p) : K.Holds p := by
  revert i p
  cases step_turn h with
  | @call id call hfresh =>
    refine update hf ?_
    rintro p ⟨⟩
    exact hK.call call
  | @start id jobId draw job hj hst hfresh =>
    refine update hf ?_
    rintro p ⟨⟩
    exact hK.job jobId job.data draw
  | @step id answer p cmd k r w hp hc he =>
    have hnow : (K.protocol p.owner).wp (K.ends p.owner) p.program (K.phase p) := hf id p hp
    rw [hc] at hnow
    refine update hf ?_
    rintro p' ⟨⟩
    exact hnow.2 r (ha id answer p cmd k r w rfl hp hc he)
  | finish _ _ | crash _ => exact update hf (by rintro p ⟨⟩)
  | stall _ _ | evict _ _ | tick => exact hf

/-- A process about to issue a command is allowed it. -/
theorem Holds.allows {p : Activity} {cmd : Cmd} {k : Except Failure cmd.Resp → Proc Unit} (h : K.Holds p)
    (hc : p.program = .call cmd k) : (K.protocol p.owner).allowed (K.phase p) cmd := by
  rw [Holds, hc] at h
  exact h.1

end Conduct
end DocAuto.Pipeline
