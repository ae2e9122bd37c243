import DocAuto.Pipeline.Writes
import Mathlib.Data.Fintype.EquivFin

/-! What can happen next: an execution that has not come to its end can go on, and a job
that has not come to its end can be started again. -/
namespace DocAuto.Pipeline
open Process Database

theorem exists_fresh (c : Config) : ∃ id draw, c.fresh [id, draw] = true := by
  obtain ⟨id, hid⟩ := Infinite.exists_notMem_finset c.issued.toFinset
  obtain ⟨draw, hdraw⟩ := Infinite.exists_notMem_finset (insert id c.issued.toFinset)
  rw [Finset.mem_insert, not_or, List.mem_toFinset] at hdraw
  rw [List.mem_toFinset] at hid
  exact ⟨id, draw, by simp [Config.fresh, hid, hdraw.2, Ne.symm hdraw.1]⟩

section
variable {c : Config} {d : Uuid} {i : ProcId} {p : Activity} {cmd : Cmd} {k : Except Failure cmd.Resp → Proc Unit} {answer : Answer}

/-- A command that has an answer takes the process on. -/
theorem step_enabled {r : Except Failure cmd.Resp} {w : World} (hp : c.procs i = some p) (hc : p.program = .call cmd k)
    (he : cmd.exec answer c.world = some (r, w)) :
    step c (.step i answer) = some { c with
      world := w
      procs := Function.update c.procs i (some { p with program := k r, transcript := ⟨cmd, r⟩ :: p.transcript }) } := by
  simp [step, hp, Activity.advance, hc, he]

/-- A command may fail at any time. -/
theorem throws_enabled (hp : c.procs i = some p) (hc : p.program = .call cmd k) (e : Failure) :
    ∃ c', step c (.step i (.throws e)) = some c' :=
  ⟨_, step_enabled (r := .error e) (w := c.world) hp hc (by cases cmd <;> rfl)⟩

/-- Where it fails, the program goes on with the error and nothing else changes. -/
theorem throws_next (d : Uuid) (hp : c.procs i = some p) (hc : p.program = .call cmd k) (e : Failure) :
    ∃ c' p', step c (.step i (.throws e)) = some c' ∧ c'.procs i = some p' ∧ p'.owner = p.owner ∧
      p'.point = p.point.next cmd (.error e) ∧ (c'.view d).record = (c.view d).record :=
  ⟨_, _, step_enabled (r := .error e) (w := c.world) hp hc (by cases cmd <;> rfl), Function.update_self _ _ _, rfl, rfl, rfl⟩

/-- A transaction that nothing can stop commits when it is its turn. -/
theorem executes_next {t : Tx} {k : Except Failure t.Result → Proc Unit} (hr : c.Regular) (hp : c.procs i = some p)
    (hc : p.program = .call (.tx t) k) (hs : t.sure d (c.view d).record) :
    ∃ c' p' x now, step c (.step i .execute) = some c' ∧ c'.procs i = some p' ∧ p'.owner = p.owner ∧
      p'.point = p.point.next (.tx t) (.ok x) ∧ (c'.view d).record = t.after now d (c.view d).record ∧
      t.returns d (c.view d).record x := by
  have he : (Cmd.tx t).exec .execute c.world = some ((t.run true c.world.db).1, _) := rfl
  have hout := Tx.run_outcome (d := d) hr.valid.sound t
  cases hx : (t.run true c.world.db).1 with
  | error e =>
    rw [hx] at hout
    exact absurd hs hout.2
  | ok x =>
    rw [hx] at hout he
    exact ⟨_, _, x, _, step_enabled hp hc he, Function.update_self _ _ _, rfl, rfl, hout.1, hout.2.2⟩

/-- A process that has not come to its end has a command next. -/
theorem next_command (hr : c.Regular) (hp : c.procs i = some p) (ha : p.point ≠ .aside) (hl : p.point ≠ .lost) :
    ∃ cmd k, p.program = .call cmd k ∧ p.point.allows cmd := by
  have hf := hr.valid.follows i p hp
  cases hprog : p.program with
  | ret u =>
    rw [hprog] at hf
    rcases hf with h | ⟨h, -⟩
    · exact absurd h ha
    · exact absurd h hl
  | throw e =>
    rw [hprog] at hf
    rcases hf with h | ⟨h, -⟩
    · exact absurd h ha
    · exact absurd h hl
  | call cmd k =>
    rw [hprog] at hf
    exact ⟨cmd, k, rfl, hf.1⟩

theorem ocr_program {job : JobData} {o : OcrPoint} (hr : c.Regular) (hp : c.procs i = some p)
    (hpt : p.point = .ocr job o) : ∃ k, p.program = .call (o.command job) k := by
  obtain ⟨cmd, k, hc, hall⟩ := next_command hr hp (by rw [hpt]; rintro ⟨⟩) (by rw [hpt]; rintro ⟨⟩)
  rw [hpt] at hall
  obtain rfl : cmd = o.command job := hall
  exact ⟨k, hc⟩

theorem extraction_program {job : JobData} {e : ExtractionPoint} (hr : c.Regular) (hp : c.procs i = some p)
    (hpt : p.point = .extraction job e) : ∃ k, p.program = .call (e.command job) k := by
  obtain ⟨cmd, k, hc, hall⟩ := next_command hr hp (by rw [hpt]; rintro ⟨⟩) (by rw [hpt]; rintro ⟨⟩)
  rw [hpt] at hall
  obtain rfl : cmd = e.command job := hall
  exact ⟨k, hc⟩

end
end DocAuto.Pipeline
