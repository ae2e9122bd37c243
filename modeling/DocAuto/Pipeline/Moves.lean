import DocAuto.Pipeline.Lifecycle

/-! What one move changes: where the jobs and the processes of the next view come
from, and when a record changes. -/
namespace DocAuto.Pipeline
open Process Database

namespace View
variable (v : View) (id : ProcId) (pos : Option Position) (jobId : JobId) (job : Option Job) (data : JobData)
  (owner : Owner) (failed : Bool) (ids : List Uuid)

@[simp] theorem place_record : (v.place id pos).record = v.record := rfl
@[simp] theorem place_jobs : (v.place id pos).jobs = v.jobs := rfl
@[simp] theorem place_issued : (v.place id pos).issued = v.issued := rfl
@[simp] theorem place_self : (v.place id pos).positions id = pos := by simp [place]

@[simp] theorem place_positions (i : ProcId) :
    (v.place id pos).positions i = if i = id then pos else v.positions i := by
  simp [place, Function.update_apply]

@[simp] theorem setJob_record : (v.setJob jobId job).record = v.record := rfl
@[simp] theorem setJob_positions : (v.setJob jobId job).positions = v.positions := rfl
@[simp] theorem setJob_issued : (v.setJob jobId job).issued = v.issued := rfl

@[simp] theorem setJob_jobs (j : JobId) : (v.setJob jobId job).jobs j = if j = jobId then job else v.jobs j := by
  simp [setJob, Function.update_apply]

@[simp] theorem draw_record : (v.draw ids).record = v.record := rfl
@[simp] theorem draw_positions : (v.draw ids).positions = v.positions := rfl
@[simp] theorem draw_jobs : (v.draw ids).jobs = v.jobs := rfl
@[simp] theorem draw_issued : (v.draw ids).issued = ids ++ v.issued := rfl

@[simp] theorem add_record : (v.add jobId data).record = v.record := by unfold add; split <;> rfl
@[simp] theorem add_positions : (v.add jobId data).positions = v.positions := by unfold add; split <;> rfl
@[simp] theorem add_issued : (v.add jobId data).issued = v.issued := by unfold add; split <;> rfl

theorem add_jobs (j : JobId) :
    (v.add jobId data).jobs j = if j = jobId then some ((v.jobs jobId).getD ⟨data, .waiting, 0⟩) else v.jobs j := by
  unfold add
  split
  · next h =>
    obtain ⟨job, hj⟩ := Option.isSome_iff_exists.1 h
    split
    · next he => simp [he, hj]
    · rfl
  · next h => 
    simp only [setJob_jobs]
    rw [Option.not_isSome_iff_eq_none] at h
    simp [h]

@[simp] theorem settle_record : (v.settle id owner failed).record = v.record := by
  unfold settle
  repeat' split
  all_goals rfl

@[simp] theorem settle_positions : (v.settle id owner failed).positions = v.positions := by
  unfold settle
  repeat' split
  all_goals rfl

variable {v id pos} in
/-- Where nobody is put in place, nobody appears. -/
theorem place_none {i : ProcId} {p : Position} (h : (v.place id none).positions i = some p) : v.positions i = some p := by
  rw [place_positions] at h
  split at h
  · cases h
  · exact h

@[simp] theorem settle_issued : (v.settle id owner failed).issued = v.issued := by
  unfold settle
  repeat' split
  all_goals rfl

/-- Settling an execution only changes the state and the attempts of its own job. -/
theorem settle_jobs (j : JobId) : (v.settle id owner failed).jobs j = v.jobs j ∨
    ∃ job data, owner = .job j data ∧ v.jobs j = some job ∧ job.state = .active id ∧
      (v.settle id owner failed).jobs j = some (job.settle failed) := by
  cases owner with
  | api _ => exact .inl rfl
  | job k data =>
    cases hk : v.jobs k with
    | none => exact .inl (by simp [settle, hk])
    | some job =>
      by_cases hs : job.state = .active id
      · by_cases hj : j = k
        · subst hj
          exact .inr ⟨job, data, rfl, hk, hs, by simp [settle, hk, hs]⟩
        · exact .inl (by simp [settle, hk, hs, hj])
      · exact .inl (by simp [settle, hk, hs])

end View

namespace Effect
variable {d : Uuid} {v w : View} {c : Cmd} {answer : Answer} {r : Except Failure c.Resp}

theorem positions (h : Effect d v c answer r w) : w.positions = v.positions := by
  cases answer with
  | throws e => rw [h.2]
  | _ => cases c with
    | tx t => obtain ⟨-, now, rec, -, rfl⟩ := h; rfl
    | queueAdd data j => obtain ⟨-, -, rfl⟩ := h; simp
    | webhookQueueAdd d' t => obtain ⟨-, -, n, rfl⟩ := h; simp
    | _ => rw [h.2.2]

theorem issued (h : Effect d v c answer r w) : w.issued = v.issued := by
  cases answer with
  | throws e => rw [h.2]
  | _ => cases c with
    | tx t => obtain ⟨-, now, rec, -, rfl⟩ := h; rfl
    | queueAdd data j => obtain ⟨-, -, rfl⟩ := h; simp
    | webhookQueueAdd d' t => obtain ⟨-, -, n, rfl⟩ := h; simp
    | _ => rw [h.2.2]

/-- Only an executed `add` puts a job into a queue. -/
theorem jobs (h : Effect d v c answer r w) : w.jobs = v.jobs ∨
    (∃ data j, c = .queueAdd data j ∧ answer = .execute ∧ w.jobs = (v.add j data).jobs) ∨
      ∃ n data, w.jobs = (v.add (.webhook n) data).jobs := by
  cases answer with
  | throws e => exact .inl (by rw [h.2])
  | _ => cases c with
    | tx t => obtain ⟨-, now, rec, -, rfl⟩ := h; exact .inl rfl
    | queueAdd data j => obtain ⟨ha, -, rfl⟩ := h; exact .inr (.inl ⟨data, j, rfl, ha, rfl⟩)
    | webhookQueueAdd d' t => obtain ⟨-, -, n, rfl⟩ := h; exact .inr (.inr ⟨n, _, rfl⟩)
    | _ => exact .inl (by rw [h.2.2])

/-- Only a committed transaction changes a record. -/
theorem record (h : Effect d v c answer r w) : w.record = v.record ∨
    ∃ t now, c = .tx t ∧ answer = .execute ∧ w.record = t.after now d v.record ∧ t.admitted d v.record := by
  cases answer with
  | throws e => exact .inl (by rw [h.2])
  | _ => cases c with
    | tx t =>
      obtain ⟨ha, now, rec, ho, rfl⟩ := h
      cases r with
      | error e => exact .inl ho.1
      | ok a => exact .inr ⟨t, now, rfl, ha, ho.1, ho.2.1⟩
    | queueAdd data j => obtain ⟨-, -, rfl⟩ := h; exact .inl (by simp)
    | webhookQueueAdd d' t => obtain ⟨-, -, n, rfl⟩ := h; exact .inl (by simp)
    | _ => exact .inl (by rw [h.2.2])

theorem committed {t : Tx} {a : t.Result} (h : Effect d v (.tx t) answer (.ok a) w) :
    answer = .execute ∧ ∃ now, w = { v with record := t.after now d v.record } ∧
      t.admitted d v.record ∧ t.returns d v.record a := by
  cases answer with
  | throws e => cases h.1
  | _ =>
    obtain ⟨ha, now, rec, ⟨rfl, had, hret⟩, rfl⟩ := h
    exact ⟨ha, now, rfl, had, hret⟩

theorem refused {t : Tx} {e : Failure} (h : Effect d v (.tx t) answer (.error e) w) :
    w = v ∧ (answer = .throws e ∨ answer = .execute ∧ ¬ t.sure d v.record) := by
  cases answer with
  | throws e' => cases h.1; exact ⟨h.2, .inl rfl⟩
  | _ =>
    obtain ⟨ha, now, rec, ⟨rfl, hs⟩, rfl⟩ := h
    exact ⟨rfl, .inr ⟨ha, hs⟩⟩

end Effect

section Moves
variable {d : Uuid} {v v' : View} {a : Action}

/-- Where a job of the next view comes from: it was there, or a process is adding it. -/
theorem Move.job_origin (h : Move d v a v') {j : JobId} {job : Job} (hj : v'.jobs j = some job) :
    (∃ old, v.jobs j = some old ∧ old.data = job.data) ∨ (∃ n, j = .webhook n) ∨
      ∃ id pos, a = .step id .execute ∧ v.positions id = some pos ∧
        pos.point.allows (.queueAdd job.data j) ∧ v.jobs j = none ∧ job = ⟨job.data, .waiting, 0⟩ := by
  cases h with
  | call _ | crash _ | tick => exact .inl ⟨job, hj, rfl⟩
  | @start _ _ _ old hjob _ _ =>
    simp only [View.setJob_jobs, View.draw_jobs, View.place_jobs] at hj
    split at hj
    · next he => obtain rfl := Option.some.inj hj; exact .inl ⟨old, he ▸ hjob, rfl⟩
    · exact .inl ⟨job, hj, rfl⟩
  | @stall _ old _ hjob _ =>
    simp only [View.setJob_jobs] at hj
    split at hj
    · next he => obtain rfl := Option.some.inj hj; exact .inl ⟨old, he ▸ hjob, rfl⟩
    · exact .inl ⟨job, hj, rfl⟩
  | evict _ _ =>
    simp only [View.setJob_jobs] at hj
    split at hj
    · cases hj
    · exact .inl ⟨job, hj, rfl⟩
  | @finish id pos failed _ _ =>
    rcases View.settle_jobs (v.place id none) id pos.owner failed j with he | ⟨old, data, -, ho, -, hn⟩
    · exact .inl ⟨job, he.symm.trans hj, rfl⟩
    · obtain rfl := Option.some.inj (hn.symm.trans hj)
      refine .inl ⟨old, ho, ?_⟩
      unfold Job.settle
      split <;> rfl
  | @step id answer pos c r w hpos hall heff =>
    rw [View.place_jobs] at hj
    rcases heff.jobs with he | ⟨data, k, rfl, rfl, he⟩ | ⟨n, data, he⟩ <;> rw [he] at hj
    · exact .inl ⟨job, hj, rfl⟩
    · rw [View.add_jobs] at hj
      split at hj
      · next hk =>
        subst hk
        cases hold : v.jobs j with
        | none =>
          obtain rfl : (⟨data, .waiting, 0⟩ : Job) = job := by simpa [hold] using hj
          exact .inr (.inr ⟨id, pos, rfl, hpos, hall, rfl, rfl⟩)
        | some old => exact .inl ⟨old, rfl, by simp_all⟩
      · exact .inl ⟨job, hj, rfl⟩
    · rw [View.add_jobs] at hj
      split at hj
      · next hk => exact .inr (.inl ⟨n, hk⟩)
      · exact .inl ⟨job, hj, rfl⟩

/-- Where a process of the next view comes from. -/
theorem Move.position_origin (h : Move d v a v') {i : ProcId} {pos' : Position} (hp : v'.positions i = some pos') :
    (v.positions i = some pos' ∧ ∀ answer, a ≠ .step i answer) ∨
    (∃ call, a = .call i call ∧ v.fresh (i :: call.draws) ∧ pos' = ⟨.api call, (Owner.api call).start⟩) ∨
    (∃ j draw job, a = .start i j draw ∧ v.jobs j = some job ∧ v.fresh [i, draw] ∧
      pos' = ⟨.job j job.data, (Owner.job j job.data).start⟩) ∨
    ∃ pos answer c r w, a = .step i answer ∧ v.positions i = some pos ∧ pos.point.allows c ∧
      Effect d v c answer r w ∧ pos' = ⟨pos.owner, pos.point.next c r⟩ ∧ v' = w.place i (some pos') := by
  cases h with
  | @call id call hf =>
    simp only [View.draw_positions, View.place_positions] at hp
    split at hp
    · next he => subst he; exact .inr (.inl ⟨call, rfl, hf, (Option.some.inj hp).symm⟩)
    · exact .inl ⟨hp, fun _ h => by cases h⟩
  | @start id j draw job hj hst hf =>
    simp only [View.setJob_positions, View.draw_positions, View.place_positions] at hp
    split at hp
    · next he => subst he; exact .inr (.inr (.inl ⟨j, draw, job, rfl, hj, hf, (Option.some.inj hp).symm⟩))
    · exact .inl ⟨hp, fun _ h => by cases h⟩
  | @step id answer pos c r w hpos hall heff =>
    simp only [View.place_positions] at hp
    split at hp
    · next he =>
      subst he
      obtain rfl := Option.some.inj hp
      exact .inr (.inr (.inr ⟨pos, answer, c, r, w, rfl, hpos, hall, heff, rfl, rfl⟩))
    · next hne => exact .inl ⟨by rw [← heff.positions]; exact hp, fun _ h => hne (by cases h; rfl)⟩
  | @finish id pos failed _ _ =>
    rw [View.settle_positions] at hp
    exact .inl ⟨View.place_none hp, fun _ h => by cases h⟩
  | crash _ => exact .inl ⟨View.place_none hp, fun _ h => by cases h⟩
  | stall _ _ | evict _ _ | tick => exact .inl ⟨hp, fun _ h => by cases h⟩

/-- A record changes only when some process commits a transaction. -/
theorem Move.record_change (h : Move d v a v') : v'.record = v.record ∨
    ∃ id pos t now, a = .step id .execute ∧ v.positions id = some pos ∧ pos.point.allows (.tx t) ∧
      v'.record = t.after now d v.record ∧ t.admitted d v.record := by
  cases h with
  | @step id answer pos c r w hpos hall heff =>
    rcases heff.record with he | ⟨t, now, rfl, rfl, he, ha⟩
    · exact .inl he
    · exact .inr ⟨id, pos, t, now, rfl, hpos, hall, he, ha⟩
  | finish _ _ => exact .inl (by simp)
  | _ => exact .inl rfl

/-- The same in terms of the programs: the record changes when a transaction commits
that some program has come to. -/
theorem step_record {c c' : Config} (hv : c.Valid) (h : step c a = some c') : (c'.view d).record = (c.view d).record ∨
    ∃ i p t k now, a = .step i .execute ∧ c.procs i = some p ∧ p.program = .call (.tx t) k ∧
      p.point.allows (.tx t) ∧ (c'.view d).record = t.after now d (c.view d).record ∧
      t.admitted d (c.view d).record := by
  rcases (step_move d hv h).record_change with he | ⟨i, -, -, -, rfl, -⟩
  · exact .inl he
  · obtain ⟨p, cmd, k, r, w, hp, hc, hx, rfl⟩ := step_inv h
    have heff := Cmd.exec_effect d c'.procs c.issued hv.sound hx
    rcases heff.record with he | ⟨t, now, rfl, -, he, had⟩
    · exact .inl he
    · exact .inr ⟨i, p, t, k, now, rfl, hp, hc, hv.allows hp hc, he, had⟩

theorem Move.issued (h : Move d v a v') : v.issued ⊆ v'.issued := by
  cases h with
  | call _ | start _ _ _ => exact List.subset_append_right _ _
  | step _ _ heff => rw [View.place_issued, heff.issued]; exact List.Subset.refl _
  | finish _ _ => simp
  | _ => exact List.Subset.refl _

end Moves
end DocAuto.Pipeline
