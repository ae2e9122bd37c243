import DocAuto.Pipeline.Moves

/-! Process ids: who is running, and on behalf of which job. -/
namespace DocAuto.Pipeline
open Process Database

/-- Processes run under drawn ids, and so do the executors of active jobs, which are
executions of these jobs for as long as they live. -/
structure Known (v : View) : Prop where
  positions : ∀ i pos, v.positions i = some pos → i ∈ v.issued
  executors : ∀ j job i, v.jobs j = some job → job.state = .active i → i ∈ v.issued
  executing : ∀ j job i pos, v.jobs j = some job → job.state = .active i → v.positions i = some pos →
    ∃ data, pos.owner = .job j data

theorem Job.settle_state (job : Job) (failed : Bool) (i : ProcId) : (job.settle failed).state ≠ .active i := by
  unfold Job.settle
  split
  · dsimp only
    split <;> nofun
  · nofun

section Moves
variable {d : Uuid} {v v' : View} {a : Action}

/-- A move that makes no job active and puts no process in place keeps what is known. -/
theorem Known.mono (hk : Known v) (hissued : v.issued ⊆ v'.issued)
    (hjobs : ∀ j job i, v'.jobs j = some job → job.state = .active i → v.jobs j = some job)
    (hpositions : ∀ i pos, v'.positions i = some pos → ∃ old, v.positions i = some old ∧ old.owner = pos.owner) : Known v' where
  positions i pos hi := by
    obtain ⟨old, hold, -⟩ := hpositions i pos hi
    exact hissued (hk.positions i old hold)
  executors j job i hj hact := hissued (hk.executors j job i (hjobs j job i hj hact) hact)
  executing j job i pos hj hact hi := by
    obtain ⟨old, hold, howner⟩ := hpositions i pos hi
    exact howner ▸ hk.executing j job i old (hjobs j job i hj hact) hact hold

theorem View.setJob_active {k j : JobId} {new : Option Job} {job : Job} {i : ProcId}
    (hj : (v.setJob k new).jobs j = some job) (hact : job.state = .active i)
    (hnew : ∀ job i, new = some job → job.state ≠ .active i) : v.jobs j = some job := by
  rw [View.setJob_jobs] at hj
  split at hj
  · exact absurd hact (hnew job i hj)
  · exact hj

/-- An added job waits. -/
theorem View.add_active {k j : JobId} {data : JobData} {job : Job} {i : ProcId}
    (hj : (v.add k data).jobs j = some job) (hact : job.state = .active i) : v.jobs j = some job := by
  rw [View.add_jobs] at hj
  split at hj
  · next he =>
    subst he
    cases hold : v.jobs j with
    | some old => rw [hold] at hj; exact hj
    | none =>
      rw [hold] at hj
      cases hj
      cases hact
  · exact hj

theorem known_step (hk : Known v) (h : Move d v a v') : Known v' := by
  have mono := h.issued
  cases h with
  | @call id call hf =>
    refine ⟨fun i pos hi => ?_, fun j job i hj hst => mono (hk.executors j job i hj hst),
      fun j job i pos hj hst hi => ?_⟩ <;> simp only [View.draw_positions, View.place_positions] at hi <;> split at hi
    · next he => exact he ▸ List.mem_append_left _ List.mem_cons_self
    · exact mono (hk.positions i pos hi)
    · next he => exact absurd (he ▸ hk.executors j job i hj hst) (hf.1 id List.mem_cons_self)
    · exact hk.executing j job i pos hj hst hi
  | @start id jobId draw job hjob hst hf =>
    have hnew : id ∉ v.issued := hf.1 id List.mem_cons_self
    refine ⟨fun i pos hi => ?_, fun j job' i hj hact => ?_, fun j job' i pos hj hact hi => ?_⟩
    · simp only [View.setJob_positions, View.draw_positions, View.place_positions] at hi
      split at hi
      · next he => exact he ▸ List.mem_append_left _ List.mem_cons_self
      · exact mono (hk.positions i pos hi)
    · simp only [View.setJob_jobs, View.draw_jobs, View.place_jobs] at hj
      split at hj
      · obtain rfl := Option.some.inj hj
        cases hact
        exact List.mem_append_left _ List.mem_cons_self
      · exact mono (hk.executors j job' i hj hact)
    · simp only [View.setJob_jobs, View.draw_jobs, View.place_jobs] at hj
      simp only [View.setJob_positions, View.draw_positions, View.place_positions] at hi
      split at hj
      · next he =>
        obtain rfl := Option.some.inj hj
        cases hact
        obtain rfl := Option.some.inj ((if_pos rfl).symm.trans hi)
        exact ⟨job.data, he ▸ rfl⟩
      · split at hi
        · next he => exact absurd (he ▸ hk.executors j job' i hj hact) hnew
        · exact hk.executing j job' i pos hj hact hi
  | @step id answer pos c r w hpos hall heff =>
    refine hk.mono mono (fun j job i hj hact => ?_) fun i pos' hi => ?_
    · rw [View.place_jobs] at hj
      rcases heff.jobs with he | ⟨data, k, -, -, he⟩ | ⟨n, data, he⟩ <;> rw [he] at hj
      · exact hj
      · exact View.add_active hj hact
      · exact View.add_active hj hact
    · simp only [View.place_positions, heff.positions] at hi
      split at hi
      · next he =>
        obtain rfl := Option.some.inj hi
        exact ⟨pos, he ▸ hpos, rfl⟩
      · exact ⟨pos', hi, rfl⟩
  | @finish id pos failed hpos _ =>
    refine hk.mono mono (fun j job i hj hact => ?_) fun i pos' hi => ?_
    · rcases View.settle_jobs (v.place id none) id pos.owner failed j with he | ⟨old, data, -, -, -, he⟩
      · exact he.symm.trans hj
      · obtain rfl := Option.some.inj (he.symm.trans hj)
        exact absurd hact (Job.settle_state old failed i)
    · rw [View.settle_positions] at hi
      exact ⟨pos', View.place_none hi, rfl⟩
  | crash _ => exact hk.mono mono (fun _ _ _ hj _ => hj) fun _ pos hi => ⟨pos, View.place_none hi, rfl⟩
  | stall _ _ =>
    refine hk.mono mono (fun j job i hj hact => View.setJob_active hj hact ?_) fun _ pos hi => ⟨pos, hi, rfl⟩
    rintro _ _ ⟨⟩ ⟨⟩
  | evict _ _ =>
    refine hk.mono mono (fun j job i hj hact => View.setJob_active hj hact ?_) fun _ pos hi => ⟨pos, hi, rfl⟩
    rintro _ _ ⟨⟩
  | tick => exact hk

/-- A process stays where it is unless it takes a step, ends or crashes. -/
theorem Known.kept (hk : Known v) (h : Move d v a v') {i : ProcId}
    {pos : Position} (hi : v.positions i = some pos) : v'.positions i = some pos ∨ (∃ answer, a = .step i answer) ∨
      a = .finish i ∧ (pos.point = .aside ∨ pos.point = .lost) ∨ a = .crash i := by
  have hdrawn := hk.positions i pos hi
  cases h with
  | @call id call hf =>
    have hne : i ≠ id := fun he => hf.1 id List.mem_cons_self (he ▸ hdrawn)
    exact .inl (by simp [hne, hi])
  | @start id jobId draw job _ _ hf =>
    have hne : i ≠ id := fun he => hf.1 id List.mem_cons_self (he ▸ hdrawn)
    exact .inl (by simp [hne, hi])
  | @step id answer pos' c r w _ _ heff =>
    by_cases he : i = id
    · exact .inr (.inl ⟨answer, he ▸ rfl⟩)
    · exact .inl (by simp [he, heff.positions, hi])
  | @finish id pos' failed hpos hend =>
    by_cases he : i = id
    · subst he
      obtain rfl := Option.some.inj (hi.symm.trans hpos)
      exact .inr (.inr (.inl ⟨rfl, hend.imp_right And.left⟩))
    · exact .inl (by simp [he, hi])
  | @crash id _ _ =>
    by_cases he : i = id
    · exact .inr (.inr (.inr (he ▸ rfl)))
    · exact .inl (by simp [he, hi])
  | stall _ _ | evict _ _ | tick => exact .inl hi

end Moves
end DocAuto.Pipeline
