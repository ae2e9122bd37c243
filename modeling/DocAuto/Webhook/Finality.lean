import DocAuto.Webhook.Budget

/-! What may still happen for a terminal transition once one of its deliveries is recorded as
successful. The rows of the transition are those added since it, from position `base` on. -/
namespace DocAuto.Webhook
open Process Database Pipeline

namespace Outbox

/-- A delivery of the transition is recorded as successful. -/
def Delivered (base : Nat) (o : Outbox) : Prop := ∃ r ∈ o.rows.drop base, r.status = .success

/-- Once a delivery is recorded as successful, no request is sent and no row becomes `failed` or
`dead_letter`. -/
def Final (base : Nat) (o : Outbox) (a : Action) (o' : Outbox) : Prop :=
  o.Delivered base →
    (∀ i answer k s m payload id, a = .step i answer → o.couriers i = some k → k.point ≠ .post s m payload id) ∧
      ∀ r ∈ o'.rows, r.status = .failed ∨ r.status = .deadLetter → r ∈ o.rows

/-- A success is recorded by the only execution in flight, which the queue has run the only job that
is not over. -/
def RecordedAlone (o : Outbox) (a : Action) : Prop :=
  ∀ i answer k m id outcome, a = .step i answer → (∀ e, answer ≠ .throws e) → o.couriers i = some k →
    k.point = .record m id outcome → succeeded outcome →
    (∀ j, j ≠ i → o.couriers j = none) ∧ (∀ n, n ≠ k.serial → ¬ o.Live n) ∧
      ∃ job, o.jobs k.serial = some job ∧ job.state = .active i

/-- No further job is enqueued, none is taken for stalled, and the audit write fails on the last
attempt only. -/
def LeftAlone (o : Outbox) (a : Action) (o' : Outbox) : Prop :=
  (∀ n, o.jobs n = none → o'.jobs n = none) ∧ (∀ n, a = .stall (.webhook n) → o.jobs n = none) ∧
    ∀ i answer k k' job e, a = .step i answer → o.couriers i = some k → o'.couriers i = some k' →
      k'.point = .ended (.error e) → o.jobs k.serial = some job → attempts ≤ job.attemptsMade + 1

/-- A success is recorded alone, and what is left of its job is left alone. -/
def Undisturbed (base : Nat) (o : Outbox) (a : Action) (o' : Outbox) : Prop :=
  o.RecordedAlone a ∧ (o.Delivered base → o.LeftAlone a o')

end Outbox

/-- The execution has nothing left that has the queue run its job again. -/
def WebhookPoint.concluding (attemptsMade : Nat) : WebhookPoint → Prop
  | .report _ outcome => succeeded outcome
  | .ended (.ok _) => True
  | .ended (.error _) => attempts ≤ attemptsMade + 1
  | _ => False

namespace Outbox
variable {base : Nat} {d : Uuid} {o o' : Outbox} {a : Action}

/-- Every execution in flight concludes the job the queue has it run, and no other job is live. -/
structure Sealed (o : Outbox) : Prop where
  courier : ∀ i k, o.couriers i = some k →
    ∃ job, o.jobs k.serial = some job ∧ job.state = .active i ∧ k.point.concluding job.attemptsMade
  job : ∀ n job, o.jobs n = some job → Unsettled job → ∃ i, job.state = .active i

theorem concluding_next {k : Courier} {c : Cmd} {r : Except Failure c.Resp} {n : Nat} (hc : k.point.concluding n)
    (hall : k.point.allows k.job c) (he : ∀ e, k.point.next k.job c r = .ended (.error e) → attempts ≤ n + 1) :
    (k.point.next k.job c r).concluding n := by
  cases hpt : k.point with
  | report m outcome =>
    rw [hpt] at hc hall he
    obtain rfl := hall
    cases r with
    | error e => exact he e rfl
    | ok u =>
      have hres : result m outcome = .ok (.delivered m) := if_pos hc
      show WebhookPoint.concluding n (.ended (result m outcome))
      rw [hres]
      trivial
  | ended result =>
    rw [hpt] at hall
    exact hall.elim
  | _ =>
    rw [hpt] at hc
    exact hc.elim

/-- No request is due. -/
theorem Sealed.silent (hs : Sealed o) {i : ProcId} {k : Courier} {s : Subject} {m : Nat} {payload : WebhookPayload}
    {id : Uuid} (hk : o.couriers i = some k) : k.point ≠ .post s m payload id := by
  intro hpt
  obtain ⟨job, -, -, hc⟩ := hs.courier i k hk
  rw [hpt] at hc
  exact hc

/-- Nor is a write to the rows. -/
theorem Sealed.rows (hs : Sealed o) (h : Move d o a o') : o'.rows = o.rows := by
  rcases h.rows with he | ⟨i, answer, k, rfl, hk, ⟨m, id, outcome, now, hpt, -⟩ | ⟨s, m, payload, id, hpt, -, -⟩⟩
  · exact he
  · obtain ⟨job, -, -, hc⟩ := hs.courier i k hk
    rw [hpt] at hc
    exact hc.elim
  · obtain ⟨job, -, -, hc⟩ := hs.courier i k hk
    rw [hpt] at hc
    exact hc.elim

/-- The job of an execution that ends is over. -/
theorem Sealed.finish (hs : Sealed o) {i : ProcId} {k : Courier} {result : Except Failure JobResult}
    (hk : o.couriers i = some k) (hpt : k.point = .ended result) :
    Sealed ((o.place i none).settle i k.serial (!result.isOk)) := by
  obtain ⟨job, hj, hst, hc⟩ := hs.courier i k hk
  have hover : ¬ Unsettled (job.settle (!result.isOk)) := by
    intro hu
    obtain ⟨hfailed, hlt, -⟩ := settle_unsettled hu
    rw [hpt] at hc
    cases result with
    | ok v => cases hfailed
    | error e =>
      have hc : attempts ≤ job.attemptsMade + 1 := hc
      omega
  rw [settle_active (o := o.place i none) hj hst]
  refine ⟨fun j l hjl => ?_, fun m job' hj' hu => ?_⟩
  · have hji : j ≠ i := by
      rintro rfl
      simp [setJob, place] at hjl
    obtain ⟨job', hj', hst', hc'⟩ := hs.courier j l (place_none hjl)
    have hne : l.serial ≠ k.serial := by
      intro he
      rw [he, hj] at hj'
      obtain rfl := Option.some.inj hj'
      rw [hst] at hst'
      exact hji (JobState.active.inj hst').symm
    exact ⟨job', by simpa [setJob, place, hne] using hj', hst', hc'⟩
  · by_cases hm : m = k.serial
    · subst hm
      obtain rfl : _ = job' := by simpa [setJob] using hj'
      exact absurd hu hover
    · exact hs.job m job' (by simpa [setJob, place, hm] using hj') hu

theorem Sealed.evict (hs : Sealed o) {n : Nat} {job : Job} (hj : o.jobs n = some job)
    (hst : job.state = .completed ∨ job.state = .failed) : Sealed (o.setJob n none) := by
  refine ⟨fun j l hjl => ?_, fun m job' hj' hu => ?_⟩
  · obtain ⟨job', hj', hst', hc'⟩ := hs.courier j l hjl
    have hne : l.serial ≠ n := by
      rintro rfl
      obtain rfl := Option.some.inj (hj.symm.trans hj')
      rcases hst with h | h <;> rw [h] at hst' <;> cases hst'
    exact ⟨job', by simpa [setJob, hne] using hj', hst', hc'⟩
  · have hne : m ≠ n := by
      rintro rfl
      simp [setJob] at hj'
    exact hs.job m job' (by simpa [setJob, hne] using hj') hu

theorem sealed_step (hs : Sealed o) (h : Move d o a o') (hl : LeftAlone o a o') : Sealed o' := by
  cases h with
  | other => exact hs
  | @enqueue _ n t hn =>
    have hnone := hl.1 n hn
    simp [setJob] at hnone
  | @start i n draw job hi hj hst =>
    obtain ⟨j, hact⟩ := hs.job n job hj (by rcases hst with h | h <;> simp [Unsettled, h])
    rcases hst with h | h <;> rw [h] at hact <;> cases hact
  | @step i answer k c r rows hk hall hpost =>
    obtain ⟨job, hj, hst, hc⟩ := hs.courier i k hk
    refine ⟨fun j l hjl => ?_, hs.job⟩
    by_cases hji : j = i
    · subst hji
      obtain rfl : _ = l := by simpa [place] using hjl
      refine ⟨job, hj, hst, concluding_next hc hall fun e he => ?_⟩
      exact hl.2.2 j answer k _ job e rfl hk hjl he hj
    · exact hs.courier j l (by simpa [place, hji] using hjl)
  | finish hk hpt => exact hs.finish hk hpt
  | crash _ => exact ⟨fun j l hjl => hs.courier j l (place_none hjl), hs.job⟩
  | @stall n job i hj hst =>
    rw [hl.2.1 n rfl] at hj
    cases hj
  | evict hj hst => exact hs.evict hj hst

theorem rows_thrown {i : ProcId} {e : Failure} (h : Move d o (.step i (.throws e)) o') : o'.rows = o.rows := by
  cases h with
  | @step _ _ k c r rows hk hall hpost =>
    unfold Posting at hpost
    exact hpost.2
  | _ => rfl

/-- The step that records the first success. -/
theorem delivered_step (h : Move d o a o') (hd : o'.Delivered base) (hn : ¬ o.Delivered base) :
    ∃ i answer k m id outcome, a = .step i answer ∧ (∀ e, answer ≠ .throws e) ∧ o.couriers i = some k ∧
      k.point = .record m id outcome ∧ succeeded outcome := by
  have hne : o'.rows ≠ o.rows := by
    intro he
    rw [Delivered, he] at hd
    exact hn hd
  obtain ⟨r, hr, hst⟩ := hd
  rcases h.rows with he | ⟨i, answer, k, rfl, hk, ⟨m, id, outcome, now, hpt, he⟩ | ⟨s, m, payload, id, hpt, -, he⟩⟩
  · exact absurd he hne
  · rw [he, ← List.map_drop] at hr
    obtain ⟨x, hx, rfl⟩ := List.mem_map.1 hr
    have hthrows : ∀ e, answer ≠ .throws e := by
      rintro e rfl
      exact hne (rows_thrown h)
    refine ⟨i, answer, k, m, id, outcome, rfl, hthrows, hk, hpt, ?_⟩
    by_cases hid : x.id = id
    · rw [if_pos hid] at hst
      have hv : verdict m outcome = .success := hst
      by_contra hs
      rw [verdict, if_neg hs] at hv
      split at hv <;> cases hv
    · rw [if_neg hid] at hst
      exact absurd ⟨x, hx, hst⟩ hn
  · rw [he, List.drop_append] at hr
    rcases List.mem_append.1 hr with hx | hx
    · exact absurd ⟨r, hx, hst⟩ hn
    · obtain rfl := List.mem_singleton.1 (List.mem_of_mem_drop hx)
      cases hst

/-- From the first success on, the outbox is sealed. -/
theorem sealed_first (h : Move d o a o') (hd : o'.Delivered base) (hn : ¬ o.Delivered base) (ha : o.RecordedAlone a) :
    Sealed o' := by
  obtain ⟨i, answer, k, m, id, outcome, rfl, hthrows, hk, hpt, hs⟩ := delivered_step h hd hn
  obtain ⟨hnone, hdead, job, hj, hst⟩ := ha i answer k m id outcome rfl hthrows hk hpt hs
  have hjob : ∀ n job', o.jobs n = some job' → Unsettled job' → ∃ j, job'.state = .active j := by
    intro n job' hj' hu
    by_cases hnk : n = k.serial
    · subst hnk
      obtain rfl := Option.some.inj (hj.symm.trans hj')
      exact ⟨i, hst⟩
    · exact absurd ⟨job', hj', hu⟩ (hdead n hnk)
  cases h with
  | other => exact absurd hd hn
  | @enqueue _ n t _ => exact absurd hd hn
  | @step _ _ k' c r rows hk' hall hpost =>
    obtain rfl := Option.some.inj (hk.symm.trans hk')
    refine ⟨fun j l hjl => ?_, hjob⟩
    by_cases hji : j = i
    · subst hji
      obtain rfl : _ = l := by simpa [place] using hjl
      refine ⟨job, hj, hst, ?_⟩
      rw [hpt] at hall ⊢
      obtain rfl := hall
      cases r with
      | ok u => exact hs
      | error e =>
        cases answer with
        | throws e => exact absurd rfl (hthrows e)
        | _ => cases hpost.1
    · simp [place, hji, hnone j hji] at hjl

end Outbox

/-- Once a delivery made since a state is recorded as successful, by the only execution of the only
job there is, and what is left of the job goes undisturbed, no further request is sent and no row
becomes `failed` or `dead_letter`. -/
theorem delivery_final {c : Config} {d : Uuid} {actions : List Action} (hc : Reachable c)
    (hu : Along step (fun c' a c'' => (outbox c' d).Undisturbed (outbox c d).rows.length a (outbox c'' d)) c actions) :
    Along step (fun c' a c'' => (outbox c' d).Final (outbox c d).rows.length a (outbox c'' d)) c actions := by
  refine along_of_invariant (I := fun c' => Served c' ∧ ((outbox c' d).Delivered (outbox c d).rows.length → (outbox c' d).Sealed))
    (fun m a m' hi hp h => ⟨step_served hi.1 h, fun hd => ?_⟩) (fun m a m' hi hp h hd => ?_) ⟨reachable_served hc, ?_⟩ hu
  · by_cases hn : (outbox m d).Delivered (outbox c d).rows.length
    · exact Outbox.sealed_step (hi.2 hn) (step_outbox d hi.1 h) (hp.2 hn)
    · exact Outbox.sealed_first (step_outbox d hi.1 h) hd hn hp.1
  · have hs := hi.2 hd
    exact ⟨fun i answer k s n payload id _ hk => hs.silent hk, fun r hr _ => hs.rows (step_outbox d hi.1 h) ▸ hr⟩
  · rintro ⟨r, hr, -⟩
    simp at hr

section Demo

/-- An execution of job 0 whose request gets a 200, up to its outcome. -/
private def accepted (id : ProcId) : List Action :=
  [.start id (.webhook 0) (id + 1), .step id .execute, .step id .execute, .step id .execute,
    .step id (.response ⟨200, ""⟩), .step id .execute]

/-- The audit write after the success fails, and the job is run again, up to its request. -/
private def audited : List Action :=
  accepted 40 ++ [.step 40 (.throws (.other "connection refused")), .finish 40, .start 42 (.webhook 0) 43,
    .step 42 .execute, .step 42 .execute, .step 42 .execute]

private def requests : WebhookPoint → Bool
  | .post _ _ _ _ => true
  | _ => false

/-- The second request gets a 500, which is recorded. -/
private def resent : List Action := [.step 42 (.response ⟨500, ""⟩), .step 42 .execute]

/-- A second request follows the recorded success of the one job of the approval, and its row
becomes `failed`. -/
theorem success_repeated : ∃ c, run step demo demoApproved = some c ∧ (outbox c 3).Fresh 0 ∧
    Along step (fun c a c' => (outbox c 3).Alone 0 a (outbox c' 3)) c (audited ++ resent) ∧
    (run step c (audited ++ resent)).map (fun c => (outbox c 3).rows.map fun r => (r.attempt, r.status)) =
      some [(1, .success), (2, .failed)] ∧
    ¬ Along step (fun c a c' => (outbox c 3).Final 0 a (outbox c' 3)) c (audited ++ resent) := by
  obtain ⟨c, hc, -, hfresh⟩ := approved_fresh
  have hsecond : (run step demo demoApproved).map (fun c =>
      (run step c (audited ++ resent)).map fun c => (outbox c 3).rows.map fun r => (r.attempt, r.status)) =
      some (some [(1, .success), (2, .failed)]) := by decide +kernel
  have hfirst : (run step demo demoApproved).map (fun c => (run step c audited).map fun c =>
      ((outbox c 3).rows.head?.map (·.status), ((outbox c 3).couriers 42).map (requests ·.point))) =
      some (some (some .success, some true)) := by decide +kernel
  rw [hc, Option.map_some, Option.some.injEq] at hsecond hfirst
  refine ⟨c, hc, hfresh, alone_of_calms hc (by decide +kernel), hsecond, fun hfinal => ?_⟩
  obtain ⟨m, hm, hstate⟩ := Option.map_eq_some_iff.1 hfirst
  obtain ⟨hhead, hcourier⟩ := Prod.mk.inj hstate
  obtain ⟨r, hr, hst⟩ := Option.map_eq_some_iff.1 hhead
  obtain ⟨k, hk, hpt⟩ := Option.map_eq_some_iff.1 hcourier
  obtain ⟨e, he, -⟩ := Option.map_eq_some_iff.1 hsecond
  rw [run_append, hm, Option.bind_some] at he
  obtain ⟨m', hm', -⟩ := run_cons_some he
  have hnone := (((along_append hm).1 hfinal).2 m' hm').1 ⟨r, List.mem_of_mem_head? hr, hst⟩
  cases hpoint : k.point with
  | post s n payload id => exact hnone.1 42 _ k s n payload id rfl hk hpoint
  | _ =>
    rw [hpoint] at hpt
    cases hpt

/-- An execution of job 0, the only one, goes on without an error. -/
private def smooth (c : Config) (i : ProcId) (k : Courier) (c' : Config) : Bool :=
  (c.issued.all fun j => j == i || ((outbox c 3).couriers j).isNone) && c.world.serial == 1 && k.serial == 0 &&
    ((outbox c 3).jobs 0).map (·.state) == some (.active i) &&
    match (outbox c' 3).couriers i with
    | some ⟨_, _, .ended (.error _)⟩ => false
    | _ => true

private def undisturbed (c : Config) (a : Action) (c' : Config) : Bool :=
  calm c a c' && match a with
    | .step i _ => ((outbox c 3).couriers i).all fun k => smooth c i k c'
    | _ => true

private theorem undisturbed_sound {c c' : Config} {a : Action} {base : Nat} (hs : Served c) (h : step c a = some c')
    (hu : undisturbed c a c' = true) : (outbox c 3).Undisturbed base a (outbox c' 3) := by
  obtain ⟨hcalm, hu⟩ := Bool.and_eq_true_iff.1 hu
  have halone := (alone_of_calm hs h hcalm : (outbox c 3).Alone 0 a (outbox c' 3))
  have hsmooth : ∀ {i answer k}, a = .step i answer → (outbox c 3).couriers i = some k → smooth c i k c' = true := by
    rintro i answer k rfl hk
    simpa [hk] using hu
  refine ⟨fun i answer k m id outcome ha _ hk _ _ => ?_, fun _ => ⟨halone.1, ?_, fun i answer k k' job e ha hk hk' hpt _ => ?_⟩⟩
  · have hsm := hsmooth ha hk
    simp only [smooth, Bool.and_eq_true, beq_iff_eq, List.all_eq_true, Bool.or_eq_true, Option.isNone_iff_eq_none] at hsm
    obtain ⟨⟨⟨⟨hothers, hserial⟩, hzero⟩, hactive⟩, -⟩ := hsm
    refine ⟨fun j hj => ?_, fun n hn => ?_, ?_⟩
    · cases hl : (outbox c 3).couriers j with
      | none => rfl
      | some l =>
        rcases hothers j (courier_issued hs hl) with h | h
        · exact absurd h hj
        · rw [hl] at h
          cases h
    · rintro ⟨job, hjob, -⟩
      simp [outbox, jobsOf, hs.unissued n (by omega)] at hjob
    · rw [hzero]
      exact Option.map_eq_some_iff.1 hactive
  · rintro n rfl
    cases (Bool.and_eq_true_iff.1 hcalm).2
  · have hsm := hsmooth ha hk
    obtain ⟨serial, data, pt⟩ := k'
    obtain rfl : pt = .ended (.error e) := hpt
    simp [smooth, hk'] at hsm

private def acknowledged : List Action := accepted 40 ++ [.step 40 .execute, .finish 40, .evict (.webhook 0)]

/-- One attempt, recorded as a success; its job completes and is removed. -/
theorem delivery_final_accepted : ∃ c, run step demo demoApproved = some c ∧
    (run step c acknowledged).map (fun c => (outbox c 3).rows.map (·.status)) = some [.success] ∧
    Along step (fun c' a c'' => (outbox c' 3).Final (outbox c 3).rows.length a (outbox c'' 3)) c acknowledged := by
  obtain ⟨c, hc, hreach, -⟩ := approved_fresh
  have hchecks : (run step demo demoApproved).map (fun c =>
      ((run step c acknowledged).map fun c => (outbox c 3).rows.map (·.status),
        decide (Along step (fun c a c' => undisturbed c a c' = true) c acknowledged))) =
      some (some [.success], true) := by decide +kernel
  rw [hc, Option.map_some, Option.some.injEq] at hchecks
  obtain ⟨hrows, hcheck⟩ := Prod.mk.inj hchecks
  refine ⟨c, hc, hrows, delivery_final hreach ?_⟩
  exact along_of_invariant (fun _ _ _ hs _ h => step_served hs h) (fun _ _ _ hs hp h => undisturbed_sound hs h hp)
    (reachable_served hreach) (of_decide_eq_true hcheck)

end Demo
end DocAuto.Webhook
