import DocAuto.Webhook.Numbering

/-! The two counters that bound the retries of a webhook job: the failed executions the queue
counts, and the delivery rows of the document. -/
namespace DocAuto.Webhook
open Process Database Pipeline

/-- The queue may still run the job. -/
def Unsettled (job : Job) : Prop := job.state ≠ .completed ∧ job.state ≠ .failed

/-- The newest delivery has succeeded or is dead. -/
def Concluded (rows : List DeliveryRow) : Prop :=
  ∃ init r, rows = init ++ [r] ∧ (r.status = .success ∨ r.status = .deadLetter)

/-- The points before the delivery row is committed. -/
def WebhookPoint.early : WebhookPoint → Bool
  | .read | .count _ | .reason _ _ | .insert _ _ _ => true
  | _ => false

namespace Outbox

def Live (o : Outbox) (n : Nat) : Prop := ∃ job, o.jobs n = some job ∧ Unsettled job

/-- No other webhook job comes up for the document, and the job is taken for stalled only when
its execution has stopped. -/
def Alone (n : Nat) (o : Outbox) (a : Action) (o' : Outbox) : Prop :=
  (∀ m, o.jobs m = none → o'.jobs m = none) ∧ (a = .stall (.webhook n) → ∀ i, o.couriers i = none)

/-- An execution that fails before its delivery row is committed leaves the document with more rows
than the job had failed executions before, or, on the job's last attempt, with a newest row that is
final; and the write of an outcome does not fail on the last attempt. -/
def Covered (n : Nat) (o : Outbox) (a : Action) (o' : Outbox) : Prop :=
  ∀ i answer k k' job e, a = .step i answer → o.couriers i = some k → o'.couriers i = some k' →
    k'.point = .ended (.error e) → o.jobs n = some job →
      (k.point.early = true →
        if job.attemptsMade + 1 < attempts then job.attemptsMade < o.rows.length else Concluded o.rows) ∧
      ∀ m id outcome, k.point = .record m id outcome → job.attemptsMade + 1 < attempts

/-- The job ends by skipping. -/
def Skips (o : Outbox) (a : Action) : Prop :=
  ∃ i k why, a = .finish i ∧ o.couriers i = some k ∧ k.point = .ended (.ok (.skipped why))

/-- The queue gives the job up only when it was skipped or the newest delivery is final, and from
then on the deliveries stay as they are. -/
def GivesUp (n : Nat) (o : Outbox) (a : Action) (o' : Outbox) : Prop :=
  (o.Live n → ¬ o'.Live n → o.Skips a ∨ Concluded o'.rows) ∧ (¬ o.Live n → ¬ o'.Live n ∧ o'.rows = o.rows)

end Outbox

/-- A webhook job of a document without deliveries, before its first execution. Any other one is over. -/
structure Outbox.Fresh (n : Nat) (o : Outbox) : Prop where
  rows : o.rows = []
  idle : ∀ i, o.couriers i = none
  job : ∃ data, o.jobs n = some ⟨data, .waiting, 0⟩
  only : ∀ m, m ≠ n → ¬ o.Live m

/-- What holds at a point of the execution, when the queue has counted `a` failed executions. -/
def WebhookPoint.stands (rows : List DeliveryRow) (a : Nat) : WebhookPoint → Prop
  | .read | .count _ => True
  | .reason _ m | .insert _ m _ => m = rows.length
  | .post _ m _ id | .record m id _ => a < rows.length ∧ m = rows.length ∧ ∃ init r, rows = init ++ [r] ∧ r.id = id
  | .report m outcome => a < rows.length ∧ m = rows.length ∧ ∃ init r, rows = init ++ [r] ∧ r.status = verdict m outcome
  | .ended (.ok (.skipped _)) => True
  | .ended (.ok _) => Concluded rows
  | .ended (.error _) => if a + 1 < attempts then a < rows.length else Concluded rows

namespace Outbox
variable {n : Nat} {d : Uuid} {o o' : Outbox} {a : Action}

/-- The joint invariant of the two counters. -/
structure Budgeted (n : Nat) (o : Outbox) : Prop where
  only : ∀ m, m ≠ n → ¬ o.Live m
  ids : (o.rows.map (·.id)).Nodup
  courier : ∀ i k, o.couriers i = some k → k.serial = n ∧
    ∃ job, o.jobs n = some job ∧ job.state = .active i ∧ k.point.stands o.rows job.attemptsMade
  spent : ∀ job, o.jobs n = some job → Unsettled job → job.attemptsMade < attempts ∧ job.attemptsMade ≤ o.rows.length

theorem verdict_final {m : Nat} {outcome : Delivery} (hm : webhookMaxAttempts ≤ m) :
    verdict m outcome = .success ∨ verdict m outcome = .deadLetter := by
  unfold verdict isFinalAttempt
  by_cases hs : succeeded outcome <;> simp [hs, hm]

/-- The point after a step holds of the rows after it. -/
theorem stands_next {k : Courier} {c : Cmd} {answer : Answer} {r : Except Failure c.Resp} {rows rows' : List DeliveryRow}
    {a : Nat} (hst : k.point.stands rows a) (ha : a ≤ rows.length) (ha' : a < attempts) (hall : k.point.allows k.job c)
    (hpost : Posting rows c answer r rows')
    (hcov : ∀ e, k.point.next k.job c r = .ended (.error e) →
      (k.point.early = true → if a + 1 < attempts then a < rows.length else Concluded rows) ∧
        ∀ m id outcome, k.point = .record m id outcome → a + 1 < attempts) :
    (k.point.next k.job c r).stands rows' a := by
  rcases hpt : k.point with _ | s | ⟨s, m⟩ | ⟨s, m, payload⟩ | ⟨s, m, payload, id⟩ | ⟨m, id, outcome⟩ | ⟨m, outcome⟩ | result <;>
    rw [hpt] at hall hst hcov
  · obtain rfl := hall
    rcases r with e | ⟨found, tenant⟩
    · rw [hpost.of_error rfl]
      exact (hcov e rfl).1 rfl
    · rcases WebhookPoint.next_read k.job k.job.tenantId k.job.documentId found tenant with ⟨s, -, hn⟩ | ⟨why, -, hn⟩ <;>
        rw [hn] <;> trivial
  · obtain rfl := hall
    rcases r with e | existing
    · rw [hpost.of_error rfl]
      exact (hcov e rfl).1 rfl
    · obtain ⟨he, hrows⟩ : existing = rows.length ∧ rows' = rows := by
        cases answer with
        | throws e => cases hpost.1
        | _ => exact ⟨Except.ok.inj hpost.1, hpost.2⟩
      show WebhookPoint.stands rows' a (WebhookPoint.counted k.job s existing)
      unfold WebhookPoint.counted
      rw [hrows]
      split <;> exact he
  · obtain rfl := hall
    have hrows := hpost.of_quiet (by rintro _ _ ⟨⟩) (by rintro _ _ _ ⟨⟩)
    rw [hrows]
    rcases r with e | auditLog
    · exact (hcov e rfl).1 rfl
    · exact hst
  · obtain ⟨id, rfl⟩ := hall
    rcases r with e | id'
    · rw [hpost.of_error rfl]
      exact (hcov e rfl).1 rfl
    · obtain ⟨hid, hrows⟩ : id' = id ∧ rows' = rows ++ [deliveryRow k.job (m + 1) id] := by
        cases answer with
        | throws e => cases hpost.1
        | _ =>
          rcases hpost with ⟨⟨e, he⟩, -⟩ | ⟨hid, -, hrows⟩
          · cases he
          · exact ⟨Except.ok.inj hid, hrows⟩
      have hst : m = rows.length := hst
      have hlen : rows'.length = rows.length + 1 := by rw [hrows]; simp
      exact ⟨by omega, by omega, rows, _, hrows, hid.symm⟩
  · obtain rfl := hall
    have hrows := hpost.of_quiet (by rintro _ _ ⟨⟩) (by rintro _ _ _ ⟨⟩)
    rw [hrows]
    cases r <;> exact hst
  · obtain rfl := hall
    rcases r with e | u
    · rw [hpost.of_error rfl]
      exact (if_pos ((hcov e rfl).2 m id outcome rfl)).mpr hst.1
    · obtain ⟨hlt, hm, init, x, rfl, hid⟩ := hst
      obtain ⟨now, hrows⟩ : ∃ now, rows' = (init ++ [x]).map fun y =>
          if y.id = id then (outcomeSet m outcome).apply now y else y := by
        cases answer with
        | throws e => cases hpost.1
        | _ => exact hpost.2
      have hlen : rows'.length = (init ++ [x]).length := by rw [hrows, List.length_map]
      rw [List.map_append, List.map_singleton, if_pos hid] at hrows
      exact ⟨by omega, by omega, _, _, hrows, rfl⟩
  · obtain rfl := hall
    have hrows := hpost.of_quiet (by rintro _ _ ⟨⟩) (by rintro _ _ _ ⟨⟩)
    rw [hrows]
    obtain ⟨hlt, hm, init, x, hx, hv⟩ := hst
    have hmax : webhookMaxAttempts = attempts := rfl
    rcases r with e | u
    · show if a + 1 < attempts then a < rows.length else Concluded rows
      split
      · exact hlt
      · exact ⟨init, x, hx, hv ▸ verdict_final (by omega)⟩
    · show WebhookPoint.stands rows a (.ended (result m outcome))
      unfold result
      by_cases hs : succeeded outcome
      · rw [if_pos hs]
        exact ⟨init, x, hx, .inl (by rw [hv, verdict, if_pos hs])⟩
      · rw [if_neg hs]
        by_cases hf : isFinalAttempt m
        · rw [if_pos hf]
          exact ⟨init, x, hx, hv ▸ verdict_final (by simpa [isFinalAttempt] using hf)⟩
        · rw [if_neg hf]
          have hearly : ¬ webhookMaxAttempts ≤ m := by simpa [isFinalAttempt] using hf
          exact (if_pos (by omega)).mpr hlt
  · exact hall.elim

theorem live_setJob {m : Nat} {job : Option Job} (h : m ≠ n) : (o.setJob n job).Live m ↔ o.Live m := by
  simp [Live, setJob, h]

theorem settle_unsettled {job : Job} {failed : Bool} (h : Unsettled (job.settle failed)) :
    failed = true ∧ job.attemptsMade + 1 < attempts ∧ (job.settle failed).attemptsMade = job.attemptsMade + 1 := by
  unfold Job.settle at h ⊢
  cases failed with
  | false => exact absurd rfl h.1
  | true =>
    by_cases hlt : job.attemptsMade + 1 < attempts
    · exact ⟨rfl, hlt, rfl⟩
    · simp [Unsettled, hlt] at h

/-- The job runs nowhere but where the queue has it run. -/
theorem Budgeted.sole (hb : Budgeted n o) {i : ProcId} {job : Job} (hj : o.jobs n = some job)
    (hst : job.state = .active i) : ∀ j, j ≠ i → o.couriers j = none := by
  intro j hji
  cases hc : o.couriers j with
  | none => rfl
  | some k =>
    obtain ⟨-, job', hj', hst', -⟩ := hb.courier j k hc
    obtain rfl := Option.some.inj (hj.symm.trans hj')
    rw [hst] at hst'
    exact absurd (JobState.active.inj hst').symm hji

/-- A job that is over has no execution. -/
theorem Budgeted.over (hb : Budgeted n o) (h : ¬ o.Live n) (i : ProcId) : o.couriers i = none := by
  cases hc : o.couriers i with
  | none => rfl
  | some k =>
    obtain ⟨-, job, hj, hst, -⟩ := hb.courier i k hc
    exact absurd ⟨job, hj, by simp [Unsettled, hst]⟩ h

/-- The only live job is the one that is watched. -/
theorem Budgeted.mine (hb : Budgeted n o) {m : Nat} {job : Job} (hj : o.jobs m = some job) (hl : Unsettled job) : m = n := by
  by_contra hm
  exact hb.only m hm ⟨job, hj, hl⟩

/-- With no execution in flight the queue may put the job into another state. -/
theorem Budgeted.replace (hb : Budgeted n o) {job : Job} (hidle : ∀ i, o.couriers i = none)
    (hspent : Unsettled job → job.attemptsMade < attempts ∧ job.attemptsMade ≤ o.rows.length) :
    Budgeted n (o.setJob n (some job)) where
  only m hm := mt (live_setJob hm).1 (hb.only m hm)
  ids := hb.ids
  courier j l hc := by
    rw [show (o.setJob n _).couriers j = none from hidle j] at hc
    cases hc
  spent job' hj' hl := by
    obtain rfl : job = job' := by simpa [setJob] using hj'
    exact hspent hl

/-- The queue starts an execution of the job. -/
theorem Budgeted.activate (hb : Budgeted n o) {i : ProcId} {job : Job} (hj : o.jobs n = some job)
    (hst : job.state = .waiting ∨ job.state = .delayed) :
    Budgeted n ((o.place i (some ⟨n, job.data, .read⟩)).setJob n (some { job with state := .active i })) where
  only m hm := mt (live_setJob hm).1 (hb.only m hm)
  ids := hb.ids
  courier j k hc := by
    by_cases hji : j = i
    · subst hji
      obtain rfl : _ = k := by simpa [setJob, place] using hc
      exact ⟨rfl, { job with state := .active j }, by simp [setJob], rfl, trivial⟩
    · obtain ⟨-, job', hj', hst', -⟩ := hb.courier j k (by simpa [setJob, place, hji] using hc)
      obtain rfl := Option.some.inj (hj.symm.trans hj')
      rcases hst with h | h <;> rw [h] at hst' <;> cases hst'
  spent job' hj' _ := by
    obtain rfl : _ = job' := by simpa [setJob] using hj'
    exact hb.spent job hj (by rcases hst with h | h <;> simp [Unsettled, h])

/-- A job that is over may be removed. -/
theorem live_evict {m : Nat} {job : Job} (hj : o.jobs m = some job) (hst : job.state = .completed ∨ job.state = .failed) :
    ∀ m', (o.setJob m none).Live m' ↔ o.Live m' := by
  intro m'
  by_cases hm' : m' = m
  · subst hm'
    refine iff_of_false (by simp [Live, setJob]) ?_
    rintro ⟨job', hj', hl⟩
    obtain rfl := Option.some.inj (hj.symm.trans hj')
    exact hst.elim hl.1 hl.2
  · exact live_setJob hm'

theorem Budgeted.evict (hb : Budgeted n o) {m : Nat} {job : Job} (hj : o.jobs m = some job)
    (hst : job.state = .completed ∨ job.state = .failed) : Budgeted n (o.setJob m none) := by
  have hsame := live_evict hj hst
  have hdead : ¬ o.Live m := mt (hsame m).2 (by simp [Live, setJob])
  refine ⟨fun m' hm' => mt (hsame m').1 (hb.only m' hm'), hb.ids, fun j l hc => ?_, fun job' hj' hl => ?_⟩
  · obtain ⟨hserial, job', hj', hst', hpt⟩ := hb.courier j l hc
    have hne : n ≠ m := by
      rintro rfl
      exact hdead ⟨job', hj', by simp [Unsettled, hst']⟩
    exact ⟨hserial, job', by simpa [setJob, hne] using hj', hst', hpt⟩
  · obtain ⟨job'', hj'', hl''⟩ := (hsame n).1 ⟨job', hj', hl⟩
    have hne : n ≠ m := by
      rintro rfl
      exact hdead ⟨job'', hj'', hl''⟩
    exact hb.spent job' (by simpa [setJob, hne] using hj') hl

/-- What holds where an execution ends is what the queue needs to run the job again. -/
theorem spent_settle {rows : List DeliveryRow} {job : Job} {result : Except Failure JobResult}
    (hstands : (WebhookPoint.ended result).stands rows job.attemptsMade) (hl : Unsettled (job.settle (!result.isOk))) :
    (job.settle (!result.isOk)).attemptsMade < attempts ∧ (job.settle (!result.isOk)).attemptsMade ≤ rows.length := by
  obtain ⟨hfailed, hlt, he⟩ := settle_unsettled hl
  rw [he]
  cases result with
  | ok v => cases hfailed
  | error e =>
    have hrows : if job.attemptsMade + 1 < attempts then job.attemptsMade < rows.length else Concluded rows := hstands
    rw [if_pos hlt] at hrows
    exact ⟨hlt, hrows⟩

/-- A job the queue does not run again was skipped or has a final delivery. -/
theorem concluded_settle {rows : List DeliveryRow} {job : Job} {result : Except Failure JobResult}
    (hstands : (WebhookPoint.ended result).stands rows job.attemptsMade) (hl : ¬ Unsettled (job.settle (!result.isOk))) :
    (∃ why, result = .ok (.skipped why)) ∨ Concluded rows := by
  cases result with
  | ok v =>
    cases v with
    | skipped why => exact .inl ⟨why, rfl⟩
    | _ => exact .inr hstands
  | error e =>
    have hrows : if job.attemptsMade + 1 < attempts then job.attemptsMade < rows.length else Concluded rows := hstands
    by_cases hlt : job.attemptsMade + 1 < attempts
    · refine absurd ?_ hl
      simp [Unsettled, Job.settle, hlt, Except.isOk, Except.toBool]
    · rw [if_neg hlt] at hrows
      exact .inr hrows

theorem GivesUp.of_live (hl : o.Live n) (hl' : o'.Live n) : GivesUp n o a o' :=
  ⟨fun _ hn => absurd hl' hn, fun hn => absurd hl hn⟩

theorem budgeted_step (hb : Budgeted n o) (h : Move d o a o') (hone : Alone n o a o') (hcov : Covered n o a o') :
    Budgeted n o' ∧ GivesUp n o a o' := by
  have hactive : ∀ {i k}, o.couriers i = some k → o.Live n := fun {i k} hk => by
    by_contra hn
    rw [hb.over hn i] at hk
    cases hk
  cases h with
  | other => exact ⟨hb, fun hl hn => absurd hl hn, fun hn => ⟨hn, rfl⟩⟩
  | @enqueue _ m t hm =>
    have hnone : (o.setJob m (some ⟨{ documentId := d, tenantId := t }, .waiting, 0⟩)).jobs m = none := hone.1 m hm
    simp [setJob] at hnone
  | @start i m draw job hi hj hst =>
    have hlive : Unsettled job := by rcases hst with h | h <;> simp [Unsettled, h]
    obtain rfl := hb.mine hj hlive
    refine ⟨hb.activate hj hst, .of_live ⟨job, hj, hlive⟩ ?_⟩
    exact ⟨{ job with state := .active i }, by simp [setJob], by simp [Unsettled]⟩
  | @step i answer k c r rows hk hall hpost =>
    obtain ⟨hserial, job, hj, hst, hpt⟩ := hb.courier i k hk
    obtain ⟨hlt, hle⟩ := hb.spent job hj (by simp [Unsettled, hst])
    have hmove := Move.step (d := d) hk hall hpost
    refine ⟨⟨hb.only, hmove.rows_ids hb.ids, fun j l hc => ?_, fun job' hj' hl => ?_⟩, .of_live (hactive hk) (hactive hk)⟩
    · by_cases hji : j = i
      · subst hji
        obtain rfl : _ = l := by simpa [place] using hc
        refine ⟨hserial, job, hj, hst, stands_next hpt hle hlt hall hpost fun e he => ?_⟩
        exact hcov j answer k _ job e rfl hk hc he hj
      · have hnone := hb.sole hj hst j hji
        simp [place, hji, hnone] at hc
    · exact (hb.spent job' hj' hl).imp_right (·.trans hmove.rows_length)
  | @finish i k result hk hpt =>
    obtain ⟨rfl, job, hj, hst, hstands⟩ := hb.courier i k hk
    rw [hpt] at hstands
    have hidle : ∀ j, (o.place i none).couriers j = none := by
      intro j
      by_cases hji : j = i
      · simp [place, hji]
      · simpa [place, hji] using hb.sole hj hst j hji
    have hplaced : Budgeted k.serial (o.place i none) :=
      ⟨hb.only, hb.ids, fun j l hc => hb.courier j l (place_none hc), hb.spent⟩
    rw [settle_active (o := o.place i none) hj hst]
    refine ⟨hplaced.replace hidle (spent_settle hstands), fun _ hn => ?_, fun hn => absurd (hactive hk) hn⟩
    have hover : ¬ Unsettled (job.settle (!result.isOk)) := fun hl => hn ⟨_, by simp [setJob], hl⟩
    rcases concluded_settle hstands hover with ⟨why, rfl⟩ | hc
    · exact .inl ⟨i, k, why, rfl, hk, hpt⟩
    · exact .inr hc
  | @crash i k hk =>
    exact ⟨⟨hb.only, hb.ids, fun j l hc => hb.courier j l (place_none hc), hb.spent⟩, .of_live (hactive hk) (hactive hk)⟩
  | @stall m job i hj hst =>
    have hlive : Unsettled job := by simp [Unsettled, hst]
    obtain rfl := hb.mine hj hlive
    refine ⟨hb.replace (hone.2 rfl) fun _ => hb.spent job hj hlive, .of_live ⟨job, hj, hlive⟩ ?_⟩
    exact ⟨{ job with state := .waiting }, by simp [setJob], by simp [Unsettled]⟩
  | @evict m job hj hst =>
    have hsame := live_evict hj hst n
    exact ⟨hb.evict hj hst, fun hl hn => absurd (hsame.2 hl) hn, fun hn => ⟨mt hsame.1 hn, rfl⟩⟩

theorem Fresh.budgeted (h : Fresh n o) : Budgeted n o where
  only := h.only
  ids := by rw [h.rows]; exact List.nodup_nil
  courier i k hk := by rw [h.idle i] at hk; cases hk
  spent job hj _ := by
    obtain ⟨data, hd⟩ := h.job
    obtain rfl := Option.some.inj (hd.symm.trans hj)
    exact ⟨Nat.zero_lt_succ _, Nat.zero_le _⟩

end Outbox

/-- In every run of the one webhook job of a document in which the failures before the delivery row
are covered by its rows and the last outcome is written, the queue gives the job up only when it
was skipped or the newest delivery has succeeded or is dead. -/
theorem delivery_concluded {c : Config} {d : Uuid} {n : Nat} {actions : List Action} (hc : Reachable c)
    (hfresh : (outbox c d).Fresh n)
    (halone : Along step (fun c a c' => (outbox c d).Alone n a (outbox c' d)) c actions)
    (hcovered : Along step (fun c a c' => (outbox c d).Covered n a (outbox c' d)) c actions) :
    Along step (fun c a c' => (outbox c d).GivesUp n a (outbox c' d)) c actions := by
  have both := along_and.2 ⟨halone, hcovered⟩
  exact along_of_invariant (I := fun c => Served c ∧ (outbox c d).Budgeted n)
    (fun _ _ _ hi hp h => ⟨step_served hi.1 h, (Outbox.budgeted_step hi.2 (step_outbox d hi.1 h) hp.1 hp.2).1⟩)
    (fun _ _ _ hi hp h => (Outbox.budgeted_step hi.2 (step_outbox d hi.1 h) hp.1 hp.2).2)
    ⟨reachable_served hc, hfresh.budgeted⟩ both

section Demo

/-- No webhook job is enqueued and none is taken for stalled. -/
def calm (c : Config) (a : Action) (c' : Config) : Bool :=
  decide (c'.world.serial = c.world.serial) && match a with
    | .stall _ => false
    | _ => true

theorem alone_of_calm {c c' : Config} {a : Action} {d : Uuid} {n : Nat} (hs : Served c) (h : step c a = some c')
    (hc : calm c a c' = true) : (outbox c d).Alone n a (outbox c' d) := by
  obtain ⟨hserial, ha⟩ := Bool.and_eq_true_iff.1 hc
  have hserial := of_decide_eq_true hserial
  refine ⟨fun m hm => ?_, ?_⟩
  · cases hj' : (outbox c' d).jobs m with
    | none => rfl
    | some j' =>
      obtain ⟨hj', hd⟩ := Option.filter_eq_some_iff.1 hj'
      rcases (step_serial hs.regular.valid h).2 m j' hj' with ⟨j, hj, hdata⟩ | ⟨hm', hlt⟩
      · have hsome : (outbox c d).jobs m = some j := Option.filter_eq_some_iff.2 ⟨hj, by rw [hdata]; exact hd⟩
        rw [hm] at hsome
        cases hsome
      · omega
  · rintro rfl
    cases ha

/-- Document 3 approved, with its webhook job 0 waiting. -/
theorem approved_fresh : ∃ c, run step demo demoApproved = some c ∧ Reachable c ∧ (outbox c 3).Fresh 0 := by
  have hrun : (run step demo demoApproved).map (fun c => (c.world.serial, (outbox c 3).rows, (outbox c 3).jobs 0,
      c.issued.all fun i => (c.procs i).isNone)) = some (1, [], some ⟨{ documentId := 3, tenantId := 1 }, .waiting, 0⟩, true) := by
    decide +kernel
  obtain ⟨c, hc, he⟩ := Option.map_eq_some_iff.1 hrun
  obtain ⟨hserial, hrows, hjob, hidle⟩ := Prod.mk.inj he |>.imp_right fun h => (Prod.mk.inj h).imp_right fun h => Prod.mk.inj h
  have hreach : Reachable c := ⟨_, _, demoApproved, hc⟩
  have hs := reachable_served hreach
  refine ⟨c, hc, hreach, hrows, fun i => ?_, ⟨_, hjob⟩, fun m hm => ?_⟩
  · have hnone := hs.regular.deserted hidle i
    simp [outbox, couriersOf, hnone]
  · rintro ⟨job, hj, -⟩
    simp [outbox, jobsOf, hs.unissued m (by omega)] at hj

theorem alone_of_calms {c : Config} {actions : List Action} (hc : run step demo demoApproved = some c)
    (h : (run step demo demoApproved).map (fun c => decide (Along step (fun c a c' => calm c a c' = true) c actions)) =
      some true) :
    Along step (fun c a c' => (outbox c 3).Alone 0 a (outbox c' 3)) c actions := by
  have hs : Served c := reachable_served ⟨_, _, _, hc⟩
  rw [hc, Option.map_some, Option.some.injEq, decide_eq_true_iff] at h
  exact along_of_invariant (fun _ _ _ hs _ h => step_served hs h) (fun _ _ _ hs hp h => alone_of_calm hs h hp) hs h

private def unread (id : ProcId) : List Action :=
  [.start id (.webhook 0) (id + 1), .step id (.throws (.other "connection refused")), .finish id]

private def refused (id : ProcId) : List Action :=
  [.start id (.webhook 0) (id + 1), .step id .execute, .step id .execute, .step id .execute,
    .step id (.response ⟨500, ""⟩), .step id .execute, .step id .execute]

private def skips : WebhookPoint → Bool
  | .ended (.ok (.skipped _)) => true
  | _ => false

private def undead : List Action := unread 40 ++ refused 42 ++ [.finish 42] ++ refused 44

/-- After an execution that cannot read the document and two requests that get a 500, the queue gives
the job up, and the newest delivery is `failed`. -/
theorem delivery_lost : ¬ ∀ (c : Config) (d : Uuid) (n : Nat) (actions : List Action), Reachable c →
    (outbox c d).Fresh n → Along step (fun c a c' => (outbox c d).Alone n a (outbox c' d)) c actions →
    Along step (fun c a c' => (outbox c d).GivesUp n a (outbox c' d)) c actions := by
  intro hclaim
  obtain ⟨c, hc, hreach, hfresh⟩ := approved_fresh
  have halone : Along step (fun c a c' => (outbox c 3).Alone 0 a (outbox c' 3)) c (undead ++ [.finish 44]) :=
    alone_of_calms hc (by decide +kernel)
  have hbefore : (run step demo (demoApproved ++ undead)).map (fun c => (((outbox c 3).jobs 0).map (·.state),
      ((outbox c 3).couriers 44).map (skips ·.point))) = some (some (.active 44), some false) := by decide +kernel
  have hafter : (run step demo (demoApproved ++ undead ++ [.finish 44])).map (fun c =>
      (((outbox c 3).jobs 0).map (·.state), (outbox c 3).rows.map (·.status))) =
      some (some .failed, [.failed, .failed]) := by decide +kernel
  obtain ⟨e, he, hend⟩ := Option.map_eq_some_iff.1 hafter
  obtain ⟨m, hm, hlast⟩ := run_snoc_some he
  rw [hm, Option.map_some, Option.some.injEq] at hbefore
  rw [run_append, hc, Option.bind_some] at hm
  obtain ⟨hactive, hpoint⟩ := Prod.mk.inj hbefore
  obtain ⟨hfailed, hrows⟩ := Prod.mk.inj hend
  obtain ⟨job, hj, hst⟩ := Option.map_eq_some_iff.1 hactive
  have hdead : ¬ (outbox e 3).Live 0 := by
    rintro ⟨job', hj', -, hf⟩
    rw [hj', Option.map_some, Option.some.injEq] at hfailed
    exact hf hfailed
  rcases (along_last (hclaim c 3 0 _ hreach hfresh halone) hm hlast).1 ⟨job, hj, by simp [Unsettled, hst]⟩ hdead with
    ⟨i, k, why, hi, hk, hpt⟩ | ⟨init, r, hr, hstatus⟩
  · obtain rfl := Action.finish.inj hi
    rw [hk, Option.map_some, hpt] at hpoint
    cases hpoint
  · have hnew : r.status = .failed := by simpa [hr] using congrArg List.getLast? hrows
    simp [hnew] at hstatus

/-- An execution that fails has written its outcome. -/
private def written (c : Config) (a : Action) (c' : Config) : Bool :=
  match a with
  | .step i _ =>
    match (outbox c 3).couriers i, (outbox c' 3).couriers i with
    | some ⟨_, _, .report _ _⟩, some _ => true
    | some _, some ⟨_, _, .ended (.error _)⟩ => false
    | _, _ => true
  | _ => true

private theorem covered_of_written {c c' : Config} {a : Action} (h : written c a c' = true) :
    (outbox c 3).Covered 0 a (outbox c' 3) := by
  rintro i answer ⟨serial, data, pt⟩ ⟨serial', data', pt'⟩ job e rfl hk hk' hpt' -
  obtain rfl : pt' = .ended (.error e) := hpt'
  simp only [written, hk, hk'] at h
  cases pt with
  | report m outcome => exact ⟨by rintro ⟨⟩, by rintro _ _ _ ⟨⟩⟩
  | _ => cases h

private def thrice : List Action :=
  refused 40 ++ [.finish 40] ++ refused 42 ++ [.finish 42] ++ refused 44 ++ [.finish 44]

/-- Three attempts that get a 500, the last of them dead. -/
theorem delivery_concluded_thrice : ∃ c e, run step demo demoApproved = some c ∧ run step c thrice = some e ∧
    (outbox e 3).rows.map (·.status) = [.failed, .failed, .deadLetter] ∧
    Along step (fun c a c' => (outbox c 3).GivesUp 0 a (outbox c' 3)) c thrice := by
  obtain ⟨c, hc, hreach, hfresh⟩ := approved_fresh
  have hrun : (run step demo (demoApproved ++ thrice)).map (fun e => (outbox e 3).rows.map (·.status)) =
      some [.failed, .failed, .deadLetter] := by decide +kernel
  have hwritten : (run step demo demoApproved).map (fun c =>
      decide (Along step (fun c a c' => written c a c' = true) c thrice)) = some true := by decide +kernel
  obtain ⟨e, he, hrows⟩ := Option.map_eq_some_iff.1 hrun
  rw [run_append, hc, Option.bind_some] at he
  rw [hc, Option.map_some, Option.some.injEq, decide_eq_true_iff] at hwritten
  exact ⟨c, e, hc, he, hrows, delivery_concluded hreach hfresh (alone_of_calms hc (by decide +kernel))
    (along_mono (fun _ _ _ h => covered_of_written h) hwritten)⟩

end Demo
end DocAuto.Webhook
