import DocAuto.Webhook.Outbox

/-! The numbers of the delivery attempts of a document. An execution numbers its attempt by the
rows it counts in one transaction and inserts the row in another. -/
namespace DocAuto.Webhook
open Process Database Pipeline

namespace Outbox
variable {d : Uuid} {o o' : Outbox} {a : Action}

/-- The rows carry the numbers from 1 on, each once. -/
def Numbered (o : Outbox) : Prop := (o.rows.map (·.attempt)).Perm (List.range' 1 o.rows.length)

/-- A move leaves the rows, writes the outcome of one, or adds the row of an attempt. -/
theorem Move.rows (h : Move d o a o') : o'.rows = o.rows ∨
    ∃ i answer k, a = .step i answer ∧ o.couriers i = some k ∧
      ((∃ n id outcome now, k.point = .record n id outcome ∧
          o'.rows = o.rows.map fun x => if x.id = id then (outcomeSet n outcome).apply now x else x) ∨
        ∃ s n payload id, k.point = .insert s n payload ∧ (∀ x ∈ o.rows, x.id ≠ id) ∧
          o'.rows = o.rows ++ [deliveryRow k.job (n + 1) id]) := by
  cases h with
  | @step i answer k c r rows hk hall hpost =>
    cases hpt : k.point with
    | insert s n payload =>
      rw [hpt] at hall
      obtain ⟨id, rfl⟩ := hall
      cases answer with
      | throws e => exact .inl (hpost.of_error hpost.1)
      | _ =>
        rcases hpost with ⟨-, hrows⟩ | ⟨-, hnew, hrows⟩
        · exact .inl hrows
        · exact .inr ⟨i, _, k, rfl, hk, .inr ⟨s, n, payload, id, hpt, hnew, hrows⟩⟩
    | record n id outcome =>
      rw [hpt] at hall
      obtain rfl := hall
      cases answer with
      | throws e => exact .inl (hpost.of_error hpost.1)
      | _ =>
        obtain ⟨-, now, hrows⟩ := hpost
        exact .inr ⟨i, _, k, rfl, hk, .inl ⟨n, id, outcome, now, hpt, hrows⟩⟩
    | ended result => rw [hpt] at hall; exact hall.elim
    | _ =>
      -- the other points issue no command that writes a delivery
      rw [hpt] at hall
      obtain rfl := hall
      exact .inl (hpost.of_quiet (by rintro _ _ ⟨⟩) (by rintro _ _ _ ⟨⟩))
  | finish _ _ =>
    refine .inl ?_
    unfold Outbox.settle
    repeat' split
    all_goals rfl
  | _ => exact .inl rfl

/-- Rows are never deleted. -/
theorem Move.rows_length (h : Move d o a o') : o.rows.length ≤ o'.rows.length := by
  rcases h.rows with he | ⟨i, answer, k, -, -, ⟨n, id, outcome, now, -, he⟩ | ⟨s, n, payload, id, -, -, he⟩⟩ <;> rw [he]
  · rw [List.length_map]
  · rw [List.length_append]
    exact Nat.le_add_right _ _

/-- A new row has a new id. -/
theorem Move.rows_ids (h : Move d o a o') (hids : Table.Keyed (·.id) o.rows) : Table.Keyed (·.id) o'.rows := by
  rcases h.rows with he | ⟨i, answer, k, -, -, ⟨n, id, outcome, now, -, he⟩ | ⟨s, n, payload, id, -, hnew, he⟩⟩ <;> rw [he]
  · exact hids
  · refine hids.map fun x => ?_
    split <;> rfl
  · exact hids.concat (Table.lookup_eq_none.2 hnew)

theorem numbered_concat {r : DeliveryRow} {rows : List DeliveryRow}
    (h : (rows.map (·.attempt)).Perm (List.range' 1 rows.length)) :
    ((rows ++ [r]).map (·.attempt)).Perm (List.range' 1 (rows ++ [r]).length) ↔ r.attempt = rows.length + 1 := by
  rw [List.map_append, List.length_append, List.length_singleton, List.range'_1_concat]
  have hswap : (rows.map (·.attempt) ++ [r.attempt]).Perm (List.range' 1 rows.length ++ [r.attempt]) :=
    h.append_right _
  rw [show List.map (·.attempt) [r] = [r.attempt] from rfl, hswap.congr_left, List.perm_append_left_iff,
    List.singleton_perm_singleton, Nat.add_comm]

theorem attempts_map {rows : List DeliveryRow} {id : Uuid} {set : DeliveriesSet} {now : Timestamp} :
    (rows.map fun x => if x.id = id then set.apply now x else x).map (·.attempt) = rows.map (·.attempt) := by
  rw [List.map_map]
  refine List.map_congr_left fun x _ => ?_
  simp only [Function.comp_apply]
  split <;> rfl

end Outbox

/-- An execution that adds a row finds as many rows as it has counted. -/
def Current (d : Uuid) (c : Config) (a : Action) (c' : Config) : Prop :=
  ∀ i answer k s n payload, a = .step i answer → (outbox c d).couriers i = some k → k.point = .insert s n payload →
    (outbox c' d).rows ≠ (outbox c d).rows → (outbox c d).rows.length = n

theorem step_numbered {d : Uuid} {c c' : Config} {a : Action} (hs : Served c) (hn : (outbox c d).Numbered)
    (h : step c a = some c') : (outbox c' d).Numbered ↔ Current d c a c' := by
  rcases (step_outbox d hs h).rows with he | ⟨i, answer, k, rfl, hk, ⟨n, id, outcome, now, hpt, he⟩ |
    ⟨s, n, payload, id, hpt, -, he⟩⟩
  · refine iff_of_true ?_ fun _ _ _ _ _ _ _ _ _ hne => absurd he hne
    rwa [Outbox.Numbered, he]
  · refine iff_of_true ?_ ?_
    · rwa [Outbox.Numbered, he, Outbox.attempts_map, List.length_map]
    · rintro _ _ k' s n' payload ⟨⟩ hk' hpt' -
      obtain rfl := Option.some.inj (hk.symm.trans hk')
      rw [hpt] at hpt'
      cases hpt'
  · rw [Outbox.Numbered, he, Outbox.numbered_concat hn]
    constructor
    · rintro hattempt _ _ k' s' n' payload' ⟨⟩ hk' hpt' -
      obtain rfl := Option.some.inj (hk.symm.trans hk')
      rw [hpt] at hpt'
      cases hpt'
      exact (Nat.add_right_cancel hattempt).symm
    · intro hc
      have hne : (outbox c' d).rows ≠ (outbox c d).rows := by simp [he]
      exact congrArg (· + 1) (hc i answer k s n payload rfl hk hpt hne).symm

/-- The attempts of a document are numbered without gaps and repetitions in every state of a run
exactly when no row is added between the count of an execution and its own insertion. -/
theorem attempts_numbered_iff (d : Uuid) {tenants : List TenantRow} {users : List UserRow} {actions : List Action} :
    Along step (fun _ _ c' => (outbox c' d).Numbered) (initial tenants users) actions ↔
      Along step (Current d) (initial tenants users) actions := by
  refine along_iff (I := fun c => Served c ∧ (outbox c d).Numbered) (fun _ _ _ hc hd h => ⟨step_served hc.1 h, hd⟩)
    (fun _ _ _ hc h => step_numbered hc.1 hc.2 h) ⟨initial_served tenants users, List.Perm.refl _⟩

/-- The number of rows an execution has counted and goes by. -/
def WebhookPoint.existing : WebhookPoint → Option Nat
  | .reason _ existingAttempts | .insert _ existingAttempts _ => some existingAttempts
  | _ => none

/-- Executions of webhook jobs for the document run one after the other. -/
def OneAtATime (d : Uuid) (c : Config) (a : Action) (_ : Config) : Prop :=
  ∀ i n draw, a = .start i (.webhook n) draw → ((outbox c d).jobs n).isSome → ∀ j, (outbox c d).couriers j = none

namespace Outbox
variable {d : Uuid} {o o' : Outbox} {a : Action}

/-- Rows numbered in the order of their insertion, and one execution at most, with a true count. -/
structure Sequential (o : Outbox) : Prop where
  attempts : o.rows.map (·.attempt) = List.range' 1 o.rows.length
  alone : ∀ i j k l, o.couriers i = some k → o.couriers j = some l → i = j
  counts : ∀ i k n, o.couriers i = some k → k.point.existing = some n → n = o.rows.length

/-- The count an execution goes by is the one it has just read, or the one it went by before. -/
theorem existing_next {k : Courier} {c : Cmd} {answer : Answer} {r : Except Failure c.Resp} {rows rows' : List DeliveryRow}
    {n : Nat} (hall : k.point.allows k.job c) (hpost : Posting rows c answer r rows')
    (hn : (k.point.next k.job c r).existing = some n) :
    rows' = rows ∧ (n = rows.length ∨ k.point.existing = some n) := by
  have herr : ∀ {e : Failure}, (WebhookPoint.ended (.error e)).existing ≠ some n := by rintro _ ⟨⟩
  rcases hpt : k.point with _ | s | ⟨s, m⟩ | ⟨s, m, payload⟩ | ⟨s, m, payload, id⟩ | ⟨m, id, outcome⟩ | ⟨m, outcome⟩ | result <;>
    rw [hpt] at hall hn
  · obtain rfl := hall
    rcases r with e | ⟨found, tenant⟩
    · cases hn
    · rcases WebhookPoint.next_read k.job k.job.tenantId k.job.documentId found tenant with ⟨s, -, hs⟩ | ⟨why, -, hs⟩ <;>
        rw [hs] at hn <;> cases hn
  · obtain rfl := hall
    rcases r with e | m
    · cases hn
    · have hm : (WebhookPoint.counted k.job s m).existing = some m := by
        unfold WebhookPoint.counted
        split <;> rfl
      obtain rfl := Option.some.inj (hm.symm.trans hn)
      cases answer with
      | throws e => cases hpost.1
      | _ => exact ⟨hpost.2, .inl (Except.ok.inj hpost.1)⟩
  · obtain rfl := hall
    rcases r with e | auditLog
    · cases hn
    · exact ⟨hpost.of_quiet (by rintro _ _ ⟨⟩) (by rintro _ _ _ ⟨⟩), .inr hn⟩
  · obtain ⟨id, rfl⟩ := hall
    cases r <;> cases hn
  · obtain rfl := hall
    cases r <;> cases hn
  · obtain rfl := hall
    cases r <;> cases hn
  · obtain rfl := hall
    cases r <;> cases hn
  · exact hall.elim

theorem settle_rows (o : Outbox) (i : ProcId) (n : Nat) (failed : Bool) : (o.settle i n failed).rows = o.rows := by
  unfold settle
  repeat' split
  all_goals rfl

theorem settle_couriers (o : Outbox) (i : ProcId) (n : Nat) (failed : Bool) :
    (o.settle i n failed).couriers = o.couriers := by
  unfold settle
  repeat' split
  all_goals rfl

/-- Fewer executions, and the same rows. -/
theorem Sequential.mono (hs : Sequential o) (hrows : o'.rows = o.rows)
    (hc : ∀ i k, o'.couriers i = some k → o.couriers i = some k) : Sequential o' where
  attempts := by rw [hrows]; exact hs.attempts
  alone i j k l hi hj := hs.alone i j k l (hc i k hi) (hc j l hj)
  counts i k n hi hn := by rw [hrows]; exact hs.counts i k n (hc i k hi) hn

theorem place_none {i : ProcId} {j : ProcId} {k : Courier} (h : (o.place i none).couriers j = some k) :
    o.couriers j = some k := by
  by_cases hj : j = i
  · subst hj
    simp [place] at h
  · simpa [place, hj] using h

theorem sequential_step (hs : Sequential o) (h : Move d o a o')
    (hone : ∀ i n draw, a = .start i (.webhook n) draw → (o.jobs n).isSome → ∀ j, o.couriers j = none) :
    Sequential o' := by
  cases h with
  | other => exact hs
  | enqueue _ | stall _ _ | evict _ _ => exact hs.mono rfl fun _ _ h => h
  | crash _ => exact hs.mono rfl fun _ _ h => place_none h
  | finish _ _ =>
    refine hs.mono (settle_rows _ _ _ _) fun j k h => ?_
    rw [settle_couriers] at h
    exact place_none h
  | @start i n draw job hi hj hst =>
    have hnone := hone i n draw rfl (by simp [hj])
    have honly : ∀ j k, ((o.place i (some ⟨n, job.data, .read⟩)).setJob n (some { job with state := .active i })).couriers j =
        some k → j = i ∧ k = ⟨n, job.data, .read⟩ := by
      intro j k h
      by_cases hji : j = i
      · subst hji
        exact ⟨rfl, by simpa [place, setJob] using h.symm⟩
      · simp [place, setJob, hji, hnone] at h
    refine ⟨hs.attempts, fun j j' k l hj hj' => (honly j k hj).1.trans (honly j' l hj').1.symm, fun j k m hj hm => ?_⟩
    obtain ⟨-, rfl⟩ := honly j k hj
    cases hm
  | @step i answer k c r rows hk hall hpost =>
    have honly : ∀ j l, (({ o with rows := rows } : Outbox).place i (some { k with point := k.point.next k.job c r })).couriers j =
        some l → j = i ∧ l = { k with point := k.point.next k.job c r } := by
      intro j l h
      by_cases hji : j = i
      · subst hji
        exact ⟨rfl, by simpa [place] using h.symm⟩
      · exact absurd (hs.alone j i l k (by simpa [place, hji] using h) hk) hji
    refine ⟨?_, fun j j' l m hj hj' => (honly j l hj).1.trans (honly j' m hj').1.symm, fun j l n hj hn => ?_⟩
    · rcases (Move.step (d := d) hk hall hpost).rows with he | ⟨_, _, k', ⟨⟩, hk', ⟨n, id, outcome, now, -, he⟩ |
        ⟨s, n, payload, id, hpt, -, he⟩⟩
      · rw [he]
        exact hs.attempts
      · rw [he, attempts_map, List.length_map]
        exact hs.attempts
      · obtain rfl := hs.counts i k' n hk' (by rw [hpt]; rfl)
        rw [he, List.map_append, hs.attempts, List.length_append, List.length_singleton, List.range'_1_concat, Nat.add_comm]
        rfl
    · obtain ⟨rfl, rfl⟩ := honly j l hj
      obtain ⟨hrows, hold⟩ := existing_next hall hpost hn
      exact (hold.elim id (hs.counts _ k n hk)).trans (congrArg List.length hrows).symm

end Outbox

/-- An outcome is written to the row of its attempt: `dead_letter` for a failure from attempt
`WEBHOOK_MAX_ATTEMPTS` on, `failed` for an earlier one. -/
def Recorded (d : Uuid) (c : Config) (a : Action) (c' : Config) : Prop :=
  ∀ i k n id outcome, a = .step i .execute → (outbox c d).couriers i = some k → k.point = .record n id outcome →
    ∃ r ∈ (outbox c' d).rows, r.id = id ∧ r.attempt = n ∧ r.status = verdict n outcome

/-- A row marked as a failure has a number that fits the mark. -/
def Graded (r : DeliveryRow) : Prop :=
  (r.status = .deadLetter → webhookMaxAttempts ≤ r.attempt) ∧ (r.status = .failed → r.attempt < webhookMaxAttempts)

section Run
variable {d : Uuid} {c c' : Config} {a : Action}

/-- The row an execution writes its outcome to. -/
theorem recorded_row (hs : Served c) {i : ProcId} {k : Courier} {n : Nat} {id : Uuid} {outcome : Delivery}
    (hk : (outbox c d).couriers i = some k) (hpt : k.point = .record n id outcome) :
    (∃ r ∈ (outbox c d).rows, r.id = id) ∧ ∀ r ∈ (outbox c d).rows, r.id = id → r.attempt = n := by
  obtain ⟨p, hp, hcour, hd⟩ := couriersOf_inv hk
  have hpl := hs.placed i p k hp hcour
  rw [hpt] at hpl
  obtain ⟨x, hx, hxid, hxd, -, hxn⟩ := hpl
  refine ⟨⟨x, List.mem_filter.2 ⟨hx, by simpa [hxd] using hd⟩, hxid⟩, fun r hr hid => ?_⟩
  obtain rfl : r = x := List.inj_on_of_nodup_map hs.keyed (List.mem_of_mem_filter hr) hx (hid.trans hxid.symm)
  exact hxn

theorem graded_verdict (n : Nat) (outcome : Delivery) :
    (verdict n outcome = .deadLetter → webhookMaxAttempts ≤ n) ∧ (verdict n outcome = .failed → n < webhookMaxAttempts) := by
  unfold verdict isFinalAttempt
  by_cases hs : succeeded outcome <;> by_cases hn : webhookMaxAttempts ≤ n <;> simp [hs, hn]
  omega

theorem step_graded (hs : Served c) (hg : ∀ r ∈ (outbox c d).rows, Graded r) (h : step c a = some c') :
    ∀ r ∈ (outbox c' d).rows, Graded r := by
  intro r hr
  rcases (step_outbox d hs h).rows with he | ⟨i, answer, k, rfl, hk, ⟨n, id, outcome, now, hpt, he⟩ |
    ⟨s, n, payload, id, -, -, he⟩⟩ <;> rw [he] at hr
  · exact hg r hr
  · obtain ⟨x, hx, rfl⟩ := List.mem_map.1 hr
    split
    · next hid =>
      have hn := (recorded_row hs hk hpt).2 x hx hid
      subst hn
      exact graded_verdict x.attempt outcome
    · exact hg x hx
  · rcases List.mem_append.1 hr with hr | hr
    · exact hg r hr
    · obtain rfl := List.mem_singleton.1 hr
      exact ⟨by rintro ⟨⟩, by rintro ⟨⟩⟩

theorem step_recorded (hs : Served c) (h : step c a = some c') : Recorded d c a c' := by
  rintro i k n id outcome rfl hk hpt
  obtain ⟨⟨x, hx, hid⟩, hn⟩ := recorded_row hs hk hpt
  obtain ⟨q, hq, hcour, hd⟩ := couriersOf_inv hk
  obtain ⟨p, cmd, next, r, w, hp, hc, he, rfl⟩ := step_advance h
  obtain rfl := Option.some.inj (hp.symm.trans hq)
  have hall := courier_allows (hs.follows i p hp) hcour hc
  rw [hpt] at hall
  obtain rfl := hall
  obtain ⟨-, now, hrows⟩ := step_posting hs hp hcour hd hc he
  refine ⟨(outcomeSet n outcome).apply now x, ?_, hid, hn x hx hid, rfl⟩
  show _ ∈ w.db.webhookDeliveries.filter fun r => r.documentId == d
  rw [hrows]
  exact List.mem_map.2 ⟨x, hx, if_pos hid⟩

/-- In every history of a document whose webhook jobs run one at a time, the attempts made from a
state on are numbered from one more than the attempts made before it, and a failed attempt is
marked by its number alone. -/
theorem attempts_consecutive (tenants : List TenantRow) (users : List UserRow) (before after : List Action)
    (hc : run step (initial tenants users) before = some c) (hc' : run step c after = some c')
    (hone : Along step (OneAtATime d) (initial tenants users) (before ++ after)) :
    (outbox c' d).rows.map (·.attempt) = (outbox c d).rows.map (·.attempt) ++
        List.range' ((outbox c d).rows.length + 1) ((outbox c' d).rows.length - (outbox c d).rows.length) ∧
      (∀ r ∈ (outbox c' d).rows, Graded r) ∧
      Along step (Recorded d) (initial tenants users) (before ++ after) := by
  obtain ⟨hone, hone'⟩ := (along_append hc).1 hone
  have keep : ∀ c a c', Served c ∧ (outbox c d).Sequential → OneAtATime d c a c' → step c a = some c' →
      Served c' ∧ (outbox c' d).Sequential := fun c a c' hi ho h =>
    ⟨step_served hi.1 h, Outbox.sequential_step hi.2 (step_outbox d hi.1 h) ho⟩
  have hstart : Served (initial tenants users) ∧ (outbox (initial tenants users) d).Sequential :=
    ⟨initial_served tenants users, rfl, by rintro _ _ _ _ ⟨⟩, by rintro _ _ _ ⟨⟩⟩
  have hmid := run_invariant keep hstart hone hc
  have hend := run_invariant keep hmid hone' hc'
  have hlen : (outbox c d).rows.length ≤ (outbox c' d).rows.length :=
    (run_inductive (I := fun e => Served e ∧ (outbox c d).rows.length ≤ (outbox e d).rows.length)
      (fun _ _ _ hi h => ⟨step_served hi.1 h, hi.2.trans (step_outbox d hi.1 h).rows_length⟩) ⟨hmid.1, le_rfl⟩ hc').2
  have hgraded : Served c' ∧ ∀ r ∈ (outbox c' d).rows, Graded r :=
    run_inductive (I := fun e => Served e ∧ ∀ r ∈ (outbox e d).rows, Graded r)
      (fun _ _ _ hi h => ⟨step_served hi.1 h, step_graded hi.1 hi.2 h⟩)
      ⟨initial_served tenants users, by rintro _ ⟨⟩⟩ (by rw [run_append, hc]; exact hc' : run step _ (before ++ after) = some c')
  refine ⟨?_, hgraded.2, along_of_inductive (fun _ _ _ hs h => step_served hs h) (fun _ _ _ hs h => step_recorded hs h)
    (initial_served tenants users)⟩
  rw [hend.2.attempts, hmid.2.attempts, ← Nat.add_comm 1, List.range'_append_1, Nat.add_sub_cancel' hlen]

end Run

section Demo

instance (o : Outbox) : Decidable o.Numbered := inferInstanceAs (Decidable (List.Perm _ _))

/-- Document 3 of the demonstration is approved by a confident extraction; webhook job 0 is enqueued. -/
def demoApproved : List Action :=
  demoUpload ++ demoOcr .initial 20 "text" ++ [.finish 20] ++ demoExtraction .initial 30 (demoResult 10 (99 / 100)) ++
    [.step 30 .execute, .step 30 .execute, .step 30 .execute, .finish 30]

/-- The job is taken for stalled and run again while its execution goes on. -/
def stalledTwins : List Action :=
  [.start 40 (.webhook 0) 41, .step 40 .execute, .step 40 .execute, .stall (.webhook 0),
    .start 42 (.webhook 0) 43, .step 42 .execute, .step 42 .execute, .step 40 .execute, .step 42 .execute]

/-- Both attempts get the number 1. -/
theorem attempts_repeated :
    (run step demo (demoApproved ++ stalledTwins)).map (fun c => (outbox c 3).rows.map (·.attempt)) = some [1, 1] ∧
      ¬ Along step (fun _ _ c' => (outbox c' 3).Numbered) demo (demoApproved ++ stalledTwins) := by
  decide +kernel

/-- A first extraction is rejected after review; its webhook job 0 delivers at once. -/
def firstCycle : List Action :=
  demoUpload ++ demoOcr .initial 20 "text" ++ [.finish 20] ++ demoExtraction .initial 30 (demoResult 10 (1 / 2)) ++
    [.step 30 .execute, .step 30 .execute, .finish 30,
      .call 40 (.reject 1 3 2 "blurred"), .step 40 .execute, .step 40 .execute, .step 40 .execute, .finish 40,
      .start 50 (.webhook 0) 51, .step 50 .execute, .step 50 .execute, .step 50 .execute, .step 50 .execute,
      .step 50 (.response ⟨200, ""⟩), .step 50 .execute, .step 50 .execute, .finish 50]

/-- An attempt of job 1 whose request times out. -/
def timedOut (id : ProcId) : List Action :=
  [.start id (.webhook 1) (id + 1), .step id .execute, .step id .execute, .step id .execute,
    .step id (.throws (.other "timeout")), .step id .execute, .step id .execute, .finish id]

/-- The document is reprocessed and approved; two attempts of its webhook job 1 fail. -/
def secondCycle : List Action :=
  [.call 60 (.reprocess 1 3 2 61), .step 60 .execute, .step 60 .execute, .finish 60] ++
    demoOcr (.reprocess 61) 70 "text" ++ [.finish 70] ++ demoExtraction (.reprocess 61) 80 (demoResult 10 (99 / 100)) ++
    [.step 80 .execute, .step 80 .execute, .step 80 .execute, .finish 80] ++ timedOut 90 ++ timedOut 100

/-- The attempts for the approval get the numbers 2 and 3, and the second is dead. -/
theorem budget_shared :
    (run step demo firstCycle).map (fun c => (outbox c 3).rows.map fun r => (r.attempt, r.status)) =
        some [(1, .success)] ∧
      (run step demo (firstCycle ++ secondCycle)).map
          (fun c => (c.status 3, (outbox c 3).rows.map fun r => (r.attempt, r.status))) =
        some (some .approved, [(1, .success), (2, .failed), (3, .deadLetter)]) := by
  decide +kernel

/-- No webhook execution for document 3 is in flight when one is started. -/
private def startsAlone (c : Config) (a : Action) (_ : Config) : Bool :=
  match a with
  | .start _ (.webhook _) _ => c.issued.all fun i => ((outbox c 3).couriers i).isNone
  | _ => true

private theorem alone_of_starts {c c' : Config} {a : Action} (hs : Served c) (h : startsAlone c a c' = true) :
    OneAtATime 3 c a c' := by
  rintro i n draw rfl - j
  cases hj : (outbox c 3).couriers j with
  | none => rfl
  | some k =>
    have hnone := List.all_eq_true.1 h j (courier_issued hs hj)
    rw [hj] at hnone
    cases hnone

/-- The two cycles above: attempt 1 before the second, attempts 2 and 3 in it. -/
theorem attempts_consecutive_cycles : ∃ c c', run step demo firstCycle = some c ∧ run step c secondCycle = some c' ∧
    (outbox c' 3).rows.map (·.attempt) = (outbox c 3).rows.map (·.attempt) ++
      List.range' ((outbox c 3).rows.length + 1) ((outbox c' 3).rows.length - (outbox c 3).rows.length) := by
  obtain ⟨c, hc⟩ := Option.isSome_iff_exists.1 (show (run step demo firstCycle).isSome = true by decide +kernel)
  obtain ⟨c', hc'⟩ := Option.isSome_iff_exists.1
    (show (run step demo (firstCycle ++ secondCycle)).isSome = true by decide +kernel)
  rw [run_append, hc, Option.bind_some] at hc'
  have hstarts : Along step (fun c a c' => startsAlone c a c' = true) demo (firstCycle ++ secondCycle) := by
    decide +kernel
  have hone : Along step (OneAtATime 3) demo (firstCycle ++ secondCycle) :=
    along_of_invariant (fun _ _ _ hs _ h => step_served hs h) (fun _ _ _ hs hp _ => alone_of_starts hs hp)
      (initial_served _ _) hstarts
  exact ⟨c, c', hc, hc', (attempts_consecutive _ _ _ _ hc hc' hone).1⟩

end Demo
end DocAuto.Webhook
