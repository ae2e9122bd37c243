import DocAuto.Pipeline.Provenance
import DocAuto.Pipeline.Trail
import DocAuto.Tenancy.Operations

/-! The processes of a running system, each at the work of its tenant. -/
namespace DocAuto
open Process Database Pipeline

/-- The tenant for which a process works. -/
def Pipeline.Owner.tenantId : Owner → Uuid
  | .api call => call.tenantId
  | .job _ data => data.tenantId

/-- The user in whose name it writes. -/
def Pipeline.Owner.actorId : Owner → Option Uuid
  | .api call => call.actorId
  | .job _ _ => none

/-- What a command does, answer by answer. -/
inductive Pipeline.Cmd.Executed : (cmd : Cmd) → Answer → World → Except Failure cmd.Resp → World → Prop
  | threw {cmd e w} : Executed cmd (.throws e) w (.error e) w
  | ran {x w} : Executed (.tx x) .execute w (x.run true w.db).1 { w with db := (x.run true w.db).2 }
  | added {data j w} : Executed (.queueAdd data j) .execute w (.ok ()) (w.add j data)
  | announced {d t w} : Executed (.webhookQueueAdd d t) .execute w (.ok ())
      { w.add (.webhook w.serial) { documentId := d, tenantId := t } with serial := w.serial + 1 }
  | answered {cmd answer w r} : (∀ x, cmd ≠ .tx x) → (∀ v, cmd.exec answer v = some (r, v)) → Executed cmd answer w r w

theorem Pipeline.Cmd.exec_executed {cmd : Cmd} {answer : Answer} {w w' : World} {r : Except Failure cmd.Resp}
    (h : cmd.exec answer w = some (r, w')) : cmd.Executed answer w r w' := by
  unfold Cmd.exec at h
  split at h <;> simp only [Option.some.injEq, Prod.mk.injEq, reduceCtorEq] at h <;> obtain ⟨rfl, rfl⟩ := h
  case h_1 => exact .threw
  case h_2 => exact .ran
  case h_3 => exact .added
  case h_4 => exact .announced
  all_goals exact .answered (by rintro x ⟨⟩) fun _ => rfl

namespace Tenancy

/-- The operation that a process runs. -/
def operation (draw : Uuid) : Owner → Operation
  | .api call => .api call
  | .job (.ocr _ _) data => .ocr data
  | .job (.extraction _ _) data => .extraction data
  | .job (.webhook _) data => .webhook data draw

section Operation
variable {draw : Uuid}

theorem operation_tenantId (o : Owner) : (operation draw o).tenantId = o.tenantId := by
  cases o with
  | api call => cases call <;> rfl
  | job j data => cases j <;> rfl

theorem operation_actor (o : Owner) : (operation draw o).actor = o.actorId := by
  cases o with
  | api call => cases call <;> rfl
  | job j data => cases j <;> rfl

theorem processor_run (j : JobId) (data : JobData) : processor j data draw = (operation draw (.job j data)).run.void := by
  cases j <;> rfl

/-- What the operation of a process draws is among what the process has drawn. -/
theorem operation_draw {o : Owner} {u : Uuid} (h : (operation draw o).draw = some u) :
    (∃ call, o = .api call ∧ u ∈ call.draws) ∨ (∃ j data, o = .job j data) ∧ u = draw := by
  cases o with
  | api call =>
    cases call <;> cases h
    exact .inl ⟨_, rfl, List.mem_singleton_self _⟩
  | job j data =>
    cases j <;> cases h
    exact .inr ⟨⟨_, _, rfl⟩, rfl⟩

end Operation

/-- A process keeps to its tenant; what it knows is so, and the UUID it will use for a row is its own. -/
structure Resident (c : Config) (p : Activity) (draw : Uuid) (k : Knowledge) : Prop where
  conducts : (conduct true p.owner.tenantId draw p.owner.actorId).wp (fun _ _ => True) p.program k
  sees : Sees p.owner.tenantId draw p.owner.actorId k c.world.db (own p.owner.tenantId c.world.db)
  drawn : k.spent = false → draw ∈ c.issued

structure Residents (c : Config) (draw : ProcId → Uuid) (k : ProcId → Knowledge) : Prop where
  resident : ∀ i p, c.procs i = some p → Resident c p (draw i) (k i)
  apart : ∀ i j p q, c.procs i = some p → c.procs j = some q → (k i).spent = false → (k j).spent = false →
    draw i = draw j → i = j

/-- A call is made for a user of its tenant, as the access token says. -/
def Employed (c : Config) (a : Action) (_ : Config) : Prop :=
  ∀ id call u, a = .call id call → call.actorId = some u → ∃ r ∈ c.world.db.users, r.id = u ∧ r.tenantId = call.tenantId

section Step
variable {c c' : Config} {a : Action} {draw : ProcId → Uuid} {k : ProcId → Knowledge} {t d : Uuid}

/-- Documents, by their records. -/
theorem ownsDocument_iff {db : Db} (hs : db.Sound) : db.ownsDocument t d ↔ ∃ r, db.record d = some r ∧ r.row.tenantId = t := by
  constructor
  · intro h
    obtain ⟨row, hrow, hkey⟩ := List.any_eq_true.1 h
    obtain ⟨rfl, rfl⟩ : row.id = d ∧ row.tenantId = t := by simpa using hkey
    exact ⟨_, record_of_document hs hrow, rfl⟩
  · rintro ⟨r, hr, rfl⟩
    exact List.any_eq_true.2 ⟨r.row, (mem_of_record hr).1, by simp [Db.id_of_record hr]⟩

theorem step_owns (hc : Reachable c) (h : step c a = some c') (ho : c.world.db.ownsDocument t d) : c'.world.db.ownsDocument t d := by
  have hv := hc.regular.valid
  have hv' := (step_regular c a c' hc.regular h).valid
  obtain ⟨r, hr, rfl⟩ := (ownsDocument_iff hv.sound).1 ho
  obtain ⟨r', hr', horigin, -⟩ := step_recorded hc.regular h hr
  exact (ownsDocument_iff hv'.sound).2 ⟨r', hr', congrArg Origin.tenantId horigin⟩

theorem document_issued (hc : Reachable c) {row : DocumentRow} (hrow : row ∈ c.world.db.documents) : row.id ∈ c.issued := by
  by_contra hn
  have hunborn : c.world.db.record row.id = none := ((hc.regular.standing row.id).born.unborn hn).1
  rw [record_of_document hc.regular.valid.sound hrow] at hunborn
  cases hunborn

theorem Sees.seen {u : Uuid} {actor : Option Uuid} {l : Knowledge} {db o : Db} (h : Sees t u actor l db o) :
    Sees t u actor l db (own t db) := h.view ▸ h

private theorem step_unused (hc : Reachable c) (hr : Residents c draw k) (h : step c a = some c') {j : ProcId} {q : Activity}
    (hq : c.procs j = some q) (hk : (k j).spent = false) (hj : a.actor ≠ some j) :
    (∀ r ∈ c'.world.db.documents, r.id ≠ draw j) ∧ ∀ r ∈ c'.world.db.webhookDeliveries, r.id ≠ draw j := by
  obtain ⟨hdoc, hdel⟩ := (hr.resident j q hq).sees.fresh hk
  have hv := hc.regular.valid
  have hsound := (step_regular c a c' hc.regular h).valid.sound
  refine ⟨fun row hrow he => ?_, fun row hrow he => ?_⟩
  · have hrec : c'.world.db.record row.id = some _ := record_of_document hsound hrow
    rcases step_record (d := row.id) hv h with hsame | ⟨i, p, t, next, now, rfl, hp, hprog, -, hafter, -⟩
    · obtain ⟨hmem, -⟩ := mem_of_record (hsame.symm.trans hrec : c.world.db.record row.id = _)
      exact hdoc row hmem he
    · have hall := (hr.resident i p hp).conducts
      rw [hprog] at hall
      cases hold : c.world.db.record row.id with
      | some r => exact hdoc r.row (mem_of_record hold).1 ((Db.id_of_record hold).trans he)
      | none =>
        have hborn : some _ = t.after now row.id (c.world.db.record row.id) := hrec.symm.trans hafter
        rw [hold] at hborn
        cases t with
        | insertDocument up id =>
          obtain ⟨rfl, -⟩ := Option.ite_none_right_eq_some.1 hborn.symm
          obtain ⟨-, hid, hspent, -⟩ := hall.1
          exact hj (congrArg some (hr.apart i j p q hp hq hspent hk (hid.symm.trans he)))
        | _ => cases hborn
  · rcases delivery_origin hc.coherent.served h hrow with ⟨r, hmem, hid⟩ | ⟨i, p, n, data, t, row', rfl, hp, ho, hcmd, hid⟩
    · exact hdel r hmem (hid.trans he)
    · obtain ⟨p', hp', hcmd⟩ := Option.bind_eq_some_iff.1 hcmd
      obtain rfl := Option.some.inj (hp.symm.trans hp')
      obtain ⟨next, hprog⟩ := Activity.program_of hcmd
      have hall := (hr.resident i p hp).conducts
      rw [hprog] at hall
      obtain ⟨-, -, -, hdraw, hspent⟩ := hall.1
      exact hj (congrArg some (hr.apart i j p q hp hq hspent hk (hdraw.symm.trans (hid.trans he))))

private theorem resident_kept (hc : Reachable c) (hr : Residents c draw k) (h : step c a = some c') {j : ProcId} {q : Activity}
    (hq : c.procs j = some q) (hj : a.actor ≠ some j) : Resident c' q (draw j) (k j) := by
  have hold := hr.resident j q hq
  refine ⟨hold.conducts, ⟨(step_regular c a c' hc.regular h).valid.sound, rfl, fun d hd => ?_, fun hk => ?_, ?_⟩, fun hk => ?_⟩
  · exact step_owns hc h (hold.sees.owned d hd)
  · exact step_unused hc hr h hq hk hj
  · rw [step_users h]
    exact hold.sees.actor
  · exact step_issued hc.regular.valid h (hold.drawn hk)

private theorem resident_begun (hc : Reachable c) {o : Owner} {x : Uuid} {q : Proc Unit} {c' : Config}
    (hq : q = (operation x o).run.void) (hdb : c'.world.db = c.world.db)
    (hdrawn : ∀ u, (operation x o).draw = some u → u ∈ c'.issued ∧ u ∉ c.issued)
    (hactor : ∀ u, o.actorId = some u → ∃ r ∈ c.world.db.users, r.id = u ∧ r.tenantId = o.tenantId) :
    ∃ u l, Resident c' ⟨o, q, []⟩ u l ∧ (l.spent = false → u ∉ c.issued) := by
  have hconducts := @operation_conducts true 0 (operation x o) (.inl rfl)
  rw [operation_tenantId, operation_actor] at hconducts
  have hnew : (operation x o).draw.isNone = false →
      (operation x o).draw.getD 0 ∈ c'.issued ∧ (operation x o).draw.getD 0 ∉ c.issued := by
    intro hk
    cases hu : (operation x o).draw with
    | none => simp [hu] at hk
    | some u => exact hdrawn u hu
  subst hq
  refine ⟨_, ⟨[], (operation x o).draw.isNone⟩, ⟨?_, ?_, fun hk => (hnew hk).1⟩, fun hk => (hnew hk).2⟩
  · refine (Protocol.wp_bind _ _ _).2 (Protocol.wp_mono ?_ hconducts)
    rintro _ (e | a) - <;> trivial
  · refine ⟨hdb ▸ hc.regular.valid.sound, rfl, nofun, fun hk => ?_, hdb ▸ hactor⟩
    rw [hdb]
    refine ⟨fun row hrow he => (hnew hk).2 (he ▸ document_issued hc hrow), fun row hrow he => (hnew hk).2 (he ▸ ?_)⟩
    obtain ⟨draw, hdraw⟩ := hc.draws
    exact hdraw.rows row hrow

private theorem resident_stepped {p : Activity} {u : Uuid} {l : Knowledge} {cmd : Cmd} {answer : Answer}
    {next : Except Failure cmd.Resp → Proc Unit} {r : Except Failure cmd.Resp} {w : World} {procs : ProcId → Option Activity}
    (hp : Resident c p u l) (hprog : p.program = .call cmd next) (he : cmd.exec answer c.world = some (r, w)) :
    Resident ⟨w, procs, c.issued⟩ { p with program := next r, transcript := ⟨cmd, r⟩ :: p.transcript } u
      ((conduct true p.owner.tenantId u p.owner.actorId).next l cmd r) := by
  have hconducts := hp.conducts
  rw [hprog] at hconducts
  refine ⟨hconducts.2 r trivial, ?_, fun hk => hp.drawn ?_⟩
  · cases Cmd.exec_executed he with
    | ran => exact (tx_sees hconducts.1 hp.sees).2.1.seen
    | @threw _ e _ =>
      cases cmd with
      | tx x =>
        refine hp.sees.weaken (fun d hd => ?_) fun hk => (Bool.or_eq_false_iff.1 hk).2
        have hnone : found x (.error e) = [] := by cases x <;> rfl
        simpa [conduct, hnone] using hd
      | _ => exact hp.sees
    | @added data j _ =>
      change Sees _ _ _ _ (c.world.add j data).db (own _ (c.world.add j data).db)
      rw [World.add_db]
      exact hp.sees
    | @announced d t _ =>
      change Sees _ _ _ _ (c.world.add _ { documentId := d, tenantId := t }).db (own _ (c.world.add _ _).db)
      rw [World.add_db]
      exact hp.sees
    | answered hcmd _ =>
      cases cmd with
      | tx x => exact absurd rfl (hcmd x)
      | _ => exact hp.sees
  · cases cmd with
    | tx x => exact (Bool.or_eq_false_iff.1 hk).2
    | _ => exact hk

private theorem actor_resident (hc : Reachable c) (hr : Residents c draw k) (hemployed : Employed c a c')
    (h : step c a = some c') {i : ProcId} (hi : a.actor = some i) :
    ∃ u l, ∀ p', c'.procs i = some p' → Resident c' p' u l ∧
      (l.spent = false → u ∉ c.issued ∨ u = draw i ∧ (k i).spent = false ∧ ∃ p, c.procs i = some p) := by
  cases step_turn h with
  | @call id call hfresh =>
    obtain rfl := Option.some.inj hi
    have hdrawn : ∀ u, (operation 0 (.api call)).draw = some u → u ∈ id :: (call.draws ++ c.issued) ∧ u ∉ c.issued := by
      intro u hu
      rcases operation_draw hu with ⟨call', ho, hmem⟩ | ⟨⟨j, data, ho⟩, -⟩
      · cases ho
        exact ⟨List.mem_cons_of_mem _ (List.mem_append_left _ hmem),
          ((fresh_iff 0).1 hfresh).1 u (List.mem_cons_of_mem _ hmem)⟩
      · cases ho
    obtain ⟨u, l, hres, hl⟩ := @resident_begun c hc (.api call) 0 _ (c.spawn id call.draws (.api call) call.program)
      (Operation.run_void call) rfl hdrawn fun u hu => hemployed id call u rfl hu
    refine ⟨u, l, fun p' hp' => ?_⟩
    obtain rfl : ⟨.api call, call.program, []⟩ = p' := by simpa [Config.spawn] using hp'
    exact ⟨hres, fun hk => .inl (hl hk)⟩
  | @start id j x job hj hst hfresh =>
    obtain rfl := Option.some.inj hi
    have hdrawn : ∀ u, (operation x (.job j job.data)).draw = some u → u ∈ id :: ([x] ++ c.issued) ∧ u ∉ c.issued := by
      intro u hu
      rcases operation_draw hu with ⟨call', ho, -⟩ | ⟨-, rfl⟩
      · cases ho
      · exact ⟨List.mem_cons_of_mem _ (List.mem_append_left _ (List.mem_singleton_self _)),
          ((fresh_iff 0).1 hfresh).1 u (by simp)⟩
    obtain ⟨u, l, hres, hl⟩ := @resident_begun c hc (.job j job.data) x _
      { c.spawn id [x] (.job j job.data) (processor j job.data x) with
        world := c.world.setJob j (some { job with state := .active id }) }
      (processor_run j job.data) rfl hdrawn fun u hu => absurd hu (by simp [Owner.actorId])
    refine ⟨u, l, fun p' hp' => ?_⟩
    obtain rfl : (⟨.job j job.data, processor j job.data x, []⟩ : Activity) = p' := by simpa [Config.spawn] using hp'
    exact ⟨hres, fun hk => .inl (hl hk)⟩
  | @step id answer p cmd next r w hp hprog he =>
    obtain rfl := Option.some.inj hi
    refine ⟨draw id, (conduct true p.owner.tenantId (draw id) p.owner.actorId).next (k id) cmd r, fun p' hp' => ?_⟩
    obtain rfl : (⟨p.owner, next r, ⟨cmd, r⟩ :: p.transcript⟩ : Activity) = p' := by simpa using hp'
    refine ⟨resident_stepped (hr.resident id p hp) hprog he, fun hk => .inr ⟨rfl, ?_, p, hp⟩⟩
    cases cmd with
    | tx x => exact (Bool.or_eq_false_iff.1 hk).2
    | _ => exact hk
  | finish _ _ | crash _ =>
    obtain rfl := Option.some.inj hi
    exact ⟨0, ⟨[], true⟩, fun p' hp' => by simp [Config.kill] at hp'⟩
  | stall _ _ | evict _ _ | tick => cases hi

/-- Every step leaves the processes at their tenants' work. -/
theorem step_residents (hc : Reachable c) (hr : Residents c draw k) (he : Employed c a c') (h : step c a = some c') :
    ∃ draw k, Residents c' draw k := by
  cases ha : a.actor with
  | none =>
    have hprocs : ∀ i, c'.procs i = c.procs i := fun i => step_procs h (by rw [ha]; nofun)
    refine ⟨draw, k, fun i p hp => ?_, fun i j p q hp hq => ?_⟩
    · rw [hprocs] at hp
      exact resident_kept hc hr h hp (by rw [ha]; nofun)
    · rw [hprocs] at hp hq
      exact hr.apart i j p q hp hq
  | some i =>
    obtain ⟨u, l, hactor⟩ := actor_resident hc hr he h ha
    have hother : ∀ j, j ≠ i → a.actor ≠ some j ∧ c'.procs j = c.procs j := by
      intro j hj
      have hne : a.actor ≠ some j := by
        rw [ha]
        exact fun he => hj (Option.some.inj he).symm
      exact ⟨hne, step_procs h hne⟩
    -- No other process has the UUID of the one that acts: that one is new, or was its own before.
    have hapart : ∀ j q p', j ≠ i → c'.procs j = some q → (k j).spent = false → c'.procs i = some p' → l.spent = false →
        draw j ≠ u := by
      intro j q p' hj hq hkj hp' hl he
      rw [(hother j hj).2] at hq
      rcases (hactor p' hp').2 hl with hnew | ⟨rfl, hki, p, hp⟩
      · exact hnew (he ▸ (hr.resident j q hq).drawn hkj)
      · exact hj (hr.apart j i q p hq hp hkj hki he)
    refine ⟨Function.update draw i u, Function.update k i l, fun j q hq => ?_, fun j m q q' hq hq' hkj hkm he => ?_⟩
    · by_cases hj : j = i
      · subst hj
        rw [Function.update_self, Function.update_self]
        exact (hactor q hq).1
      · rw [Function.update_of_ne hj, Function.update_of_ne hj]
        exact resident_kept hc hr h ((hother j hj).2.symm.trans hq) (hother j hj).1
    · by_cases hj : j = i <;> by_cases hm : m = i
      · exact hj.trans hm.symm
      · subst hj
        rw [Function.update_self] at hkj he
        rw [Function.update_of_ne hm] at hkm he
        exact absurd he.symm (hapart m q' q hm hq' hkm hq hkj)
      · subst hm
        rw [Function.update_self] at hkm he
        rw [Function.update_of_ne hj] at hkj he
        exact absurd he (hapart j q q' hj hq hkj hq' hkm)
      · rw [Function.update_of_ne hj] at hkj he
        rw [Function.update_of_ne hm] at hkm he
        exact hr.apart j m q q' ((hother j hj).2.symm.trans hq) ((hother m hm).2.symm.trans hq') hkj hkm he

theorem initial_residents (tenants : List TenantRow) (users : List UserRow) :
    ∃ draw k, Residents (initial tenants users) draw k := by
  refine ⟨fun _ => 0, fun _ => ⟨[], true⟩, ?_, ?_⟩
  · rintro i p hp
    cases hp
  · rintro i j p q hp
    cases hp

end Step
end Tenancy
end DocAuto
