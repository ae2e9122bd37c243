import DocAuto.Http.Routes

/-! What the services may rely on about the arguments that the routes hand them, and how a request that the routes
refuse is answered. -/
namespace DocAuto
open Json Auth Validators Pipeline Database

/-- The arguments are as the middleware of the routes leaves them. -/
def Pipeline.ApiCall.Validated (F : Formats) : ApiCall → Prop
  | .upload p _ => p.mimeType ∈ Http.allowedMimeTypes
  | .list _ _ page pageSize => 1 ≤ page ∧ 1 ≤ pageSize ∧ pageSize ≤ 100
  | .reject _ _ _ reason => trim reason = reason ∧ 1 ≤ Text.length reason ∧ Text.length reason ≤ 1000
  | .edit _ _ _ changes => editExtractionSchema changes = some changes
  | .updateTenant _ params => params ≠ {} ∧
      (∀ name, params.name = some name → trim name = name ∧ 2 ≤ Text.length name ∧ Text.length name ≤ 255) ∧
      (∀ t, params.extractionThreshold = some t → 0 ≤ t ∧ t ≤ 1) ∧
      ∀ url, params.webhookUrl = some (some url) → trim url = url ∧ F.url url
  | .get _ _ | .fileUrl _ _ | .approve _ _ _ | .reprocess _ _ _ _ | .getTenant _ | .rotateSecret _ _ => True

namespace Http
open Schema

section Fields
variable {v w : Option Value}

private theorem count_field {value : Value} {checks : List (Check ℚ)}
    (h : Schema.default value (coerced toNumber (integer :: positive :: checks)) v = .done w []) :
    ∃ n : Nat, ((w.bind numeral).map fun x => x.num.toNat).getD 0 = n ∧ 1 ≤ n ∧ ∀ c ∈ checks, c.holds n := by
  obtain ⟨u, hu⟩ := default_done h
  obtain ⟨x, -, rfl, hc⟩ := coerced_done hu
  have hholds := checks_hold hc
  have hden : x.den = 1 := by
    have := hholds integer List.mem_cons_self
    simpa [integer, Rat.isInt] using this
  have hpos : 0 < x := of_decide_eq_true (hholds positive (by simp))
  have hnum : ((x.num.toNat : Nat) : ℚ) = x := by
    have hz : ((x.num.toNat : Nat) : ℤ) = x.num := Int.toNat_of_nonneg (Rat.num_pos.2 hpos).le
    calc ((x.num.toNat : Nat) : ℚ) = ((x.num : ℤ) : ℚ) := by rw [← hz]; rfl
      _ = x := Rat.coe_int_num_of_den_eq_one hden
  refine ⟨x.num.toNat, rfl, ?_, fun c hc => ?_⟩
  · have := Rat.num_pos.2 hpos
    omega
  · rw [hnum]
    exact hholds c (by simp [hc])

end Fields

section Parts
variable {A : App} {now : Timestamp} {draws : Draws} {req req' : Request} {user : AccessToken}

private theorem second_ok {m₁ m₂ : Middleware} (h : through [m₁, m₂] req = .ok req') :
    ∃ r, m₁ req = .ok r ∧ m₂ r = .ok req' := by
  obtain ⟨r, hr, h⟩ := bind_ok h
  obtain ⟨r', hr', h⟩ := bind_ok h
  exact ⟨r, hr, Except.ok.inj h ▸ hr'⟩

private theorem third_ok {m₁ m₂ m₃ : Middleware} (h : through [m₁, m₂, m₃] req = .ok req') : ∃ r, m₃ r = .ok req' := by
  obtain ⟨r, -, h⟩ := bind_ok h
  obtain ⟨r', -, h⟩ := second_ok h
  exact ⟨r', h⟩

private theorem validated_body {s : Schema} {fields : List (String × Schema)}
    (hs : ∀ v w, s v = .done w [] → w.isSome) (hn : ((("body", s) :: fields).map Prod.fst).Nodup)
    (h : validate (.object (("body", s) :: fields)) req = .ok req') :
    ∃ v body, req'.body = some body ∧ s v = .done (some body) [] := by
  obtain ⟨value, hdone, hl⟩ := validate_part hn h (f := ("body", s)) List.mem_cons_self (by simp)
  obtain ⟨body, rfl⟩ := Option.isSome_iff_exists.1 (hs _ _ hdone)
  exact ⟨_, body, (parts_lookup req').1.symm.trans hl, hdone⟩

private theorem object_some {fields : List (String × Schema)} {v w : Option Value} (h : Schema.object fields v = .done w []) :
    w.isSome := by
  obtain ⟨members, -, -, rfl⟩ := object_done h
  rfl

private theorem file_allowed (h : through (Route.uploadDocument.middleware A now) { req with user := none, file := none } = .ok req')
    {file : UploadedFile} (hf : req'.file = some file) : file.mimetype ∈ allowedMimeTypes := by
  obtain ⟨r, hr, h⟩ := second_ok h
  have hnone : r.file = none := by
    unfold requireAuth at hr
    split at hr
    · cases hr
    · split at hr
      · exact (Except.ok.inj hr) ▸ rfl
      all_goals cases hr
  unfold handleUpload at h
  split at h
  · obtain rfl := Except.ok.inj h
    cases hnone.symm.trans hf
  · cases h
  · split at h
    · cases h
    next hallowed =>
    split at h
    · cases h
    · obtain rfl := Except.ok.inj h
      obtain rfl := Option.some.inj hf
      exact not_not.1 hallowed

private theorem list_counts (h : through (Route.listDocuments.middleware A now) { req with user := none, file := none } = .ok req')
    {query : Value} (hq : req'.query = some query) : 1 ≤ Route.countOf query "page" ∧ 1 ≤ Route.countOf query "pageSize" ∧
      Route.countOf query "pageSize" ≤ 100 := by
  obtain ⟨r, -, h⟩ := second_ok h
  obtain ⟨value, hdone, hl⟩ := validate_part (by simp) h (f := ("query", listQuery)) List.mem_cons_self (by simp)
  obtain ⟨x, rfl, hread, -⟩ := Schema.object_reads (by decide) hdone
  obtain rfl : query = x := Option.some.inj (hq.symm.trans ((parts_lookup req').2.1.symm.trans hl))
  obtain ⟨_, hpage⟩ := hread ("page", _) (List.mem_cons_of_mem _ List.mem_cons_self)
  obtain ⟨_, hsize⟩ := hread ("pageSize", _) (List.mem_cons_of_mem _ (List.mem_cons_of_mem _ List.mem_cons_self))
  obtain ⟨n, hn, hn1, -⟩ := count_field hpage
  obtain ⟨m, hm, hm1, hm2⟩ := count_field hsize
  have hmax : (m : ℚ) ≤ ((100 : Nat) : ℚ) := of_decide_eq_true (hm2 (atMost 100) List.mem_cons_self)
  rw [show Route.countOf query "page" = n from hn, show Route.countOf query "pageSize" = m from hm]
  exact ⟨hn1, hm1, Nat.cast_le.1 hmax⟩

private theorem text_done {lo hi : Nat} {v w : Option Value} (h : trimmedText [minLength lo, maxLength hi] v = .done w []) :
    ∃ s, w = some (.string s) ∧ trim s = s ∧ lo ≤ Text.length s ∧ Text.length s ≤ hi := by
  obtain ⟨s, -, rfl, hc⟩ := string_done h
  have hlo := checks_hold hc (minLength lo) List.mem_cons_self
  have hhi := checks_hold hc (maxLength hi) (List.mem_cons_of_mem _ List.mem_cons_self)
  simp only [minLength, maxLength, isMax, decide_eq_true_eq] at hlo hhi
  exact ⟨trim s, rfl, trim_trim s, hlo, hhi⟩

private theorem reason_done {v : Option Value} {body : Value} (h : rejectBody v = .done (some body) []) {reason : String}
    (hr : (body.get "reason").bind text = some reason) : trim reason = reason ∧ 1 ≤ Text.length reason ∧ Text.length reason ≤ 1000 := by
  obtain ⟨x, hx, hread, -⟩ := Schema.object_reads (by decide) h
  obtain rfl := Option.some.inj hx
  obtain ⟨_, hreason⟩ := hread ("reason", _) List.mem_cons_self
  obtain ⟨s, hs, hprops⟩ := text_done hreason
  rw [show body.get "reason" = some (.string s) from hs] at hr
  obtain rfl := Option.some.inj hr
  exact hprops

private theorem updateParams_read (body : Value) : tenantUpdateOf (Route.updateParams user body) = tenantUpdateOf body := by
  have hget : ∀ name, name ≠ "tenantId" → (Route.updateParams user body).get name = body.get name := by
    intro name hname
    refine Value.lookup_spread.trans ?_
    have hnone : [("tenantId", Value.string user.tenantId.repr)].lookup name = none := by
      simp [List.lookup_cons, beq_eq_false_iff_ne.2 hname]
    rw [hnone, Option.or_none]
    cases body <;> rfl
  simp only [tenantUpdateOf, hget _ (show "name" ≠ "tenantId" by decide),
    hget _ (show "extractionThreshold" ≠ "tenantId" by decide), hget _ (show "webhookUrl" ≠ "tenantId" by decide)]

private theorem update_done {v : Option Value} {body : Value} {t : Uuid} (h : tenantBody A.formats v = .done (some body) []) :
    (ApiCall.updateTenant t (tenantUpdateOf body)).Validated A.formats := by
  obtain ⟨hobj, hne⟩ := refine_done h
  obtain ⟨x, hx, hread, hkeys⟩ := Schema.object_reads (by simp) hobj
  obtain rfl := Option.some.inj hx
  simp only [List.forall_mem_cons, List.not_mem_nil, false_imp_iff, implies_true, and_true] at hread
  obtain ⟨⟨_, hname⟩, ⟨_, hthreshold⟩, ⟨_, hurl⟩⟩ := hread
  have name : body.get "name" = none ∨ ∃ s, body.get "name" = some (.string s) ∧ trim s = s ∧ 2 ≤ Text.length s ∧ Text.length s ≤ 255 :=
    (optional_done hname).imp_right text_done
  have threshold : body.get "extractionThreshold" = none ∨ ∃ t, body.get "extractionThreshold" = some (.number t) ∧ 0 ≤ t ∧ t ≤ 1 := by
    refine (optional_done hthreshold).imp_right fun hs => ?_
    obtain ⟨t, ht, hscore⟩ := score_read hs
    exact ⟨t, ht, by simpa [isScore] using hscore⟩
  have url : body.get "webhookUrl" = none ∨ body.get "webhookUrl" = some .null ∨
      ∃ s, body.get "webhookUrl" = some (.string s) ∧ trim s = s ∧ A.formats.url s := by
    refine (nullish_done hurl).imp_right (Or.imp_right fun hs => ?_)
    obtain ⟨s, -, hs, hc⟩ := string_done hs
    exact ⟨trim s, hs, trim_trim s, checks_hold hc _ List.mem_cons_self⟩
  refine ⟨fun hempty => ?_, fun n hn => ?_, fun t ht => ?_, fun u hu => ?_⟩
  · obtain ⟨k, hk⟩ := List.exists_mem_of_ne_nil body.keys (by simpa [nonempty] using hne)
    obtain ⟨f, hf, -, hsome⟩ := hkeys k hk
    simp only [List.mem_cons, List.not_mem_nil, or_false] at hf
    have hn := congrArg TenantUpdate.name hempty
    have ht := congrArg TenantUpdate.extractionThreshold hempty
    have hu := congrArg TenantUpdate.webhookUrl hempty
    simp only [tenantUpdateOf] at hn ht hu
    rcases hf with rfl | rfl | rfl
    · rcases name with he | ⟨s, he, -⟩
      · simp [he] at hsome
      · simp [he, text] at hn
    · rcases threshold with he | ⟨s, he, -⟩
      · simp [he] at hsome
      · simp [he, numeral] at ht
    · rcases url with he | he | ⟨s, he, -⟩
      · simp [he] at hsome
      · simp [he, orNull] at hu
      · simp [he, orNull, text] at hu
  · rcases name with he | ⟨s, he, hprops⟩ <;> simp only [tenantUpdateOf, he, Option.bind_none, reduceCtorEq] at hn
    obtain rfl : s = n := by simpa [text] using hn
    exact hprops
  · rcases threshold with he | ⟨s, he, hprops⟩ <;> simp only [tenantUpdateOf, he, Option.bind_none, reduceCtorEq] at ht
    obtain rfl : s = t := by simpa [numeral] using ht
    exact hprops
  · rcases url with he | he | ⟨s, he, hprops⟩ <;>
      simp only [tenantUpdateOf, he, Option.bind_some, Option.bind_none, orNull, reduceCtorEq, Option.some.injEq] at hu
    obtain rfl : s = u := by simpa [text] using hu
    exact hprops

end Parts

/-- Whatever a request says, the call it leads to has arguments that are as the services rely on. -/
theorem calls_validated {A : App} {now : Timestamp} {draws : Draws} {route : Route} {req : Request} {user : AccessToken}
    {call : ApiCall} (h : route.call A now draws req = .ok (user, call)) : call.Validated A.formats := by
  obtain ⟨req', hm, -, hc⟩ := Route.call_ok h
  cases route with
  | uploadDocument =>
    simp only [Route.handler] at hc
    split at hc
    · cases hc
    · next file hf =>
      obtain rfl := Except.ok.inj hc
      exact file_allowed hm hf
  | listDocuments =>
    obtain ⟨query, hq, hc⟩ := bind_ok hc
    obtain rfl := Except.ok.inj hc
    exact list_counts hm (orThrow_ok hq)
  | rejectDocument =>
    obtain ⟨reason, hr, hc⟩ := bind_ok hc
    obtain ⟨d, -, hc⟩ := bind_ok hc
    obtain rfl := Except.ok.inj hc
    obtain ⟨r, hv⟩ := third_ok hm
    obtain ⟨v, body, hb, hdone⟩ := validated_body (fun _ _ => object_some) (by simp) hv
    rw [hb] at hr
    exact reason_done hdone (orThrow_ok hr)
  | editExtraction =>
    obtain ⟨body, hb, hc⟩ := bind_ok hc
    obtain ⟨d, -, hc⟩ := bind_ok hc
    obtain rfl := Except.ok.inj hc
    obtain ⟨r, hv⟩ := third_ok hm
    obtain ⟨v, body', hb', hdone⟩ := validated_body (fun _ _ h => object_some (refine_done h).1) (by simp) hv
    obtain rfl := Option.some.inj (hb'.symm.trans (orThrow_ok hb))
    exact edit_validated hdone
  | updateTenant =>
    obtain ⟨tenantId, ht, hc⟩ := bind_ok hc
    obtain rfl := Except.ok.inj hc
    obtain ⟨body, v, hb, hdone⟩ := Route.updateTenant_body hm
    rw [hb, Option.getD_some, updateParams_read]
    exact update_done hdone
  | getDocument | getDocumentFile | approveDocument | reprocessDocument =>
    obtain ⟨d, -, hc⟩ := bind_ok hc
    obtain rfl := Except.ok.inj hc
    trivial
  | getTenant | rotateWebhookSecret =>
    obtain rfl := Except.ok.inj hc
    trivial

section Refused
variable {A : App} {now : Timestamp} {draws : Draws} {req req' : Request} {user : AccessToken} {e : Thrown}

/-- The client is told that the request is at fault. -/
def Thrown.Client : Thrown → Prop
  | .zodError _ => True
  | .failure (.app error) => error.statusCode ∈ [400, 401, 403]
  | .failure _ => False

theorem Thrown.Client.status (h : e.Client) (correlationId : String) : (errorHandler correlationId e).status ∈ [400, 401, 403] := by
  rcases e with issues | (error | _ | _ | _ | _)
  · exact List.mem_cons_self
  · have hne : error.isOperational = true := by
      refine decide_eq_true fun he => ?_
      simp [Thrown.Client, he] at h
    rw [errorHandler, if_pos hne]
    exact h
  all_goals cases h

private theorem bind_error {ε α β : Type} {x : Except ε α} {f : α → Except ε β} {e : ε} (h : (x >>= f) = .error e) :
    x = .error e ∨ ∃ a, x = .ok a ∧ f a = .error e := by
  cases x with
  | error e' => exact .inl (congrArg Except.error (Except.error.inj h))
  | ok a => exact .inr ⟨a, rfl, h⟩

private theorem reject_client {α : Type} {error : AppError} (hs : error.statusCode ∈ [400, 401, 403])
    (h : (Http.reject error : Except Thrown α) = .error e) : e.Client := by
  cases h
  exact hs

/-- Middleware that refuses a request only for what is wrong with it. -/
def Blames (m : Middleware) : Prop := ∀ req e, m req = .error e → e.Client

private theorem validate_blames (schema : Schema) : Blames (validate schema) := by
  rintro req e h
  unfold validate at h
  split at h
  · cases h
    trivial
  · cases h

private theorem requireRole_blames (roles : List UserRole) : Blames (requireRole roles) := by
  rintro req e h
  unfold requireRole at h
  split at h
  · exact reject_client (by simp [AppError.unauthorized]) h
  split at h
  · cases h
  · exact reject_client (by simp [AppError.forbidden]) h

private theorem handleUpload_blames (n : Nat) : Blames (handleUpload n) := by
  rintro req e h
  unfold handleUpload at h
  split at h
  · cases h
  · exact reject_client List.mem_cons_self h
  split at h
  · exact reject_client List.mem_cons_self h
  split at h
  · exact reject_client List.mem_cons_self h
  · cases h

private theorem through_blames {ms : List Middleware} (hm : ∀ m ∈ ms, Blames m) (h : through ms req = .error e) : e.Client := by
  induction ms generalizing req with
  | nil => cases h
  | cons m ms ih =>
    rcases bind_error h with h | ⟨r, -, h⟩
    · exact hm m List.mem_cons_self req e h
    · exact ih (fun m' hm' => hm m' (List.mem_cons_of_mem _ hm')) h

private theorem requireAuth_error {verify : String → Except JwtError AccessToken} (h : requireAuth verify req = .error e) :
    e.Client ∨ ∃ token message, bearer req = some token ∧ verify token = .error (.other message) ∧
      e = .failure (.other message) := by
  unfold requireAuth at h
  split at h
  · exact .inl (reject_client (by simp [AppError.unauthorized]) h)
  next token ht =>
  split at h
  · cases h
  · exact .inl (reject_client (by simp [AppError.unauthorized]) h)
  · exact .inl (reject_client (by simp [AppError.unauthorized]) h)
  · next message hv => exact .inr ⟨token, message, ht, hv, (Except.error.inj h).symm⟩

private theorem middleware_error {route : Route} (h : through (route.middleware A now) req = .error e) :
    e.Client ∨ ∃ token message, bearer req = some token ∧ A.verifyAccessToken now token = .error (.other message) ∧
      e = .failure (.other message) := by
  obtain ⟨ms, hroute, hms⟩ : ∃ ms, route.middleware A now = requireAuth (A.verifyAccessToken now) :: ms ∧
      ∀ m ∈ ms, Blames m := by
    cases route <;> refine ⟨_, rfl, ?_⟩ <;> simp [validate_blames, requireRole_blames, handleUpload_blames]
  rw [hroute] at h
  rcases bind_error h with h | ⟨r, -, h⟩
  · exact requireAuth_error h
  · exact .inl (through_blames hms h)

private theorem documentId_validated {fields : List (String × Schema)} (hn : (fields.map Prod.fst).Nodup)
    (hf : ("params", Schema.object [("id", uuid)]) ∈ fields) (h : validate (.object fields) req = .ok req') :
    ∃ d, Route.documentId req' = .ok d := by
  obtain ⟨value, hdone, hl⟩ := validate_part hn h hf (by simp)
  obtain ⟨x, rfl, hread, -⟩ := Schema.object_reads (by simp) hdone
  obtain ⟨_, hid⟩ := hread ("id", uuid) List.mem_cons_self
  obtain ⟨s, -, hs, hc⟩ := string_done hid
  obtain ⟨d, hd⟩ := Option.isSome_iff_exists.1 (checks_hold hc _ List.mem_cons_self)
  refine ⟨d, ?_⟩
  have hparams : req'.params = some x := (parts_lookup req').2.2.symm.trans hl
  have hget : x.get "id" = some (.string s) := hs
  simp only [Route.documentId, hparams, Option.bind_some, hget, text]
  rw [show uuidOf s = some d from hd]
  rfl

private theorem handler_error {route : Route} (hm : through (route.middleware A now) req = .ok req')
    (h : route.handler draws user req' = .error e) : e.Client := by
  have step : ∀ {α : Type} {x : Except Thrown α} {a : α} {f : α → Except Thrown ApiCall}, x = .ok a → (x >>= f) = .error e →
      f a = .error e := by
    rintro α x a f rfl h
    exact h
  cases route with
  | uploadDocument =>
    simp only [Route.handler] at h
    split at h
    · exact reject_client List.mem_cons_self h
    · cases h
  | listDocuments =>
    obtain ⟨r, -, hv⟩ := second_ok hm
    obtain ⟨value, hdone, hl⟩ := validate_part (by simp) hv (f := ("query", listQuery)) List.mem_cons_self (by simp)
    obtain ⟨x, rfl, -⟩ := Schema.object_reads (by decide) hdone
    have hquery : req'.query = some x := (parts_lookup req').2.1.symm.trans hl
    simp only [Route.handler, hquery] at h
    cases h
  | getDocument | getDocumentFile =>
    obtain ⟨r, -, hv⟩ := second_ok hm
    obtain ⟨d, hd⟩ := documentId_validated (by simp) List.mem_cons_self hv
    cases step hd h
  | approveDocument | reprocessDocument =>
    obtain ⟨r, hv⟩ := third_ok hm
    obtain ⟨d, hd⟩ := documentId_validated (by simp) List.mem_cons_self hv
    cases step hd h
  | rejectDocument =>
    obtain ⟨r, hv⟩ := third_ok hm
    obtain ⟨d, hd⟩ := documentId_validated (by simp) (List.mem_cons_of_mem _ List.mem_cons_self) hv
    obtain ⟨v, body, hb, hdone⟩ := validated_body (fun _ _ => object_some) (by simp) hv
    obtain ⟨x, hx, hread, -⟩ := Schema.object_reads (by decide) hdone
    obtain rfl := Option.some.inj hx
    obtain ⟨_, hreason⟩ := hread ("reason", _) List.mem_cons_self
    obtain ⟨s, hs, -⟩ := text_done hreason
    have hs : body.get "reason" = some (.string s) := hs
    simp only [Route.handler, hb, Option.bind_some, hs, text] at h
    cases step hd h
  | editExtraction =>
    obtain ⟨r, hv⟩ := third_ok hm
    obtain ⟨d, hd⟩ := documentId_validated (by simp) (List.mem_cons_of_mem _ List.mem_cons_self) hv
    obtain ⟨v, body, hb, -⟩ := validated_body (fun _ _ h => object_some (refine_done h).1) (by simp) hv
    simp only [Route.handler, hb] at h
    cases step hd h
  | updateTenant =>
    have htenant : (Route.updateParams user (req'.body.getD .null)).get "tenantId" = some (.string user.tenantId.repr) :=
      Route.updateTenant_tenant hm
    simp only [Route.handler, htenant] at h
    cases h
  | getTenant | rotateWebhookSecret => cases h

/-- A request that leads to no call is answered with 400, 401 or 403, unless `jwt.verify` has failed on its token in
a way of its own, and then the answer does not say how. -/
theorem refused_answered {route : Route} (h : route.call A now draws req = .error e) :
    (errorHandler req.correlationId e).status ∈ [400, 401, 403] ∨
      (∃ token message, bearer req = some token ∧ A.verifyAccessToken now token = .error (.other message)) ∧
        errorHandler req.correlationId e = unexpected req.correlationId := by
  rcases bind_error h with h | ⟨req', hm, h⟩
  · rcases middleware_error h with hc | ⟨token, message, ht, hv, rfl⟩
    · exact .inl (hc.status _)
    · exact .inr ⟨⟨token, message, ht, hv⟩, rfl⟩
  obtain ⟨-, user, -, -, hu, -⟩ := Route.middleware_ok hm
  rw [hu] at h
  obtain h | ⟨_, ⟨⟩, h⟩ := bind_error h
  · cases h
  rcases bind_error h with h | ⟨call, -, h⟩
  · exact .inl ((handler_error hm h).status _)
  · cases h

end Refused

end Http
end DocAuto
