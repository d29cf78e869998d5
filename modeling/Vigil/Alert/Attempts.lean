import Vigil.Alert.Delivery

/-!
# The attempts of a send

The loop of `http_send`, with the answers of the endpoint given: the requests that it makes and the
sleeps between them, or nothing where an index, an `unwrap`, or an addition would panic.

`exists_httpSend_eq` says what the loop does for all answers and all settings of the retries.
`httpSend_eq_start` says that the delivery task of `Delivery.lean`, whose attempts and sleeps are
steps of their own, goes through the same events.
-/

namespace Vigil

/-- What `http_send` does. -/
inductive SendEvent
  /-- A request, and what it comes to. -/
  | request (answer : Answer)
  /-- `sleep`, in milliseconds. -/
  | sleep (ms : ℕ)
  deriving DecidableEq, Repr

section Loop

variable (cfg : AlertConfig) (answers : ℕ → Answer)

/-- The delay after an attempt: `backoff.get(attempt)`, or else `backoff.last().unwrap()`. -/
def AlertConfig.delayAfter (attempt : ℕ) : Option ℕ := cfg.backoff[attempt]?.or cfg.backoff.getLast?

/-- The sum of two values of type `u32`. -/
def addU32 (a b : ℕ) : Option ℕ := if a + b < 2^32 then some (a + b) else none

/-- The loop of `http_send` from an attempt on, with the number of attempts that are left. -/
def sendLoop : (left attempt : ℕ) → Option (List SendEvent)
  | 0, _ => some []
  | left + 1, attempt =>
    let answer := answers attempt
    if answer.isSuccess then some [.request answer]
    else
      let retry : Option (List SendEvent) := do
        let delay ← cfg.delayAfter attempt
        let rest ← sendLoop left (attempt + 1)
        some (.request answer :: .sleep delay :: rest)
      match answer with
      | .status code =>
        if 500 ≤ code ∧ code < 600 then do
          let next ← addU32 attempt 1
          if next < cfg.maxAttempts then retry else some [.request answer]
        else some [.request answer]
      | .error => do
        let next ← addU32 attempt 1
        if next < cfg.maxAttempts then retry
        else do
          -- The loop goes on to its end, and no attempt is left.
          let rest ← sendLoop left (attempt + 1)
          some (.request answer :: rest)

/-- `http_send`. -/
def httpSend (env : String → Option String) : Option (List SendEvent) :=
  if resolve env cfg.url = "" then some [] else sendLoop cfg answers cfg.maxAttempts 0

end Loop

/-- An answer after which there is no other attempt: a `2xx`, or a response that is neither a `2xx`
nor a `5xx`. -/
def Answer.IsFinal (a : Answer) : Prop := ∃ code, a = .status code ∧ ¬(500 ≤ code ∧ code < 600)

/-- The requests of a send, with one sleep between each two of them. -/
def sendTrace (answers : ℕ → Answer) (delay : ℕ → ℕ) (n : ℕ) : List SendEvent :=
  (List.range n).flatMap fun i =>
    if i = 0 then [.request (answers 0)]
    else [.sleep (delay (i - 1)), .request (answers i)]

/-- How many requests there are. The attempts are those of the configuration, three by default, and
one at least. -/
structure Requests (env : String → Option String) (cfg : AlertConfig) (answers : ℕ → Answer)
    (n : ℕ) : Prop where
  /-- There are none where the URL is empty. -/
  none_iff : n = 0 ↔ resolve env cfg.url = ""
  le : n ≤ max 1 (cfg.retryAttempts.getD 3).toNat
  /-- There is no request after a final answer. -/
  notFinal : ∀ i, i + 1 < n → ¬(answers i).IsFinal
  /-- The last answer is final, or the attempts are used up. -/
  stops : n ≠ 0 → n = max 1 (cfg.retryAttempts.getD 3).toNat ∨ (answers (n - 1)).IsFinal

/-- How long the sleep after each attempt is, for a list of delays. The last entry of the list is
that of all later attempts. -/
structure Delays (retryBackoff : List String) (delay : ℕ → ℕ) : Prop where
  /-- Without a list, it is one second, and then two. -/
  unlisted : retryBackoff = [] → ∀ i, delay i = if i = 0 then 1000 else 2000
  parsed : ∀ i s ms, retryBackoff[min i (retryBackoff.length - 1)]? = some s →
    parseDuration s = .ok ms → delay i = ms
  /-- For an entry that is no duration it is one second. -/
  unparsed : ∀ i s e, retryBackoff[min i (retryBackoff.length - 1)]? = some s →
    parseDuration s = .error e → delay i = 1000

section Spec

variable {cfg : AlertConfig} {answers : ℕ → Answer}

/-- The list of the delays is not empty. -/
theorem AlertConfig.backoff_ne_nil : cfg.backoff ≠ [] := by
  unfold AlertConfig.backoff
  split_ifs with h
  · simp
  · simpa using h

/-- The number of attempts is that of the configuration, three by default, and one at least. It is a
`u32`. -/
theorem AlertConfig.maxAttempts_pos_lt : 0 < cfg.maxAttempts ∧ cfg.maxAttempts < 2^32 := by
  have hlt := (cfg.retryAttempts.getD 3).toNat_lt
  unfold AlertConfig.maxAttempts
  omega

/-- After each attempt the list gives a delay, the last one when it is used up. -/
theorem AlertConfig.delayAfter_eq (attempt : ℕ) :
    cfg.delayAfter attempt = some (cfg.delay attempt) := by
  unfold AlertConfig.delayAfter AlertConfig.delay
  cases cfg.backoff[attempt]? with
  | some d => rfl
  | none =>
    rw [Option.none_or, Option.getD_none, List.getLast?_eq_some_getLast cfg.backoff_ne_nil]
    rfl

/-- The delay is the one of the attempt, or the last one where the list is shorter. -/
theorem AlertConfig.getElem?_backoff_min (attempt : ℕ) :
    cfg.backoff[min attempt (cfg.backoff.length - 1)]? = some (cfg.delay attempt) := by
  have hpos := List.length_pos_iff.mpr cfg.backoff_ne_nil
  rw [← cfg.delayAfter_eq, AlertConfig.delayAfter]
  rcases Nat.lt_or_ge attempt cfg.backoff.length with hlt | hge
  · rw [Nat.min_eq_left (by omega), List.getElem?_eq_getElem hlt, Option.some_or]
  · rw [Nat.min_eq_right (by omega), List.getElem?_eq_none hge, Option.none_or,
      List.getLast?_eq_getElem?]

/-- The delay for a listed entry is what the entry parses to, or one second. -/
theorem AlertConfig.delay_of_getElem? {attempt : ℕ} {s : String}
    (h : cfg.retryBackoff[min attempt (cfg.retryBackoff.length - 1)]? = some s) :
    cfg.delay attempt = (parseDuration s).toOption.getD 1000 := by
  have hne : cfg.retryBackoff ≠ [] := fun hnil => by rw [hnil] at h; cases h
  have hbackoff : cfg.backoff =
      cfg.retryBackoff.map fun s => (parseDuration s).toOption.getD 1000 := if_neg hne
  have hget := cfg.getElem?_backoff_min attempt
  rw [hbackoff, List.length_map, List.getElem?_map, h] at hget
  exact (Option.some.inj hget).symm

/-- The delays are those of the list. -/
theorem AlertConfig.delays (cfg : AlertConfig) : Delays cfg.retryBackoff cfg.delay where
  unlisted h i := by
    have hbackoff : cfg.backoff = [1000, 2000] := if_pos h
    have hget := cfg.getElem?_backoff_min i
    rw [hbackoff] at hget
    rcases i with _ | i
    · exact (Option.some.inj hget).symm
    · -- From the second attempt on it is the last one.
      have hlast : min (i + 1) ([1000, 2000].length - 1) = 1 := by
        show min (i + 1) 1 = 1
        omega
      rw [hlast] at hget
      exact (Option.some.inj hget).symm
  parsed i s ms hs hms := by
    rw [cfg.delay_of_getElem? hs, hms]
    rfl
  unparsed i s e hs he := by
    rw [cfg.delay_of_getElem? hs, he]
    rfl

/-- The attempts are those of the configuration, three without one, and at least one. -/
theorem AlertConfig.maxAttempts_eq (cfg : AlertConfig) :
    cfg.maxAttempts = max 1 (cfg.retryAttempts.getD 3).toNat := max_comm _ _

/-- The loop may go on after the answers that are not final. -/
theorem Answer.isFinal_iff {a : Answer} : a.IsFinal ↔ a.isRetried = false := by
  cases a with
  | status code => simp [Answer.IsFinal, Answer.isRetried]
  | error => simp [Answer.IsFinal, Answer.isRetried]

/-- An answer that is retried is no success. -/
theorem Answer.isSuccess_of_isRetried {a : Answer} (h : a.isRetried = true) :
    a.isSuccess = false := by
  cases a with
  | error => rfl
  | status code =>
    rw [Answer.isRetried, decide_eq_true_eq] at h
    rw [Answer.isSuccess, decide_eq_false_iff_not]
    omega

/-- The loop makes one request if its answer is final, or if it is the last attempt. -/
theorem sendLoop_of_last {left attempt : ℕ} (hleft : attempt + (left + 1) = cfg.maxAttempts)
    (h : (answers attempt).isRetried = false ∨ left = 0) :
    sendLoop cfg answers (left + 1) attempt = some [.request (answers attempt)] := by
  have hlt := cfg.maxAttempts_pos_lt.2
  have hnext : addU32 attempt 1 = some (attempt + 1) := if_pos (by omega)
  unfold sendLoop
  cases ha : answers attempt with
  | status code =>
    rw [ha] at h
    simp only [hnext, Option.bind_eq_bind, Option.bind_some]
    split_ifs with hsuccess hserver hgoes
    · rfl
    · have hlast := h.resolve_left (by simp [Answer.isRetried, hserver])
      omega
    · rfl
    · rfl
  | error =>
    have hlast := h.resolve_left (by simp [ha, Answer.isRetried])
    subst hlast
    have hstop : ¬attempt + 1 < cfg.maxAttempts := by omega
    simp [Answer.isSuccess, hnext, hstop, sendLoop]

/-- An attempt that is to be retried and is not the last one is followed by its delay and by the
other attempts. -/
theorem sendLoop_of_retried {left attempt : ℕ} (hleft : attempt + (left + 1) = cfg.maxAttempts)
    (h : (answers attempt).isRetried = true) (hne : left ≠ 0) :
    sendLoop cfg answers (left + 1) attempt =
      (sendLoop cfg answers left (attempt + 1)).map fun rest =>
        .request (answers attempt) :: .sleep (cfg.delay attempt) :: rest := by
  have hlt := cfg.maxAttempts_pos_lt.2
  have hnext : addU32 attempt 1 = some (attempt + 1) := if_pos (by omega)
  have hgoes : attempt + 1 < cfg.maxAttempts := by omega
  rw [sendLoop]
  cases ha : answers attempt with
  | status code =>
    rw [ha] at h
    have hsuccess := Answer.isSuccess_of_isRetried h
    rw [Answer.isRetried, decide_eq_true_eq] at h
    simp only [hsuccess, h, hnext, hgoes, cfg.delayAfter_eq, Option.bind_eq_bind, Option.bind_some]
    cases sendLoop cfg answers left (attempt + 1) <;> rfl
  | error =>
    simp only [Answer.isSuccess, hnext, hgoes, cfg.delayAfter_eq, Option.bind_eq_bind,
      Option.bind_some]
    cases sendLoop cfg answers left (attempt + 1) <;> rfl

/-- The trace of one request more is the first request and its delay, before the trace of the
others. -/
theorem sendTrace_succ {delay : ℕ → ℕ} {n : ℕ} (hn : n ≠ 0) :
    sendTrace answers delay (n + 1) = .request (answers 0) :: .sleep (delay 0) ::
      sendTrace (fun i => answers (i + 1)) (fun i => delay (i + 1)) n := by
  obtain ⟨m, rfl⟩ := Nat.exists_eq_succ_of_ne_zero hn
  simp [sendTrace, List.range_succ_eq_map, List.flatMap_map]

/-- From an attempt on, the loop makes a trace of requests that ends with a final answer or with the
last attempt, and no answer before is final. -/
theorem exists_sendLoop_eq {left attempt : ℕ} (hleft : attempt + left = cfg.maxAttempts)
    (hne : left ≠ 0) : ∃ n, n ≠ 0 ∧ n ≤ left ∧
      sendLoop cfg answers left attempt = some (sendTrace (fun i => answers (attempt + i))
        (fun i => cfg.delay (attempt + i)) n) ∧
      (∀ i, i + 1 < n → ¬(answers (attempt + i)).IsFinal) ∧
      (n = left ∨ (answers (attempt + (n - 1))).IsFinal) := by
  -- The induction is on the attempts that are left.
  induction left generalizing attempt with
  | zero => exact absurd rfl hne
  | succ left ih =>
    cases hretried : (answers attempt).isRetried with
    | false =>
      refine ⟨1, by omega, by omega, sendLoop_of_last hleft (.inl hretried), by omega, .inr ?_⟩
      exact Answer.isFinal_iff.mpr hretried
    | true =>
      by_cases hlast : left = 0
      · refine ⟨1, by omega, by omega, ?_, by omega, .inl (by omega)⟩
        exact sendLoop_of_last hleft (.inr hlast)
      · obtain ⟨n, hn, hle, heq, hnot, hstop⟩ := @ih (attempt + 1) (by omega) hlast
        -- The rest of the loop counts its requests from the next attempt on.
        have hshift : ∀ i, attempt + 1 + i = attempt + (i + 1) := fun i => by omega
        refine ⟨n + 1, by omega, by omega, ?_, fun i hi => ?_, ?_⟩
        · rw [sendLoop_of_retried hleft hretried hlast, heq, sendTrace_succ hn]
          simp only [hshift, Option.map_some, Nat.add_zero]
        · cases i with
          | zero =>
            rw [Answer.isFinal_iff, Nat.add_zero, hretried]
            exact Bool.noConfusion
          | succ i =>
            rw [← hshift]
            exact hnot i (by omega)
        · refine hstop.imp (fun h => by omega) fun h => ?_
          rw [hshift, Nat.sub_add_cancel (Nat.pos_of_ne_zero hn)] at h
          exact h

/-- `http_send` makes requests up to the first final answer, and at most as many as there are
attempts. Between each two of them it sleeps once, for the delay of the list that belongs to the
attempt, or for the last one. It does not panic. -/
theorem exists_httpSend_eq (env : String → Option String) (cfg : AlertConfig)
    (answers : ℕ → Answer) :
    ∃ n delay, Requests env cfg answers n ∧ Delays cfg.retryBackoff delay ∧
      httpSend cfg answers env = some (sendTrace answers delay n) := by
  by_cases hurl : resolve env cfg.url = ""
  · exact ⟨0, cfg.delay, ⟨iff_of_true rfl hurl, Nat.zero_le _, by omega, by omega⟩, cfg.delays,
      if_pos hurl⟩
  · have hpos := cfg.maxAttempts_pos_lt.1
    obtain ⟨n, hn, hle, heq, hnot, hstop⟩ :=
      @exists_sendLoop_eq cfg answers _ _ (Nat.zero_add cfg.maxAttempts) hpos.ne'
    simp only [Nat.zero_add] at heq hnot hstop
    rw [cfg.maxAttempts_eq] at hle hstop
    exact ⟨n, cfg.delay, ⟨iff_of_false hn hurl, hle, hnot, fun _ => hstop⟩, cfg.delays,
      (if_neg hurl).trans heq⟩

/-! ## The delivery task -/

/-- The events of a delivery task from an attempt on, for at most so many attempts, each of which
ends at the time zero of its own clock. -/
def DeliveryTask.events (answers : ℕ → Answer) : ℕ → DeliveryTask → List SendEvent
  | 0, _ => []
  | left + 1, t =>
    match t.answer 0 (answers t.attempt) with
    | none => []
    | some t' =>
      .request (answers t.attempt) ::
        match t'.phase with
        | .sleeping wakeAt =>
          .sleep wakeAt :: ((t'.wake wakeAt).map (DeliveryTask.events answers left)).getD []
        | _ => []

/-- A task that is sending goes through the events of the loop. -/
theorem sendLoop_eq_events {left : ℕ} {t : DeliveryTask} (ht : t.phase = .sending)
    (hleft : t.attempt + left = t.job.config.maxAttempts) :
    sendLoop t.job.config answers left t.attempt = some (t.events answers left) := by
  induction left generalizing t with
  | zero => rfl
  | succ left ih =>
    by_cases hlast : (answers t.attempt).isRetried = false ∨ left = 0
    · have hstop : ¬((answers t.attempt).isRetried = true ∧
          t.attempt + 1 < t.job.config.maxAttempts) := by
        rintro ⟨hretried, hlt⟩
        rcases hlast with h | h
        · exact Bool.noConfusion (h.symm.trans hretried)
        · omega
      rw [sendLoop_of_last hleft hlast]
      unfold DeliveryTask.events DeliveryTask.answer
      simp only [ht, if_neg hstop]
      split_ifs <;> rfl
    · -- Both sleep and go on with the next attempt.
      rw [not_or, Bool.not_eq_false] at hlast
      obtain ⟨hretried, hne⟩ := hlast
      have hgoes : t.attempt + 1 < t.job.config.maxAttempts := by omega
      have hnext := @ih { t with phase := .sending, attempt := t.attempt + 1 } rfl
        (by dsimp only; omega)
      rw [sendLoop_of_retried hleft hretried hne]
      unfold DeliveryTask.events DeliveryTask.answer DeliveryTask.wake
      dsimp only at hnext
      simp [ht, Answer.isSuccess_of_isRetried hretried, hretried, hgoes, hnext]

/-- A delivery task goes through the events of `http_send`. -/
theorem httpSend_eq_start (env : String → Option String) (job : DeliveryJob) :
    httpSend job.config answers env =
      some ((DeliveryTask.start env job).events answers job.config.maxAttempts) := by
  have hpos := job.config.maxAttempts_pos_lt.1
  by_cases hurl : resolve env job.config.url = ""
  · obtain ⟨left, hleft⟩ := Nat.exists_eq_succ_of_ne_zero hpos.ne'
    have hfailed : (DeliveryTask.start env job).phase = .failed := if_pos hurl
    rw [hleft, DeliveryTask.events, DeliveryTask.answer, hfailed]
    exact if_pos hurl
  · have hsending : (DeliveryTask.start env job).phase = .sending := if_neg hurl
    exact (if_neg hurl).trans (sendLoop_eq_events hsending (Nat.zero_add _))

end Spec

end Vigil
