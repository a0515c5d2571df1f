import Nightfall.L7OneDrive.Resync

/-!
# The two retry loops (`adapters/onedrive/client.py`)

Both loops count every request against `max_attempts`. The answers of a run are
read off its trace, so the results hold of any server.

* `download_all_or_nothing_iff`: a download sends no more requests than the policy
  allows, and ends with the whole body of the last response or with no file,
  unless the delay after a failed attempt raises.
* `download_overflows`: with enough attempts it does, whatever the caps are.
* `graph_loop_closed_iff`: the Graph loop counts a refresh of the token as an
  attempt. It leaves no token unused and never falls out at its end, unless the
  refresh takes the last attempt.
-/
namespace Nightfall.OneDrive
open Nightfall.Core Storage Prog

abbrev ClientTrace := List (Event ClientOps ClientState)

/-! ## The answers of a run -/

/-- What the server answered to an operation that is a request. -/
def answerOf (out : Outside) (e : Event ClientOps ClientState) : Option HttpAnswer :=
  match e.op with
  | .get url bearer => some (out.get e.pre.tick url bearer)
  | _ => none

/-- The answers of a run, oldest first: one for each request. -/
def answers (out : Outside) (es : ClientTrace) : List HttpAnswer := es.filterMap (answerOf out)

/-! ## Downloads -/

def Response.body (r : Response) : Bytes := r.chunks.flatten

/-- How a download ends: with the body of the last response in place, of the
size that was expected; with a `DownloadError` and no file; or with an exception
that the HTTP client raised for another reason than the transport. -/
def Settles (out : Outside) (destination : Path) (expectedSize : Option Int)
    (got : List HttpAnswer) (r : Except ClientError Unit) (w : ClientState) : Prop :=
  match r with
  | .ok () => ∃ r, got.getLast? = some (.response r) ∧
      w.staging.get destination = some r.body ∧
      ∀ size, expectedSize = some size → 0 ≤ size → (r.body.length : Int) = size
  | .error (.download _ _ _ _) =>
    (∀ n, out.fails n (.unlink destination) = false) → w.staging.get destination = none
  | .error .raised => got.getLast? = some .raises
  | .error _ => False

/-- A download from `w` on is all or nothing. -/
structure AllOrNothing (out : Outside) (policy : RetryPolicy) (url : String) (destination : Path)
    (expectedSize : Option Int) (w : ClientState) : Prop where
  bounded : ((answers out ((downloadWithRetry policy url destination expectedSize).trace
    (clientHandle out) w)).length : Int) ≤ policy.maxAttempts
  settles : Settles out destination expectedSize
    (answers out ((downloadWithRetry policy url destination expectedSize).trace
      (clientHandle out) w))
    ((downloadWithRetry policy url destination expectedSize).run (clientHandle out) w).1
    ((downloadWithRetry policy url destination expectedSize).run (clientHandle out) w).2

/-! ## The attempts as the world outside answers them

An attempt begins with the operation that is its request. What it writes, what it
clears away and the delay behind it have the numbers that follow. -/

/-- The number behind the writes of these chunks, if each of them is done. -/
def writesDone (out : Outside) (destination : Path) : Nat → List Bytes → Option Nat
  | n, [] => some n
  | n, chunk :: chunks =>
    if chunk.isEmpty then writesDone out destination n chunks
    else if out.fails n (.write destination chunk) then none
    else writesDone out destination (n + 1) chunks

/-- The body has another size than was expected. -/
def Response.mismatches (r : Response) (expectedSize : Option Int) : Bool :=
  expectedSize.any fun size => decide (0 ≤ size) && (r.body.length : Int) != size

/-- The attempt that begins with operation `n` fails in a way that is tried again:
the number of its `_cleanup_partial`, and the hint of its answer. -/
def failedAttempt (out : Outside) (url : String) (destination : Path) (expectedSize : Option Int)
    (n : Nat) : Option (Nat × Option Float) :=
  match out.get n url none with
  | .raises => none
  | .requestError _ => some (n + 1, none)
  | .response r =>
    if classifyStatus r.status then some (n + 1, parseRetryAfter r.retryAfter)
    else if 400 ≤ r.status ∨ out.fails (n + 1) (.openWb destination) then none
    else (writesDone out destination (n + 2) r.chunks).bind fun m =>
      if r.mismatches expectedSize then some (m, none) else none

/-- Attempts fail one after the other from operation `n` on, more than `left`
follow the first of them, and the delay behind one of them raises. The retry is
counted right behind the cleanup, then comes the delay. -/
def delayRaises (out : Outside) (policy : RetryPolicy) (url : String) (destination : Path)
    (expectedSize : Option Int) : Nat → Nat → Bool
  | 0, _ => false
  | left + 1, n =>
    match failedAttempt out url destination expectedSize n with
    | none => false
    | some (m, hint) =>
      !sleeps policy (policy.attempt (left + 1)) hint (out.jitter (m + 2)) ||
        delayRaises out policy url destination expectedSize left (m + 3)

/-- From here on, after the answers `pre`, at most `n` requests are sent, and the
download settles exactly when `C` holds. -/
def Closes (out : Outside) (destination : Path) (expectedSize : Option Int)
    (pre : List HttpAnswer) (n : Nat) (C : Prop) (p : ClientFlow Unit) (w : ClientState) : Prop :=
  (answers out (p.trace (clientHandle out) w)).length ≤ n ∧
    (Settles out destination expectedSize (pre ++ answers out (p.trace (clientHandle out) w))
      (p.run (clientHandle out) w).1 (p.run (clientHandle out) w).2 ↔ C)

section Closes
variable {out : Outside} {destination : Path} {expectedSize : Option Int} {pre : List HttpAnswer}
  {n : Nat} {C : Prop} {w : ClientState}

/-- An operation that is no request. -/
theorem closes_op {o : ClientOp} {k : o.Res → ClientFlow Unit} (ho : ∀ u b, o ≠ .get u b)
    (h : Closes out destination expectedSize pre n C (k (clientHandle out o w).1)
      (clientHandle out o w).2) :
    Closes out destination expectedSize pre n C (.op (S := ClientOps) o k) w := by
  have hnone : answerOf out ⟨o, w, (clientHandle out o w).2⟩ = none := by
    cases o with
    | get u b => exact absurd rfl (ho u b)
    | _ => rfl
  simpa only [Closes, Prog.trace, answers, List.filterMap_cons_none hnone, run_op] using h

theorem closes_get {url : String} {bearer : Option String} {k : HttpAnswer → ClientFlow Unit}
    (h : ∀ w', w'.tick = w.tick + 1 →
      Closes out destination expectedSize (pre ++ [out.get w.tick url bearer]) n C
        (k (out.get w.tick url bearer)) w') :
    Closes out destination expectedSize pre (n + 1) C (.op (S := ClientOps) (.get url bearer) k)
      w := by
  obtain ⟨hlen, hend⟩ := h (clientHandle out (.get url bearer) w).2 rfl
  refine ⟨Nat.succ_le_succ hlen, ?_⟩
  rw [List.append_assoc] at hend
  exact hend

/-- An operation on a file is done, or fails and leaves the files. -/
theorem closes_file {f : FileOp} {k : Bool → ClientFlow Unit}
    (hdone : ∀ w', w'.tick = w.tick + 1 → w'.staging = (f.apply w).staging →
      out.fails w.tick f = false → Closes out destination expectedSize pre n C (k true) w')
    (hfail : ∀ w', w'.tick = w.tick + 1 → out.fails w.tick f = true ∨ f.refused w = true →
      Closes out destination expectedSize pre n C (k false) w') :
    Closes out destination expectedSize pre n C (.op (S := ClientOps) (.file f) k) w := by
  refine closes_op (by simp) ?_
  by_cases hf : out.fails w.tick f || f.refused w
  · simp only [clientHandle, effect, hf, if_true]
    exact hfail _ rfl (by simpa using hf)
  · simp only [clientHandle, effect, hf, Bool.false_eq_true, if_false]
    rw [Bool.or_eq_true, not_or, Bool.not_eq_true] at hf
    exact hdone _ rfl rfl hf.1

/-- The file is gone after `_cleanup_partial`, if it can be unlinked. -/
theorem closes_cleanup {f : Unit → ClientFlow Unit}
    (h : ∀ w', w'.tick = w.tick + 1 → ((∀ n, out.fails n (.unlink destination) = false) →
      w'.staging.get destination = none) → Closes out destination expectedSize pre n C (f ()) w') :
    Closes out destination expectedSize pre n C (cleanupPartial destination >>= f) w := by
  refine closes_file (fun w' htick hw _ => h w' htick fun _ => ?_)
    fun w' htick hfails => h w' htick fun hunlink => ?_
  · simp [hw, FileOp.apply, Table.get_drop]
  · simp [hunlink, FileOp.refused] at hfails

/-- A failure that is not tried again. -/
theorem closes_give_up {message code url : String} {status : Option Nat} (hC : C) :
    Closes out destination expectedSize pre n C
      (do cleanupPartial destination; throw (.download message code url status)) w :=
  closes_cleanup fun _ _ hgone => ⟨Nat.zero_le _, iff_of_true hgone hC⟩

theorem closes_writeChunks {f : Bool → ClientFlow Unit} : ∀ {chunks : List Bytes} {written : Bytes}
    {w : ClientState}, w.staging.get destination = some written →
    (∀ w', writesDone out destination w.tick chunks = some w'.tick →
      w'.staging.get destination = some (written ++ chunks.flatten) →
      Closes out destination expectedSize pre n C (f true) w') →
    (∀ w', writesDone out destination w.tick chunks = none →
      Closes out destination expectedSize pre n C (f false) w') →
    Closes out destination expectedSize pre n C (writeChunks destination chunks >>= f) w
  | [], written, w, hw, hdone, _ => hdone w rfl (by simpa using hw)
  | chunk :: chunks, written, w, hw, hdone, hfail => by
    rw [writeChunks]
    simp only [writesDone] at hdone hfail
    by_cases hempty : chunk.isEmpty = true
    · simp only [if_pos hempty] at hdone hfail ⊢
      have hnil : chunk = [] := List.isEmpty_iff.mp hempty
      exact closes_writeChunks hw (by simpa [hnil] using hdone) hfail
    · simp only [if_neg hempty] at hdone hfail ⊢
      refine closes_file (fun w' htick hw' hf => ?_) fun w' _ hf => hfail w' ?_
      · simp only [hf, Bool.false_eq_true, if_false, ← htick] at hdone hfail
        have hput : w'.staging.get destination = some (written ++ chunk) := by
          simp [hw', FileOp.apply, Table.get_modify, hw]
        exact closes_writeChunks hput (by simpa using hdone) hfail
      · have hfails : out.fails w.tick (.write destination chunk) = true := by
          simpa [FileOp.refused] using hf
        rw [if_pos hfails]

/-- The body goes into a file opened anew, or a write fails. -/
theorem closes_writeBody {f : Bool → ClientFlow Unit} {r : Response}
    (hdone : ∀ w', out.fails w.tick (.openWb destination) = false →
      writesDone out destination (w.tick + 1) r.chunks = some w'.tick →
      w'.staging.get destination = some r.body →
      Closes out destination expectedSize pre n C (f true) w')
    (hfail : ∀ w', out.fails w.tick (.openWb destination) = true ∨
      writesDone out destination (w.tick + 1) r.chunks = none →
      Closes out destination expectedSize pre n C (f false) w') :
    Closes out destination expectedSize pre n C (writeBody destination r.chunks >>= f) w := by
  refine closes_file (fun w' htick hw' hopen => ?_) fun w' _ hopen => hfail w' (.inl ?_)
  · have hopened : w'.staging.get destination = some [] := by simp [hw', FileOp.apply]
    rw [← htick] at hdone hfail
    exact closes_writeChunks hopened (fun w'' => hdone w'' hopen) fun w'' hnone =>
      hfail w'' (.inr hnone)
  · simpa [FileOp.refused] using hopen

theorem Response.body_length (r : Response) :
    r.body.length = (r.chunks.map List.length).sum := by
  simp [Response.body, List.length_flatten]

section Attempts
variable {policy : RetryPolicy} {url : String} {left m start : Nat} {hint : Option Float}

theorem delayRaises_succ
    (h : failedAttempt out url destination expectedSize start = some (m, hint)) :
    delayRaises out policy url destination expectedSize (left + 1) start =
      (!sleeps policy (policy.attempt (left + 1)) hint (out.jitter (m + 2)) ||
        delayRaises out policy url destination expectedSize left (m + 3)) := by
  rw [delayRaises, h]

theorem delayRaises_of_none
    (h : failedAttempt out url destination expectedSize start = none) :
    delayRaises out policy url destination expectedSize left start = false := by
  cases left with
  | zero => rfl
  | succ left => rw [delayRaises, h]

/-- A failed attempt: the file is removed, then comes the error, or the delay and
another try. -/
theorem closes_retry {transport : Bool} {message code : String} {status : Option Nat}
    (hfailed : failedAttempt out url destination expectedSize start = some (w.tick, hint))
    (hpre : pre.getLast? ≠ some .raises)
    (hagain : ∀ l, left = l + 1 → ∀ w', Closes out destination expectedSize pre left
      (delayRaises out policy url destination expectedSize l w'.tick = false)
      (downloadAttempts policy url destination expectedSize left) w') :
    Closes out destination expectedSize pre left
      (delayRaises out policy url destination expectedSize left start = false)
      (do
        cleanupPartial destination
        retryOr policy left transport hint (.download message code url status)
          (downloadAttempts policy url destination expectedSize left)) w := by
  refine closes_cleanup fun w' htick hgone => closes_op (by simp) ?_
  cases left with
  | zero => exact ⟨Nat.zero_le _, iff_of_true hgone rfl⟩
  | succ l =>
    rw [delayRaises_succ hfailed]
    refine closes_op (by simp) ?_
    show Closes _ _ _ _ _ _ (if _ = true then _ else _) _
    -- the answer of the sleep decides between the next attempt and the exception
    have hsleep : (clientHandle out (.sleep policy (policy.attempt (l + 1)) hint)
        (clientHandle out (.countRetry transport) w').2).1 =
          sleeps policy (policy.attempt (l + 1)) hint (out.jitter (w.tick + 2)) := by
      simp [clientHandle, effect, htick]
    have hnext : (clientHandle out (.sleep policy (policy.attempt (l + 1)) hint)
        (clientHandle out (.countRetry transport) w').2).2.tick = w.tick + 3 := by
      simp [clientHandle, effect, htick]
    rw [hsleep]
    cases hslept : sleeps policy (policy.attempt (l + 1)) hint (out.jitter (w.tick + 2)) with
    | true =>
      have hrest := hagain l rfl (clientHandle out (.sleep policy (policy.attempt (l + 1)) hint)
        (clientHandle out (.countRetry transport) w').2).2
      rw [hnext] at hrest
      simpa using hrest
    | false =>
      refine ⟨Nat.zero_le _, iff_of_false (fun h => hpre ?_) (by simp)⟩
      simpa [Settles, Prog.trace, answers] using h

/-- The loop, by induction on the attempts left: each takes one request. -/
theorem closes_downloadAttempts (policy : RetryPolicy) (url : String) : ∀ (left : Nat)
    (pre : List HttpAnswer) (w : ClientState), Closes out destination expectedSize pre (left + 1)
      (delayRaises out policy url destination expectedSize left w.tick = false)
      (downloadAttempts policy url destination expectedSize (left + 1)) w
  | left, pre, w => by
    have again : ∀ pre l, left = l + 1 → ∀ w', Closes out destination expectedSize pre left
        (delayRaises out policy url destination expectedSize l w'.tick = false)
        (downloadAttempts policy url destination expectedSize left) w' := by
      intro pre l hl w'
      subst hl
      exact closes_downloadAttempts policy url l pre w'
    refine closes_get fun w' htick => ?_
    obtain ⟨failed, hfailed⟩ : ∃ f, failedAttempt out url destination expectedSize w.tick = f :=
      ⟨_, rfl⟩
    have hbody := hfailed
    rw [failedAttempt, ← htick] at hbody
    cases hget : out.get w.tick url none with
    | raises =>
      rw [hget] at hbody
      exact ⟨Nat.zero_le _, iff_of_true (by show (pre ++ [_] ++ []).getLast? = _; simp)
        (delayRaises_of_none (hfailed.trans hbody.symm))⟩
    | requestError _ =>
      rw [hget] at hbody
      exact closes_retry (hfailed.trans hbody.symm) (by simp) (again _)
    | response r =>
      rw [hget] at hbody
      dsimp only at hbody
      show Closes _ _ _ _ _ _
        (if classifyStatus r.status then _ else if 400 ≤ r.status then _ else _) _
      by_cases hretry : classifyStatus r.status = true
      · rw [if_pos hretry] at hbody ⊢
        exact closes_retry (hfailed.trans hbody.symm) (by simp) (again _)
      rw [if_neg hretry] at hbody ⊢
      by_cases herror : 400 ≤ r.status
      · rw [if_pos (.inl herror)] at hbody
        rw [if_pos herror]
        exact closes_give_up (delayRaises_of_none (hfailed.trans hbody.symm))
      rw [if_neg herror]
      refine closes_writeBody (fun w'' hopen hwritten hfile => ?_) fun w'' hfails => ?_
      · have hpass : ¬ (400 ≤ r.status ∨ out.fails w'.tick (.openWb destination) = true) := by
          simp [herror, hopen]
        have hwritten' : writesDone out destination (w.tick + 2) r.chunks = some w''.tick := by
          rw [← hwritten, htick]
        rw [if_neg hpass, hwritten', Option.bind_some] at hbody
        -- the file holds the body; its length decides
        have hlast : (pre ++ [HttpAnswer.response r] ++ []).getLast? = some (.response r) := by simp
        have hlength : (r.body.length : Int) = ((r.chunks.map List.length).sum : Nat) := by
          rw [r.body_length]
        cases expectedSize with
        | none =>
          exact ⟨Nat.zero_le _, iff_of_true ⟨r, hlast, hfile, nofun⟩
            (delayRaises_of_none (hfailed.trans hbody.symm))⟩
        | some size =>
          show Closes _ _ _ _ _ _ (if 0 < size ∧ _ then _ else if 0 ≤ size ∧ _ then _ else _) _
          have hmismatch : r.mismatches (some size) = true ↔
              0 ≤ size ∧ ((r.chunks.map List.length).sum : Nat) ≠ size := by
            simp [Response.mismatches, ← hlength]
          split
          · next hempty =>
            rw [if_pos (hmismatch.mpr (by omega))] at hbody
            exact closes_retry (hfailed.trans hbody.symm) (by simp) (again _)
          split
          · next hsize =>
            rw [if_pos (hmismatch.mpr hsize)] at hbody
            exact closes_retry (hfailed.trans hbody.symm) (by simp) (again _)
          · next hsize =>
            rw [if_neg (fun h => hsize (hmismatch.mp h))] at hbody
            refine ⟨Nat.zero_le _, iff_of_true ⟨r, hlast, hfile, fun s hs hpos => ?_⟩
              (delayRaises_of_none (hfailed.trans hbody.symm))⟩
            cases hs
            omega
      · refine closes_give_up (delayRaises_of_none (hfailed.trans (hbody.symm.trans ?_)))
        rcases hfails with hopen | hwritten
        · rw [if_pos (.inr hopen)]
        · split
          · rfl
          · rw [htick] at hwritten
            rw [hwritten, Option.bind_none]

end Attempts

theorem allOrNothing_iff {policy : RetryPolicy} (hmax : 1 ≤ policy.maxAttempts) {url : String} :
    AllOrNothing out policy url destination expectedSize w ↔
      delayRaises out policy url destination expectedSize (policy.maxAttempts - 1).toNat w.tick =
        false := by
  have hattempts : policy.maxAttempts.toNat = (policy.maxAttempts - 1).toNat + 1 := by omega
  have hloop : Closes out destination expectedSize [] ((policy.maxAttempts - 1).toNat + 1) _
      (downloadAttempts policy url destination expectedSize _) w :=
    closes_downloadAttempts policy url (policy.maxAttempts - 1).toNat [] w
  rw [← hattempts] at hloop
  refine ⟨fun h => hloop.2.mp h.settles, fun h => ⟨?_, hloop.2.mpr h⟩⟩
  have hbound := hloop.1
  rw [downloadWithRetry]
  omega

end Closes

/-- A server that cannot be reached. -/
def deadServer : Outside where
  get _ _ _ := .requestError "ConnectError"
  refresh _ := .raises
  monotonic n := n
  time n := n
  utcnow _ _ := "2024-01-01T00:00:00+00:00"
  age _ _ := 0
  jitter _ := 0.0
  driftCritical _ := false
  fails _ _ := false
  processor _ _ := true

/-- All attempts fail, and the delay after the one that leaves a single one raises. -/
theorem delayRaises_deadServer (policy : RetryPolicy) (h : 1025 ≤ policy.attempt 1) (url : String)
    (destination : Path) (expectedSize : Option Int) : ∀ left n : Nat,
      delayRaises deadServer policy url destination expectedSize (left + 1) n = true
  | left, n => by
    have hfailed : failedAttempt deadServer url destination expectedSize n = some (n + 1, none) := rfl
    rw [delayRaises_succ hfailed, Bool.or_eq_true]
    cases left with
    | zero => exact .inl (by rw [not_sleeps_overflow h]; rfl)
    | succ left => exact .inr (delayRaises_deadServer policy h url destination expectedSize left _)

/-- The delay after attempt 1025 would be `2 ** 1024` seconds before it is capped
at sixty. -/
theorem download_overflows :
    ¬ AllOrNothing deadServer { maxAttempts := 1026 } "https://content/a" ["staging", "a.tmp"]
      (some 3) emptyState := by
  rw [allOrNothing_iff (by decide)]
  have hraises := delayRaises_deadServer { maxAttempts := 1026 } (by decide)
    "https://content/a" ["staging", "a.tmp"] (some 3) 1024 0
  exact fun h => absurd (hraises.symm.trans h) (by decide)

/-- A download is all or nothing, for any server, policy and file that was there
before, exactly when no delay between two attempts raises: no more requests are
sent than the policy allows; a download that returns has left the body of the last
response, of the expected size; one that raises `DownloadError` has left no file;
and nothing else ends it but the HTTP client. -/
theorem download_all_or_nothing_iff (out : Outside) (policy : RetryPolicy)
    (hmax : 1 ≤ policy.maxAttempts) (url : String) (destination : Path)
    (expectedSize : Option Int) (w : ClientState) :
    AllOrNothing out policy url destination expectedSize w ↔
      delayRaises out policy url destination expectedSize (policy.maxAttempts - 1).toNat w.tick =
        false := allOrNothing_iff hmax

/-- A server whose first answer is cut short. -/
def flakyServer : Outside where
  get n _ _ :=
    .response ⟨200, none, if n = 0 then [[1]] else [[1, 2], [], [3]], none, none⟩
  refresh _ := .raises
  monotonic n := n
  time n := n
  utcnow _ _ := "2024-01-01T00:00:00+00:00"
  age _ _ := 0
  jitter _ := 0.0
  driftCritical _ := false
  fails _ _ := false
  processor _ _ := true

/-- The second request brings the three bytes, after a delay of a second. -/
theorem flaky_download_settles :
    AllOrNothing flakyServer {} "https://content/a" ["staging", "a.tmp"] (some 3) emptyState :=
  (download_all_or_nothing_iff flakyServer {} (by decide) "https://content/a"
    ["staging", "a.tmp"] (some 3) emptyState).mpr (by decide +kernel)

/-! ## Graph requests -/

/-- The answer is one that is tried again. -/
def Retryable : HttpAnswer → Prop
  | .requestError _ => True
  | .response r => classifyStatus r.status = true
  | .raises => False

/-- The answer is one that asks for another token. -/
def Denied : HttpAnswer → Prop
  | .response r => r.status = 401 ∨ r.status = 403
  | _ => False

/-- What the answer says of the delay before the next attempt. -/
def HttpAnswer.hint : HttpAnswer → Option Float
  | .response r => parseRetryAfter r.retryAfter
  | _ => none

/-- The request that is operation `n` fails and is tried again, behind a delay
that does not raise: its retry is counted next, then comes the delay. -/
def Retried (out : Outside) (policy : RetryPolicy) (url token : String) (left n : Nat) : Prop :=
  Retryable (out.get n url (some token)) ∧
    sleeps policy (policy.attempt left) (out.get n url (some token)).hint (out.jitter (n + 2)) = true

/-- The first `n` requests from operation `tick` on are tried again, the next one
is the last allowed, is denied, and a new token is there. -/
def RefreshedAt (out : Outside) (policy : RetryPolicy) (url token : String) (n tick : Nat) : Prop :=
  (∀ i < n, Retried out policy url token (n - i) (tick + 3 * i)) ∧
    Denied (out.get (tick + 3 * n) url (some token)) ∧
    ∃ t, out.refresh (tick + 3 * n + 1) = .token t

/-- The token is refreshed on the last attempt. -/
def RefreshedLast (out : Outside) (rq : Requests) (url : String) (tick : Nat) : Prop :=
  rq.hasRefresh = true ∧
    RefreshedAt out rq.policy url rq.accessToken (rq.policy.maxAttempts - 1).toNat tick

/-- Every token that `refresh_access_token` returned is in a later request. -/
def TokensUsed (out : Outside) (es : ClientTrace) : Prop :=
  ∀ before e after, es = before ++ e :: after → e.op = .refreshAccessToken →
    ∀ t, out.refresh e.pre.tick = .token t → ∃ e' ∈ after, ∃ url, e'.op = .get url (some t)

/-- The run did not reach the `raise` after the loop. -/
def StaysInLoop {α : Type} (r : Except ClientError α) : Prop :=
  ∀ message url status, r ≠ .error (.graph message "graph_retry_loop_exit" url status)

/-- The loop stays inside its attempts and uses every token it asks for. -/
def LoopCloses (out : Outside) (p : ClientFlow Payload) (w : ClientState) : Prop :=
  StaysInLoop (p.run (clientHandle out) w).1 ∧ TokensUsed out (p.trace (clientHandle out) w)

theorem tokensUsed_cons {out : Outside} {e : Event ClientOps ClientState} {es : ClientTrace} :
    TokensUsed out (e :: es) ↔
      (e.op = .refreshAccessToken → ∀ t, out.refresh e.pre.tick = .token t →
        ∃ e' ∈ es, ∃ url, e'.op = .get url (some t)) ∧ TokensUsed out es := by
  constructor
  · intro h
    refine ⟨h [] e es rfl, fun before e' after hes => ?_⟩
    exact h (e :: before) e' after (by rw [hes]; rfl)
  · intro ⟨hhead, htail⟩ before e' after hes
    cases before with
    | nil => cases hes; exact hhead
    | cons b before => cases hes; exact htail before e' after rfl

section LoopCloses
variable {out : Outside} {w : ClientState}

theorem tokensUsed_nil : TokensUsed out [] := fun before _ _ h => by cases before <;> cases h

theorem loopCloses_ret {payload : Payload} : LoopCloses out (.ret payload) w :=
  ⟨fun _ _ _ => by simp, tokensUsed_nil⟩

theorem loopCloses_err {e : ClientError}
    (he : ∀ message url status, e ≠ .graph message "graph_retry_loop_exit" url status) :
    LoopCloses out (.err e) w :=
  ⟨fun m u s h => he m u s (Except.error.inj h), tokensUsed_nil⟩

theorem loopCloses_op {o : ClientOp} {k : o.Res → ClientFlow Payload}
    (ho : o ≠ .refreshAccessToken) :
    LoopCloses out (.op (S := ClientOps) o k) w ↔
      LoopCloses out (k (clientHandle out o w).1) (clientHandle out o w).2 := by
  refine and_congr Iff.rfl (tokensUsed_cons.trans ?_)
  exact and_iff_right fun h => absurd h ho

def HttpAnswer.transportFailed : HttpAnswer → Bool
  | .requestError _ => true
  | _ => false

/-- The state after a request that is tried again. -/
def afterDelay (out : Outside) (policy : RetryPolicy) (left : Nat) (url token : String)
    (w : ClientState) : ClientState :=
  let answer := out.get w.tick url (some token)
  (clientHandle out (.sleep policy (policy.attempt left) answer.hint)
    (clientHandle out (.countRetry answer.transportFailed)
      (clientHandle out (.get url (some token)) w).2).2).2

/-- The state after a request that was denied and the refresh. -/
def afterRefresh (out : Outside) (url token : String) (w : ClientState) : ClientState :=
  (clientHandle out .refreshAccessToken (clientHandle out (.get url (some token)) w).2).2

theorem loopCloses_retry {policy : RetryPolicy} {left : Nat} {transport : Bool}
    {hint : Option Float} {e : ClientError} {again : ClientFlow Payload}
    (he : ∀ message url status, e ≠ .graph message "graph_retry_loop_exit" url status) :
    LoopCloses out (retryOr policy left transport hint e again) w ↔
      (left ≠ 0 → sleeps policy (policy.attempt left) hint (out.jitter (w.tick + 1)) = true →
        LoopCloses out again (clientHandle out (.sleep policy (policy.attempt left) hint)
          (clientHandle out (.countRetry transport) w).2).2) := by
  refine (loopCloses_op (by simp)).trans ?_
  show LoopCloses out (if left = 0 then _ else call (S := ClientOps) _ >>= _) _ ↔ _
  by_cases hleft : left = 0
  · rw [if_pos hleft]
    exact iff_of_true (loopCloses_err he) fun h => absurd hleft h
  · rw [if_neg hleft]
    refine (loopCloses_op (by simp)).trans ?_
    show LoopCloses out (if sleeps policy _ hint (out.jitter (w.tick + 1)) = true then _ else _) _ ↔ _
    cases sleeps policy (policy.attempt left) hint (out.jitter (w.tick + 1)) with
    | true => simp [hleft]
    | false => exact iff_of_true (loopCloses_err (by simp)) nofun

/-- The first operation of an attempt is the request. -/
theorem get_mem_graphAttempts {rq : Requests} {refreshed : Bool} {url token : String} {left : Nat} :
    ∃ e ∈ (graphAttempts rq url (left + 1) token refreshed).trace (clientHandle out) w,
      ∃ u, e.op = .get u (some token) :=
  ⟨_, List.mem_cons_self, url, rfl⟩

/-- A token that was asked for is used by the attempts that follow, if any do. -/
theorem loopCloses_refresh {rq : Requests} {url : String} {left status : Nat} :
    LoopCloses out (do
      match ← call (S := ClientOps) .refreshAccessToken with
      | .raises => throw .raised
      | .authError =>
        throw (.graph "Graph token refresh failed" "graph_auth_refresh_failed" url status)
      | .token t => graphAttempts rq url left t true) w ↔
      ∀ t, out.refresh w.tick = .token t → left ≠ 0 ∧
        LoopCloses out (graphAttempts rq url left t true)
          (clientHandle out .refreshAccessToken w).2 := by
  have hanswer : (clientHandle out .refreshAccessToken w).1 = out.refresh w.tick := rfl
  refine (and_congr Iff.rfl tokensUsed_cons).trans ?_
  simp only [run_op, call, op_bind, hanswer]
  cases out.refresh w.tick with
  | raises => exact iff_of_true ⟨fun _ _ _ => by simp, nofun, tokensUsed_nil⟩ nofun
  | authError => exact iff_of_true ⟨fun _ _ _ => by simp, nofun, tokensUsed_nil⟩ nofun
  | token t =>
    cases left with
    | zero =>
      refine iff_of_false (fun h => ?_) fun h => (h t rfl).1 rfl
      obtain ⟨e, he, _⟩ := h.2.1 trivial t rfl
      cases he
    | succ left =>
      constructor
      · intro h t' ht
        cases ht
        exact ⟨by omega, h.1, h.2.2⟩
      · intro h
        obtain ⟨-, hloop, hused⟩ := h t rfl
        refine ⟨hloop, fun _ t' ht => ?_, hused⟩
        cases ht
        exact get_mem_graphAttempts

/-- What one attempt makes of the loop: the answer decides whether it goes on. -/
theorem loopCloses_attempt {rq : Requests} {refreshed : Bool} {url token : String} {left : Nat} :
    LoopCloses out (graphAttempts rq url (left + 1) token refreshed) w ↔
      (Retried out rq.policy url token left w.tick → left ≠ 0 →
        LoopCloses out (graphAttempts rq url left token refreshed)
          (afterDelay out rq.policy left url token w)) ∧
      (Denied (out.get w.tick url (some token)) → refreshed = false → rq.hasRefresh = true →
        ∀ t, out.refresh (w.tick + 1) = .token t → left ≠ 0 ∧
          LoopCloses out (graphAttempts rq url left t true)
            (afterRefresh out url token w)) := by
  refine (loopCloses_op (by simp)).trans ?_
  have hanswer : (clientHandle out (.get url (some token)) w).1 = out.get w.tick url (some token) :=
    rfl
  have hclock : (clientHandle out (.get url (some token)) w).2.tick + 1 = w.tick + 2 := rfl
  rw [hanswer, Retried, afterDelay]
  cases out.get w.tick url (some token) with
  | raises => exact iff_of_true (loopCloses_err (by simp)) ⟨fun h => h.1.elim, nofun⟩
  | requestError _ =>
    refine (loopCloses_retry (by simp)).trans ?_
    rw [hclock]
    simp only [Retryable, Denied, HttpAnswer.hint, HttpAnswer.transportFailed, true_and,
      false_implies, and_true]
    exact forall_comm
  | response r =>
    show LoopCloses out (if r.status = 401 ∨ r.status = 403 then _ else _) _ ↔ _
    by_cases hdenied : r.status = 401 ∨ r.status = 403
    · have hfinal : classifyStatus r.status = false := by rcases hdenied with h | h <;> rw [h] <;> rfl
      rw [if_pos hdenied]
      by_cases hgive : (refreshed || !rq.hasRefresh) = true
      · rw [if_pos hgive]
        refine iff_of_true (loopCloses_err (by simp)) ⟨fun h => ?_, fun _ hrefreshed hhas => ?_⟩
        · simp [Retryable, hfinal] at h
        · simp [hrefreshed, hhas] at hgive
      · rw [if_neg hgive]
        refine loopCloses_refresh.trans ?_
        have hflags : refreshed = false ∧ rq.hasRefresh = true := by simpa using hgive
        simp only [Retryable, hfinal, Denied, hdenied, hflags]
        simp [clientHandle, effect, afterRefresh]
    · rw [if_neg hdenied]
      by_cases hretry : classifyStatus r.status = true
      · rw [if_pos hretry]
        refine (loopCloses_retry (by simp)).trans ?_
        rw [hclock]
        simp only [Retryable, hretry, Denied, hdenied, HttpAnswer.hint, HttpAnswer.transportFailed,
          true_and, false_implies, and_true]
        exact forall_comm
      · rw [if_neg hretry]
        refine iff_of_true ?_ ⟨fun h => absurd h.1 hretry, fun h => absurd h hdenied⟩
        split
        · exact loopCloses_err (by simp)
        split
        · exact loopCloses_err (by simp)
        cases r.json with
        | none => exact loopCloses_err (by simp)
        | some v => cases v <;> first | exact loopCloses_ret | exact loopCloses_err (by simp)

theorem loopCloses_refreshed (rq : Requests) (url : String) : ∀ (left : Nat) (token : String)
    (w : ClientState), LoopCloses out (graphAttempts rq url (left + 1) token true) w
  | left, token, w => by
    refine loopCloses_attempt.mpr ⟨fun _ hleft => ?_, fun _ h => nomatch h⟩
    obtain ⟨l, rfl⟩ := Nat.exists_eq_succ_of_ne_zero hleft
    exact loopCloses_refreshed rq url l token _

end LoopCloses

theorem refreshedAt_zero {out : Outside} {policy : RetryPolicy} {url token : String} {tick : Nat} :
    RefreshedAt out policy url token 0 tick ↔
      Denied (out.get tick url (some token)) ∧ ∃ t, out.refresh (tick + 1) = .token t := by
  simp [RefreshedAt]

theorem refreshedAt_succ {out : Outside} {policy : RetryPolicy} {url token : String}
    {n tick : Nat} :
    RefreshedAt out policy url token (n + 1) tick ↔
      Retried out policy url token (n + 1) tick ∧ RefreshedAt out policy url token n (tick + 3) := by
  have hshift : ∀ i, tick + 3 + 3 * i = tick + 3 * (i + 1) := by omega
  have hleft : ∀ i, n + 1 - (i + 1) = n - i := by omega
  simp only [RefreshedAt, hshift, ← and_assoc]
  refine and_congr_left' (and_congr_left' ?_)
  rw [Nat.forall_lt_succ_left]
  simp only [hleft, Nat.sub_zero, Nat.mul_zero, Nat.add_zero]

/-- The loop before a refresh, by induction on the attempts that follow. -/
theorem loopCloses_iff {out : Outside} (rq : Requests) (url token : String) :
    ∀ (left : Nat) (w : ClientState),
      LoopCloses out (graphAttempts rq url (left + 1) token false) w ↔
        ¬ (rq.hasRefresh = true ∧ RefreshedAt out rq.policy url token left w.tick)
  | 0, w => by
    rw [loopCloses_attempt, refreshedAt_zero]
    constructor
    · intro ⟨_, h⟩ ⟨hr, hdenied, t, ht⟩
      exact (h hdenied rfl hr t ht).1 rfl
    · intro h
      exact ⟨fun _ hleft => absurd rfl hleft, fun hdenied _ hr t ht =>
        absurd ⟨hr, hdenied, t, ht⟩ h⟩
  | left + 1, w => by
    rw [loopCloses_attempt, refreshedAt_succ, loopCloses_iff rq url token left]
    have htick : (afterDelay out rq.policy (left + 1) url token w).tick = w.tick + 3 := rfl
    have hrefresh : ∀ t, LoopCloses out (graphAttempts rq url (left + 1) t true)
        (afterRefresh out url token w) := fun t => loopCloses_refreshed rq url left t _
    rw [htick]
    constructor
    · intro ⟨h, _⟩ ⟨hr, hretry, hat⟩
      exact h hretry (by omega) ⟨hr, hat⟩
    · intro h
      exact ⟨fun hretry _ ⟨hr, hat⟩ => h ⟨hr, hretry, hat⟩, fun _ _ _ t _ => ⟨by omega, hrefresh t⟩⟩

/-- The retry loop of a Graph request closes exactly when the token is not
refreshed on the last attempt. -/
theorem graph_loop_closed_iff (out : Outside) (rq : Requests) (hmax : 1 ≤ rq.policy.maxAttempts)
    (url : String) (w : ClientState) :
    LoopCloses out (graphGetJson rq url) w ↔ ¬ RefreshedLast out rq url w.tick := by
  have hattempts : rq.policy.maxAttempts.toNat = (rq.policy.maxAttempts - 1).toNat + 1 := by omega
  rw [graphGetJson, hattempts]
  exact loopCloses_iff rq url rq.accessToken _ w

/-- Three transport errors, then a token that has expired, and a new one. -/
def expiredServer : Outside where
  get n _ bearer := if bearer = some "new" then .response ⟨200, some (.obj []), [], none, none⟩
    else if n < 9 then .requestError "ConnectError" else .response ⟨401, none, [], none, none⟩
  refresh _ := .token "new"
  monotonic n := n
  time n := n
  utcnow _ _ := "2024-01-01T00:00:00+00:00"
  age _ _ := 0
  jitter _ := 0.0
  driftCritical _ := false
  fails _ _ := false
  processor _ _ := true

/-- The delays of the default policy, of one, two and four seconds, are slept. -/
theorem refreshedAt_expired : RefreshedAt expiredServer {} "https://graph/delta" "old" 3 0 := by
  have hslept : ∀ i < 3, sleeps {} (RetryPolicy.attempt {} (3 - i)) none 0.0 = true := by
    decide +kernel
  refine ⟨fun i hi => ?_, .inl rfl, "new", rfl⟩
  have herror : expiredServer.get (0 + 3 * i) "https://graph/delta" (some "old") =
      .requestError "ConnectError" := by
    have hnine : 3 * i < 9 := by omega
    simp [expiredServer, hnine]
  rw [Retried, herror]
  exact ⟨trivial, hslept i hi⟩

/-- With the default of four attempts the refresh takes the last one: the new
token is never sent, and the loop falls out at its end. -/
theorem graph_loop_falls_through :
    ¬ LoopCloses expiredServer (graphGetJson ⟨"old", true, {}⟩ "https://graph/delta") emptyState :=
  fun h => (loopCloses_iff ⟨"old", true, {}⟩ "https://graph/delta" "old" 3 emptyState).mp h
    ⟨rfl, refreshedAt_expired⟩

/-- With five attempts the new token is sent. -/
theorem graph_loop_closed_five :
    LoopCloses expiredServer
      (graphGetJson ⟨"old", true, { maxAttempts := 5 }⟩ "https://graph/delta") emptyState := by
  refine (graph_loop_closed_iff expiredServer ⟨"old", true, { maxAttempts := 5 }⟩
    (by decide) _ _).mpr ?_
  intro ⟨_, hretry, _⟩
  have hfourth := (hretry 3 (by decide)).1
  simp [expiredServer, emptyState, Retryable, classifyStatus] at hfourth

end Nightfall.OneDrive
