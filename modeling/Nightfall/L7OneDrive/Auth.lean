import Nightfall.L1Storage.Names

/-!
# Account-bound tokens (`adapters/onedrive/auth.py`)

`authSetup` signs a user in and `acquireAccessToken` answers a token for every
poll, both under the account's cache lock, so calls for one account happen one
after the other. Beside the token cache lies the identity sidecar, which is to
say which of the cached identities the account is bound to. What MSAL answers
during a call is a parameter of the call (`Msal`).

`_ensure_cache_parent` sets the directory to 0700 right before that mode is
tested, so the test never fails and is left out.

* `selectAccount_eq_find`: with a sidecar, the first listed identity that has
  its home id or its user name.
* `acquireAccessToken_bound`: one call on a bound account either changes
  nothing of the sidecar or answers a token and rewrites it.
* `binding_kept_iff`: exactly the runs in which the bound identity's entry is
  listed first, whenever a token is answered, stay bound.
-/
namespace Nightfall.OneDrive
open Storage

structure AuthError where
  message : String
  account : Option String
  operation : String
  safeHint : Option String
  deriving DecidableEq, Repr

/-- The fields of `AccountConfig` the client reads. -/
structure AccountConfig where
  name : String
  clientId : String
  tokenCache : Path

/-- An entry of `get_accounts()`; a value that is no text reads as `none`. -/
structure MsalAccount where
  homeAccountId : Option String
  username : Option String
  localAccountId : Option String
  deriving DecidableEq, Repr

/-- What MSAL answers to a request for a token. -/
structure TokenResponse where
  accessToken : Option String
  errorDescription : Option String
  deriving DecidableEq, Repr

/-- MSAL's application during one call: how it reads the cache file, the
accounts it lists, its silent answers, and the text of a cache that changed.
A silent answer is a token of the account it was asked for. -/
structure Msal where
  /-- the type name of what `deserialize` raises on a text -/
  deserialize : String → Option String
  accounts : List MsalAccount
  acquireTokenSilent : MsalAccount → Option TokenResponse
  /-- `serialize()`, when `has_state_changed` -/
  changedCache : Option String
  /-- `datetime.now(..).isoformat()` and its stamp in a quarantine name -/
  now : String
  stamp : String
  /-- the home account id a token is for -/
  owner : String → Option String
  silent_owner : ∀ a r t, acquireTokenSilent a = some r → r.accessToken = some t →
    owner t = a.homeAccountId

structure DeviceFlow where
  userCode : Option String
  verificationUri : Option String
  error : Option String
  errorDescription : Option String
  deriving DecidableEq, Repr

/-- The answers of one device-code sign-in: `reloaded` is the application built
a second time, from the cache just saved. -/
structure DeviceSetup where
  app : Msal
  flow : DeviceFlow
  result : Option TokenResponse
  reloaded : Msal

/-- `hashlib.sha256(json.dumps(..))` of a dictionary with sorted keys. -/
structure Digest where
  hexdigest : List (String × String) → String
  hexdigest_ne : ∀ kvs, hexdigest kvs ≠ ""

structure IdentityPayload where
  homeAccountId : Option String
  username : Option String
  localAccountId : Option String
  integritySha256 : Option String
  updatedAt : Option String
  deriving DecidableEq, Repr

/-- What a sidecar file holds. -/
inductive SidecarText where
  | unreadable (exception : String)
  | noObject
  | object (p : IdentityPayload)
  deriving DecidableEq, Repr

structure SidecarFile where
  mode : Nat
  text : SidecarText
  deriving DecidableEq, Repr

structure CacheFile where
  mode : Nat
  text : String
  deriving DecidableEq, Repr

/-- The account's files. `legacy` is the sidecar under its older name, which is
another name only when the cache's name has a suffix. -/
structure AuthFiles where
  cache : Option CacheFile
  identity : Option SidecarFile
  legacy : Option SidecarFile
  quarantined : List (String × String)
  deriving DecidableEq, Repr

structure AccessToken where
  token : String
  deriving DecidableEq, Repr

/-! ## The files -/

/-- `oct(mode)`. -/
def oct (mode : Nat) : String := "0o" ++ String.ofList (Nat.toDigits 8 mode)

def ownerOnly : Nat := 384

def identityPath (cache : Path) : Path :=
  cache.withName (String.ofList (splitSuffix cache.name.toList).1 ++ ".identity.json")

/-- mirrors src/nightfall_photo_ingress/adapters/onedrive/auth.py:382-391 -/
def validateSecureFile (path : Path) (mode : Nat) : Except AuthError Unit :=
  if mode ≠ ownerOnly then
    .error ⟨"Insecure permissions on '" ++ path.str ++ "'. Expected " ++ oct ownerOnly ++ ".", none,
      "permission_check", some ("file mode=" ++ oct mode)⟩
  else .ok ()

/-- `_build_app`: a cache that does not load is moved aside.
mirrors src/nightfall_photo_ingress/adapters/onedrive/auth.py:132-165 -/
def buildApp (acct : AccountConfig) (m : Msal) (s : AuthFiles) : Except AuthError Unit × AuthFiles :=
  match s.cache with
  | none => (.ok (), s)
  | some file =>
    match validateSecureFile acct.tokenCache file.mode with
    | .error e => (.error e, s)
    | .ok () =>
      match m.deserialize file.text with
      | none => (.ok (), s)
      | some exception =>
        let quarantined := acct.tokenCache.name ++ ".corrupt." ++ m.stamp
        (.error ⟨"Token cache is corrupted for '" ++ acct.name ++ "'. Run auth-setup again. " ++
            "Corrupt cache moved to '" ++ quarantined ++ "'.", some acct.name, "cache_deserialize",
            some ("Cache deserialize failed: " ++ exception)⟩,
          { s with cache := none, quarantined := s.quarantined ++ [(quarantined, file.text)] })

/-- mirrors src/nightfall_photo_ingress/adapters/onedrive/auth.py:167-181 -/
def saveCache (m : Msal) (s : AuthFiles) : AuthFiles :=
  match m.changedCache with
  | none => { s with cache := s.cache.map fun file => { file with mode := ownerOnly } }
  | some text => { s with cache := some ⟨ownerOnly, text⟩ }

/-! ## The identity sidecar -/

/-- `isinstance(value, str) and value`. -/
def nonEmpty (value : Option String) : Option String := value.filter (· ≠ "")

/-- mirrors src/nightfall_photo_ingress/adapters/onedrive/auth.py:394-405 -/
def identityIntegrityHash (d : Digest) (acct : AccountConfig)
    (home username localId : Option String) : String :=
  d.hexdigest [("account", acct.name), ("client_id", acct.clientId),
    ("home_account_id", home.getD ""), ("local_account_id", localId.getD ""),
    ("username", username.getD "")]

/-- The sidecar of an identity. -/
def identityPayload (d : Digest) (acct : AccountConfig) (a : MsalAccount) (now : String) :
    IdentityPayload where
  homeAccountId := nonEmpty a.homeAccountId
  username := nonEmpty a.username
  localAccountId := nonEmpty a.localAccountId
  integritySha256 := some (identityIntegrityHash d acct (nonEmpty a.homeAccountId)
    (nonEmpty a.username) (nonEmpty a.localAccountId))
  updatedAt := some now

/-- The sidecar is written from the first entry of the list.
mirrors src/nightfall_photo_ingress/adapters/onedrive/auth.py:275-299 -/
def persistAccountIdentity (d : Digest) (acct : AccountConfig) (accounts : List MsalAccount)
    (now : String) (s : AuthFiles) : AuthFiles :=
  match accounts with
  | [] => s
  | selected :: _ =>
    { s with identity := some ⟨ownerOnly, .object (identityPayload d acct selected now)⟩ }

/-- mirrors src/nightfall_photo_ingress/adapters/onedrive/auth.py:407-442 -/
def validateIdentityIntegrity (d : Digest) (acct : AccountConfig) (p : IdentityPayload) :
    Except AuthError Unit :=
  match nonEmpty p.integritySha256 with
  | none => .error ⟨"Identity metadata integrity missing for '" ++ acct.name ++
      "'. Run auth-setup to rebind token identity.", some acct.name, "identity_load",
      some "missing integrity_sha256"⟩
  | some expected =>
    let actual := identityIntegrityHash d acct (nonEmpty p.homeAccountId) (nonEmpty p.username)
      (nonEmpty p.localAccountId)
    if actual ≠ expected then
      .error ⟨"Identity metadata integrity mismatch for '" ++ acct.name ++
        "'. Run auth-setup to rebind token identity.", some acct.name, "identity_load",
        some "identity sidecar hash mismatch"⟩
    else .ok ()

/-- The fields of the sidecar a selection looks at; never both `none`. -/
structure ExpectedIdentity where
  homeAccountId : Option String
  username : Option String
  deriving DecidableEq, Repr

/-- The identity a sidecar file names. -/
def expectedIdentity (d : Digest) (acct : AccountConfig) (file : SidecarFile) :
    Except AuthError (Option ExpectedIdentity) := do
  validateSecureFile (identityPath acct.tokenCache) file.mode
  match file.text with
  | .unreadable exception =>
    .error ⟨"Identity metadata is unreadable for '" ++ acct.name ++
      "'. Run auth-setup to refresh token binding.", some acct.name, "identity_load",
      some ("Identity metadata read failed: " ++ exception)⟩
  | .noObject =>
    .error ⟨"Identity metadata format invalid for '" ++ acct.name ++
      "'. Run auth-setup to refresh token binding.", some acct.name, "identity_load", none⟩
  | .object p => do
    validateIdentityIntegrity d acct p
    match nonEmpty p.homeAccountId, nonEmpty p.username with
    | none, none => .ok none
    | home, username => .ok (some ⟨home, username⟩)

/-- A sidecar under the older name is renamed before it is read.
mirrors src/nightfall_photo_ingress/adapters/onedrive/auth.py:226-273 -/
def loadExpectedIdentity (d : Digest) (acct : AccountConfig) (s : AuthFiles) :
    Except AuthError (Option ExpectedIdentity) × AuthFiles :=
  match s.identity with
  | some file => (expectedIdentity d acct file, s)
  | none =>
    match s.legacy with
    | none => (.ok none, s)
    | some file =>
      let file := { file with mode := ownerOnly }
      (expectedIdentity d acct file, { s with identity := some file, legacy := none })

/-! ## Selection -/

/-- One candidate of the loop in `_select_account`. -/
def ExpectedIdentity.accepts (e : ExpectedIdentity) (a : MsalAccount) : Bool :=
  (e.homeAccountId.isSome && a.homeAccountId == e.homeAccountId) ||
    (e.username.isSome && a.username == e.username)

/-- mirrors src/nightfall_photo_ingress/adapters/onedrive/auth.py:302-348 -/
def selectAccount (accounts : List MsalAccount) (expected : Option ExpectedIdentity)
    (acct : AccountConfig) : Except AuthError MsalAccount :=
  match expected with
  | some e =>
    match accounts.find? e.accepts with
    | some a => .ok a
    | none => .error ⟨"Cached token identity mismatch for '" ++ acct.name ++
        "'. Run auth-setup to rebind the account cache.", some acct.name, "identity_bind",
        some "No cached MSAL account matched persisted home_account_id/username"⟩
  | none =>
    match accounts with
    | [a] => .ok a
    | _ => .error ⟨"Multiple cached identities found for '" ++ acct.name ++
        "' without binding metadata. Run auth-setup to pin account identity.", some acct.name,
        "identity_bind", none⟩

/-! ## The two entry points -/

/-- mirrors src/nightfall_photo_ingress/adapters/onedrive/auth.py:445-465 -/
def extractToken (result : Option TokenResponse) (account : String) : Except AuthError String :=
  match result.bind (·.accessToken) with
  | some token => .ok token
  | none => .error ⟨"Token acquisition failed – run auth-setup to re-authenticate", some account,
      "extract_token",
      some ((result.bind (·.errorDescription)).getD "No access token returned")⟩

/-- mirrors src/nightfall_photo_ingress/adapters/onedrive/auth.py:110-130 -/
def acquireAccessToken (d : Digest) (acct : AccountConfig) (m : Msal) (s : AuthFiles) :
    Except AuthError AccessToken × AuthFiles :=
  match buildApp acct m s with
  | (.error e, s) => (.error e, s)
  | (.ok (), s) =>
    if m.accounts = [] then
      (.error ⟨"No cached account found for '" ++ acct.name ++ "'. Run auth-setup first.",
        some acct.name, "acquire_silent", none⟩, s)
    else
      match loadExpectedIdentity d acct s with
      | (.error e, s) => (.error e, s)
      | (.ok expected, s) =>
        match selectAccount m.accounts expected acct with
        | .error e => (.error e, s)
        | .ok selected =>
          match extractToken (m.acquireTokenSilent selected) acct.name with
          | .error e => (.error e, s)
          | .ok token =>
            (.ok ⟨token⟩, persistAccountIdentity d acct m.accounts m.now (saveCache m s))

/-- The text of a flow that gave no code, cut to 100 characters. -/
def deviceFlowHint (flow : DeviceFlow) : String :=
  let hint := "MSAL error=" ++ flow.error.getD "unknown"
  let desc := flow.errorDescription.getD ""
  if desc = "" then hint else hint ++ ", desc=" ++ String.ofList (desc.toList.take 100)

/-- mirrors src/nightfall_photo_ingress/adapters/onedrive/auth.py:75-108 -/
def authSetup (d : Digest) (acct : AccountConfig) (u : DeviceSetup) (s : AuthFiles) :
    Except AuthError AccessToken × AuthFiles :=
  match buildApp acct u.app s with
  | (.error e, s) => (.error e, s)
  | (.ok (), s) =>
    if u.flow.userCode.isNone ∨ u.flow.verificationUri.isNone then
      (.error ⟨"Device-code flow did not return verification details", some acct.name,
        "device_code_initiate", some (deviceFlowHint u.flow)⟩, s)
    else
      match extractToken u.result acct.name with
      | .error e => (.error e, s)
      | .ok token =>
        match buildApp acct u.reloaded (saveCache u.app s) with
        | (.error e, s) => (.error e, s)
        | (.ok (), s) =>
          (.ok ⟨token⟩, persistAccountIdentity d acct u.reloaded.accounts u.reloaded.now s)

/-- The files after a run of silent calls. -/
def afterAcquires (d : Digest) (acct : AccountConfig) (s : AuthFiles) (calls : List Msal) :
    AuthFiles := calls.foldl (fun s m => (acquireAccessToken d acct m s).2) s

/-! ## One call on a bound account -/

/-- The sidecar names `home`. -/
def Names (home : String) (s : AuthFiles) : Prop :=
  ∃ file p, s.identity = some file ∧ file.text = .object p ∧ p.homeAccountId = some home

/-- The sidecar is one the client wrote for an identity with home id `home`. -/
def Bound (d : Digest) (acct : AccountConfig) (home : String) (s : AuthFiles) : Prop :=
  home ≠ "" ∧ ∃ a now, a.homeAccountId = some home ∧
    s.identity = some ⟨ownerOnly, .object (identityPayload d acct a now)⟩

/-- The cache file is absent, or has the mode 0600 and loads. -/
def CacheLoads (m : Msal) (s : AuthFiles) : Prop :=
  ∀ file, s.cache = some file → file.mode = ownerOnly ∧ m.deserialize file.text = none

/-- The user name of the bound identity, as the sidecar has it. -/
def boundUsername (s : AuthFiles) : Option String :=
  match s.identity with
  | some ⟨_, .object p⟩ => nonEmpty p.username
  | _ => none

/-- The first listed entry is the bound identity's, or the call ends without a
token: the cache is not readable, or MSAL has no token for the first entry with
the bound home id or the bound user name. -/
def ListsBoundFirst (home : String) (s : AuthFiles) (m : Msal) : Prop :=
  m.accounts.head?.bind (·.homeAccountId) = some home ∨ ¬ CacheLoads m s ∨
    ∀ a, m.accounts.find? (ExpectedIdentity.accepts ⟨some home, boundUsername s⟩) = some a →
      (m.acquireTokenSilent a).bind (·.accessToken) = none

@[simp] theorem nonEmpty_nonEmpty (v : Option String) : nonEmpty (nonEmpty v) = nonEmpty v := by
  cases v <;> simp [nonEmpty, Option.filter]
  split <;> simp_all

theorem nonEmpty_some {v : String} (h : v ≠ "") : nonEmpty (some v) = some v := by
  simp [nonEmpty, h]

/-- A written sidecar passes its own check. -/
theorem validateIdentityIntegrity_payload (d : Digest) (acct : AccountConfig) (a : MsalAccount)
    (now : String) : validateIdentityIntegrity d acct (identityPayload d acct a now) = .ok () := by
  have hash : nonEmpty (identityPayload d acct a now).integritySha256 =
      (identityPayload d acct a now).integritySha256 := nonEmpty_some (d.hexdigest_ne _)
  unfold validateIdentityIntegrity
  rw [hash]
  simp [identityPayload]

theorem loadExpectedIdentity_bound {d : Digest} {acct : AccountConfig} {home : String}
    {s : AuthFiles} (h : Bound d acct home s) :
    loadExpectedIdentity d acct s = (.ok (some ⟨some home, boundUsername s⟩), s) := by
  obtain ⟨hne, a, now, ha, hs⟩ := h
  have hhome : nonEmpty (identityPayload d acct a now).homeAccountId = some home := by
    simp only [identityPayload, nonEmpty_nonEmpty, ha]
    exact nonEmpty_some hne
  simp only [loadExpectedIdentity, hs, expectedIdentity, validateSecureFile, ownerOnly, boundUsername,
    validateIdentityIntegrity_payload, hhome, ne_eq, not_true_eq_false, if_false, bind, Except.bind]

theorem selectAccount_eq_find {accounts : List MsalAccount} {e : ExpectedIdentity}
    {acct : AccountConfig} {a : MsalAccount} :
    selectAccount accounts (some e) acct = .ok a ↔ accounts.find? e.accepts = some a := by
  unfold selectAccount
  cases h : accounts.find? e.accepts <;> simp [h]

theorem extractToken_eq {r : Option TokenResponse} {account t : String} :
    extractToken r account = .ok t ↔ r.bind (·.accessToken) = some t := by
  unfold extractToken
  cases h : r.bind (·.accessToken) <;> simp

@[simp] theorem saveCache_identity (m : Msal) (s : AuthFiles) :
    (saveCache m s).identity = s.identity := by
  unfold saveCache
  cases m.changedCache <;> rfl

theorem buildApp_identity (acct : AccountConfig) (m : Msal) (s : AuthFiles) :
    (buildApp acct m s).2.identity = s.identity := by
  unfold buildApp
  cases s.cache with
  | none => rfl
  | some file =>
    simp only
    cases validateSecureFile acct.tokenCache file.mode with
    | error e => rfl
    | ok u =>
      simp only
      cases m.deserialize file.text <;> rfl

/-- The application is built from a cache that loads, and nothing changes then. -/
theorem buildApp_ok_iff {acct : AccountConfig} {m : Msal} {s : AuthFiles} :
    (buildApp acct m s).1 = .ok () ↔ CacheLoads m s := by
  unfold buildApp CacheLoads validateSecureFile
  cases s.cache with
  | none => simp
  | some file =>
    by_cases hm : file.mode = ownerOnly
    · cases hd : m.deserialize file.text <;> simp [hm, hd]
    · simp [hm]

theorem buildApp_eq_of_ok {acct : AccountConfig} {m : Msal} {s : AuthFiles}
    (h : CacheLoads m s) : buildApp acct m s = (.ok (), s) := by
  unfold buildApp validateSecureFile
  cases hc : s.cache with
  | none => rfl
  | some file => simp [(h file hc).1, (h file hc).2]

/-- A call on a bound account answers a token exactly when the cache loads and
MSAL has one for the first entry it accepts; else the sidecar stays. -/
theorem acquireAccessToken_bound {d : Digest} {acct : AccountConfig} {home : String}
    {s : AuthFiles} (h : Bound d acct home s) (m : Msal) :
    (∃ e s', acquireAccessToken d acct m s = (.error e, s') ∧ s'.identity = s.identity ∧
      (¬ CacheLoads m s ∨
        ∀ a, m.accounts.find? (ExpectedIdentity.accepts ⟨some home, boundUsername s⟩) = some a →
          (m.acquireTokenSilent a).bind (·.accessToken) = none)) ∨
    (∃ a t, CacheLoads m s ∧
      m.accounts.find? (ExpectedIdentity.accepts ⟨some home, boundUsername s⟩) = some a ∧
      (m.acquireTokenSilent a).bind (·.accessToken) = some t ∧
      acquireAccessToken d acct m s =
        (.ok ⟨t⟩, persistAccountIdentity d acct m.accounts m.now (saveCache m s))) := by
  by_cases hc : CacheLoads m s
  · rw [acquireAccessToken, buildApp_eq_of_ok hc]
    simp only [loadExpectedIdentity_bound h]
    by_cases hnil : m.accounts = []
    · exact .inl ⟨_, s, by rw [if_pos hnil], rfl, .inr (by simp [hnil])⟩
    · rw [if_neg hnil]
      cases hsel : selectAccount m.accounts (some ⟨some home, boundUsername s⟩) acct with
      | error e =>
        refine .inl ⟨e, s, rfl, rfl, .inr fun a ha => ?_⟩
        rw [selectAccount_eq_find.mpr ha] at hsel
        cases hsel
      | ok a =>
        have hfind := selectAccount_eq_find.mp hsel
        cases htok : extractToken (m.acquireTokenSilent a) acct.name with
        | ok t => exact .inr ⟨a, t, hc, hfind, extractToken_eq.mp htok, by simp only [htok]⟩
        | error e =>
          refine .inl ⟨e, s, by simp only [htok], rfl, .inr fun a' ha' => ?_⟩
          obtain rfl : a = a' := Option.some.inj (hfind.symm.trans ha')
          cases hr : (m.acquireTokenSilent a).bind (·.accessToken) with
          | none => rfl
          | some t =>
            rw [extractToken_eq.mpr hr] at htok
            cases htok
  · have herr : ∃ e, (buildApp acct m s).1 = .error e := by
      cases hb : (buildApp acct m s).1 with
      | ok u => exact absurd (buildApp_ok_iff.mp hb) hc
      | error e => exact ⟨e, rfl⟩
    obtain ⟨e, he⟩ := herr
    have hb : buildApp acct m s = (.error e, (buildApp acct m s).2) := Prod.ext he rfl
    refine .inl ⟨e, (buildApp acct m s).2, ?_, buildApp_identity acct m s, .inl hc⟩
    rw [acquireAccessToken, hb]

/-- What the binding asks of one call: a token it answers is for `home`, and the
sidecar names `home` behind it. -/
def KeepsBinding (d : Digest) (acct : AccountConfig) (home : String) (s : AuthFiles) (m : Msal) :
    Prop :=
  (∀ t, (acquireAccessToken d acct m s).1 = .ok t → m.owner t.token = some home) ∧
    Names home (acquireAccessToken d acct m s).2

theorem Bound.names {d : Digest} {acct : AccountConfig} {home : String} {s : AuthFiles}
    (h : Bound d acct home s) : Names home s := by
  obtain ⟨hne, a, now, ha, hs⟩ := h
  refine ⟨_, _, hs, rfl, ?_⟩
  simp only [identityPayload, ha]
  exact nonEmpty_some hne

/-- The identity behind a call that answered a token is the first entry's. -/
theorem names_persist {d : Digest} {acct : AccountConfig} {home now : String} {s : AuthFiles}
    {a : MsalAccount} (rest : List MsalAccount) (hne : home ≠ "") :
    Names home (persistAccountIdentity d acct (a :: rest) now s) ↔ a.homeAccountId = some home := by
  have hp : nonEmpty a.homeAccountId = some home ↔ a.homeAccountId = some home := by
    cases hv : a.homeAccountId with
    | none => simp [nonEmpty]
    | some v =>
      simp only [nonEmpty, Option.filter_some, Option.some.injEq]
      by_cases hv : v = ""
      · subst hv
        simp [Ne.symm hne]
      · simp [hv]
  constructor
  · rintro ⟨file, p, hfile, htext, hname⟩
    obtain rfl := Option.some.inj hfile
    obtain rfl := SidecarText.object.inj htext
    exact hp.mp hname
  · intro ha
    exact ⟨_, _, rfl, rfl, hp.mpr ha⟩

theorem bound_persist {d : Digest} {acct : AccountConfig} {home now : String} {s : AuthFiles}
    {a : MsalAccount} (rest : List MsalAccount) (hne : home ≠ "") (ha : a.homeAccountId = some home) :
    Bound d acct home (persistAccountIdentity d acct (a :: rest) now s) :=
  ⟨hne, a, now, ha, rfl⟩

/-- A list headed by the bound identity selects its entry. -/
theorem find_bound_head {home : String} {user : Option String} {a : MsalAccount}
    {rest : List MsalAccount} (ha : a.homeAccountId = some home) :
    (a :: rest).find? (ExpectedIdentity.accepts ⟨some home, user⟩) = some a := by
  simp [ExpectedIdentity.accepts, ha]

theorem keepsBinding_iff {d : Digest} {acct : AccountConfig} {home : String} {s : AuthFiles}
    (h : Bound d acct home s) (m : Msal) :
    KeepsBinding d acct home s m ↔ ListsBoundFirst home s m := by
  rcases acquireAccessToken_bound h m with ⟨e, s', hrun, hid, hnone⟩ | ⟨a, t, hc, hfind, htok, hrun⟩
  · have hkeeps : KeepsBinding d acct home s m := by
      unfold KeepsBinding Names
      rw [hrun, hid]
      exact ⟨by simp, h.names⟩
    exact ⟨fun _ => .inr hnone, fun _ => hkeeps⟩
  · have hlist : ∃ b rest, m.accounts = b :: rest := by
      cases hl : m.accounts with
      | nil => simp [hl] at hfind
      | cons b rest => exact ⟨b, rest, rfl⟩
    obtain ⟨b, rest, hl⟩ := hlist
    unfold KeepsBinding
    rw [hrun, hl, names_persist _ h.1]
    constructor
    · rintro ⟨-, hb⟩
      exact .inl (by simp [hl, hb])
    · rintro (hfirst | hcache | hsilent)
      · have hb : b.homeAccountId = some home := by simpa [hl] using hfirst
        refine ⟨fun t' ht' => ?_, hb⟩
        obtain rfl : ⟨t⟩ = t' := Except.ok.inj ht'
        obtain ⟨r, hr, hrt⟩ := Option.bind_eq_some_iff.mp htok
        rw [hl, find_bound_head hb] at hfind
        obtain rfl : b = a := Option.some.inj hfind
        rw [m.silent_owner b r t hr hrt, hb]
      · exact absurd hc hcache
      · rw [hsilent a hfind] at htok
        cases htok

theorem bound_after {d : Digest} {acct : AccountConfig} {home : String} {s : AuthFiles} {m : Msal}
    (h : Bound d acct home s) (hk : KeepsBinding d acct home s m) :
    Bound d acct home (acquireAccessToken d acct m s).2 := by
  rcases acquireAccessToken_bound h m with ⟨e, s', hrun, hid, -⟩ | ⟨a, t, -, hfind, -, hrun⟩
  · obtain ⟨hne, a, now, ha, hs⟩ := h
    rw [hrun]
    exact ⟨hne, a, now, ha, by rw [hid, hs]⟩
  · cases hl : m.accounts with
    | nil => simp [hl] at hfind
    | cons b rest =>
      have hb : b.homeAccountId = some home := by
        have hnames := hk.2
        rw [hrun, hl] at hnames
        exact (names_persist rest h.1).mp hnames
      rw [hrun, hl]
      exact bound_persist rest h.1 hb

/-! ## Runs -/

/-- While every call so far kept the binding, the account is bound. -/
theorem bound_afterAcquires {d : Digest} {acct : AccountConfig} {home : String} :
    ∀ (calls : List Msal) {s : AuthFiles}, Bound d acct home s →
      (∀ before m, before ++ [m] <+: calls →
        KeepsBinding d acct home (afterAcquires d acct s before) m) →
      Bound d acct home (afterAcquires d acct s calls)
  | [], _, hs, _ => hs
  | m :: calls, s, hs, hk => by
    have hfirst : KeepsBinding d acct home s m := hk [] m (by simp)
    refine bound_afterAcquires calls (bound_after hs hfirst) fun before m' hm' => ?_
    exact hk (m :: before) m' (by simpa using hm')

/-- The sidecar a setup leaves, when its second application lists `home` first. -/
theorem bound_authSetup {d : Digest} {acct : AccountConfig} {u : DeviceSetup} {home : String}
    {s s' : AuthFiles} {t : AccessToken} (hne : home ≠ "")
    (hu : u.reloaded.accounts.head?.bind (·.homeAccountId) = some home)
    (h : authSetup d acct u s = (.ok t, s')) : Bound d acct home s' := by
  cases hl : u.reloaded.accounts with
  | nil => simp [hl] at hu
  | cons a rest =>
    have ha : a.homeAccountId = some home := by simpa [hl] using hu
    unfold authSetup at h
    split at h
    · cases h
    · split at h
      · cases h
      · split at h
        · cases h
        · split at h
          · cases h
          · obtain ⟨-, rfl⟩ := Prod.mk.inj h
            rw [hl]
            exact bound_persist _ hne ha

/-- After `auth_setup` bound `home`, every token of a run is for `home` and the
sidecar keeps naming it exactly when every call that would answer a token lists
the entry of `home` first. -/
theorem binding_kept_iff (d : Digest) (acct : AccountConfig) (u : DeviceSetup) (home : String)
    (s₀ s : AuthFiles) (t : AccessToken) (hne : home ≠ "")
    (hu : u.reloaded.accounts.head?.bind (·.homeAccountId) = some home)
    (hs : authSetup d acct u s₀ = (.ok t, s)) (calls : List Msal) :
    (∀ before m, before ++ [m] <+: calls →
      KeepsBinding d acct home (afterAcquires d acct s before) m) ↔
    (∀ before m, before ++ [m] <+: calls →
      ListsBoundFirst home (afterAcquires d acct s before) m) := by
  have hb := bound_authSetup hne hu hs
  have hinit : ∀ before m, before ++ [m] <+: calls → ∀ before' m', before' ++ [m'] <+: before →
      before' ++ [m'] <+: calls := fun before m h before' m' h' =>
    h'.trans ((List.prefix_append before [m]).trans h)
  constructor
  · intro hk before m hm
    exact (keepsBinding_iff (bound_afterAcquires _ hb fun b' m' h' =>
      hk b' m' (hinit before m hm b' m' h')) m).mp (hk before m hm)
  · intro hl before m hm
    -- the calls before `m` kept the binding, by induction on how many there are
    induction hn : before.length using Nat.strong_induction_on generalizing before m with
    | _ n ih =>
      refine (keepsBinding_iff (bound_afterAcquires _ hb fun b' m' h' => ?_) m).mpr (hl before m hm)
      have hlen := h'.length_le
      simp only [List.length_append, List.length_singleton] at hlen
      exact ih b'.length (by omega) b' m' (hinit before m hm b' m' h') rfl

/-! Two people signed in with one cache; the account was bound to the first. -/

def sampleDigest : Digest := ⟨fun _ => "d1", fun _ => by decide⟩

def sampleAccount : AccountConfig := ⟨"alice", "client", ["state", "alice.json"]⟩

def aliceIdentity : MsalAccount := ⟨some "alice.home", some "alice@example.org", none⟩

def bobIdentity : MsalAccount := ⟨some "bob.home", some "bob@example.org", none⟩

/-- An application that lists `accounts` and has a token for each of them. -/
def sampleMsal (accounts : List MsalAccount) : Msal where
  deserialize _ := none
  accounts := accounts
  acquireTokenSilent a := some ⟨a.homeAccountId, none⟩
  changedCache := none
  now := "2026-01-01T00:00:00+00:00"
  stamp := "20260101T000000Z"
  owner := some
  silent_owner := by
    intro a r t hr ht
    obtain rfl := Option.some.inj hr
    exact ht.symm

def sampleSetup : DeviceSetup where
  app := sampleMsal []
  flow := ⟨some "code", some "https://microsoft.com/devicelogin", none, none⟩
  result := some ⟨some "alice.home", none⟩
  reloaded := sampleMsal [aliceIdentity, bobIdentity]

def noFiles : AuthFiles := ⟨none, none, none, []⟩

theorem binding_kept_sample :
    (authSetup sampleDigest sampleAccount sampleSetup noFiles).1 = .ok ⟨"alice.home"⟩ ∧
    ∀ before m, before ++ [m] <+: [sampleMsal [aliceIdentity, bobIdentity]] →
      KeepsBinding sampleDigest sampleAccount "alice.home" (afterAcquires sampleDigest sampleAccount
        (authSetup sampleDigest sampleAccount sampleSetup noFiles).2 before) m := by
  refine ⟨rfl, (binding_kept_iff sampleDigest sampleAccount sampleSetup "alice.home" noFiles _
    ⟨"alice.home"⟩ (by decide) rfl rfl [sampleMsal [aliceIdentity, bobIdentity]]).mpr ?_⟩
  intro before m h
  have hm : m ∈ [sampleMsal [aliceIdentity, bobIdentity]] := h.subset (by simp)
  obtain rfl := List.mem_singleton.mp hm
  exact .inl rfl

/-- Both people stay cached and each call lists both: one call that lists the
other person first leaves a sidecar naming that person, and the next answers
that person's token. -/
theorem binding_drifts : ¬ ∀ (d : Digest) (acct : AccountConfig) (u : DeviceSetup) (home : String)
    (s₀ s : AuthFiles) (t : AccessToken), home ≠ "" →
    u.reloaded.accounts.head?.bind (·.homeAccountId) = some home →
    authSetup d acct u s₀ = (.ok t, s) → ∀ calls : List Msal,
    (∀ m ∈ calls, m.accounts.Perm u.reloaded.accounts) →
    ∀ before m, before ++ [m] <+: calls →
      KeepsBinding d acct home (afterAcquires d acct s before) m := by
  intro h
  have swapped : [bobIdentity, aliceIdentity].Perm [aliceIdentity, bobIdentity] :=
    List.Perm.swap _ _ _
  let m := sampleMsal [bobIdentity, aliceIdentity]
  have hkeeps := h sampleDigest sampleAccount sampleSetup "alice.home" noFiles _ ⟨"alice.home"⟩
    (by decide) rfl rfl [m, m] (by simpa [m, sampleMsal, sampleSetup] using swapped) [m] m (by simp)
  have htoken : some "bob.home" = some "alice.home" := hkeeps.1 ⟨"bob.home"⟩ (by rfl)
  exact absurd htoken (by decide)

end Nightfall.OneDrive
