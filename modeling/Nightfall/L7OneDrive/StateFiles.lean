import Mathlib.Data.List.Pairwise
import Nightfall.L1Storage.PosixPath
import Nightfall.L7OneDrive.Auth

/-!
# State files of an account (`config.py`, `cache_lock.py`, `auth.py`, `client.py`)

Two paths are configured for an account, its token cache and its delta cursor,
and eight more are derived from them. `_validate_accounts` compares the
configured paths only, each with those of its own kind.

* `pathsDiffer`: what the validation promises of two accounts.
* `stateFiles_disjoint_iff`: two accepted accounts share no state file exactly
  when their token caches lie in different directories, their cursors do not
  have one directory and one stem, and no path configured for one is a state
  file of the other.
-/
namespace Nightfall.Config
open Storage

/-- The fields `_validate_accounts` reads. -/
structure AccountConfig where
  name : String
  enabled : Bool
  provider : String
  tokenCache : PosixPath
  deltaCursor : PosixPath
  maxDownloads : Option Int
  deriving DecidableEq

/-! ## Validation -/

/-- The class `[a-z0-9_-]` of `ACCOUNT_NAME_PATTERN`. -/
def isAccountNameChar (c : Char) : Bool :=
  ('a' ≤ c && c ≤ 'z') || ('0' ≤ c && c ≤ '9') || c == '_' || c == '-'

def isAccountName (name : String) : Bool := name ≠ "" && name.toList.all isAccountNameChar

/-- The error, when the check failed. -/
def errorIf (failed : Bool) (message : String) : List String := if failed then [message] else []

/-- What the loop has seen so far. -/
structure Seen where
  names : List String
  tokenCachePaths : List PosixPath
  deltaCursorPaths : List PosixPath

def Seen.add (s : Seen) (a : AccountConfig) : Seen :=
  ⟨a.name :: s.names, a.tokenCache :: s.tokenCachePaths, a.deltaCursor :: s.deltaCursorPaths⟩

/-- One turn of the loop. -/
def accountErrors (s : Seen) (a : AccountConfig) : List String :=
  errorIf (!isAccountName a.name) ("Account name must match ^[a-z0-9_-]+$: " ++ a.name) ++
  errorIf (s.names.contains a.name) ("Duplicate account section name: " ++ a.name) ++
  errorIf (a.provider != "onedrive") ("[account." ++ a.name ++ "] provider must be 'onedrive'") ++
  errorIf (s.tokenCachePaths.contains a.tokenCache)
    ("Duplicate token_cache path across accounts: " ++ a.tokenCache.str) ++
  errorIf (s.deltaCursorPaths.contains a.deltaCursor)
    ("Duplicate delta_cursor path across accounts: " ++ a.deltaCursor.str) ++
  errorIf (a.maxDownloads.any (· ≤ 0))
    ("[account." ++ a.name ++ "] max_downloads must be > 0 when set")

def loopErrors : Seen → List AccountConfig → List String
  | _, [] => []
  | s, a :: accounts => accountErrors s a ++ loopErrors (s.add a) accounts

/-- The errors found; the accounts are accepted when there are none.
mirrors src/nightfall_photo_ingress/config.py:620-665 -/
def validateAccounts (accounts : List AccountConfig) : List String :=
  if accounts = [] then ["At least one [account.<name>] section is required"]
  else errorIf (!accounts.any (·.enabled)) "At least one account must be enabled" ++
    loopErrors ⟨[], [], []⟩ accounts

theorem errorIf_eq_nil_iff {failed : Bool} {message : String} :
    errorIf failed message = [] ↔ failed = false := by
  cases failed <;> simp [errorIf]

theorem accountErrors_nil {s : Seen} {a : AccountConfig} (h : accountErrors s a = []) :
    a.tokenCache ∉ s.tokenCachePaths ∧ a.deltaCursor ∉ s.deltaCursorPaths := by
  simp only [accountErrors, List.append_eq_nil_iff, errorIf_eq_nil_iff] at h
  obtain ⟨⟨⟨-, htoken⟩, hcursor⟩, -⟩ := h
  exact ⟨by simpa using htoken, by simpa using hcursor⟩

/-- Two accounts with different configured paths. -/
def PathsDiffer (a b : AccountConfig) : Prop :=
  a.tokenCache ≠ b.tokenCache ∧ a.deltaCursor ≠ b.deltaCursor

instance : Std.Symm PathsDiffer := ⟨fun _ _ h => ⟨h.1.symm, h.2.symm⟩⟩

/-- Induction on the accounts: none has a path seen before. -/
theorem pathsDiffer_loop : ∀ {accounts : List AccountConfig} {s : Seen},
    loopErrors s accounts = [] →
      (∀ a ∈ accounts, a.tokenCache ∉ s.tokenCachePaths ∧ a.deltaCursor ∉ s.deltaCursorPaths) ∧
        accounts.Pairwise PathsDiffer
  | [], _, _ => by simp
  | a :: accounts, s, h => by
    rw [loopErrors, List.append_eq_nil_iff] at h
    obtain ⟨hrest, hpairs⟩ := pathsDiffer_loop h.2
    have hnew : ∀ b ∈ accounts, PathsDiffer a b := by
      intro b hb
      obtain ⟨htoken, hcursor⟩ := hrest b hb
      exact ⟨fun heq => htoken (by simp [Seen.add, heq]),
        fun heq => hcursor (by simp [Seen.add, heq])⟩
    refine ⟨fun b hb => ?_, List.pairwise_cons.mpr ⟨hnew, hpairs⟩⟩
    rcases List.mem_cons.mp hb with rfl | hb
    · exact accountErrors_nil h.1
    · obtain ⟨htoken, hcursor⟩ := hrest b hb
      exact ⟨fun hmem => htoken (List.mem_cons_of_mem _ hmem),
        fun hmem => hcursor (List.mem_cons_of_mem _ hmem)⟩

theorem pathsDiffer {accounts : List AccountConfig} (h : validateAccounts accounts = [])
    {a b : AccountConfig} (ha : a ∈ accounts) (hb : b ∈ accounts) (hne : a ≠ b) :
    PathsDiffer a b := by
  unfold validateAccounts at h
  split at h
  · cases h
  · have hpairs := (pathsDiffer_loop (List.append_eq_nil_iff.mp h).2).2
    exact hpairs.forall ha hb hne

/-! ## The files -/

/-- mirrors src/nightfall_photo_ingress/adapters/onedrive/cache_lock.py:27 -/
def cacheLockPath (cache : PosixPath) : Option PosixPath :=
  cache.withSuffix (cache.suffix ++ ".lock")

/-- mirrors src/nightfall_photo_ingress/adapters/onedrive/cache_lock.py:40 -/
def singletonLockPath (cache : PosixPath) : PosixPath :=
  cache.parent.child ".runtime.lock" (by decide)

/-- `path.parent / (path.stem + ext)`. -/
def stemSidecar (p : PosixPath) (ext : String) (h : IsPart ext) : PosixPath :=
  p.parent.child (p.stem ++ ext) (PosixPath.isPart_append p.noSlash_stem h)

/-- mirrors src/nightfall_photo_ingress/adapters/onedrive/auth.py:207-210 -/
def identityPath (cache : PosixPath) : PosixPath := stemSidecar cache ".identity.json" (by decide)

/-- The path the token client works with. -/
theorem identityPath_parts (cache : PosixPath) :
    (identityPath cache).parts = OneDrive.identityPath cache.parts := rfl

/-- mirrors src/nightfall_photo_ingress/adapters/onedrive/auth.py:213-218 -/
def legacyIdentityPath (cache : PosixPath) : Option PosixPath :=
  cache.sidecar ".identity.json" (by decide)

/-- mirrors src/nightfall_photo_ingress/adapters/onedrive/auth.py:221-224 -/
def onboardingPath (cache : PosixPath) : PosixPath :=
  stemSidecar cache ".onboarding.json" (by decide)

/-- The temporary file of `_save_cursor`.
mirrors src/nightfall_photo_ingress/adapters/onedrive/client.py:2335 -/
def cursorTmpPath (cursor : PosixPath) : Option PosixPath := cursor.withSuffix ".tmp"

/-- mirrors src/nightfall_photo_ingress/adapters/onedrive/client.py:1403-1408 -/
def resyncMarkerPath (cursor : PosixPath) : Option PosixPath :=
  cursor.sidecar ".resync.json" (by decide)

/-- mirrors src/nightfall_photo_ingress/adapters/onedrive/client.py:923-928 -/
def incidentStatePath (cursor : PosixPath) : Option PosixPath :=
  cursor.sidecar ".incidents.json" (by decide)

/-- What is derived from a token cache. -/
def besideToken (cache : PosixPath) : List PosixPath :=
  (cacheLockPath cache).toList ++ [singletonLockPath cache, identityPath cache] ++
    (legacyIdentityPath cache).toList ++ [onboardingPath cache]

/-- What is derived from a delta cursor. -/
def besideCursor (cursor : PosixPath) : List PosixPath :=
  (cursorTmpPath cursor).toList ++ (resyncMarkerPath cursor).toList ++
    (incidentStatePath cursor).toList

def tokenFiles (cache : PosixPath) : List PosixPath := cache :: besideToken cache

def cursorFiles (cursor : PosixPath) : List PosixPath := cursor :: besideCursor cursor

/-- All state files of an account. -/
def stateFiles (a : AccountConfig) : List PosixPath :=
  tokenFiles a.tokenCache ++ cursorFiles a.deltaCursor

/-! ## Which files can coincide -/

section Beside
variable {t c c' x y : PosixPath}

theorem mem_besideToken : x ∈ besideToken t ↔
    cacheLockPath t = some x ∨ x = singletonLockPath t ∨ x = identityPath t ∨
      x = t.appendText ".identity.json" (by decide) ∨ x = onboardingPath t := by
  rw [besideToken, legacyIdentityPath, PosixPath.sidecar_eq t (by decide)]
  simp only [List.mem_append, Option.mem_toList, List.mem_cons, List.not_mem_nil, or_false,
    Option.some.injEq, or_assoc]
  rw [eq_comm (a := t.appendText _ _)]

theorem mem_besideCursor : x ∈ besideCursor c ↔
    cursorTmpPath c = some x ∨ x = c.appendText ".resync.json" (by decide) ∨
      x = c.appendText ".incidents.json" (by decide) := by
  rw [besideCursor, resyncMarkerPath, incidentStatePath, PosixPath.sidecar_eq c (by decide),
    PosixPath.sidecar_eq c (by decide)]
  simp only [List.mem_append, Option.mem_toList, Option.some.injEq, or_assoc]
  rw [eq_comm (a := c.appendText ".resync.json" _), eq_comm (a := c.appendText ".incidents.json" _)]

/-- The file of `p`'s directory with this name. -/
def Sibling (p : PosixPath) (name : String) (x : PosixPath) : Prop :=
  x.parent = p.parent ∧ x.name = name

theorem sibling_child (p : PosixPath) {name : String} (h : IsPart name) :
    Sibling p name (p.parent.child name h) := ⟨PosixPath.parent_child .., PosixPath.name_child ..⟩

theorem sibling_stemSidecar (p : PosixPath) {ext : String} (h : IsPart ext) :
    Sibling p (p.stem ++ ext) (stemSidecar p ext h) := sibling_child p _

theorem sibling_withSuffix {p : PosixPath} {suffix : String} (h : p.withSuffix suffix = some x) :
    Sibling p (p.stem ++ suffix) x := by
  unfold PosixPath.withSuffix at h
  split at h
  · cases h
    exact sibling_child p _
  · cases h

theorem sibling_besideToken (h : x ∈ besideToken t) :
    ∃ label, Sibling t (label ++ ".lock") x ∨ Sibling t (label ++ ".identity.json") x ∨
      Sibling t (label ++ ".onboarding.json") x := by
  rcases mem_besideToken.mp h with h | rfl | rfl | rfl | rfl
  · refine ⟨t.stem ++ t.suffix, .inl ?_⟩
    rw [String.append_assoc]
    exact sibling_withSuffix h
  · exact ⟨".runtime", .inl (sibling_child t _)⟩
  · exact ⟨t.stem, .inr (.inl (sibling_stemSidecar t (by decide)))⟩
  · exact ⟨t.label, .inr (.inl (sibling_child t _))⟩
  · exact ⟨t.stem, .inr (.inr (sibling_stemSidecar t (by decide)))⟩

theorem sibling_besideCursor (h : x ∈ besideCursor c) :
    Sibling c (c.stem ++ ".tmp") x ∨ Sibling c (c.label ++ ".resync.json") x ∨
      Sibling c (c.label ++ ".incidents.json") x := by
  rcases mem_besideCursor.mp h with h | rfl | rfl
  · exact .inl (sibling_withSuffix h)
  · exact .inr (.inl (sibling_child c _))
  · exact .inr (.inr (sibling_child c _))

/-- Endings neither of which ends in the other are not those of one name. -/
theorem append_ne {e e' : String} (h : ¬ e.toList <:+ e'.toList) (h' : ¬ e'.toList <:+ e.toList)
    (s s' : String) : s ++ e ≠ s' ++ e' := by
  intro heq
  have hlist : s.toList ++ e.toList = s'.toList ++ e'.toList := by
    simpa using congrArg String.toList heq
  rcases List.suffix_or_suffix_of_suffix (List.suffix_append s.toList e.toList)
    (hlist ▸ List.suffix_append s'.toList e'.toList) with hs | hs
  · exact h hs
  · exact h' hs

theorem append_right_inj {s s' ext : String} (h : s ++ ext = s' ++ ext) : s = s' := by
  have hlist : s.toList ++ ext.toList = s'.toList ++ ext.toList := by
    simpa using congrArg String.toList h
  exact String.toList_inj.mp (List.append_cancel_right hlist)

/-- No file derived from a token cache is derived from a cursor. -/
theorem besideToken_ne_besideCursor (hx : x ∈ besideToken t) : x ∉ besideCursor c := by
  intro hx'
  obtain ⟨label, ⟨-, hname⟩ | ⟨-, hname⟩ | ⟨-, hname⟩⟩ := sibling_besideToken hx
  all_goals
    rcases sibling_besideCursor hx' with ⟨-, hname'⟩ | ⟨-, hname'⟩ | ⟨-, hname'⟩
    all_goals exact append_ne (by decide) (by decide) _ _ (hname.symm.trans hname')

theorem parent_tokenFiles (h : x ∈ tokenFiles t) : x.parent = t.parent := by
  rcases List.mem_cons.mp h with rfl | h
  · rfl
  · obtain ⟨label, ⟨hparent, -⟩ | ⟨hparent, -⟩ | ⟨hparent, -⟩⟩ := sibling_besideToken h
    all_goals exact hparent

/-- A file of a token cache and of a cursor is one of the two itself. -/
theorem tokenFiles_cursorFiles (hx : x ∈ tokenFiles t) (hx' : x ∈ cursorFiles c) :
    t ∈ cursorFiles c ∨ c ∈ tokenFiles t := by
  rcases List.mem_cons.mp hx with rfl | hbeside
  · exact .inl hx'
  · rcases List.mem_cons.mp hx' with rfl | hbeside'
    · exact .inr hx
    · exact absurd hbeside' (besideToken_ne_besideCursor hbeside)

/-- A file derived from two cursors is their temporary file, or they are one. -/
theorem besideCursor_inter (hx : x ∈ besideCursor c) (hx' : x ∈ besideCursor c') :
    c = c' ∨ (c.parent = c'.parent ∧ c.stem = c'.stem) := by
  rcases sibling_besideCursor hx with ⟨hparent, hname⟩ | ⟨hparent, hname⟩ | ⟨hparent, hname⟩
  · rcases sibling_besideCursor hx' with ⟨hparent', hname'⟩ | ⟨-, hname'⟩ | ⟨-, hname'⟩
    · exact .inr ⟨hparent.symm.trans hparent', append_right_inj (hname.symm.trans hname')⟩
    · exact absurd (hname.symm.trans hname') (append_ne (by decide) (by decide) _ _)
    · exact absurd (hname.symm.trans hname') (append_ne (by decide) (by decide) _ _)
  · rcases sibling_besideCursor hx' with ⟨-, hname'⟩ | ⟨hparent', hname'⟩ | ⟨-, hname'⟩
    · exact absurd (hname.symm.trans hname') (append_ne (by decide) (by decide) _ _)
    · exact .inl (PosixPath.eq_of_parent_label (hparent.symm.trans hparent')
        (append_right_inj (hname.symm.trans hname')))
    · exact absurd (hname.symm.trans hname') (append_ne (by decide) (by decide) _ _)
  · rcases sibling_besideCursor hx' with ⟨-, hname'⟩ | ⟨-, hname'⟩ | ⟨hparent', hname'⟩
    · exact absurd (hname.symm.trans hname') (append_ne (by decide) (by decide) _ _)
    · exact absurd (hname.symm.trans hname') (append_ne (by decide) (by decide) _ _)
    · exact .inl (PosixPath.eq_of_parent_label (hparent.symm.trans hparent')
        (append_right_inj (hname.symm.trans hname')))

/-- Cursors of one directory and one stem have one temporary file, unless they
are one path without a name. -/
theorem cursorFiles_inter (hparent : c.parent = c'.parent) (hstem : c.stem = c'.stem) :
    ∃ x, x ∈ cursorFiles c ∧ x ∈ cursorFiles c' := by
  by_cases hname : c.name = ""
  · have hname' : c'.name = "" := by
      rw [← PosixPath.stem_eq_empty_iff, ← hstem, PosixPath.stem_eq_empty_iff, hname]
    have heq : c = c' := PosixPath.eq_of_parent_name hparent (hname.trans hname'.symm)
    exact ⟨c, List.mem_cons_self, heq ▸ List.mem_cons_self⟩
  · have hname' : c'.name ≠ "" := by
      rwa [Ne, ← PosixPath.stem_eq_empty_iff, ← hstem, PosixPath.stem_eq_empty_iff]
    have htmp : ∀ p : PosixPath, p.name ≠ "" → cursorTmpPath p = some (p.parent.child
        (p.stem ++ ".tmp") (PosixPath.isPart_append p.noSlash_stem (by decide))) := by
      intro p hp
      rw [cursorTmpPath, PosixPath.withSuffix,
        dif_pos ⟨mt p.name_eq_empty_iff.mpr hp, by decide⟩]
    refine ⟨_, List.mem_cons_of_mem _ (mem_besideCursor.mpr (.inl (htmp c hname))),
      List.mem_cons_of_mem _ (mem_besideCursor.mpr (.inl ((htmp c' hname').trans ?_)))⟩
    exact congrArg some (PosixPath.child_inj.mpr ⟨hparent.symm, by rw [hstem]⟩)

end Beside

/-! ## Two accounts -/

/-- No path configured for `a` is a state file of `b` of another kind. -/
structure Clear (a b : AccountConfig) : Prop where
  token : a.tokenCache ∉ cursorFiles b.deltaCursor
  cursor : a.deltaCursor ∉ tokenFiles b.tokenCache
  derived : a.deltaCursor ∉ besideCursor b.deltaCursor

structure Apart (a b : AccountConfig) : Prop where
  tokenDirs : a.tokenCache.parent ≠ b.tokenCache.parent
  cursorStems : a.deltaCursor.parent = b.deltaCursor.parent →
    a.deltaCursor.stem ≠ b.deltaCursor.stem
  clear : Clear a b
  clear' : Clear b a

/-- Two accepted accounts share no state file exactly when their configured
paths are apart. -/
theorem stateFiles_disjoint_iff {accounts : List AccountConfig}
    (haccepted : validateAccounts accounts = []) {a b : AccountConfig} (ha : a ∈ accounts)
    (hb : b ∈ accounts) (hne : a ≠ b) :
    (∀ x ∈ stateFiles a, x ∉ stateFiles b) ↔ Apart a b := by
  obtain ⟨-, hcursors⟩ := pathsDiffer haccepted ha hb hne
  constructor
  · intro h
    have htoken : ∀ {x}, x ∈ tokenFiles a.tokenCache → x ∉ stateFiles b :=
      fun hx => h _ (List.mem_append_left _ hx)
    have hcursor : ∀ {x}, x ∈ cursorFiles a.deltaCursor → x ∉ stateFiles b :=
      fun hx => h _ (List.mem_append_right _ hx)
    refine ⟨fun hdirs => ?_, fun hdirs hstems => ?_, ⟨fun hx => ?_, fun hx => ?_, fun hx => ?_⟩,
      ⟨fun hx => ?_, fun hx => ?_, fun hx => ?_⟩⟩
    · -- The singleton lock has the same name in every directory.
      have hlock : singletonLockPath a.tokenCache = singletonLockPath b.tokenCache :=
        PosixPath.child_inj.mpr ⟨hdirs, rfl⟩
      have hmem : ∀ t, singletonLockPath t ∈ tokenFiles t := fun t =>
        List.mem_cons_of_mem _ (mem_besideToken.mpr (.inr (.inl rfl)))
      exact htoken (hmem _) (hlock ▸ List.mem_append_left _ (hmem _))
    · obtain ⟨x, hx, hx'⟩ := cursorFiles_inter hdirs hstems
      exact hcursor hx (List.mem_append_right _ hx')
    · exact htoken List.mem_cons_self (List.mem_append_right _ hx)
    · exact hcursor List.mem_cons_self (List.mem_append_left _ hx)
    · exact hcursor List.mem_cons_self (List.mem_append_right _ (List.mem_cons_of_mem _ hx))
    · exact hcursor hx (List.mem_append_left _ List.mem_cons_self)
    · exact htoken hx (List.mem_append_right _ List.mem_cons_self)
    · exact hcursor (List.mem_cons_of_mem _ hx) (List.mem_append_right _ List.mem_cons_self)
  · intro h x hx hx'
    rcases List.mem_append.mp hx with hx | hx
    · rcases List.mem_append.mp hx' with hx' | hx'
      · exact h.tokenDirs ((parent_tokenFiles hx).symm.trans (parent_tokenFiles hx'))
      · rcases tokenFiles_cursorFiles hx hx' with hmem | hmem
        · exact h.clear.token hmem
        · exact h.clear'.cursor hmem
    · rcases List.mem_append.mp hx' with hx' | hx'
      · rcases tokenFiles_cursorFiles hx' hx with hmem | hmem
        · exact h.clear'.token hmem
        · exact h.clear.cursor hmem
      · rcases List.mem_cons.mp hx with rfl | hbeside
        · rcases List.mem_cons.mp hx' with heq | hbeside'
          · exact hcursors heq
          · exact h.clear.derived hbeside'
        · rcases List.mem_cons.mp hx' with rfl | hbeside'
          · exact h.clear'.derived hbeside
          · rcases besideCursor_inter hbeside hbeside' with heq | ⟨hdirs, hstems⟩
            · exact hcursors heq
            · exact h.cursorStems hdirs hstems

/-- `/state/<dir>/<name>`. -/
def stateFile (dir name : String) (h : IsPart dir ∧ IsPart name) : PosixPath where
  anchor := .slash
  parts := ["state", dir, name]
  isPart part hpart := by
    simp only [List.mem_cons, List.not_mem_nil, or_false] at hpart
    rcases hpart with rfl | rfl | rfl
    · decide
    · exact h.1
    · exact h.2

def christopher : AccountConfig where
  name := "christopher"
  enabled := true
  provider := "onedrive"
  tokenCache := stateFile "tokens" "christopher.json" (by decide)
  deltaCursor := stateFile "cursors" "christopher.cursor" (by decide)
  maxDownloads := none

/-- Another account, with its token cache in the directory `tokenDir`. -/
def bob (tokenDir : String) (h : IsPart tokenDir) : AccountConfig where
  name := "bob"
  enabled := true
  provider := "onedrive"
  tokenCache := stateFile tokenDir "bob.json" ⟨h, by decide⟩
  deltaCursor := stateFile "cursors" "bob.cursor" (by decide)
  maxDownloads := none

/-- With a directory for each token cache nothing is shared. -/
theorem own_directories_apart :
    (∀ x ∈ stateFiles christopher, x ∉ stateFiles (bob "bob" (by decide))) ∧
      Apart christopher (bob "bob" (by decide)) := by
  have hdisjoint : ∀ x ∈ stateFiles christopher, x ∉ stateFiles (bob "bob" (by decide)) := by
    decide +kernel
  have haccepted : validateAccounts [christopher, bob "bob" (by decide)] = [] := by decide +kernel
  exact ⟨hdisjoint, (stateFiles_disjoint_iff haccepted (by simp) (by simp)
    (by decide +kernel)).mp hdisjoint⟩

/-- Two token caches of one directory: accepted, and one `.runtime.lock` for both. -/
theorem runtime_lock_shared :
    ¬ ∀ accounts : List AccountConfig, validateAccounts accounts = [] →
      ∀ a ∈ accounts, ∀ b ∈ accounts, a ≠ b → ∀ x ∈ stateFiles a, x ∉ stateFiles b := by
  intro h
  have hshared : singletonLockPath christopher.tokenCache ∈
      stateFiles (bob "tokens" (by decide)) := by
    decide +kernel
  exact h [christopher, bob "tokens" (by decide)] (by decide +kernel) christopher (by simp)
    (bob "tokens" (by decide)) (by simp) (by decide +kernel) _ (by decide +kernel) hshared

end Nightfall.Config
