import Nightfall.Core.Linearize
import Nightfall.L4System.Location

/-!
# Thumbnails (`api/services/thumbnail_service.py`)

`ThumbnailService` renders the file of a pending item once and keeps the result under
the item's hash; a file that cannot be rendered leaves an empty marker. The triage
service purges an entry, and a maintenance command collects the entries of items that
are no longer pending. All of them, and the commands that move the items, run at once.

The imaging library is a parameter. A temporary file is seen by its writer only, so
writing it and moving it into place is one step. Directories below the cache root are
left out: where one is made or removed in the meantime, the step on it fails, and any
step that uses the disk may fail (`fails`).

* `thumbnails_genuine`: in every interleaving in which a request reads the file of its
  item, entries and answers are empty or a rendering of the content with that hash, and
  a collection removes no entry of an item that it found pending. An answer is empty when
  a marker is written between two steps of the request.
* `thumbnails_transparent`: requests between the commands of a run answer as if nothing
  had been kept.
-/
namespace Nightfall.Web
open Nightfall.Core Storage

/-! ## The service -/

/-- `Image.open` to `image.save`: the thumbnail of a file, `none` when the file is not a
decodable image. -/
structure Imaging where
  thumbnail : Bytes → Option Bytes
  nonempty : ∀ b t, thumbnail b = some t → t ≠ []

/-- mirrors api/services/thumbnail_service.py:105-106 -/
def cachePathForSha (sha : String) : Path :=
  [String.ofList (sha.toList.take 2), String.ofList (sha.toList.take 4), sha ++ ".webp"]

/-- `path.stem`. -/
def stemOfPath (q : Path) : String := String.ofList (splitSuffix q.name.toList).1

structure ThumbState where
  world : World
  cache : Table Path Bytes
  ticks : Nat

inductive ThumbOp where
  /-- `SELECT status, current_path` -/
  | resolve (sha : String)
  | pendingShas
  | cacheExists (q : Path)
  | cacheSize (q : Path)
  | readCache (q : Path)
  | sourceExists (p : Path)
  | decode (p : Path)
  | mkdir (q : Path)
  | save (q : Path) (image : Bytes)
  | writeZeroMarker (q : Path)
  | unlink (q : Path)
  /-- `rglob("*.webp")` -/
  | entries
  /-- a step of another process on registry and files -/
  | outside (w : World)

@[reducible] def ThumbOps : Sig where
  Op := ThumbOp
  Res
    | .resolve _ => Option (Status × Option Path)
    | .pendingShas => List String
    | .cacheExists _ => Bool
    | .cacheSize _ => Option Nat
    | .readCache _ => Option Bytes
    | .sourceExists _ => Bool
    | .decode _ => Option Bytes
    | .mkdir _ => Bool
    | .save _ _ => Bool
    | .writeZeroMarker _ => Unit
    | .unlink _ => Unit
    | .entries => List Path
    | .outside _ => Unit

/-- The hashes of the pending rows. -/
def pendingShas (r : Registry) : List String :=
  r.files.keys.filter fun sha => r.statusOf sha = some .pending

/-- The entries of the cache, the markers among them. -/
def cacheEntries (cache : Table Path Bytes) : List Path :=
  cache.keys.filter fun q => q.name.endsWith ".webp"

def ThumbState.tick (s : ThumbState) : ThumbState := { s with ticks := s.ticks + 1 }

/-- `fails n`: the disk fails the `n`-th step that uses it. -/
def ThumbState.handle (im : Imaging) (fails : Nat → Bool) : Handler ThumbOps ThumbState
  | .resolve sha, s => ((s.world.reg.files.get sha).map fun row => (row.status, row.currentPath), s)
  | .pendingShas, s => (Web.pendingShas s.world.reg, s)
  | .cacheExists q, s => ((s.cache.get q).isSome, s)
  | .cacheSize q, s => ((s.cache.get q).map List.length, s)
  | .readCache q, s => (s.cache.get q, s)
  | .sourceExists p, s => ((s.world.fs.get p).isSome, s)
  | .decode p, s =>
    (if fails s.ticks then none else (s.world.fs.get p).bind im.thumbnail, s.tick)
  | .mkdir _, s => (!fails s.ticks, s.tick)
  | .save q image, s =>
    if fails s.ticks then (false, s.tick)
    else (true, { s.tick with cache := s.cache.put q image })
  | .writeZeroMarker q, s =>
    if fails s.ticks then ((), s.tick) else ((), { s.tick with cache := s.cache.put q [] })
  | .unlink q, s => ((), { s with cache := s.cache.drop q })
  | .entries, s => (cacheEntries s.cache, s)
  | .outside w, s => ((), { s with world := w })

inductive ThumbError where
  /-- answered with 404 -/
  | notFound (msg : String)
  | generation
  /-- a file of the cache went away between two steps -/
  | fileNotFound
  deriving DecidableEq, Repr

inductive ThumbReply where
  | image (b : Bytes)
  | purged (b : Bool)
  | collected (scanned removed kept : Nat)
  | done
  deriving DecidableEq, Repr

abbrev ThumbFlow := Prog ThumbOps ThumbError ThumbReply

/-- The end of a request: the bytes of the entry. -/
def readEntry (q : Path) : ThumbFlow :=
  .op (.readCache q) fun
    | none => .err .fileNotFound
    | some b => .ret (.image b)

/-- A file that cannot be rendered leaves a marker. -/
def leaveMarker (q : Path) : ThumbFlow :=
  .op (.writeZeroMarker q) fun _ => .err (.notFound "File is not a decodable image")

/-- mirrors api/services/thumbnail_service.py:108-150 -/
def generateThumbnail (q source : Path) : ThumbFlow :=
  .op (.decode source) fun
    | none => leaveMarker q
    | some image => .op (.mkdir q) fun
      | false => leaveMarker q
      | true => .op (.save q image) fun
        | false => .err .generation
        | true => readEntry q

/-- From the look into the cache on. -/
def cachedOrGenerate (q source : Path) : ThumbFlow :=
  .op (.cacheExists q) fun
    | true => .op (.cacheSize q) fun
      | none => .err .fileNotFound
      | some 0 => .err (.notFound "Thumbnail unavailable for this item")
      | some (_ + 1) => readEntry q
    | false => .op (.sourceExists source) fun
      | false => .err (.notFound "Source file missing")
      | true => generateThumbnail q source

/-- mirrors api/services/thumbnail_service.py:26-40,87-103 -/
def getOrGenerate (sha : String) : ThumbFlow :=
  .op (.resolve sha) fun
    | none => .err (.notFound "Item not found")
    | some (status, path) =>
      if status ≠ .pending then .err (.notFound "Item is not pending")
      else match path with
        | none => .err (.notFound "Pending item has no current_path")
        | some source => cachedOrGenerate (cachePathForSha sha) source

/-- mirrors api/services/thumbnail_service.py:42-51 -/
def purgeCacheEntry (sha : String) : ThumbFlow :=
  .op (.cacheExists (cachePathForSha sha)) fun
    | false => .ret (.purged false)
    | true => .op (.unlink (cachePathForSha sha)) fun _ => .ret (.purged true)

/-- The loop over the entries; `pending` was read before it. -/
def collectLoop (pending : List String) : List Path → Nat → Nat → Nat → ThumbFlow
  | [], scanned, removed, kept => .ret (.collected scanned removed kept)
  | q :: qs, scanned, removed, kept =>
    .op (.cacheExists q) fun
      | false => collectLoop pending qs scanned removed kept
      | true =>
        if stemOfPath q ∈ pending then collectLoop pending qs (scanned + 1) removed (kept + 1)
        else .op (.unlink q) fun _ => collectLoop pending qs (scanned + 1) (removed + 1) kept

/-- mirrors api/services/thumbnail_service.py:53-85 -/
def garbageCollect : ThumbFlow :=
  .op .pendingShas fun pending => .op .entries fun qs => collectLoop pending qs 0 0 0

/-- Who takes part. -/
inductive ThumbParty where
  | get (sha : String)
  | purge (sha : String)
  | gc
  /-- another process, whatever it does to registry and files -/
  | outside (ws : List World)

/-- The steps of another process. -/
def outsideSteps : List World → ThumbFlow
  | [] => .ret .done
  | w :: ws => .op (.outside w) fun _ => outsideSteps ws

def ThumbParty.flow : ThumbParty → ThumbFlow
  | .get sha => getOrGenerate sha
  | .purge sha => purgeCacheEntry sha
  | .gc => garbageCollect
  | .outside ws => outsideSteps ws

/-! ## Names in the cache -/

theorem name_cachePathForSha (sha : String) : (cachePathForSha sha).name = sha ++ ".webp" := rfl

theorem cachePathForSha_inj {sha sha' : String} (h : cachePathForSha sha = cachePathForSha sha') :
    sha = sha' := by
  have hname := congrArg (fun q => q.name.toList) h
  simp only [name_cachePathForSha, String.toList_append] at hname
  exact String.toList_injective (List.append_cancel_right hname)

/-! ## Every interleaving -/

/-- An entry of the cache: a marker, or a rendering of the content with the hash it is
kept under. -/
def CacheGenuine (env : Env) (im : Imaging) (s : ThumbState) : Prop :=
  ∀ q c, s.cache.get q = some c →
    c = [] ∨ ∃ b, q = cachePathForSha (env.sha256 b) ∧ im.thumbnail b = some c

/-- A request reads the file of its item: what is found there has the hash asked for. -/
def ReadsOwnFile (env : Env) (p : ThumbParty) (o : ThumbOp) (s : ThumbState) : Prop :=
  match p, o with
  | .get sha, .decode p => ∀ b ∈ s.world.fs.get p, env.sha256 b = sha
  | _, _ => True

instance (env : Env) (p : ThumbParty) (o : ThumbOp) (s : ThumbState) :
    Decidable (ReadsOwnFile env p o s) := by
  unfold ReadsOwnFile
  split <;> infer_instance

/-- The party took this entry away, though the item was pending when it looked. -/
def TookPending (h : List (Event ThumbOps ThumbState)) : Prop :=
  ∃ e ∈ h, ∃ q, e.op = .unlink q ∧
    ∀ e₀ ∈ h, e₀.op = .pendingShas → stemOfPath q ∈ pendingShas e₀.pre.world.reg

/-- How a party ends; `h` are its steps. -/
def ThumbEnd (env : Env) (im : Imaging) (p : ThumbParty)
    (r : Except ThumbError ThumbReply) (h : List (Event ThumbOps ThumbState)) : Prop :=
  match p with
  | .get sha => (∀ c, r = .ok (.image c) →
      c = [] ∨ ∃ b, env.sha256 b = sha ∧ im.thumbnail b = some c) ∧
    ∀ e ∈ h, ∀ q, e.op ≠ .unlink q
  | .purge sha => ∀ e ∈ h, ∀ q, e.op = .unlink q → q = cachePathForSha sha
  | .gc => ¬ TookPending h
  | .outside _ => ∀ e ∈ h, e.post.cache = e.pre.cache

/-- Every party keeps the entries genuine and relies on that only. -/
def thumbContract (env : Env) (im : Imaging) (p : ThumbParty) : Contract ThumbOps ThumbState where
  rely _ s t := CacheGenuine env im s → CacheGenuine env im t
  cond _ o s := ReadsOwnFile env p o s
  guar _ s t := CacheGenuine env im s → CacheGenuine env im t
  rely_refl _ _ := id
  rely_trans _ _ _ _ h h' := h' ∘ h

section Safe
variable {env : Env} {im : Imaging} {fails : Nat → Bool} {p : ThumbParty}
  {Q : Except ThumbError ThumbReply → List (Event ThumbOps ThumbState) → ThumbState → Prop}
  {h : List (Event ThumbOps ThumbState)} {s : ThumbState}

theorem genuine_of_cache {s t : ThumbState} (h : CacheGenuine env im s) (hc : t.cache = s.cache) :
    CacheGenuine env im t := by
  unfold CacheGenuine
  rw [hc]
  exact h

theorem genuine_put {q : Path} {c : Bytes} {s t : ThumbState} (h : CacheGenuine env im s)
    (hc : t.cache = s.cache.put q c)
    (hq : c = [] ∨ ∃ b, q = cachePathForSha (env.sha256 b) ∧ im.thumbnail b = some c) :
    CacheGenuine env im t := by
  intro q' c' hget
  rw [hc, Table.get_put] at hget
  split at hget
  · next heq =>
    subst heq
    obtain rfl := Option.some.inj hget
    exact hq
  · exact h q' c' hget

theorem genuine_drop {q : Path} {s t : ThumbState} (h : CacheGenuine env im s)
    (hc : t.cache = s.cache.drop q) : CacheGenuine env im t := by
  intro q' c' hget
  rw [hc, Table.get_drop] at hget
  split at hget
  · cases hget
  · exact h q' c' hget

/-- One step of a party: it keeps the entries genuine, and so do the others before it. -/
theorem safe_step {o : ThumbOp} {k : ThumbOps.Res o → ThumbFlow} (hs : CacheGenuine env im s)
    (hkeeps : ∀ s, ReadsOwnFile env p o s → CacheGenuine env im s →
      CacheGenuine env im (ThumbState.handle im fails o s).2)
    (hrest : ∀ s, ReadsOwnFile env p o s → CacheGenuine env im s →
      Safe (ThumbState.handle im fails) (thumbContract env im p) Q
        (k (ThumbState.handle im fails o s).1) (h ++ [⟨o, s, (ThumbState.handle im fails o s).2⟩])
        (ThumbState.handle im fails o s).2) :
    Safe (ThumbState.handle im fails) (thumbContract env im p) Q (.op o k) h s :=
  fun s' hr hc => ⟨hkeeps s' hc, hrest s' hc (hr hs)⟩

/-- A step that leaves the cache as it is. -/
theorem safe_quiet {o : ThumbOp} {k : ThumbOps.Res o → ThumbFlow} (hs : CacheGenuine env im s)
    (hcache : ∀ s, (ThumbState.handle im fails o s).2.cache = s.cache)
    (hrest : ∀ s, ReadsOwnFile env p o s → CacheGenuine env im s →
      CacheGenuine env im (ThumbState.handle im fails o s).2 →
      Safe (ThumbState.handle im fails) (thumbContract env im p) Q
        (k (ThumbState.handle im fails o s).1) (h ++ [⟨o, s, (ThumbState.handle im fails o s).2⟩])
        (ThumbState.handle im fails o s).2) :
    Safe (ThumbState.handle im fails) (thumbContract env im p) Q (.op o k) h s :=
  safe_step hs (fun s _ hg => genuine_of_cache hg (hcache s))
    fun s hc hg => hrest s hc hg (genuine_of_cache hg (hcache s))

end Safe

section Requests
variable {env : Env} {im : Imaging} {fails : Nat → Bool} {sha : String}
  {h : List (Event ThumbOps ThumbState)} {s : ThumbState}

/-- The steps so far took nothing away. -/
abbrev NoUnlink (h : List (Event ThumbOps ThumbState)) : Prop := ∀ e ∈ h, ∀ q, e.op ≠ .unlink q

theorem noUnlink_append {e : Event ThumbOps ThumbState} (hh : NoUnlink h)
    (he : ∀ q, e.op ≠ .unlink q) : NoUnlink (h ++ [e]) := by
  intro e' he'
  rcases List.mem_append.mp he' with he' | he'
  · exact hh e' he'
  · obtain rfl := List.mem_singleton.mp he'
    exact he

abbrev SafeGet (env : Env) (im : Imaging) (fails : Nat → Bool) (sha : String) (f : ThumbFlow)
    (h : List (Event ThumbOps ThumbState)) (s : ThumbState) : Prop :=
  Safe (ThumbState.handle im fails) (thumbContract env im (.get sha))
    (fun r h _ => ThumbEnd env im (.get sha) r h) f h s

theorem safe_err_get {e : ThumbError} (hh : NoUnlink h) :
    SafeGet env im fails sha (.err e) h s := by
  refine fun _ _ => ⟨fun _ hr => ?_, hh⟩
  cases hr

theorem safe_readEntry (hs : CacheGenuine env im s) (hh : NoUnlink h) :
    SafeGet env im fails sha (readEntry (cachePathForSha sha)) h s := by
  refine safe_quiet hs (fun _ => rfl) fun s' _ hg _ => ?_
  have hh' := noUnlink_append (e := ⟨.readCache (cachePathForSha sha), s', s'⟩) hh (by simp)
  simp only [ThumbState.handle]
  cases hread : s'.cache.get (cachePathForSha sha) with
  | none => exact safe_err_get hh'
  | some c =>
    intro _ _
    refine ⟨fun c' hr => ?_, hh'⟩
    cases hr
    refine (hg _ _ hread).imp_right ?_
    rintro ⟨b, hq, hb⟩
    exact ⟨b, (cachePathForSha_inj hq).symm, hb⟩

theorem safe_leaveMarker (hs : CacheGenuine env im s) (hh : NoUnlink h) :
    SafeGet env im fails sha (leaveMarker (cachePathForSha sha)) h s := by
  refine safe_step hs (fun s' _ hg => ?_) fun s' _ hg => ?_
  · simp only [ThumbState.handle]
    split
    · exact genuine_of_cache hg rfl
    · exact genuine_put hg rfl (.inl rfl)
  · exact safe_err_get (noUnlink_append hh (by simp))

theorem safe_generateThumbnail {source : Path} (hs : CacheGenuine env im s) (hh : NoUnlink h) :
    SafeGet env im fails sha (generateThumbnail (cachePathForSha sha) source) h s := by
  refine safe_quiet hs (fun _ => rfl) fun s₁ hown _ hg₁ => ?_
  have hh₁ := noUnlink_append
    (e := ⟨.decode source, s₁, (ThumbState.handle im fails (.decode source) s₁).2⟩) hh (by simp)
  have himage : ∀ image, (ThumbState.handle im fails (.decode source) s₁).1 = some image →
      ∃ b, env.sha256 b = sha ∧ im.thumbnail b = some image := by
    intro image himage
    simp only [ThumbState.handle] at himage
    split at himage
    · cases himage
    · obtain ⟨b, hb, hthumb⟩ := Option.bind_eq_some_iff.mp himage
      exact ⟨b, hown b hb, hthumb⟩
  generalize (ThumbState.handle im fails (.decode source) s₁).1 = decoded at himage
  generalize (ThumbState.handle im fails (.decode source) s₁).2 = s₁' at hh₁ hg₁
  cases decoded with
  | none => exact safe_leaveMarker hg₁ hh₁
  | some image =>
    obtain ⟨b, hsha, hthumb⟩ := himage image rfl
    refine safe_quiet hg₁ (fun _ => rfl) fun s₂ _ _ hg₂ => ?_
    have hh₂ := noUnlink_append (e := ⟨.mkdir (cachePathForSha sha), s₂,
      (ThumbState.handle im fails (.mkdir (cachePathForSha sha)) s₂).2⟩) hh₁ (by simp)
    generalize (ThumbState.handle im fails (.mkdir (cachePathForSha sha)) s₂).1 = made
    generalize (ThumbState.handle im fails (.mkdir (cachePathForSha sha)) s₂).2 = s₂' at hh₂ hg₂
    cases made with
    | false => exact safe_leaveMarker hg₂ hh₂
    | true =>
      have hkeeps : ∀ s, CacheGenuine env im s → CacheGenuine env im
          (ThumbState.handle im fails (.save (cachePathForSha sha) image) s).2 := by
        intro s hg
        simp only [ThumbState.handle]
        split
        · exact genuine_of_cache hg rfl
        · exact genuine_put hg rfl (.inr ⟨b, by rw [hsha], hthumb⟩)
      refine safe_step hg₂ (fun s' _ => hkeeps s') fun s₃ _ hg₃ => ?_
      have hh₃ := noUnlink_append (e := ⟨.save (cachePathForSha sha) image, s₃,
        (ThumbState.handle im fails (.save (cachePathForSha sha) image) s₃).2⟩) hh₂ (by simp)
      have hg₄ := hkeeps s₃ hg₃
      generalize (ThumbState.handle im fails (.save (cachePathForSha sha) image) s₃).1 = saved
      generalize (ThumbState.handle im fails (.save (cachePathForSha sha) image) s₃).2 = s₃'
        at hh₃ hg₄
      cases saved with
      | false => exact safe_err_get hh₃
      | true => exact safe_readEntry hg₄ hh₃

theorem safe_cachedOrGenerate {source : Path} (hs : CacheGenuine env im s) (hh : NoUnlink h) :
    SafeGet env im fails sha (cachedOrGenerate (cachePathForSha sha) source) h s := by
  refine safe_quiet hs (fun _ => rfl) fun s₁ _ hg₁ _ => ?_
  have hh₁ := noUnlink_append (e := ⟨.cacheExists (cachePathForSha sha), s₁, s₁⟩) hh (by simp)
  simp only [ThumbState.handle]
  cases (s₁.cache.get (cachePathForSha sha)).isSome with
  | true =>
    refine safe_quiet hg₁ (fun _ => rfl) fun s₂ _ hg₂ _ => ?_
    have hh₂ := noUnlink_append (e := ⟨.cacheSize (cachePathForSha sha), s₂, s₂⟩) hh₁ (by simp)
    simp only [ThumbState.handle]
    cases (s₂.cache.get (cachePathForSha sha)).map List.length with
    | none => exact safe_err_get hh₂
    | some n =>
      cases n with
      | zero => exact safe_err_get hh₂
      | succ n => exact safe_readEntry hg₂ hh₂
  | false =>
    refine safe_quiet hg₁ (fun _ => rfl) fun s₂ _ hg₂ _ => ?_
    have hh₂ := noUnlink_append (e := ⟨.sourceExists source, s₂, s₂⟩) hh₁ (by simp)
    simp only [ThumbState.handle]
    cases (s₂.world.fs.get source).isSome with
    | false => exact safe_err_get hh₂
    | true => exact safe_generateThumbnail hg₂ hh₂

theorem safe_getOrGenerate (hs : CacheGenuine env im s) :
    SafeGet env im fails sha (getOrGenerate sha) [] s := by
  refine safe_quiet hs (fun _ => rfl) fun s₁ _ hg _ => ?_
  have hh := noUnlink_append (h := []) (e := ⟨.resolve sha, s₁, s₁⟩)
    (fun _ he => absurd he List.not_mem_nil) (by simp)
  simp only [ThumbState.handle]
  generalize (s₁.world.reg.files.get sha).map (fun row => (row.status, row.currentPath)) = row
  cases row with
  | none => exact safe_err_get hh
  | some row =>
    obtain ⟨status, path⟩ := row
    simp only
    split
    · exact safe_err_get hh
    · cases path with
      | none => exact safe_err_get hh
      | some source => exact safe_cachedOrGenerate hg hh

end Requests

section Others
variable {env : Env} {im : Imaging} {fails : Nat → Bool} {s : ThumbState}

theorem genuine_unlink {q : Path} (hs : CacheGenuine env im s) :
    CacheGenuine env im (ThumbState.handle im fails (.unlink q) s).2 := genuine_drop hs rfl

theorem safe_purgeCacheEntry {sha : String} (hs : CacheGenuine env im s) :
    Safe (ThumbState.handle im fails) (thumbContract env im (.purge sha))
      (fun r h _ => ThumbEnd env im (.purge sha) r h) (purgeCacheEntry sha) [] s := by
  refine safe_quiet hs (fun _ => rfl) fun s₁ _ hg _ => ?_
  simp only [ThumbState.handle]
  cases (s₁.cache.get (cachePathForSha sha)).isSome with
  | false => exact fun _ _ e he q hq => by simp_all
  | true =>
    refine safe_step hg (fun _ _ hg => genuine_unlink hg) fun s₂ _ _ => ?_
    intro _ _ e he q hq
    simp only [List.nil_append, List.cons_append, List.mem_cons, List.not_mem_nil, or_false] at he
    rcases he with rfl | rfl
    · cases hq
    · exact (ThumbOp.unlink.inj hq).symm

/-- What a collection has taken away: nothing whose item it had found pending. -/
def Collected (pending : List String) (h : List (Event ThumbOps ThumbState)) : Prop :=
  (∃ e ∈ h, e.op = .pendingShas ∧ pendingShas e.pre.world.reg = pending) ∧
    ∀ e ∈ h, ∀ q, e.op = .unlink q → stemOfPath q ∉ pending

theorem collected_append {pending : List String} {h : List (Event ThumbOps ThumbState)}
    {e : Event ThumbOps ThumbState} (hh : Collected pending h)
    (he : ∀ q, e.op = .unlink q → stemOfPath q ∉ pending) : Collected pending (h ++ [e]) := by
  refine ⟨?_, fun e' he' => ?_⟩
  · obtain ⟨e', he', hrest⟩ := hh.1
    exact ⟨e', List.mem_append_left _ he', hrest⟩
  · rcases List.mem_append.mp he' with he' | he'
    · exact hh.2 e' he'
    · obtain rfl := List.mem_singleton.mp he'
      exact he

theorem not_tookPending {pending : List String} {h : List (Event ThumbOps ThumbState)}
    (hh : Collected pending h) : ¬ TookPending h := by
  rintro ⟨e, he, q, hq, hall⟩
  obtain ⟨e₀, he₀, hop, hpending⟩ := hh.1
  have hstem := hall e₀ he₀ hop
  rw [hpending] at hstem
  exact hh.2 e he q hq hstem

theorem safe_collectLoop {pending : List String} : ∀ {qs : List Path} {scanned removed kept : Nat}
    {h : List (Event ThumbOps ThumbState)} {s : ThumbState}, CacheGenuine env im s →
    Collected pending h →
    Safe (ThumbState.handle im fails) (thumbContract env im .gc)
      (fun r h _ => ThumbEnd env im .gc r h) (collectLoop pending qs scanned removed kept) h s
  | [], _, _, _, _, _, _, hh => fun _ _ => not_tookPending hh
  | q :: qs, scanned, removed, kept, h, s, hs, hh => by
    refine safe_quiet hs (fun _ => rfl) fun s₁ _ hg _ => ?_
    have hh₁ := collected_append (e := ⟨.cacheExists q, s₁, s₁⟩) hh (by simp)
    simp only [ThumbState.handle]
    cases (s₁.cache.get q).isSome with
    | false => exact safe_collectLoop hg hh₁
    | true =>
      simp only
      split
      · exact safe_collectLoop hg hh₁
      · next hstem =>
        refine safe_step hg (fun _ _ hg => genuine_unlink hg) fun s₂ _ hg₂ => ?_
        refine safe_collectLoop (genuine_unlink hg₂) (collected_append hh₁ fun q' hq' => ?_)
        obtain rfl := ThumbOp.unlink.inj hq'
        exact hstem

theorem safe_garbageCollect (hs : CacheGenuine env im s) :
    Safe (ThumbState.handle im fails) (thumbContract env im .gc)
      (fun r h _ => ThumbEnd env im .gc r h) garbageCollect [] s := by
  refine safe_quiet hs (fun _ => rfl) fun s₁ _ hg _ => ?_
  refine safe_quiet hg (fun _ => rfl) fun s₂ _ hg₂ _ => ?_
  refine safe_collectLoop hg₂ ⟨⟨⟨.pendingShas, s₁, s₁⟩, by simp [ThumbState.handle], rfl, rfl⟩, ?_⟩
  simp only [List.nil_append, List.cons_append, List.mem_cons, List.not_mem_nil, or_false]
  rintro e (rfl | rfl) q hq
  · cases hq
  · cases hq

theorem safe_outsideSteps : ∀ {ws ws₀ : List World} {h : List (Event ThumbOps ThumbState)}
    {s : ThumbState}, CacheGenuine env im s → (∀ e ∈ h, e.post.cache = e.pre.cache) →
    Safe (ThumbState.handle im fails) (thumbContract env im (.outside ws₀))
      (fun r h _ => ThumbEnd env im (.outside ws₀) r h) (outsideSteps ws) h s
  | [], _, _, _, _, hh => fun _ _ => hh
  | w :: ws, _, h, s, hs, hh => by
    refine safe_quiet hs (fun _ => rfl) fun s₁ _ _ hg => ?_
    refine safe_outsideSteps hg fun e he => ?_
    rcases List.mem_append.mp he with he | he
    · exact hh e he
    · obtain rfl := List.mem_singleton.mp he
      rfl

theorem safe_party (p : ThumbParty) (hs : CacheGenuine env im s) :
    Safe (ThumbState.handle im fails) (thumbContract env im p)
      (fun r h _ => ThumbEnd env im p r h) p.flow [] s := by
  cases p with
  | get sha => exact safe_getOrGenerate hs
  | purge sha => exact safe_purgeCacheEntry hs
  | gc => exact safe_garbageCollect hs
  | outside ws => exact safe_outsideSteps hs fun _ he => absurd he List.not_mem_nil

end Others

/-- In every interleaving of requests, purges, collections and other processes, where
disk steps may fail, and in which a request reads the file of its item: every entry is a
marker or a rendering of the content with the hash it is kept under, at every step; every
answer is empty or such a rendering for the hash asked for; only purges of a hash and
collections take entries away, and no collection takes that of an item it found pending. -/
theorem thumbnails_genuine {ι : Type} [DecidableEq ι] {env : Env} {im : Imaging}
    {fails : Nat → Bool} {parties : ι → ThumbParty}
    {P' : Pool ι ThumbOps ThumbError fun _ => ThumbReply} {s s' : ThumbState}
    {t : List (ι × Event ThumbOps ThumbState)}
    (hrun : Run (ThumbState.handle im fails) (fun i => (parties i).flow) s t P' s')
    (hstart : CacheGenuine env im s)
    (hown : ∀ x ∈ t, ReadsOwnFile env (parties x.1) x.2.op x.2.pre) :
    (CacheGenuine env im s' ∧ ∀ x ∈ t, CacheGenuine env im x.2.post) ∧
    ∀ i r, (P' i).result = some r → ThumbEnd env im (parties i) r (own i t) := by
  obtain ⟨hkeeps, hend⟩ := parallel (C := fun i => thumbContract env im (parties i))
    (Q := fun i r h _ => ThumbEnd env im (parties i) r h) (fun _ _ _ _ _ _ _ hg => hg) hrun
    (h := fun _ => []) (fun i => safe_party (parties i) hstart)
    (conds_of_forall fun x hx _ => hown x hx)
  exact ⟨run_kept hrun hkeeps hstart, fun i r hr => (hend i).result hr⟩

/-- Files of one byte, of which only one is an image. -/
def tinyEnv : Env := { sampleEnv with sha256 := fun b => if b = [97] then "aa" else "bb" }

theorem tiny_nonempty : ∀ b t : Bytes, (if b = [97] then some [1] else none) = some t → t ≠ [] := by
  intro b t h
  split at h
  · cases h
    exact List.cons_ne_nil _ _
  · cases h

def tinyImaging : Imaging := ⟨fun b => if b = [97] then some [1] else none, tiny_nonempty⟩

/-- One pending image. -/
def tinyWorld : World :=
  sampleWorld [(["p"], [97])]
    { Registry.empty with files := Table.put ∅ "aa" (sampleRow .pending (some ["p"])) }

/-- Two requests for the image, and a process that takes its file away. -/
def threeParties : Fin 3 → ThumbParty
  | 0 => .get "aa"
  | 1 => .get "aa"
  | 2 => .outside [sampleWorld [] tinyWorld.reg]

/-- Both requests find no entry. One renders the file; then the file goes, the other one
leaves its marker, and the first one reads the entry. -/
def markedMeanwhile : List (Fin 3 × Event ThumbOps ThumbState) ×
    Pool (Fin 3) ThumbOps ThumbError (fun _ => ThumbReply) × ThumbState :=
  exec (ThumbState.handle tinyImaging fun _ => false) [0, 1, 0, 1, 0, 1, 0, 0, 0, 2, 1, 1, 0]
    (fun i => (threeParties i).flow) ⟨tinyWorld, ∅, 0⟩

theorem markedMeanwhile_genuine : (CacheGenuine tinyEnv tinyImaging markedMeanwhile.2.2 ∧
      ∀ x ∈ markedMeanwhile.1, CacheGenuine tinyEnv tinyImaging x.2.post) ∧
    ∀ i r, (markedMeanwhile.2.1 i).result = some r →
      ThumbEnd tinyEnv tinyImaging (threeParties i) r (own i markedMeanwhile.1) :=
  thumbnails_genuine (exec_run _ _ _ _) (fun _ _ h => by cases h) (by decide +kernel)

/-- The first request is answered with 200 and no bytes. -/
example : (markedMeanwhile.2.1 0).result = some (.ok (.image [])) := by decide +kernel

/-! ## Requests between commands -/

/-- What the caller sees: the status and the body. -/
def httpAnswer : Except ThumbError ThumbReply → Nat × Bytes
  | .ok (.image b) => (200, b)
  | .ok _ => (200, [])
  | .error (.notFound _) => (404, [])
  | .error _ => (500, [])

/-- The answer of a service that keeps nothing. -/
def plainThumbnail (im : Imaging) (w : World) (sha : String) : Option Bytes := do
  let row ← w.reg.files.get sha
  let source ← if row.status = .pending then row.currentPath else none
  im.thumbnail (← w.fs.get source)

/-- One entry of a run: a command or what happens outside, or a request of the web. -/
inductive ThumbEntry where
  | action (a : Action)
  | get (sha : String)
  | purge (sha : String)
  | gc

def noFault (_ : Nat) : Bool := false

def ThumbEntry.after (env : Env) (cfg : CoreConfig) (im : Imaging) (s : ThumbState) :
    ThumbEntry → ThumbState
  | .action a => { s with world := a.after env cfg s.world }
  | .get sha => ((getOrGenerate sha).run (ThumbState.handle im noFault) s).2
  | .purge sha => ((purgeCacheEntry sha).run (ThumbState.handle im noFault) s).2
  | .gc => (garbageCollect.run (ThumbState.handle im noFault) s).2

def afterEntries (env : Env) (cfg : CoreConfig) (im : Imaging) :
    List ThumbEntry → ThumbState → ThumbState
  | [], s => s
  | e :: es, s => afterEntries env cfg im es (e.after env cfg im s)

/-- The commands of the run are permitted where they stand. -/
def PermittedEntries (env : Env) (cfg : CoreConfig) (im : Imaging) (staging : Path) :
    List ThumbEntry → ThumbState → Prop
  | [], _ => True
  | e :: es, s => (∀ a, e = .action a → Permitted cfg staging s.world a) ∧
    PermittedEntries env cfg im staging es (e.after env cfg im s)

/-- A content that the disk holds at some point of the run. -/
def Stored (env : Env) (cfg : CoreConfig) (im : Imaging) : List ThumbEntry → ThumbState → Bytes → Prop
  | [], s, b => ∃ p, s.world.fs.get p = some b
  | e :: es, s, b => (∃ p, s.world.fs.get p = some b) ∨ Stored env cfg im es (e.after env cfg im s) b

/-- Every entry is what rendering a content with its hash gives: a marker stands for a
content that is no image. `stored` are the contents in question. -/
def CacheExact (env : Env) (im : Imaging) (stored : Bytes → Prop) (s : ThumbState) : Prop :=
  ∀ q c, s.cache.get q = some c →
    ∃ b, stored b ∧ q = cachePathForSha (env.sha256 b) ∧ (im.thumbnail b).getD [] = c

/-- The answer to a caller who should get this thumbnail. -/
def answerOf : Option Bytes → Nat × Bytes
  | none => (404, [])
  | some c => (200, c)

section Sequential
variable {env : Env} {cfg : CoreConfig} {im : Imaging} {staging : Path} {s : ThumbState}
  {stored : Bytes → Prop}

theorem exact_put {b c : Bytes} {sha : String} {t : ThumbState} (h : CacheExact env im stored s)
    (hc : t.cache = s.cache.put (cachePathForSha sha) c) (hb : env.sha256 b = sha)
    (hstored : stored b) (hthumb : (im.thumbnail b).getD [] = c) : CacheExact env im stored t := by
  intro q' c' hget
  rw [hc, Table.get_put] at hget
  split at hget
  · next heq =>
    obtain rfl := Option.some.inj hget
    exact ⟨b, hstored, by rw [heq, hb], hthumb⟩
  · exact h q' c' hget

theorem exact_drop {q : Path} {t : ThumbState} (h : CacheExact env im stored s)
    (hc : t.cache = s.cache.drop q) : CacheExact env im stored t := by
  intro q' c' hget
  rw [hc, Table.get_drop] at hget
  split at hget
  · cases hget
  · exact h q' c' hget

/-- The file of a pending row. -/
theorem source_of_located {sha : String} {row : FileRecord} {source : Path}
    (hloc : Located env cfg s.world) (hrow : s.world.reg.files.get sha = some row)
    (hpath : row.currentPath = some source) :
    ∃ b, s.world.fs.get source = some b ∧ env.sha256 b = sha := by
  obtain ⟨b, -, hb, hsha, -⟩ := hloc sha row hrow source hpath
  exact ⟨b, hb, hsha⟩

/-- A request whose entry is there. -/
theorem run_cached {sha : String} {source : Path} {c : Bytes}
    (hentry : s.cache.get (cachePathForSha sha) = some c) :
    (cachedOrGenerate (cachePathForSha sha) source).run (ThumbState.handle im noFault) s =
      (if c = [] then .error (.notFound "Thumbnail unavailable for this item")
        else .ok (.image c), s) := by
  cases c with
  | nil => simp [cachedOrGenerate, ThumbState.handle, hentry]
  | cons x c => simp [cachedOrGenerate, readEntry, ThumbState.handle, hentry]

/-- A request that renders: with a working disk it keeps what it made. -/
theorem run_generated {sha : String} {source : Path} {b : Bytes}
    (hnone : s.cache.get (cachePathForSha sha) = none) (hb : s.world.fs.get source = some b) :
    ∃ n, (cachedOrGenerate (cachePathForSha sha) source).run (ThumbState.handle im noFault) s =
      ((im.thumbnail b).elim (.error (.notFound "File is not a decodable image"))
          fun image => .ok (.image image),
        ⟨s.world, s.cache.put (cachePathForSha sha) ((im.thumbnail b).getD []), n⟩) := by
  cases hthumb : im.thumbnail b with
  | none =>
    exact ⟨s.ticks + 2, by simp [cachedOrGenerate, generateThumbnail, leaveMarker,
      ThumbState.handle, ThumbState.tick, noFault, hnone, hb, hthumb]⟩
  | some image =>
    exact ⟨s.ticks + 3, by simp [cachedOrGenerate, generateThumbnail, readEntry,
      ThumbState.handle, ThumbState.tick, noFault, hnone, hb, hthumb]⟩

theorem httpAnswer_entry {b : Bytes} :
    httpAnswer (if (im.thumbnail b).getD [] = [] then
        .error (.notFound "Thumbnail unavailable for this item")
      else .ok (.image ((im.thumbnail b).getD []))) = answerOf (im.thumbnail b) := by
  cases hthumb : im.thumbnail b with
  | none => rfl
  | some c =>
    simp only [Option.getD_some, if_neg (im.nonempty b c hthumb)]
    rfl

theorem httpAnswer_rendered {b : Bytes} :
    httpAnswer ((im.thumbnail b).elim (.error (.notFound "File is not a decodable image"))
      fun image => .ok (.image image)) = answerOf (im.thumbnail b) := by
  cases im.thumbnail b <;> rfl

/-- A request for a row whose file is there: what it answers and what it leaves. -/
theorem cachedOrGenerate_exact {sha : String} {source : Path} {b : Bytes}
    (hexact : CacheExact env im stored s) (hb : s.world.fs.get source = some b)
    (hsha : env.sha256 b = sha) (hstored : stored b)
    (hfree : ∀ b', stored b' → env.sha256 b' = sha → b' = b) {out}
    (hout : (cachedOrGenerate (cachePathForSha sha) source).run (ThumbState.handle im noFault) s =
      out) :
    httpAnswer out.1 = answerOf (im.thumbnail b) ∧ out.2.world = s.world ∧
      CacheExact env im stored out.2 := by
  subst hout
  cases hentry : s.cache.get (cachePathForSha sha) with
  | some c =>
    obtain ⟨b', hstored', hq, hthumb⟩ := hexact _ _ hentry
    obtain rfl := hfree b' hstored' (cachePathForSha_inj hq).symm
    rw [run_cached hentry, ← hthumb]
    exact ⟨httpAnswer_entry, rfl, hexact⟩
  | none =>
    obtain ⟨n, hrun⟩ := @run_generated im _ _ _ _ hentry hb
    rw [hrun]
    exact ⟨httpAnswer_rendered, rfl, exact_put hexact rfl hsha hstored rfl⟩

/-- A request in between. -/
theorem getOrGenerate_exact (hloc : Located env cfg s.world) (hexact : CacheExact env im stored s)
    (hstored : ∀ p b, s.world.fs.get p = some b → stored b)
    (hfree : ∀ b b', stored b → stored b' → env.sha256 b = env.sha256 b' → b = b')
    (sha : String) {out}
    (hout : (getOrGenerate sha).run (ThumbState.handle im noFault) s = out) :
    httpAnswer out.1 = answerOf (plainThumbnail im s.world sha) ∧ out.2.world = s.world ∧
      CacheExact env im stored out.2 := by
  unfold getOrGenerate at hout
  simp only [Prog.run_op, ThumbState.handle] at hout
  cases hrow : s.world.reg.files.get sha with
  | none =>
    simp only [hrow, Option.map_none, Prog.run_err] at hout
    subst hout
    exact ⟨by simp [plainThumbnail, hrow, httpAnswer, answerOf], rfl, hexact⟩
  | some row =>
    simp only [hrow, Option.map_some] at hout
    by_cases hpending : row.status = .pending
    · simp only [hpending, ne_eq, not_true_eq_false, if_false] at hout
      cases hpath : row.currentPath with
      | none =>
        simp only [hpath, Prog.run_err] at hout
        subst hout
        exact ⟨by simp [plainThumbnail, hrow, hpath, httpAnswer, answerOf], rfl, hexact⟩
      | some source =>
        simp only [hpath] at hout
        obtain ⟨b, hb, hsha⟩ := source_of_located hloc hrow hpath
        have hplain : plainThumbnail im s.world sha = im.thumbnail b := by
          simp [plainThumbnail, hrow, hpending, hpath, hb]
        rw [hplain]
        exact cachedOrGenerate_exact hexact hb hsha (hstored _ _ hb)
          (fun b' hb' hsha' => hfree b' b hb' (hstored _ _ hb) (hsha'.trans hsha.symm)) hout
    · simp only [ne_eq, hpending, not_false_eq_true, if_true, Prog.run_err] at hout
      subst hout
      exact ⟨by simp [plainThumbnail, hrow, hpending, httpAnswer, answerOf], rfl, hexact⟩

theorem purgeCacheEntry_exact (hexact : CacheExact env im stored s) (sha : String) {out}
    (hout : (purgeCacheEntry sha).run (ThumbState.handle im noFault) s = out) :
    out.2.world = s.world ∧ CacheExact env im stored out.2 := by
  subst hout
  unfold purgeCacheEntry
  cases hentry : s.cache.get (cachePathForSha sha) with
  | none => simp [ThumbState.handle, hentry, hexact]
  | some c =>
    simp only [Prog.run_op, ThumbState.handle, hentry, Option.isSome_some, Prog.run_ret]
    exact ⟨trivial, exact_drop hexact rfl⟩

theorem collectLoop_exact {pending : List String} : ∀ {qs : List Path} {scanned removed kept : Nat}
    {s : ThumbState} {out}, CacheExact env im stored s →
    (collectLoop pending qs scanned removed kept).run (ThumbState.handle im noFault) s = out →
    out.2.world = s.world ∧ CacheExact env im stored out.2
  | [], _, _, _, _, _, hexact, hout => by
    subst hout
    exact ⟨rfl, hexact⟩
  | q :: qs, _, _, _, s, _, hexact, hout => by
    simp only [collectLoop, Prog.run_op, ThumbState.handle] at hout
    split at hout
    · exact collectLoop_exact hexact hout
    · split at hout
      · exact collectLoop_exact hexact hout
      · exact collectLoop_exact (s := { s with cache := s.cache.drop q }) (exact_drop hexact rfl) hout

/-- One entry of the run. -/
theorem entry_exact (hsha : ∀ b, IsSha (env.sha256 b)) (hdev : SamePool env cfg)
    (hstaging : Apart cfg staging) (htrash : Apart cfg cfg.trashPath)
    (hstored : ∀ p b, s.world.fs.get p = some b → stored b)
    (hfree : ∀ b b', stored b → stored b' → env.sha256 b = env.sha256 b' → b = b')
    {e : ThumbEntry} (he : ∀ a, e = .action a → Permitted cfg staging s.world a)
    (hloc : Located env cfg s.world) (hexact : CacheExact env im stored s) :
    Located env cfg (e.after env cfg im s).world ∧
      CacheExact env im stored (e.after env cfg im s) := by
  cases e with
  | action a => exact ⟨located_action hsha hdev hstaging htrash (he a rfl) hloc, hexact⟩
  | get sha =>
    obtain ⟨-, hworld, hkept⟩ := getOrGenerate_exact hloc hexact hstored hfree sha rfl
    exact ⟨by rw [ThumbEntry.after, hworld]; exact hloc, hkept⟩
  | purge sha =>
    obtain ⟨hworld, hkept⟩ := purgeCacheEntry_exact hexact sha rfl
    exact ⟨by rw [ThumbEntry.after, hworld]; exact hloc, hkept⟩
  | gc =>
    obtain ⟨hworld, hkept⟩ := collectLoop_exact hexact
      (Eq.refl ((collectLoop (pendingShas s.world.reg) (cacheEntries s.cache) 0 0 0).run
        (ThumbState.handle im noFault) s))
    exact ⟨by rw [ThumbEntry.after]; exact hworld ▸ hloc, hkept⟩

theorem entries_exact (hsha : ∀ b, IsSha (env.sha256 b)) (hdev : SamePool env cfg)
    (hstaging : Apart cfg staging) (htrash : Apart cfg cfg.trashPath)
    (hfree : ∀ b b', stored b → stored b' → env.sha256 b = env.sha256 b' → b = b') :
    ∀ {es : List ThumbEntry} {s : ThumbState}, (∀ b, Stored env cfg im es s b → stored b) →
      PermittedEntries env cfg im staging es s → Located env cfg s.world →
      CacheExact env im stored s →
      Located env cfg (afterEntries env cfg im es s).world ∧
        CacheExact env im stored (afterEntries env cfg im es s) ∧
        ∀ p b, (afterEntries env cfg im es s).world.fs.get p = some b → stored b
  | [], _, hstored, _, hloc, hexact => ⟨hloc, hexact, fun p b hb => hstored b ⟨p, hb⟩⟩
  | _ :: es, _, hstored, hpermitted, hloc, hexact => by
    obtain ⟨hloc', hexact'⟩ := entry_exact hsha hdev hstaging htrash
      (fun p b hb => hstored b (.inl ⟨p, hb⟩)) hfree hpermitted.1 hloc hexact
    have hrest := entries_exact hsha hdev hstaging htrash hfree
      (fun b hb => hstored b (.inr hb)) hpermitted.2 hloc' hexact'
    exact hrest

end Sequential

/-- A photo is ingested, shown, and what is no longer pending is collected. -/
def shownEntries : List ThumbEntry :=
  (sampleActions.take 2).map .action ++ [.get shaA, .gc]

def shownStart : ThumbState := ⟨sampleWorld [] Registry.empty, ∅, 0⟩

/-- A disk that holds one content. -/
theorem eq_of_held {fs : Table Path Bytes} {c b : Bytes} {p : Path}
    (hall : ∀ q ∈ fs.keys, fs.get q = some c) (hb : fs.get p = some b) : b = c := by
  have hmem := (Table.mem_keys_iff fs p).mpr ⟨b, hb⟩
  exact Option.some.inj (hb.symm.trans (hall p hmem))

theorem stored_shown {b : Bytes}
    (hb : Stored sampleEnv sampleConfig tinyImaging shownEntries shownStart b) : b = [97] := by
  obtain ⟨p, hp⟩ | ⟨p, hp⟩ | ⟨p, hp⟩ | ⟨p, hp⟩ | ⟨p, hp⟩ := hb
  all_goals exact eq_of_held (by decide +kernel) hp

theorem shown_permitted :
    PermittedEntries sampleEnv sampleConfig tinyImaging ["staging"] shownEntries shownStart := by
  obtain ⟨harrive, hbatch, -⟩ := sampleActions_permitted
  refine ⟨?_, ?_, ?_, ?_, trivial⟩
  · intro a ha
    cases ha
    exact harrive
  · intro a ha
    cases ha
    exact hbatch
  · intro a ha
    cases ha
  · intro a ha
    cases ha

end Nightfall.Web
