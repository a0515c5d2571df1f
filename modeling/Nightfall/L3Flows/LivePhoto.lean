import Nightfall.L3Flows.Storage

/-!
# Live photo pairing (`live_photo.py`)

The deferred queue a batch builds: a photo waits for the video of its stem, and
the other way round, within the capture tolerance.
-/
namespace Nightfall
open Nightfall.Core Storage

structure LivePhotoHeuristics where
  captureToleranceSeconds : Int
  stemMode : String
  componentOrder : String
  conflictPolicy : String
  deriving DecidableEq, Repr

/-- mirrors src/nightfall_photo_ingress/live_photo.py:17-34 -/
def LivePhotoHeuristics.default : LivePhotoHeuristics :=
  ⟨3, "exact_stem", "photo_first", "nearest_capture_time"⟩

structure LivePhotoCandidate where
  account : String
  onedriveId : String
  filename : String
  capturedAt : String
  deriving DecidableEq, Repr

structure LivePhotoPair where
  account : String
  stem : String
  photoOnedriveId : String
  videoOnedriveId : String
  deriving DecidableEq, Repr

inductive Component where
  | photo
  | video
  deriving DecidableEq, Repr

def Component.counterpart : Component → Component
  | .photo => .video
  | .video => .photo

/-- `_Queued`; `capturedAt` in microseconds. -/
structure Queued where
  candidate : LivePhotoCandidate
  component : Component
  stem : String
  capturedAt : Int
  queuedAt : Instant
  deriving DecidableEq, Repr

/-- mirrors src/nightfall_photo_ingress/live_photo.py:80-102 -/
def enforceV1Defaults (h : LivePhotoHeuristics) : Flow Unit :=
  let d := LivePhotoHeuristics.default
  if h.captureToleranceSeconds ≠ d.captureToleranceSeconds then
    throw (.livePhoto ("V1 runtime accepts only live_photo_capture_tolerance_seconds=" ++
      toString d.captureToleranceSeconds))
  else if h.stemMode ≠ d.stemMode then
    throw (.livePhoto ("V1 runtime accepts only live_photo_stem_mode=" ++ d.stemMode))
  else if h.componentOrder ≠ d.componentOrder then
    throw (.livePhoto ("V1 runtime accepts only live_photo_component_order=" ++ d.componentOrder))
  else if h.conflictPolicy ≠ d.conflictPolicy then
    throw (.livePhoto ("V1 runtime accepts only live_photo_conflict_policy=" ++ d.conflictPolicy))
  else pure ()

/-- mirrors src/nightfall_photo_ingress/live_photo.py:219-225 -/
def classifyComponent (filename : String) : Option Component :=
  let ext := String.ofList ((splitSuffix (lastComponent filename)).2.map Char.toLower)
  if [".heic", ".jpg", ".jpeg", ".png"].contains ext then some .photo
  else if [".mov", ".mp4", ".m4v"].contains ext then some .video
  else none

def stemOf (filename : String) : String := String.ofList (splitSuffix (lastComponent filename)).1

/-- `min(eligible, key=...)`: the first of the nearest. -/
def nearest (capturedAt : Int) : List Queued → Option Queued
  | [] => none
  | q :: qs => some (qs.foldl (fun best q' =>
      if (q'.capturedAt - capturedAt).natAbs < (best.capturedAt - capturedAt).natAbs then q'
      else best) q)

/-- `DeferredPairQueue.ingest`: the resolved pair and the queue after it.
mirrors src/nightfall_photo_ingress/live_photo.py:113-167 -/
def queueIngest (env : Env) (h : LivePhotoHeuristics) (queued : List Queued)
    (c : LivePhotoCandidate) : Flow (Option LivePhotoPair × List Queued) :=
  match classifyComponent c.filename with
  | none => pure (none, queued)
  | some component =>
    match env.fromisoformat
        (String.ofList (replaceAll c.capturedAt.toList "Z".toList "+00:00".toList)) with
    | none => throw (.value "Invalid isoformat string")
    | some ts =>
      let stem := stemOf c.filename
      let eligible := queued.filter fun q =>
        q.candidate.account == c.account && q.stem == stem &&
          q.component == component.counterpart &&
          (q.capturedAt - ts.micros).natAbs ≤ h.captureToleranceSeconds * 1000000
      match nearest ts.micros eligible with
      | none => do
        let now ← utcNow
        pure (none, queued ++ [⟨c, component, stem, ts.micros, now⟩])
      | some other =>
        let pair := match component with
          | .photo => ⟨c.account, stem, c.onedriveId, other.candidate.onedriveId⟩
          | .video => ⟨c.account, stem, other.candidate.onedriveId, c.onedriveId⟩
        pure (some pair, queued.erase other)

/-- mirrors src/nightfall_photo_ingress/domain/ingest.py:823-833 -/
def livePhotoPairId (env : Env) (account stem photoSha videoSha : String) : String :=
  String.ofList ((env.sha256Text (account ++ "|" ++ stem ++ "|" ++ photoSha ++ "|" ++
    videoSha)).toList.take 32)

end Nightfall
