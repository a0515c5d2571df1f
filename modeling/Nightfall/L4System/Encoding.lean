import Nightfall.Core.Refusal
import Nightfall.L4System.System

/-!
# Texts SQLite does not take

A Python string may hold lone surrogates: the bytes of a file name that are no
UTF-8 become some, and `json.loads` reads them from escapes. Files take such
names, the journal escapes them, but a statement that binds such a text raises
`UnicodeEncodeError`, which is a `ValueError` and no `RegistryError`.

Here some characters, `lone`, stand for the lone surrogates. `bindError lone` are the
steps on the registry that raise because of one, and `p.refuse (bindError lone)` is the
flow `p` with them.
-/
namespace Nightfall
open Nightfall.Core Storage Prog

/-- The texts a registry method binds. -/
def Tx.texts : Tx → List String
  | .createOrUpdateFile sha _ _ name path => [sha] ++ name.toList ++ path.toList.map Path.str
  | .upsertMetadataIndex account id _ mt sha => [account, id, mt, sha]
  | .upsertFileOrigin sha account id hint => [sha, account, id] ++ hint.toList
  | .finalizeUnknownIngest sha _ name path account id src mt actor =>
    [sha, name, path.str, account, id, src, mt, actor]
  | .finalizeAcceptFromPending sha path account src actor reason =>
    [sha, path.str, account, src, actor, reason]
  | .finalizeKnownIngest sha _ account id src mt _ actor => [sha, account, id, src, mt, actor]
  | .clearCurrentPath sha => [sha]
  | .updateCurrentPath sha path => [sha, path.str]
  | .finalizePurgeFromRejected sha reason actor => [sha, reason, actor]
  | .transitionStatus sha _ reason actor => [sha, reason, actor]
  | .appendAuditEvent sha _ reason actor => sha.toList ++ [reason, actor]
  | .appendIngestTerminalEvent batch _ account id sha action reason actor =>
    [batch, account, id] ++ sha.toList ++ [action, reason, actor]
  | .upsertLivePhotoPair id account stem photo video _ => [id, account, stem, photo, video]
  | .setLivePhotoPairStatus id _ => [id]
  | .triageEvent _ _ item reason actor => [item] ++ reason.toList ++ [actor]
  | .triageApply _ item key reason actor _ => [item, key] ++ reason.toList ++ [actor]
  | .pruneAuthFailureAuditBacklog _ => []

/-- The texts a step binds to a statement; the steps on files bind none. -/
def Op.texts : Op → List String
  | .getFile sha => [sha]
  | .prefilterStatus account id _ mt => [account, id, mt]
  | .getAcceptContext sha => [sha]
  | .getLivePhotoPair id => [id]
  | .getLivePhotoPairForMember sha => [sha]
  | .replayed key => [key]
  | .tx t => t.texts
  | _ => []

def surrogatesNotAllowed : String := "'utf-8' codec can't encode: surrogates not allowed"

/-- A step that binds a text with a lone surrogate raises. -/
def bindError (lone : Char → Bool) (o : Op) : Option Err :=
  if o.texts.any fun text => text.toList.any lone then some (.value surrogatesNotAllowed) else none

/-- No lone surrogate stands in the text. -/
def NoSurrogates (lone : Char → Bool) (text : String) : Prop := ∀ c ∈ text.toList, lone c = false

/-- What surrogates are not. -/
def SparesAscii (lone : Char → Bool) : Prop := ∀ c : Char, c.toNat < 128 → lone c = false

theorem bindError_eq_none {lone : Char → Bool} {o : Op} :
    bindError lone o = none ↔ ∀ text ∈ o.texts, NoSurrogates lone text := by
  simp [bindError, NoSurrogates]

theorem bindError_of_texts {lone : Char → Bool} {o : Op} (h : o.texts = []) :
    bindError lone o = none := by
  simp [bindError, h]

/-- No step of the run from `w` is refused. -/
def Encodes {α : Type} (env : Env) (lone : Char → Bool) (p : Flow α) (w : World) : Prop :=
  ∀ o ∈ p.ops (handle env) w, bindError lone o = none

theorem noSurrogates_of_ascii {lone : Char → Bool} {text : String} (hlone : SparesAscii lone)
    (h : text.toList.all (fun c => c.toNat < 128) = true) : NoSurrogates lone text := fun c hc =>
  hlone c (of_decide_eq_true (List.all_eq_true.mp h c hc))

theorem isHexDigit_ascii {c : Char} (h : isHexDigit c = true) : c.toNat < 128 := by
  have hle : c ≤ 'f' := by
    simp only [isHexDigit, Bool.or_eq_true, Bool.and_eq_true, decide_eq_true_eq] at h
    rcases h with ⟨-, h⟩ | ⟨-, h⟩
    · exact h.trans (by decide)
    · exact h
  exact Nat.lt_of_le_of_lt (UInt32.le_iff_toNat_le.mp hle) (by decide)

theorem IsSha.noSurrogates {lone : Char → Bool} {sha : String} (hlone : SparesAscii lone)
    (h : IsSha sha) : NoSurrogates lone sha := fun c hc =>
  hlone c (isHexDigit_ascii (List.all_eq_true.mp h.2 c hc))

/-- A character that stands for a lone surrogate in the samples. -/
def sampleLone (c : Char) : Bool := c == '\ue0ff'

theorem sampleLone_ascii : SparesAscii sampleLone := by
  intro c hc
  have hne : c ≠ '\ue0ff' := by
    rintro rfl
    exact absurd hc (by decide)
  simpa [sampleLone] using hne

end Nightfall
